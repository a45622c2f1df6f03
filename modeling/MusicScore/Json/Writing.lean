import MusicScore.Datum.Basic
import MusicScore.Json.Basic

/-!
# Writing JSON

Data that JSON has a form for are written in ASCII: nothing, truth values, whole numbers, binary64
numbers, texts, lists and records; a pair is written as a list. Characters outside ASCII are written by
number in four hexadecimal digits, those beyond the first plane as two such numbers. The three binary64
numbers that JSON has no form for are written as names. The key of a field is a text, or else a value
without parts, which is written as the text that stands for it. A text is laid out on one line, or with
every item on a line of its own.

A value that stands in several places is written in each of them. One that stands inside itself cannot be
written, nor can values that stand within one another too often.
-/
namespace MusicScore.Json

open MusicScore.Text

/-- How items are laid out: on one line, or each on its own line behind a margin for every level. -/
inductive Layout where
  | oneLine
  | lines (margin : List Char)

namespace Layout

/-- The layout in which timelines are written where nothing else is said. -/
def standard : Layout := lines [' ', ' ']

/-- The start of a line at a level. -/
def lineStart : Layout → Nat → List Char
  | oneLine, _ => []
  | lines margin, level => '\n' :: (List.replicate level margin).flatten

/-- What stands between two items at a level. -/
def separator (layout : Layout) (level : Nat) : List Char :=
  match layout with
  | oneLine => [',', ' ']
  | lines _ => ',' :: layout.lineStart level

/-- Items between brackets, one level below `level`. -/
def enclose (layout : Layout) (level : Nat) (first last : Char) (items : List (List Char)) :
    List Char :=
  if items.isEmpty then [first, last]
  else
    first :: layout.lineStart (level + 1) ++ (layout.separator (level + 1)).intercalate items ++
      layout.lineStart level ++ [last]

/-- The layout that a datum asks for: one line for nothing, a number of blanks or a text for margin. -/
def ofDatum : Datum → Except Fault Layout
  | .nothing => .ok oneLine
  | .text margin => .ok (lines margin.toList)
  | .number n =>
    match n.toInt? with
    | some width =>
      if fitsWord width then .ok (lines (List.replicate width.toNat ' ')) else .error .overflow
    | none => .error .wrongKind
  | _ => .error .wrongKind

end Layout

/-- The spelling of binary64 numbers. -/
def doubleStyle : Double.Style := ⟨"NaN", "Infinity", false⟩

/-- The text of a number that JSON has a form for. -/
def number : Number → Except Fault (List Char)
  | .truth b => .ok (if b then "true".toList else "false".toList)
  | .whole n => do return (← (wholeText n.value).read).toList
  | .float x => .ok (x.text doubleStyle)
  | .ratio _ => .error .wrongKind

/-- The key of a field. -/
def key : Datum → Except Fault (List Char)
  | .text s => .ok (quoted s.toList)
  | .nothing => .ok (quoted "null".toList)
  | .number n => do return quoted (← number n)
  | _ => .error .wrongKind

mutual

/-- The text of a datum whose first line is at a level. -/
def writeAt (layout : Layout) (level : Nat) : Datum → Except Fault (List Char)
  | .nothing => .ok "null".toList
  | .number n => number n
  | .text s => .ok (quoted s.toList)
  | .list _ items => do
    checkLevel (level + 1)
    return layout.enclose level '[' ']' (← writeItems layout (level + 1) items)
  | .record _ fields => do
    checkLevel (level + 1)
    return layout.enclose level '\x7b' '\x7d' (← writeFields layout (level + 1) fields)
  | .pair first second => do
    checkLevel (level + 1)
    let first ← writeAt layout (level + 1) first
    let second ← writeAt layout (level + 1) second
    return layout.enclose level '[' ']' [first, second]
  | .again _ => .error (.range .circular)
  | _ => .error .wrongKind

/-- The texts of items at a level. -/
def writeItems (layout : Layout) (level : Nat) : List Datum → Except Fault (List (List Char))
  | [] => .ok []
  | item :: rest => do
    let text ← writeAt layout level item
    return text :: (← writeItems layout level rest)

/-- The texts of the fields of a record at a level. -/
def writeFields (layout : Layout) (level : Nat) :
    List (Datum × Datum) → Except Fault (List (List Char))
  | [] => .ok []
  | (name, value) :: rest => do
    let name ← key name
    let text ← writeAt layout level value
    return (name ++ ':' :: ' ' :: text) :: (← writeFields layout level rest)

end

/-- The text of a datum. -/
def write (layout : Layout) (value : Datum) : Except Fault (List Char) := writeAt layout 0 value

end MusicScore.Json
