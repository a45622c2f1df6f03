import MusicScore.Datum.Basic
import MusicScore.Text.Base64
import MusicScore.Yaml.Folding

/-!
# What is written for data

Before it is laid out in lines, a datum is turned into nodes. A value that stands in several places is
written where it stands first, with an anchor, and everywhere else only its anchor is named. Anchors are
numbered by the places where their values stand for the second time.

YAML has forms for nothing, truth values, plain whole numbers, binary64 numbers, texts, bytes, moments,
lists, records and sets; a pair is written as a list. Other data are refused.
-/
namespace MusicScore.Yaml

/-- A scalar with its style, the tag that is written before it, and the length of the tag of its kind, written
or not. -/
structure Scalar where
  style : Style
  text : List Char
  tag? : Option String
  tagLength : Nat

namespace Scalar

/-- The spelling of binary64 numbers: there is always a point. -/
def doubleStyle : Double.Style := ⟨".nan", ".inf", true⟩

/-- The tag of bytes. -/
def bytesTag : String := "!!binary"

/-- A scalar whose kind is read off its text. -/
def untagged (style : Style) (text : String) (tagLength : Nat) : Scalar :=
  ⟨style, text.toList, none, tagLength⟩

/-- The lines of bytes, or nothing between double marks. -/
def ofBytes (content : List UInt8) : Scalar :=
  ⟨if content.isEmpty then .double else .literal, (Text.Base64.lines content).flatMap (· ++ ['\n']),
    some bytesTag, bytesTag.length⟩

/-- The scalar of a datum that has no parts. -/
def ofDatum : Datum → Except Fault Scalar
  | .nothing => .ok (untagged .plain "null" 6)
  | .number (.truth b) => .ok (untagged .plain (if b then "true" else "false") 6)
  | .number (.whole (.plain n)) => do return untagged .plain (← (wholeText n).read) 5
  | .number (.float x) => .ok (untagged .plain (String.ofList (x.text doubleStyle)) 7)
  | .text s => .ok (untagged (.ofText s.toList) s 5)
  | .bytes content => .ok (ofBytes content)
  | .moment _ m => .ok (untagged .plain m.text 11)
  | _ => .error .yaml

end Scalar

/-- A node as it is written, with the number of its anchor where it has one. -/
inductive Written where
  /-- A value that has been written before. -/
  | named (anchor : Nat)
  | scalar (anchor? : Option Nat) (s : Scalar)
  | list (anchor? : Option Nat) (items : List Written)
  | record (anchor? : Option Nat) (tag? : Option String) (fields : List (Written × Written))

/-- The marks that have been met, and those that have been met again, in the order of the second time. -/
structure Meetings where
  once : List Nat
  twice : List Nat

namespace Meetings

/-- A value with a mark has been met; whether this was the first time. -/
def meet (mark : Nat) (m : Meetings) : Bool × Meetings :=
  if m.once.contains mark then
    (false, if m.twice.contains mark then m else { m with twice := m.twice ++ [mark] })
  else (true, { m with once := mark :: m.once })

mutual

/-- Meet a datum and its parts. -/
def visit (m : Meetings) : Datum → Meetings
  | .moment (some mark) _ => (m.meet mark).2
  | .list none items => visitItems m items
  | .list (some mark) items =>
    match m.meet mark with
    | (true, m) => visitItems m items
    | (false, m) => m
  | .record none fields => visitFields m fields
  | .record (some mark) fields =>
    match m.meet mark with
    | (true, m) => visitFields m fields
    | (false, m) => m
  | .set none members => visitItems m members
  | .set (some mark) members =>
    match m.meet mark with
    | (true, m) => visitItems m members
    | (false, m) => m
  | .pair first second => visit (visit m first) second
  | .again mark => (m.meet mark).2
  | _ => m

/-- Meet items. -/
def visitItems (m : Meetings) : List Datum → Meetings
  | [] => m
  | item :: rest => visitItems (visit m item) rest

/-- Meet fields. -/
def visitFields (m : Meetings) : List (Datum × Datum) → Meetings
  | [] => m
  | (key, value) :: rest => visitFields (visit (visit m key) value) rest

end

end Meetings

namespace Written

/-- How often values can stand within one another: a third of the limit of a thousand calls within one another, less
those at work already where a document is written, since each value takes three calls. -/
def deepest : Nat := 325

/-- The marks with an anchor, in the order of the anchors, and the marks that have been written. -/
structure Progress where
  anchored : List Nat
  done : List Nat

namespace Progress

/-- The number of the anchor of a mark. -/
def anchor? (p : Progress) (mark : Nat) : Option Nat := (p.anchored.idxOf? mark).map (· + 1)

/-- The name of a value with this mark if it has been written; else its anchor, if it has one. -/
def present (p : Progress) (mark : Option Nat) : Written ⊕ (Option Nat × Progress) :=
  match mark with
  | none => .inr (none, p)
  | some mark =>
    match p.anchor? mark with
    | none => .inr (none, p)
    | some anchor =>
      if p.done.contains mark then .inl (named anchor)
      else .inr (some anchor, { p with done := mark :: p.done })

end Progress

mutual

/-- The node of a datum, at some depth. -/
def ofDatumAt (depth : Nat) (p : Progress) : Datum → Except Fault (Written × Progress)
  | .list mark items =>
    if deepest < depth then .error .tooDeep
    else
      match p.present mark with
      | .inl node => .ok (node, p)
      | .inr (anchor, p) => do
        let (items, p) ← ofItems (depth + 1) p items
        return (list anchor items, p)
  | .record mark fields =>
    if deepest < depth then .error .tooDeep
    else
      match p.present mark with
      | .inl node => .ok (node, p)
      | .inr (anchor, p) => do
        let (fields, p) ← ofFields (depth + 1) p fields
        return (record anchor none fields, p)
  | .set mark members =>
    if deepest < depth then .error .tooDeep
    else
      match p.present mark with
      | .inl node => .ok (node, p)
      | .inr (anchor, p) => do
        let (members, p) ← ofItems (depth + 1) p members
        let nothing ← Scalar.ofDatum .nothing
        return (record anchor (some "!!set") (members.map fun key => (key, scalar none nothing)), p)
  | .pair first second =>
    if deepest < depth then .error .tooDeep
    else do
      let (first, p) ← ofDatumAt (depth + 1) p first
      let (second, p) ← ofDatumAt (depth + 1) p second
      return (list none [first, second], p)
  | .again mark =>
    match p.anchor? mark with
    | some anchor => .ok (named anchor, p)
    | none => .error .yaml
  | .moment mark m =>
    match p.present mark with
    | .inl node => .ok (node, p)
    | .inr (anchor, p) => do return (scalar anchor (← Scalar.ofDatum (.moment mark m)), p)
  | value => do return (scalar none (← Scalar.ofDatum value), p)

/-- The nodes of items. -/
def ofItems (depth : Nat) (p : Progress) : List Datum → Except Fault (List Written × Progress)
  | [] => .ok ([], p)
  | item :: rest => do
    let (first, p) ← ofDatumAt depth p item
    let (more, p) ← ofItems depth p rest
    return (first :: more, p)

/-- The nodes of fields. -/
def ofFields (depth : Nat) (p : Progress) :
    List (Datum × Datum) → Except Fault (List (Written × Written) × Progress)
  | [] => .ok ([], p)
  | (key, value) :: rest => do
    let (key, p) ← ofDatumAt depth p key
    let (value, p) ← ofDatumAt depth p value
    let (more, p) ← ofFields depth p rest
    return ((key, value) :: more, p)

end

/-- The node of a datum. -/
def ofDatum (d : Datum) : Except Fault Written := do
  let anchored := (Meetings.visit ⟨[], []⟩ d).twice
  return (← ofDatumAt 0 ⟨anchored, []⟩ d).1

end Written

end MusicScore.Yaml
