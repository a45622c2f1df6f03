import MusicScore.Event.Basic
import MusicScore.Number.Basic
import MusicScore.Tempo
import MusicScore.TimeSignature

/-!
# Data

A datum is a value as it is handed to the library or found in a document: nothing, a number, a text, bytes,
a moment, a list, a record, a set, a pair, or a value that the library has made already. Each operation
says which data it takes. A datum has two texts: a plain one, for messages, and a detailed one that shows
what kind of value it is; inside lists and records values are always shown in detail. Numbers are added,
texts and lists are joined; the sum of two durations is a duration, and that of two intervals an interval
that holds the sum of what they hold. Other data have no sum.

A value of a document may stand in several places of it. It is one value then, and bears a mark by which
this can be seen; a value that stands inside itself is again known by the mark. Marks make no difference
to what a value is equal to.
-/
namespace MusicScore

/-- A value as it is handed over. The fields of a record are in their order, each key once. -/
inductive Datum where
  | nothing
  | number (n : Number)
  | text (s : String)
  | bytes (content : List UInt8)
  | moment (mark : Option Nat) (m : Moment)
  | list (mark : Option Nat) (items : List Datum)
  | record (mark : Option Nat) (fields : List (Datum × Datum))
  | set (mark : Option Nat) (members : List Datum)
  | pair (first second : Datum)
  /-- The list, record or set with this mark, inside of itself. -/
  | again (mark : Nat)
  | duration (d : Duration)
  | pitch (p : Pitch)
  | dynamic (d : Dynamic)
  | interval (semitones : Datum)
  | tempo (t : Tempo)
  | timeSignature (t : TimeSignature)
  | event (e : Event)

namespace Datum

/-- A plain whole number. -/
def ofInt (n : Int) : Datum := .number (.ofInt n)

/-- A truth value. -/
def ofBool (b : Bool) : Datum := .number (.truth b)

/-- A fraction. -/
def ofRat (q : Rat) : Datum := .number (.ratio q)

/-- A list that stands in one place. -/
def ofList (items : List Datum) : Datum := .list none items

/-- A record that stands in one place. -/
def ofFields (fields : List (Datum × Datum)) : Datum := .record none fields

/-- The name of the kind of a number, as messages give it. -/
def numberKind : Number → String
  | .truth _ => "bool"
  | .whole (.plain _) => "int"
  | .whole (.marking _) => "DynamicLevel"
  | .ratio _ => "Fraction"
  | .float _ => "float"

/-- The name of the kind of a datum, as messages give it. -/
def kindName : Datum → String
  | nothing => "NoneType"
  | number n => numberKind n
  | text _ => "str"
  | bytes _ => "bytes"
  | moment _ (.day _) => "date"
  | moment _ (.time _ _) => "datetime"
  | list _ _ => "list"
  | record _ _ => "dict"
  | set _ _ => "set"
  | pair _ _ => "tuple"
  | again _ => "list"
  | duration _ => "Duration"
  | pitch _ => "Pitch"
  | dynamic _ => "Dynamic"
  | interval _ => "Interval"
  | tempo _ => "Tempo"
  | timeSignature _ => "TimeSignature"
  | event (.note _) => "Note"
  | event (.chord _) => "Chord"
  | event (.rest _) => "Rest"

end Datum

/-- A fraction in detail. -/
def fractionDetail (q : Rat) : Shown :=
  "Fraction(" ++ wholeText q.num ++ ", " ++ wholeText q.den ++ ")"

namespace Duration

/-- A duration in detail. -/
def detail (d : Duration) : Shown := "Duration(" ++ fractionDetail d.beats ++ ")"

end Duration

namespace Pitch

/-- A pitch in detail. -/
def detail (p : Pitch) : String := "Pitch(" ++ IntegerText.text p.number ++ ")"

end Pitch

namespace Dynamic

/-- A dynamic in detail. -/
def detail (d : Dynamic) : String := "Dynamic(velocity=" ++ IntegerText.text d.velocity ++ ")"

end Dynamic

namespace TimeSignature

/-- A time signature in detail. -/
def detail (t : TimeSignature) : Shown :=
  "TimeSignature(" ++ wholeText t.numerator ++ ", " ++ wholeText t.denominator ++ ")"

end TimeSignature

namespace Numeral

/-- A whole number in detail, which shows how it was given. -/
def detail : Numeral → Shown
  | plain n => wholeText n
  | marking level =>
    "<DynamicLevel." ++ level.capitalName ++ ": " ++ IntegerText.text level.velocity ++ ">"

end Numeral

namespace Tempo

/-- A tempo in detail. -/
def detail (t : Tempo) : Shown := "Tempo(bpm=" ++ t.numeral.detail ++ ")"

end Tempo

namespace Number

/-- A number in detail. -/
def detail : Number → Shown
  | .whole n => n.detail
  | .ratio q => fractionDetail q
  | n => n.text

end Number

/-- Items in parentheses; a single one is followed by a comma. -/
def tupleText : List Shown → Shown
  | [item] => "(" ++ item ++ ",)"
  | items => "(" ++ Shown.join ", " items ++ ")"

namespace Event

/-- An event in detail. -/
def detail : Event → Shown
  | note n =>
    "Note(pitch=" ++ n.pitch.detail ++ ", duration=" ++ n.duration.detail ++ ", dynamic=" ++
      n.dynamic.detail ++ ")"
  | chord c =>
    "Chord(pitches=" ++ tupleText (c.harmony.pitches.map fun p => .text p.detail) ++ ", duration=" ++
      c.duration.detail ++ ", dynamic=" ++ c.dynamic.detail ++ ")"
  | rest r => "Rest(duration=" ++ r.duration.detail ++ ")"

end Event

namespace Datum

mutual

/-- A datum in detail. -/
def detail : Datum → Shown
  | nothing => "None"
  | number n => n.detail
  | text s => Text.quote s
  | bytes content => Text.quoteBytes content
  | moment _ m => m.text
  | list _ items => "[" ++ Shown.join ", " (detailItems items) ++ "]"
  | record _ fields => "\x7b" ++ Shown.join ", " (detailFields fields) ++ "\x7d"
  | set _ [] => "set()"
  | set _ members => "\x7b" ++ Shown.join ", " (detailItems members) ++ "\x7d"
  | pair first second => tupleText [detail first, detail second]
  | again _ => "..."
  | duration d => d.detail
  | pitch p => p.detail
  | dynamic d => d.detail
  | interval semitones => "Interval(" ++ plain semitones ++ ")"
  | tempo t => t.detail
  | timeSignature t => t.detail
  | event e => e.detail

/-- A datum in a message. -/
def plain : Datum → Shown
  | nothing => "None"
  | number n => n.text
  | text s => s
  | bytes content => Text.quoteBytes content
  | moment _ m => m.text
  | list _ items => "[" ++ Shown.join ", " (detailItems items) ++ "]"
  | record _ fields => "\x7b" ++ Shown.join ", " (detailFields fields) ++ "\x7d"
  | set _ [] => "set()"
  | set _ members => "\x7b" ++ Shown.join ", " (detailItems members) ++ "\x7d"
  | pair first second => tupleText [detail first, detail second]
  | again _ => "..."
  | duration d => d.name
  | pitch p => p.name
  | dynamic d => d.name
  | interval semitones => "Interval(" ++ plain semitones ++ ")"
  | tempo t => t.name
  | timeSignature t => t.name
  | event e => e.text

/-- Items in detail. -/
def detailItems : List Datum → List Shown
  | [] => []
  | item :: rest => detail item :: detailItems rest

/-- The fields of a record in detail. -/
def detailFields : List (Datum × Datum) → List Shown
  | [] => []
  | (key, value) :: rest => (detail key ++ ": " ++ detail value) :: detailFields rest

end

/-! ## Sums -/

/-- The sum of two data. -/
def plus : Datum → Datum → Except Fault Datum
  | number a, number b =>
    match a.add? b with
    | some sum => .ok (.number sum)
    | none => .error .overflow
  | text a, text b => .ok (.text (a ++ b))
  | list _ a, list _ b => .ok (.ofList (a ++ b))
  | duration a, duration b => .ok (.duration (a.add b))
  | interval a, interval b => do return .interval (← plus a b)
  | _, _ => .error .wrongKind

end Datum

end MusicScore
