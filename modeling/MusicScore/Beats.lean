import MusicScore.Datum.Basic

/-!
# Beats

An amount of beats is an exact rational number. It may be given as a duration, as a number other than a
truth value, or in text, with blanks around it. A binary64 number stands for its shortest decimal text,
so that 0.1 is one tenth and not the nearest binary fraction. Everything else is refused as a duration.
-/
namespace MusicScore

namespace Double

/-- The rational number that the shortest decimal text of a finite number stands for. -/
def decimalValue? : Double → Option Rat
  | finite q =>
    if q = 0 then some 0
    else if q < 0 then some (-(shortest (-q)).value)
    else some (shortest q).value
  | negativeZero => some 0
  | _ => none

end Double

namespace Datum

/-- The amount of beats that a datum stands for. -/
def beats (value : Datum) : Except Fault Rat :=
  let refused := Except.error (.value (.duration value.plain))
  match value with
  | duration d => .ok d.beats
  | number (.whole n) => .ok n.value
  | number (.ratio q) => .ok q
  | number (.float x) =>
    match x.decimalValue? with
    | some q => .ok q
    | none => refused
  | text s =>
    match FractionText.read (Text.trim s.toList) with
    | .value q => .ok q
    | .zeroDenominator => .error .zeroDenominator
    | _ => refused
  | _ => refused

end Datum

namespace Duration

/-- The duration that a datum stands for: a positive amount of beats. -/
def ofDatum (value : Datum) : Except Fault Duration := do
  ofBeats (← value.beats) value.plain

/-- The duration times a whole number or a fraction. -/
def times (d : Duration) : Datum → Except Fault Duration
  | .number n =>
    match n.toRat? with
    | some q => ofBeats (d.beats * q) (fractionText (d.beats * q))
    | none => .error .wrongKind
  | _ => .error .wrongKind

/-- The duration that two data add up to; any other sum is no duration. -/
def ofSum (a b : Datum) : Except Fault Duration := do
  match ← a.plus b with
  | .duration d => return d
  | _ => .error .noSuchMember

/-- What is repeated is no duration, if it can be repeated so often at all. -/
def ofRepeated (times : Number) : Except Fault Duration :=
  match times.toInt? with
  | some n => if fitsWord n then .error .noSuchMember else .error .overflow
  | none => .error .wrongKind

/-- The duration that two data multiply to, one of them being a duration; any other product is none. -/
def ofProduct : Datum → Datum → Except Fault Duration
  | .duration d, factor => d.times factor
  | factor, .duration d => d.times factor
  | .number a, .number b =>
    match a.mul? b with
    | some _ => .error .noSuchMember
    | none => .error .overflow
  | .text _, .number n | .number n, .text _ => ofRepeated n
  | .list _ _, .number n | .number n, .list _ _ => ofRepeated n
  | _, _ => .error .wrongKind

/-- A fraction of two data, each a whole number or a fraction. -/
def ratio (n d : Datum) : Except Fault Rat :=
  match n, d with
  | .number n, .number d =>
    match n.toRat?, d.toRat? with
    | some n, some d => if d = 0 then .error .zeroDenominator else .ok (n / d)
    | _, _ => .error .wrongKind
  | _, _ => .error .wrongKind

/-- A datum is zero or below; a fault for one that is no number. -/
def isAtMostZero : Datum → Except Fault Bool
  | .number n => .ok (n.le (.ofInt 0))
  | _ => .error .wrongKind

/-- One of `count` equal notes in the space of `space` notes of this duration. -/
def tuplet (d : Duration) (count space : Datum) : Except Fault Duration := do
  let refused := Except.error (.value (.duration (count.plain ++ ":" ++ space.plain ++ " tuplet")))
  if ← isAtMostZero count then refused
  else if ← isAtMostZero space then refused
  else
    let beats := d.beats * (← ratio space count)
    ofBeats beats (fractionText beats)

/-- The first two items of a datum that has numbered items. -/
def firstTwo : Datum → Except Fault (Datum × Datum)
  | .list _ (first :: second :: _) => .ok (first, second)
  | .list _ _ => .error .noSuchIndex
  | .text s =>
    match s.toList with
    | first :: second :: _ => .ok (.text (String.singleton first), .text (String.singleton second))
    | _ => .error .noSuchIndex
  | .record _ _ => .error (.missingNumber 0)
  | _ => .error .wrongKind

/-- The tuplet that a datum asks for with the numbers of its notes and of the notes in their space; only a
duration has tuplets. -/
def ofTuplet (base numbers : Datum) : Except Fault Duration :=
  match base with
  | .duration d => do
    let (count, space) ← firstTwo numbers
    d.tuplet count space
  | _ => .error .noSuchMember

/-- The note values that have names of their own. -/
def constants : List (String × Rat) :=
  [("BREVE", 8), ("WHOLE", 4), ("HALF", 2), ("QUARTER", 1), ("EIGHTH", 1 / 2),
    ("SIXTEENTH", 1 / 4), ("THIRTY_SECOND", 1 / 8), ("DOTTED_HALF", 3), ("DOTTED_QUARTER", 3 / 2),
    ("DOTTED_EIGHTH", 3 / 4), ("DOTTED_SIXTEENTH", 3 / 8), ("HALF_TRIPLET", 4 / 3),
    ("QUARTER_TRIPLET", 2 / 3), ("EIGHTH_TRIPLET", 1 / 3), ("SIXTEENTH_TRIPLET", 1 / 6)]

/-- The note value with a given name. -/
def ofConstant? (name : String) : Option Duration :=
  match constants.lookup name with
  | some beats => if h : 0 < beats then some ⟨beats, h⟩ else none
  | none => none

end Duration

end MusicScore
