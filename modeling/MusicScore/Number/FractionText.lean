import MusicScore.Number.IntegerText
import MusicScore.Text.Shown

/-!
# Fractions in text

A fraction is written in one of two ways, with an optional sign in front: as a numerator and a
denominator with a stroke between them, or as a decimal number with an optional fractional part and an
optional exponent. A whole number is a decimal number without either. Digits are grouped as in whole
numbers, and blanks may stand around the whole.
-/
namespace MusicScore.FractionText

open MusicScore.Text MusicScore.IntegerText

/-- What a text says about a fraction. A part may be a number of too many digits, and the place of the
fractional part may be taken by the letter `d`, which is no number. -/
inductive Reading where
  | malformed
  | zeroDenominator
  | tooManyDigits (count : Nat)
  | misplaced (letters : List Char)
  | value (q : Rat)

/-- What stands for the fractional part after a point: digits, perhaps none, or letters `d`. -/
inductive Fractional where
  | digits (values : List Nat)
  | letters (found : List Char)

/-- The fractional part, and what follows it. -/
def fractional : List Char → Fractional × List Char
  | '.' :: rest =>
    match digitGroup? rest with
    | some (values, tail) => (.digits values, tail)
    | none =>
      let isLetter := fun c => c = 'd' || c = 'D'
      match rest.takeWhile isLetter with
      | [] => (.digits [], rest)
      | found => (.letters found, rest.dropWhile isLetter)
  | rest => (.digits [], rest)

/-- The sign and the digits of the exponent at the end of a text; no digits when there is none. -/
def exponent? : List Char → Option (Bool × List Nat)
  | [] => some (false, [])
  | mark :: rest =>
    if mark = 'e' || mark = 'E' then
      let (negative, body) := takeSign rest
      match digitGroup? body with
      | some (digits, []) => some (negative, digits)
      | _ => none
    else none

/-- A whole number times a power of ten. -/
def scaled (n exponent : Int) : Rat :=
  if 0 ≤ exponent then ((n * Nat.pow 10 exponent.toNat : Int) : Rat)
  else mkRat n (Nat.pow 10 exponent.natAbs)

/-- A part with too many digits, the first of some. -/
def tooLong? (parts : List (List Nat)) : Option Nat :=
  (parts.find? fun digits => maxDigits < digits.length).map List.length

/-- A decimal number whose whole part has been read. -/
def decimal (negative : Bool) (whole : List Nat) (rest : List Char) : Reading :=
  let (part, tail) := fractional rest
  match exponent? tail, part with
  | none, _ => .malformed
  | some _, .letters found => if maxDigits < whole.length then .tooManyDigits whole.length else .misplaced found
  | some (below, power), .digits values =>
    match tooLong? [whole, values, power] with
    | some count => .tooManyDigits count
    | none =>
      let exponent := signed below (ofDigits power) - values.length
      .value (scaled (signed negative (ofDigits (whole ++ values))) exponent)

/-- A numerator over a denominator. -/
def quotient (negative : Bool) (numerator denominator : List Nat) : Reading :=
  match tooLong? [numerator, denominator] with
  | some count => .tooManyDigits count
  | none =>
    if ofDigits denominator = 0 then .zeroDenominator
    else .value (mkRat (signed negative (ofDigits numerator)) (ofDigits denominator))

/-- Read a fraction. -/
def read (s : List Char) : Reading :=
  let (negative, body) := takeSign (trim s)
  match digitGroup? body with
  | some (numerator, '/' :: rest) =>
    match digitGroup? rest with
    | some (denominator, []) => quotient negative numerator denominator
    | _ => .malformed
  | some (whole, rest) => decimal negative whole rest
  | none =>
    match body with
    | '.' :: c :: rest => if isDigit c then decimal negative [] ('.' :: c :: rest) else .malformed
    | _ => .malformed

end MusicScore.FractionText

namespace MusicScore

/-- The text of a whole number, unless it has too many digits. -/
def wholeText (n : Int) : Shown :=
  if n.natAbs < Text.digitLimit then .text (String.ofList (IntegerText.write n)) else .lost

/-- The text of a fraction in lowest terms; a whole number has no denominator. -/
def fractionText (q : Rat) : Shown :=
  if q.den = 1 then wholeText q.num else wholeText q.num ++ "/" ++ wholeText q.den

end MusicScore
