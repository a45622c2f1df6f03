import MusicScore.Number.Double

/-!
# Reading binary64 numbers

Decimal text with a point or an exponent is read exactly and rounded once. The text is in ASCII: a
sign, digits, a fractional part, an exponent.
-/
namespace MusicScore.Double

open MusicScore.Text

/-- A digit of ASCII. -/
def isAsciiDigit (c : Char) : Bool := '0' ≤ c && c ≤ '9'

/-- The digits of ASCII at the front of a text. -/
def asciiDigits (s : List Char) : List Nat × List Char :=
  ((s.takeWhile isAsciiDigit).map (·.toNat - 48), s.dropWhile isAsciiDigit)

/-- The exponent after its mark: an optional sign and at least one digit. -/
def exponentAfterMark? (s : List Char) : Option (Int × List Char) :=
  let (negative, body) := IntegerText.takeSign s
  match asciiDigits body with
  | ([], _) => none
  | (digits, rest) => some (IntegerText.signed negative (ofDigits digits), rest)

/-- A decimal number with at least one digit, and what follows it. -/
def unsigned? (negative : Bool) (s : List Char) : Option (Double × List Char) :=
  let (whole, rest) := asciiDigits s
  let (fractional, rest) :=
    match rest with
    | '.' :: more => asciiDigits more
    | _ => ([], rest)
  if whole.isEmpty && fractional.isEmpty then none
  else
    let digits := ofDigits (whole ++ fractional)
    let last : Int := -(fractional.length : Int)
    match rest with
    | c :: more =>
      if c = 'e' || c = 'E' then
        match exponentAfterMark? more with
        | some (exponent, rest) => some (ofDecimal negative digits (last + exponent), rest)
        | none => none
      else some (ofDecimal negative digits last, rest)
    | [] => some (ofDecimal negative digits last, [])

/-- Read a whole text as a number, the special numbers included. -/
def read? (s : List Char) : Option Double :=
  let (negative, body) := IntegerText.takeSign s
  let signed := fun x : Double => if negative then x.neg else x
  if body = "nan".toList then some (nan none)
  else if body = "inf".toList || body = "infinity".toList then some (signed (infinite false))
  else
    match unsigned? negative body with
    | some (x, []) => some x
    | _ => none

end MusicScore.Double
