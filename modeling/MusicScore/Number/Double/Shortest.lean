import MusicScore.Number.Double

/-!
# The shortest decimal text of a binary64 number

A finite number is written with the fewest decimal digits that read back as the same number; where
several numbers of that many digits do, the nearest of them is written. Seventeen digits always
suffice. How the digits are laid out (where the point stands, when there is an exponent, how the special
numbers are spelled) is the matter of a `Style`.
-/
namespace MusicScore.Double

open MusicScore.Text

/-- A decimal number: `digits * 10 ^ exponent`. -/
structure Decimal where
  digits : Nat
  exponent : Int

namespace Decimal

/-- The rational number that is meant. -/
def value (d : Decimal) : Rat := FractionText.scaled d.digits d.exponent

/-- The same number without zeros at the end of the digits; the fuel bounds their number. -/
def withoutTrailingZeros : Nat → Decimal → Decimal
  | 0, d => d
  | fuel + 1, d =>
    if d.digits ≠ 0 ∧ d.digits % 10 = 0 then withoutTrailingZeros fuel ⟨d.digits / 10, d.exponent + 1⟩
    else d

end Decimal

/-- The whole number `k` with `10 ^ (k - 1) ≤ q < 10 ^ k`, for a positive `q`. -/
def decade (q : Rat) : Int :=
  let k : Int := ((digitsOf q.num.natAbs).length : Int) - ((digitsOf q.den).length : Int)
  if q < (10 : Rat) ^ k then k else k + 1

/-- The decimal numbers of `count` digits next to `q`, the nearer one first; of two equally near, the
one with the even last digit. -/
def neighbours (q : Rat) (count : Nat) : List Decimal :=
  let exponent := decade q - count
  let steps := q / (10 : Rat) ^ exponent
  let below := steps.floor.toNat
  let near := (roundHalfEven steps).toNat
  if near = below then [⟨below, exponent⟩, ⟨below + 1, exponent⟩]
  else [⟨below + 1, exponent⟩, ⟨below, exponent⟩]

/-- The decimal reads back as the positive number `q` of the format. -/
def readsBack (q : Rat) (d : Decimal) : Bool := round d.value = finite q

/-- The shortest decimal that reads back as the positive number `q` of the format. -/
def shortest (q : Rat) : Decimal :=
  let candidates := (List.range 17).flatMap fun less => neighbours q (less + 1)
  match candidates.find? (readsBack q) with
  | some d => d.withoutTrailingZeros 20
  | none => ⟨0, 0⟩

/-- How the digits of a number are laid out, and how the special numbers are spelled. -/
structure Style where
  nan : String
  infinity : String
  /-- A significand of one digit in front of an exponent has a point and a zero. -/
  pointBeforeExponent : Bool

/-- The first power of ten that is written with an exponent. -/
def positionalLimit : Int := 16

/-- As many zeros as said, none for a negative number. -/
def zeros (n : Int) : List Char := List.replicate n.toNat '0'

/-- Digits with the point after the first `point` of them; an exponent is written when the number is
below `0.0001` or not below `10 ^ 16`. -/
def layOut (style : Style) (digits : List Char) (point : Int) : List Char :=
  if -4 < point ∧ point ≤ positionalLimit then
    if point ≤ 0 then '0' :: '.' :: zeros (-point) ++ digits
    else if (digits.length : Int) ≤ point then digits ++ zeros (point - digits.length) ++ ['.', '0']
    else digits.take point.toNat ++ '.' :: digits.drop point.toNat
  else
    let significand :=
      match digits with
      | [d] => if style.pointBeforeExponent then [d, '.', '0'] else [d]
      | d :: more => d :: '.' :: more
      | [] => []
    let exponent := point - 1
    let size := digitsOf exponent.natAbs
    significand ++ 'e' :: (if exponent < 0 then '-' else '+') :: zeros (2 - size.length) ++ size

/-- The text of a positive number of the format. -/
def positiveText (style : Style) (q : Rat) : List Char :=
  let d := shortest q
  let digits := digitsOf d.digits
  layOut style digits (d.exponent + digits.length)

/-- The text of a binary64 number. -/
def text (style : Style) : Double → List Char
  | finite q =>
    if q = 0 then ['0', '.', '0']
    else if q < 0 then '-' :: positiveText style (-q)
    else positiveText style q
  | negativeZero => ['-', '0', '.', '0']
  | infinite negative => if negative then '-' :: style.infinity.toList else style.infinity.toList
  | nan _ => style.nan.toList

/-- The spelling in messages and descriptions. -/
def plainStyle : Style := ⟨"nan", "inf", false⟩

/-- The text of a binary64 number in messages and descriptions. -/
def plainText (x : Double) : String := String.ofList (x.text plainStyle)

end MusicScore.Double
