import MusicScore.Number.Rounding
import MusicScore.Number.FractionText

/-!
# Binary64 numbers

A binary64 number is a rational number that the format can hold, the negative zero, one of the two
infinities, or not a number. What is not a number may bear a mark: it is not equal to itself, yet
two of them with one mark are one and the same. Arithmetic is done on rational numbers and rounded once: to the nearest
number of the format, of two equally near to the one with the even significand, and beyond the largest
to infinity.
-/
namespace MusicScore

/-- A binary64 number. The zero among the rational numbers is the positive one. -/
inductive Double where
  | finite (q : Rat)
  | negativeZero
  | infinite (negative : Bool)
  | nan (mark : Option Nat)
  deriving DecidableEq

namespace Double

/-- The whole number `e` with `2 ^ e ≤ q < 2 ^ (e + 1)`, for a positive `q`. -/
def binade (q : Rat) : Int :=
  let e : Int := (Nat.log2 q.num.natAbs : Int) - (Nat.log2 q.den : Int)
  if (2 : Rat) ^ e ≤ q then e else e - 1

/-- The exponent of the last place of the format at a positive `q`: 53 significant bits, and no place
below `2 ^ (-1074)`. -/
def lastPlace (q : Rat) : Int := max (binade q - 52) (-1074)

/-- The number of the format that is nearest to a positive `q`, before the range is looked at. -/
def nearest (q : Rat) : Rat :=
  let place := lastPlace q
  (roundHalfEven (q / (2 : Rat) ^ place) : Rat) * (2 : Rat) ^ place

/-- The least power of two beyond the format. -/
def limit : Rat := (Nat.pow 2 1024 : Rat)

/-- A positive rational number in the format. -/
def roundPositive (q : Rat) : Double :=
  let n := nearest q
  if limit ≤ n then infinite false else finite n

/-- The number of opposite sign. -/
def neg : Double → Double
  | finite q => if q = 0 then negativeZero else finite (-q)
  | negativeZero => finite 0
  | infinite negative => infinite !negative
  | nan mark => nan mark

/-- A rational number in the format. -/
def round (q : Rat) : Double :=
  if q = 0 then finite 0
  else if q < 0 then neg (roundPositive (-q))
  else roundPositive q

/-- A rational number in the format, if it does not go beyond the largest number. -/
def ofRat? (q : Rat) : Option Double :=
  match round q with
  | infinite _ => none
  | x => some x

/-- The rational number that a finite binary64 number is. -/
def toRat? : Double → Option Rat
  | finite q => some q
  | negativeZero => some 0
  | _ => none

/-- The sum, rounded once. -/
def add (x y : Double) : Double :=
  match x, y with
  | nan _, _ | _, nan _ => nan none
  | infinite a, infinite b => if a = b then infinite a else nan none
  | infinite a, _ | _, infinite a => infinite a
  | negativeZero, negativeZero => negativeZero
  | _, _ => round (x.toRat?.getD 0 + y.toRat?.getD 0)

/-- The two are one and the same thing that is not a number. -/
def sameNan : Double → Double → Bool
  | nan (some a), nan (some b) => a = b
  | _, _ => false

/-- The number is negative; the negative zero counts. -/
def isNegative : Double → Bool
  | finite q => q < 0
  | negativeZero => true
  | infinite negative => negative
  | nan _ => false

/-- The number is a zero of either sign. -/
def isZero : Double → Bool
  | finite q => q = 0
  | negativeZero => true
  | _ => false

/-- The product, rounded once. -/
def mul (x y : Double) : Double :=
  let negative := x.isNegative != y.isNegative
  match x, y with
  | nan _, _ | _, nan _ => nan none
  | infinite _, _ => if y.isZero then nan none else infinite negative
  | _, infinite _ => if x.isZero then nan none else infinite negative
  | _, _ =>
    let q := x.toRat?.getD 0 * y.toRat?.getD 0
    let r := round (if q < 0 then -q else q)
    if negative then neg r else r

/-- The quotient of two positive finite numbers, rounded once. -/
def divPositive (x y : Double) : Double :=
  match x.toRat?, y.toRat? with
  | some a, some b => round (a / b)
  | _, _ => nan none

/-- The decimal number with these digits and this exponent of ten. The exponent is cut off far outside
the range, where only zero and infinity are left. -/
def ofDecimal (negative : Bool) (digits : Nat) (exponent : Int) : Double :=
  let magnitude := (Text.digitsOf digits).length + exponent
  let x :=
    if digits = 0 then finite 0
    else if 400 < magnitude then infinite false
    else if magnitude < -400 then finite 0
    else round (FractionText.scaled digits exponent)
  if negative then neg x else x

theorem neg_neg (x : Double) : x.neg.neg = x := by
  cases x with
  | finite q =>
    by_cases h : q = 0
    · subst h; rfl
    · have h' : -q ≠ 0 := fun z => h (by have := congrArg (- ·) z; simpa using this)
      simp [neg, h, h']
  | negativeZero => rfl
  | infinite b => simp [neg]
  | nan _ => rfl

end Double

end MusicScore
