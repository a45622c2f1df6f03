import MusicScore.Number.Double

/-!
# Logarithms in binary64

The logarithm to base two is the quotient of two natural logarithms. The number, each of the natural
logarithms and the quotient are rounded to binary64, so that what is found for a power of two need not
be a whole number, the twenty-ninth is the first of them, and what is found for another number may be
one. A natural logarithm is computed from the power of two below the number and from a series, to far
more places than its rounding looks at.
-/
namespace MusicScore.Logarithm

/-- One, as a number of units of the seventieth decimal place. -/
def unit : Nat := Nat.pow 10 70

/-- The natural logarithm of two in units. -/
def naturalOfTwo : Nat := 6931471805599453094172321214581765680755001343602552541206800094933936

/-- The sum of some terms `z ^ n / n` over odd `n`, in units, from the first `n` and the first power on. -/
def oddPowers (square : Nat) : Nat → Nat → Nat → Nat
  | 0, _, _ => 0
  | terms + 1, n, power => power / n + oddPowers square terms (n + 2) (power * square / unit)

/-- The natural logarithm of a number from one up to two in units: twice the sum of the odd powers of
`z = (y - 1) / (y + 1)`. Each term is less than a ninth of the one before, and eighty of them go beyond
the last place. -/
def naturalBelowTwo (y : Rat) : Nat :=
  let z := ((y - 1) / (y + 1) * unit).floor.toNat
  2 * oddPowers (z * z / unit) 80 1 z

/-- The natural logarithm of a number that is at least one, in binary64. -/
def natural (x : Rat) : Double :=
  let power := (Double.binade x).toNat
  Double.round (mkRat (power * naturalOfTwo + naturalBelowTwo (x / Nat.pow 2 power)) unit)

/-- The logarithm of a positive whole number to base two, as binary64 arithmetic finds it. -/
def baseTwo (n : Nat) : Double := Double.divPositive (natural (Double.nearest n)) (natural 2)

/-- The whole number up to a greatest one that a binary64 number is. -/
def wholeUpTo? (greatest : Nat) : Double → Option Nat
  | .finite q => if q = q.num.toNat ∧ q.num.toNat ≤ greatest then some q.num.toNat else none
  | _ => none

/-- The whole number up to a greatest one that binary64 arithmetic finds as the logarithm to base two. -/
def exponent? (greatest n : Nat) : Option Nat := wholeUpTo? greatest (baseTwo n)

-- A number beside a power of two can have a whole logarithm, and a power of two need not have one.
example : exponent? 255 (2 ^ 49 + 1) = some 49 ∧ exponent? 255 (2 ^ 29) = none := by decide +kernel

theorem wholeUpTo?_le {greatest n : Nat} {x : Double} (found : wholeUpTo? greatest x = some n) : n ≤ greatest := by
  cases x with
  | finite q =>
    obtain ⟨⟨_, small⟩, same⟩ := Option.ite_none_right_eq_some.mp found
    exact Option.some.inj same ▸ small
  | _ => cases found

end MusicScore.Logarithm
