import MusicScore.Number.Double.Shortest
import MusicScore.Proofs.Number.Format
import MusicScore.Proofs.Text.Digits

/-!
# The shortest decimal reads back

A positive number of the format has a decimal of at most seventeen digits that is rounded to it, since the nearest
decimal of seventeen digits is closer to it than the sixteenth digit. So the search for the shortest decimal finds
one, and to read its digits gives the number: they are well within the exponents that are looked at.
-/
namespace MusicScore

open Text

namespace FractionText

/-- A whole number times a power of ten. -/
theorem scaled_eq (n e : Int) : scaled n e = n * (10 : Rat) ^ e := by
  unfold scaled
  split
  case isTrue up =>
    obtain ⟨k, rfl⟩ := Int.eq_ofNat_of_zero_le up
    simp
  case isFalse down =>
    have back : e = -(e.natAbs : Int) := by omega
    conv_rhs => rw [back]
    rw [Rat.mkRat_eq_div, zpow_neg, zpow_natCast, ← div_eq_mul_inv]
    simp

end FractionText

namespace Double

variable {q : Rat} {digits : Nat} {e : Int}

/-! ## Powers of ten -/

/-- A power of ten is positive. -/
theorem ten_zpow_pos (e : Int) : (0 : Rat) < (10 : Rat) ^ e := zpow_pos (by norm_num) e

/-- A whole number lies between two powers of ten that its digits count. -/
theorem digitsOf_spec {n : Nat} (nonzero : n ≠ 0) :
    (10 : Rat) ^ (((digitsOf n).length : Int) - 1) ≤ n ∧
      (n : Rat) < (10 : Rat) ^ (((digitsOf n).length : Int) - 1 + 1) := by
  have some : 0 < (digitsOf n).length := Nat.length_toDigits_pos
  obtain ⟨before, counted⟩ : ∃ before, (digitsOf n).length = before + 1 := ⟨(digitsOf n).length - 1, by omega⟩
  have places : ((digitsOf n).length : Int) - 1 = before := by omega
  have low : 10 ^ before ≤ n := by
    rcases Nat.eq_zero_or_pos before with rfl | several
    · exact Nat.one_le_iff_ne_zero.mpr nonzero
    · by_contra small
      have fewer := (length_digitsOf_le several).mpr (Nat.not_le.mp small)
      omega
  have high : n < 10 ^ (before + 1) := (length_digitsOf_le (Nat.succ_pos _)).mp (by omega)
  rw [places, ← Nat.cast_succ, zpow_natCast, zpow_natCast]
  exact ⟨by exact_mod_cast low, by exact_mod_cast high⟩

/-- The power of ten that is found below a positive number. -/
theorem ten_zpow_decade_le (positive : 0 < q) : (10 : Rat) ^ (decade q - 1) ≤ q := by
  obtain ⟨nonzero, quotient⟩ := eq_natAbs_div_den positive
  obtain ⟨low, high⟩ := digitsOf_spec nonzero
  obtain ⟨below, above⟩ := digitsOf_spec (Nat.pos_iff_ne_zero.mp q.den_pos)
  have wide := (quotient_between (by norm_num) low high below above).1
  rw [← quotient] at wide
  unfold decade
  dsimp only
  split
  case isTrue =>
    refine le_trans (le_of_eq ?_) wide
    congr 1
    ring
  case isFalse reached =>
    rw [add_sub_cancel_right]
    exact not_lt.mp reached

/-- A power of ten is above the power of two with three times the exponent. -/
theorem two_zpow_le_ten_zpow {k : Nat} : (2 : Rat) ^ (3 * k : Int) ≤ (10 : Rat) ^ (k : Int) := by
  have cubes : (2 : Rat) ^ (3 * k : Int) = 8 ^ k := by
    rw [zpow_mul, zpow_natCast]
    norm_num
  rw [cubes, zpow_natCast]
  exact pow_le_pow_left₀ (by norm_num) (by norm_num) k

/-! ## The nearest decimal of seventeen digits -/

namespace Decimal

/-- The value of a decimal is its digits times a power of ten. -/
theorem value_eq (d : Decimal) : d.value = d.digits * (10 : Rat) ^ d.exponent := by
  rw [value, FractionText.scaled_eq]
  push_cast
  rfl

/-- Zeros at the end of the digits make no difference to the value. -/
theorem value_withoutTrailingZeros (fuel : Nat) (d : Decimal) : (withoutTrailingZeros fuel d).value = d.value := by
  induction fuel generalizing d with
  | zero => rfl
  | succ fuel inductionHypothesis =>
    unfold withoutTrailingZeros
    split
    case isTrue trailing =>
      have split : d.digits = 10 * (d.digits / 10) := by omega
      have whole : (d.digits : Rat) = 10 * (d.digits / 10 : Nat) := by exact_mod_cast split
      rw [inductionHypothesis, value_eq, value_eq, whole, zpow_add_one₀ (by norm_num)]
      ring
    case isFalse => rfl

end Decimal

/-- Of the decimals next to a number one is the nearest. -/
theorem nearest_mem_neighbours (positive : 0 < q) (count : Nat) :
    ⟨(roundHalfEven (q / (10 : Rat) ^ (decade q - count))).toNat, decade q - count⟩ ∈ neighbours q count := by
  have steps : 0 ≤ (q / (10 : Rat) ^ (decade q - count)).floor :=
    Rat.le_floor_iff.mpr (by exact_mod_cast (div_pos positive (ten_zpow_pos _)).le)
  have rounded := roundHalfEven_eq_floor_or (q / (10 : Rat) ^ (decade q - count))
  unfold neighbours
  dsimp only
  split
  case isTrue below => simp [below]
  case isFalse above =>
    rcases rounded with down | up
    · exact absurd (by rw [down]) above
    · rw [up, Int.toNat_add steps (by decide)]
      exact List.mem_cons_self

/-- The nearest decimal of seventeen digits reads back. -/
theorem readsBack_nearest (positive : 0 < q) (grid : OnGrid q) (inside : q < limit) :
    readsBack q ⟨(roundHalfEven (q / (10 : Rat) ^ (decade q - 17))).toNat, decade q - 17⟩ = true := by
  have unit := ten_zpow_pos (decade q - 17)
  have places : (10 : Rat) ^ (decade q - 17) * 10 ^ 16 ≤ q := by
    refine le_trans (le_of_eq ?_) (ten_zpow_decade_le positive)
    rw [← zpow_natCast, ← zpow_add₀ (by norm_num)]
    congr 1
    push_cast
    ring
  generalize decade q - 17 = e at unit places ⊢
  have near := abs_sub_roundHalfEven_le (q / (10 : Rat) ^ e)
  have nonneg : 0 ≤ roundHalfEven (q / (10 : Rat) ^ e) := by
    have first := roundHalfEven_mono (div_pos positive unit).le
    rwa [← Int.cast_zero, roundHalfEven_intCast] at first
  generalize roundHalfEven (q / (10 : Rat) ^ e) = n at near nonneg ⊢
  have value : Decimal.value ⟨n.toNat, e⟩ = n * (10 : Rat) ^ e := by
    rw [Decimal.value_eq]
    dsimp only
    rw [← Int.cast_natCast, Int.toNat_of_nonneg nonneg]
  have distance : |n * (10 : Rat) ^ e - q| ≤ (10 : Rat) ^ e / 2 := by
    have scaled : n * (10 : Rat) ^ e - q = -((q / (10 : Rat) ^ e - n) * (10 : Rat) ^ e) := by
      field_simp
      ring
    rw [scaled, abs_neg, abs_mul, abs_of_pos unit]
    linarith [mul_le_mul_of_nonneg_right near unit.le]
  have close : |n * (10 : Rat) ^ e - q| ≤ q / (2 * 10 ^ 16) := by linarith
  have back := nearest_of_close positive grid close
  have above : 0 < n * (10 : Rat) ^ e := by linarith [(abs_le.mp close).1]
  simp only [readsBack, value, decide_eq_true_eq, round, above.ne', not_lt.mpr above.le, if_false, roundPositive, back,
    not_le.mpr inside]

/-- The shortest decimal of a number of the format reads back. -/
theorem round_shortest (positive : 0 < q) (grid : OnGrid q) (inside : q < limit) :
    round (shortest q).value = finite q := by
  unfold shortest
  dsimp only
  split
  case h_1 d found =>
    have back := List.find?_some found
    rw [Decimal.value_withoutTrailingZeros]
    exact of_decide_eq_true back
  case h_2 missing =>
    refine absurd (readsBack_nearest positive grid inside) ?_
    refine List.find?_eq_none.mp missing _ (List.mem_flatMap.mpr ⟨16, by decide, ?_⟩)
    exact nearest_mem_neighbours positive 17

/-! ## Reading the digits -/

/-- Digits that stand for a number near one of the format are read as that one: their exponent is not beyond
those that are looked at. -/
theorem ofDecimal_of_round (negative : Bool) (some : digits ≠ 0) (positive : 0 < q)
    (rounded : round (FractionText.scaled digits e) = finite q) :
    ofDecimal negative digits e = if negative then neg (finite q) else finite q := by
  obtain ⟨low, high⟩ := digitsOf_spec some
  have value : FractionText.scaled digits e = digits * (10 : Rat) ^ e := FractionText.scaled_eq digits e
  have whole : (0 : Rat) < digits := by exact_mod_cast Nat.pos_of_ne_zero some
  obtain ⟨least, most⟩ := range_of_round (by rw [value]; exact mul_pos whole (ten_zpow_pos e)) positive rounded
  rw [value] at least most
  have unit := ten_zpow_pos e
  have few : ¬ 400 < ((digitsOf digits).length : Int) + e := by
    intro far
    have reached : (2 : Rat) ^ (1200 : Int) ≤ digits * (10 : Rat) ^ e := by
      calc (2 : Rat) ^ (1200 : Int)
          ≤ (10 : Rat) ^ (400 : Int) := two_zpow_le_ten_zpow (k := 400)
        _ ≤ (10 : Rat) ^ (((digitsOf digits).length : Int) - 1 + e) :=
            zpow_le_zpow_right₀ (by norm_num) (by omega)
        _ = (10 : Rat) ^ (((digitsOf digits).length : Int) - 1) * (10 : Rat) ^ e := zpow_add₀ (by norm_num) _ _
        _ ≤ digits * (10 : Rat) ^ e := mul_le_mul_of_nonneg_right low unit.le
    have within := (zpow_lt_zpow_iff_right₀ (by norm_num)).mp (lt_of_le_of_lt reached most)
    omega
  have many : ¬ ((digitsOf digits).length : Int) + e < -400 := by
    intro near
    have missed : digits * (10 : Rat) ^ e < (2 : Rat) ^ (-1200 : Int) := by
      calc digits * (10 : Rat) ^ e
          < (10 : Rat) ^ (((digitsOf digits).length : Int) - 1 + 1) * (10 : Rat) ^ e :=
            mul_lt_mul_of_pos_right high unit
        _ = (10 : Rat) ^ (((digitsOf digits).length : Int) - 1 + 1 + e) := (zpow_add₀ (by norm_num) _ _).symm
        _ ≤ (10 : Rat) ^ (-400 : Int) := zpow_le_zpow_right₀ (by norm_num) (by omega)
        _ ≤ (2 : Rat) ^ (-1200 : Int) := by
            rw [zpow_neg, zpow_neg]
            exact inv_anti₀ (two_zpow_pos 1200) (two_zpow_le_ten_zpow (k := 400))
    have within := (zpow_lt_zpow_iff_right₀ (by norm_num)).mp (lt_of_le_of_lt least missed)
    omega
  unfold ofDecimal
  simp only [some, few, many, if_false, rounded]

/-- A power of ten may stand with the digits or in the exponent. -/
theorem scaled_shift (digits more : Nat) (e : Int) :
    FractionText.scaled (digits * 10 ^ more : Nat) (e - more) = FractionText.scaled digits e := by
  rw [FractionText.scaled_eq, FractionText.scaled_eq, zpow_sub₀ (by norm_num), zpow_natCast]
  push_cast
  field_simp

end Double

end MusicScore
