import Mathlib.Algebra.Order.Ring.Abs
import Mathlib.Algebra.Order.Field.Rat
import Mathlib.Tactic.Linarith
import Mathlib.Tactic.NormNum
import MusicScore.Number.Rounding

/-!
# What rounding does

A number is rounded to a whole number that is at most one half away from it, and no other whole number is as
near, except half-way between two of them, where the even one is taken. Everything else follows from this:
rounding keeps the order of numbers, and two numbers that are at least one apart are rounded to the same
whole number in one case only, where they lie half-way below and half-way above it.
-/
namespace MusicScore

/-- A distance is one half when the difference is one half in either direction. -/
theorem abs_eq_half_iff {d : Rat} : |d| = 1 / 2 ↔ d = 1 / 2 ∨ d = -(1 / 2) := abs_eq (by norm_num)

/-- The rounded number is at most one half away, and it is even where it is just one half away. -/
theorem roundHalfEven_near (q : Rat) :
    |q - roundHalfEven q| < 1 / 2 ∨ |q - roundHalfEven q| = 1 / 2 ∧ roundHalfEven q % 2 = 0 := by
  have low : (q.floor : Rat) ≤ q := Rat.floor_le q
  have high : q < (q.floor + 1 : Int) := Rat.lt_floor_add_one q
  push_cast at high
  unfold roundHalfEven
  dsimp only
  split
  case isTrue below =>
    left
    rw [abs_lt]
    constructor <;> linarith
  case isFalse notBelow =>
    split
    case isTrue above =>
      left
      push_cast
      rw [abs_lt]
      constructor <;> linarith
    case isFalse notAbove =>
      have half : q - q.floor = 1 / 2 := le_antisymm (not_lt.mp notAbove) (not_lt.mp notBelow)
      right
      split
      case isTrue even =>
        exact ⟨abs_eq_half_iff.mpr (.inl half), even⟩
      case isFalse odd =>
        have back : q - (q.floor + 1 : Int) = -(1 / 2) := by
          push_cast
          linarith
        exact ⟨abs_eq_half_iff.mpr (.inr back), by omega⟩

/-- Rounding moves a number by one half at most. -/
theorem abs_sub_roundHalfEven_le (q : Rat) : |q - roundHalfEven q| ≤ 1 / 2 := by
  rcases roundHalfEven_near q with near | ⟨half, _⟩
  · exact le_of_lt near
  · exact le_of_eq half

/-- What a number is rounded to: the whole number that is nearer than one half, or the even one that is one
half away. -/
theorem roundHalfEven_eq_iff {q : Rat} {n : Int} :
    roundHalfEven q = n ↔ |q - n| < 1 / 2 ∨ |q - n| = 1 / 2 ∧ n % 2 = 0 := by
  constructor
  · rintro rfl
    exact roundHalfEven_near q
  · intro near
    -- Two candidates are less than two apart, and one apart only if both are half-way and so both even.
    have own := roundHalfEven_near q
    have mine : |q - roundHalfEven q| ≤ 1 / 2 := abs_sub_roundHalfEven_le q
    have other : |q - n| ≤ 1 / 2 := near.elim le_of_lt fun tie => le_of_eq tie.1
    generalize roundHalfEven q = m at own mine ⊢
    obtain ⟨mineLow, mineHigh⟩ := abs_le.mp mine
    obtain ⟨otherLow, otherHigh⟩ := abs_le.mp other
    have above : m ≤ n + 1 := by
      have : (m : Rat) ≤ (n + 1 : Int) := by push_cast; linarith
      exact_mod_cast this
    have below : n ≤ m + 1 := by
      have : (n : Rat) ≤ (m + 1 : Int) := by push_cast; linarith
      exact_mod_cast this
    by_contra apart
    have halfway : |q - m| = 1 / 2 ∧ |q - n| = 1 / 2 := by
      rcases (by omega : m = n + 1 ∨ n = m + 1) with rfl | rfl
      · push_cast at mineLow mineHigh ⊢
        exact ⟨abs_eq_half_iff.mpr (.inr (by linarith)), abs_eq_half_iff.mpr (.inl (by linarith))⟩
      · push_cast at otherLow otherHigh ⊢
        exact ⟨abs_eq_half_iff.mpr (.inl (by linarith)), abs_eq_half_iff.mpr (.inr (by linarith))⟩
    have evenMine : m % 2 = 0 := own.elim (fun near => absurd halfway.1 (ne_of_lt near)) And.right
    have evenOther : n % 2 = 0 := near.elim (fun near => absurd halfway.2 (ne_of_lt near)) And.right
    omega

/-- A whole number is rounded to itself. -/
theorem roundHalfEven_intCast (n : Int) : roundHalfEven n = n :=
  roundHalfEven_eq_iff.mpr (.inl (by norm_num))

/-- Rounding keeps a distance that is an even whole number: ties stay ties, and their even neighbours stay even. -/
theorem roundHalfEven_add_even (q : Rat) {n : Int} (even : n % 2 = 0) :
    roundHalfEven (q + n) = roundHalfEven q + n := by
  have apart : q + n - (roundHalfEven q + n : Int) = q - roundHalfEven q := by
    push_cast
    exact add_sub_add_right_eq_sub _ _ _
  apply roundHalfEven_eq_iff.mpr
  rw [apart]
  refine (roundHalfEven_near q).imp id fun ⟨half, nearest⟩ => ⟨half, ?_⟩
  omega

/-- Rounding keeps the order of numbers. -/
theorem roundHalfEven_mono {a b : Rat} (ordered : a ≤ b) : roundHalfEven a ≤ roundHalfEven b := by
  by_contra reversed
  have apart : roundHalfEven b + 1 ≤ roundHalfEven a := not_le.mp reversed
  have wide : (roundHalfEven b : Rat) + 1 ≤ roundHalfEven a := by exact_mod_cast apart
  have left := (abs_le.mp (abs_sub_roundHalfEven_le a)).1
  have right := (abs_le.mp (abs_sub_roundHalfEven_le b)).2
  -- Both numbers would lie just between the two whole numbers, and so would be the same.
  have same : a = b := by linarith
  rw [same] at apart
  omega

/-- Rounding keeps the sign of a number that is not negative. -/
theorem roundHalfEven_nonneg {q : Rat} (nonneg : 0 ≤ q) : 0 ≤ roundHalfEven q := by
  rw [← roundHalfEven_intCast 0]
  exact roundHalfEven_mono (by exact_mod_cast nonneg)

/-- A number and one that is larger by one or more are rounded to the same whole number only if they are just
one apart and half-way between an odd number and the even one after it. -/
theorem roundHalfEven_add_le_iff {q step : Rat} (long : 1 ≤ step) :
    roundHalfEven (q + step) ≤ roundHalfEven q ↔
      step = 1 ∧ ∃ n : Int, n % 2 = 1 ∧ q = n + 1 / 2 := by
  constructor
  · intro reached
    have arrive : (roundHalfEven (q + step) : Rat) ≤ roundHalfEven q := by exact_mod_cast reached
    have left := (abs_le.mp (abs_sub_roundHalfEven_le q)).1
    have right := (abs_le.mp (abs_sub_roundHalfEven_le (q + step))).2
    have low : q - roundHalfEven q = -(1 / 2) := by linarith
    have even : roundHalfEven q % 2 = 0 := by
      rcases roundHalfEven_near q with near | ⟨_, even⟩
      · exact absurd (abs_eq_half_iff.mpr (.inr low)) (ne_of_lt near)
      · exact even
    refine ⟨by linarith, roundHalfEven q - 1, by omega, ?_⟩
    push_cast
    linarith
  · rintro ⟨rfl, n, odd, rfl⟩
    have up : roundHalfEven (n + 1 / 2) = n + 1 := by
      refine roundHalfEven_eq_iff.mpr (.inr ⟨abs_eq_half_iff.mpr (.inr ?_), by omega⟩)
      push_cast
      linarith
    have down : roundHalfEven (n + 1 / 2 + 1) = n + 1 := by
      refine roundHalfEven_eq_iff.mpr (.inr ⟨abs_eq_half_iff.mpr (.inl ?_), by omega⟩)
      push_cast
      linarith
    rw [up, down]

/-- Numbers that are more than one apart are rounded to different whole numbers. -/
theorem roundHalfEven_lt {a b : Rat} (apart : 1 < b - a) : roundHalfEven a < roundHalfEven b := by
  by_contra reached
  have meets : roundHalfEven (a + (b - a)) ≤ roundHalfEven a := by
    rw [add_sub_cancel]
    exact not_lt.mp reached
  obtain ⟨one, _⟩ := (roundHalfEven_add_le_iff apart.le).mp meets
  exact absurd one apart.ne'

end MusicScore
