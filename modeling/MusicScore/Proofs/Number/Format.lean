import Mathlib.Algebra.Order.Field.Power
import Mathlib.Tactic.FieldSimp
import Mathlib.Tactic.Positivity
import Mathlib.Tactic.Ring
import MusicScore.Number.Double
import MusicScore.Proofs.Number.Rounding

/-!
# The format of binary64

A positive number of the format is a whole number of units in its last place. Every number that is so near to it
that sixteen decimal digits cannot tell them apart is rounded to it. This is not quite immediate just above a power of
two, where the units below are half as large, so that a number on the other side is rounded on a finer grid.
-/
namespace MusicScore

/-- The quotient of two numbers whose first digit in a base is known: its own first digit is at one of two places. -/
theorem quotient_between {base numerator denominator : Rat} {a b : Int} (wide : 1 < base)
    (low : base ^ a ≤ numerator) (high : numerator < base ^ (a + 1)) (below : base ^ b ≤ denominator)
    (above : denominator < base ^ (b + 1)) :
    base ^ (a - b - 1) ≤ numerator / denominator ∧ numerator / denominator < base ^ (a - b + 1) := by
  have positive : 0 < base := by linarith
  have divisor : 0 < denominator := lt_of_lt_of_le (zpow_pos positive b) below
  constructor
  · rw [le_div_iff₀ divisor]
    calc base ^ (a - b - 1) * denominator
        ≤ base ^ (a - b - 1) * base ^ (b + 1) := by
          exact mul_le_mul_of_nonneg_left above.le (zpow_pos positive _).le
      _ = base ^ a := by rw [← zpow_add₀ positive.ne']; congr 1; ring
      _ ≤ numerator := low
  · rw [div_lt_iff₀ divisor]
    calc numerator
        < base ^ (a + 1) := high
      _ = base ^ (a - b + 1) * base ^ b := by rw [← zpow_add₀ positive.ne']; congr 1; ring
      _ ≤ base ^ (a - b + 1) * denominator := by
          exact mul_le_mul_of_nonneg_left below (zpow_pos positive _).le

/-- A positive rational number is the quotient of two positive whole numbers. -/
theorem eq_natAbs_div_den {q : Rat} (positive : 0 < q) : q.num.natAbs ≠ 0 ∧ q = q.num.natAbs / q.den := by
  have above : 0 < q.num := Rat.num_pos.mpr positive
  have numerator : ((q.num.natAbs : Int) : Rat) = q.num := by rw [Int.natAbs_of_nonneg above.le]
  refine ⟨by omega, ?_⟩
  rw [← Int.cast_natCast, numerator, Rat.num_div_den]

namespace Double

variable {q x y : Rat} {e : Int}

/-! ## Powers of two -/

/-- A power of two is positive. -/
theorem two_zpow_pos (e : Int) : (0 : Rat) < (2 : Rat) ^ e := zpow_pos (by norm_num) e

/-- The next power of two is twice as large. -/
theorem two_zpow_succ (e : Int) : (2 : Rat) ^ (e + 1) = 2 * (2 : Rat) ^ e := by
  rw [zpow_add_one₀ (by norm_num), mul_comm]

/-- A power of two that is some places above a unit is a power of two of these units. -/
theorem two_zpow_eq_units {p e : Int} {places : Nat} (apart : e = places + p) :
    (2 : Rat) ^ e = 2 ^ places * (2 : Rat) ^ p := by
  rw [apart, zpow_add₀ (by norm_num), zpow_natCast]

/-- A whole number lies between two powers of two that follow each other. -/
theorem log2_spec {n : Nat} (nonzero : n ≠ 0) :
    (2 : Rat) ^ (n.log2 : Int) ≤ n ∧ (n : Rat) < (2 : Rat) ^ ((n.log2 : Int) + 1) := by
  rw [← Nat.cast_succ, zpow_natCast, zpow_natCast]
  exact ⟨by exact_mod_cast Nat.log2_self_le nonzero, by exact_mod_cast Nat.lt_log2_self⟩

/-- A positive number lies between two powers of two that follow each other. -/
theorem binade_spec (positive : 0 < q) : (2 : Rat) ^ binade q ≤ q ∧ q < (2 : Rat) ^ (binade q + 1) := by
  obtain ⟨nonzero, quotient⟩ := eq_natAbs_div_den positive
  obtain ⟨low, high⟩ := log2_spec nonzero
  obtain ⟨below, above⟩ := log2_spec (Nat.pos_iff_ne_zero.mp q.den_pos)
  obtain ⟨wide, narrow⟩ := quotient_between (by norm_num) low high below above
  rw [← quotient] at wide narrow
  unfold binade
  dsimp only
  split
  case isTrue reached => exact ⟨reached, narrow⟩
  case isFalse missed => exact ⟨wide, by rw [sub_add_cancel]; exact not_le.mp missed⟩

/-- The powers of two around a number are known when it lies between two that follow each other. -/
theorem binade_eq (low : (2 : Rat) ^ e ≤ q) (high : q < (2 : Rat) ^ (e + 1)) : binade q = e := by
  have positive : 0 < q := lt_of_lt_of_le (two_zpow_pos e) low
  obtain ⟨own, ownEnd⟩ := binade_spec positive
  have left : e < binade q + 1 := (zpow_lt_zpow_iff_right₀ (by norm_num)).mp (lt_of_le_of_lt low ownEnd)
  have right : binade q < e + 1 := (zpow_lt_zpow_iff_right₀ (by norm_num)).mp (lt_of_le_of_lt own high)
  omega

/-! ## Numbers of the format -/

/-- The positive number is a whole number of units in its last place. -/
def OnGrid (q : Rat) : Prop := ∃ m : Int, q = m * (2 : Rat) ^ lastPlace q

/-- A number less than half a unit away from a whole number of units is rounded to that. -/
theorem nearest_eq {m : Int} (near : |x - m * (2 : Rat) ^ lastPlace x| < (2 : Rat) ^ lastPlace x / 2) :
    nearest x = m * (2 : Rat) ^ lastPlace x := by
  have unit := two_zpow_pos (lastPlace x)
  have rounded : roundHalfEven (x / (2 : Rat) ^ lastPlace x) = m := by
    refine roundHalfEven_eq_iff.mpr (.inl ?_)
    have scaled : x / (2 : Rat) ^ lastPlace x - m =
        (x - m * (2 : Rat) ^ lastPlace x) / (2 : Rat) ^ lastPlace x := by
      field_simp
    rw [scaled, abs_div, abs_of_pos unit, div_lt_iff₀ unit]
    linarith
  rw [nearest, rounded]

/-- A power of two that is no finer than the units is a whole number of them. -/
theorem exists_units {p e : Int} (coarse : p ≤ e) : ∃ k : Int, (2 : Rat) ^ e = k * (2 : Rat) ^ p := by
  have split : e = ((e - p).toNat : Int) + p := by omega
  exact ⟨2 ^ (e - p).toNat, by exact_mod_cast two_zpow_eq_units split⟩

/-- A number on the grid is at least one unit, and lies at least one unit below the next power of two. -/
theorem OnGrid.bounds (positive : 0 < q) (grid : OnGrid q) :
    (2 : Rat) ^ lastPlace q ≤ q ∧ q + (2 : Rat) ^ lastPlace q ≤ (2 : Rat) ^ (binade q + 1) := by
  obtain ⟨m, units⟩ := grid
  have unit := two_zpow_pos (lastPlace q)
  have high := (binade_spec positive).2
  generalize lastPlace q = p at units unit ⊢
  subst units
  have some : 0 < m := by
    have : (0 : Rat) < m := (mul_pos_iff_of_pos_right unit).mp positive
    exact_mod_cast this
  have first : (1 : Rat) ≤ m := by exact_mod_cast some
  have low : (2 : Rat) ^ p ≤ m * (2 : Rat) ^ p := le_mul_of_one_le_left unit.le first
  have coarse : p < binade (m * (2 : Rat) ^ p) + 1 :=
    (zpow_lt_zpow_iff_right₀ (by norm_num)).mp (lt_of_le_of_lt low high)
  obtain ⟨k, whole⟩ := exists_units coarse.le
  rw [whole] at high ⊢
  have fewer : (m : Rat) + 1 ≤ k := by exact_mod_cast Int.add_one_le_of_lt (by
    exact_mod_cast lt_of_mul_lt_mul_right high unit.le)
  have scaled := mul_le_mul_of_nonneg_right fewer unit.le
  rw [add_mul, one_mul] at scaled
  exact ⟨low, scaled⟩

/-- A positive number is less than the power of two that has fifty-three places more than its last. -/
theorem lt_units (positive : 0 < q) : q < 2 ^ 53 * (2 : Rat) ^ lastPlace q := by
  have places : binade q + 1 ≤ (53 : Nat) + lastPlace q := by
    unfold lastPlace
    omega
  calc q
      < (2 : Rat) ^ (binade q + 1) := (binade_spec positive).2
    _ ≤ (2 : Rat) ^ ((53 : Nat) + lastPlace q) := zpow_le_zpow_right₀ (by norm_num) places
    _ = 2 ^ 53 * (2 : Rat) ^ lastPlace q := two_zpow_eq_units rfl

/-- A number that differs from one on the grid by no more than half a unit in the sixteenth decimal digit is rounded
to it. -/
theorem nearest_of_close (positive : 0 < q) (grid : OnGrid q) (close : |x - q| ≤ q / (2 * 10 ^ 16)) :
    nearest x = q := by
  obtain ⟨low, high⟩ := binade_spec positive
  obtain ⟨_, room⟩ := grid.bounds positive
  obtain ⟨m, units⟩ := grid
  obtain ⟨below, above⟩ := abs_le.mp close
  have unit := two_zpow_pos (lastPlace q)
  have widest := lt_units positive
  have same (place : lastPlace x = lastPlace q) : nearest x = q := by
    conv_rhs => rw [units, ← place]
    refine nearest_eq ?_
    rw [place, ← units]
    refine lt_of_le_of_lt close ?_
    linarith
  by_cases reached : (2 : Rat) ^ binade q ≤ x
  · have own : binade x = binade q := binade_eq reached (by linarith)
    exact same (by rw [lastPlace, lastPlace, own])
  · -- the number lies just below the power of two
    have missed := not_le.mp reached
    have half := two_zpow_succ (binade q - 1)
    rw [sub_add_cancel] at half
    have own : binade x = binade q - 1 :=
      binade_eq (by linarith) (by rw [sub_add_cancel]; exact missed)
    by_cases fine : binade q - 52 ≤ -1074
    · exact same (by unfold lastPlace; omega)
    · have place : lastPlace x + 1 = lastPlace q := by unfold lastPlace; omega
      have unitHalf := two_zpow_succ (lastPlace x)
      have unitPositive := two_zpow_pos (lastPlace x)
      have bits : (2 : Rat) ^ binade q = 2 ^ 53 * (2 : Rat) ^ lastPlace x :=
        two_zpow_eq_units (by unfold lastPlace; omega)
      have finer : q = (2 * m : Int) * (2 : Rat) ^ lastPlace x := by
        conv_lhs => rw [units, ← place, unitHalf]
        push_cast
        ring
      conv_rhs => rw [finer]
      refine nearest_eq ?_
      rw [← finer]
      refine lt_of_le_of_lt close ?_
      rw [bits] at missed
      linarith

/-! ## What rounding gives -/

/-- A number below a power of two that is no finer than its last place is not rounded beyond it. -/
theorem nearest_le (below : y ≤ (2 : Rat) ^ e) (coarse : lastPlace y ≤ e) : nearest y ≤ (2 : Rat) ^ e := by
  obtain ⟨k, whole⟩ := exists_units coarse
  have unit := two_zpow_pos (lastPlace y)
  rw [whole] at below ⊢
  have rounded : roundHalfEven (y / (2 : Rat) ^ lastPlace y) ≤ k := by
    rw [← roundHalfEven_intCast k]
    exact roundHalfEven_mono ((div_le_iff₀ unit).mpr below)
  exact mul_le_mul_of_nonneg_right (by exact_mod_cast rounded) unit.le

/-- A number above a power of two that is no finer than its last place is not rounded below it. -/
theorem le_nearest (above : (2 : Rat) ^ e ≤ y) (coarse : lastPlace y ≤ e) : (2 : Rat) ^ e ≤ nearest y := by
  obtain ⟨k, whole⟩ := exists_units coarse
  have unit := two_zpow_pos (lastPlace y)
  rw [whole] at above ⊢
  have rounded : k ≤ roundHalfEven (y / (2 : Rat) ^ lastPlace y) := by
    rw [← roundHalfEven_intCast k]
    exact roundHalfEven_mono ((le_div_iff₀ unit).mpr above)
  exact mul_le_mul_of_nonneg_right (by exact_mod_cast rounded) unit.le

/-- What a positive number is rounded to is on the grid, unless it is zero. -/
theorem onGrid_nearest (positive : 0 < y) (rounded : 0 < nearest y) : OnGrid (nearest y) := by
  obtain ⟨low, high⟩ := binade_spec positive
  have unit := two_zpow_pos (lastPlace y)
  have some : (0 : Rat) < roundHalfEven (y / (2 : Rat) ^ lastPlace y) := (mul_pos_iff_of_pos_right unit).mp rounded
  have coarse : lastPlace y ≤ binade y + 1 := by
    have whole : 0 < roundHalfEven (y / (2 : Rat) ^ lastPlace y) := by exact_mod_cast some
    have first : (1 : Rat) ≤ roundHalfEven (y / (2 : Rat) ^ lastPlace y) := by exact_mod_cast whole
    have near := (abs_le.mp (abs_sub_roundHalfEven_le (y / (2 : Rat) ^ lastPlace y))).1
    have half : (1 : Rat) / 2 ≤ y / (2 : Rat) ^ lastPlace y := by linarith
    have double := two_zpow_succ (lastPlace y - 1)
    rw [sub_add_cancel] at double
    rw [le_div_iff₀ unit, double] at half
    have : (2 : Rat) ^ (lastPlace y - 1) < (2 : Rat) ^ (binade y + 1) := by linarith
    have := (zpow_lt_zpow_iff_right₀ (by norm_num)).mp this
    omega
  have bounded := nearest_le high.le coarse
  obtain ⟨own, ownEnd⟩ := binade_spec rounded
  by_cases full : nearest y = (2 : Rat) ^ (binade y + 1)
  · have next := two_zpow_succ (binade y + 1)
    have place : binade (nearest y) = binade y + 1 := binade_eq full.ge (by linarith)
    obtain ⟨k, whole⟩ := exists_units (p := lastPlace (nearest y)) (e := binade y + 1) (by
      unfold lastPlace at coarse ⊢
      omega)
    exact ⟨k, full.trans whole⟩
  · have smaller := lt_of_le_of_ne bounded full
    have place : binade (nearest y) < binade y + 1 :=
      (zpow_lt_zpow_iff_right₀ (by norm_num)).mp (lt_of_le_of_lt own smaller)
    obtain ⟨k, whole⟩ := exists_units (p := lastPlace (nearest y)) (e := lastPlace y) (by
      unfold lastPlace
      omega)
    obtain ⟨m, units⟩ : ∃ m : Int, nearest y = m * (2 : Rat) ^ lastPlace y := ⟨_, rfl⟩
    refine ⟨m * k, units.trans ?_⟩
    rw [whole]
    push_cast
    ring

/-- The limit of the format is a power of two. -/
theorem limit_eq : limit = (2 : Rat) ^ (1024 : Int) := by
  have exponent : (1024 : Int) = ((1024 : Nat) : Int) := rfl
  rw [exponent, limit]
  -- the exponent is kept a variable, since the power is never to be computed
  generalize (1024 : Nat) = k
  simp

/-- A number from the limit on is not rounded below it. -/
theorem limit_le_nearest (large : limit ≤ y) : limit ≤ nearest y := by
  have positive : 0 < y := lt_of_lt_of_le (by rw [limit_eq]; exact two_zpow_pos _) large
  obtain ⟨low, high⟩ := binade_spec positive
  rw [limit_eq] at large ⊢
  have far : (1024 : Int) < binade y + 1 :=
    (zpow_lt_zpow_iff_right₀ (by norm_num)).mp (lt_of_le_of_lt large high)
  calc (2 : Rat) ^ (1024 : Int)
      ≤ (2 : Rat) ^ binade y := zpow_le_zpow_right₀ (by norm_num) (by omega)
    _ ≤ nearest y := le_nearest low (by unfold lastPlace; omega)

/-- A number far below the last place of the format is rounded to zero. -/
theorem nearest_of_tiny (positive : 0 < y) (tiny : y < (2 : Rat) ^ (-1076 : Int)) : nearest y = 0 := by
  obtain ⟨low, _⟩ := binade_spec positive
  have small : binade y < -1076 := (zpow_lt_zpow_iff_right₀ (by norm_num)).mp (lt_of_le_of_lt low tiny)
  have place : lastPlace y = -1074 := by unfold lastPlace; omega
  have half : (2 : Rat) ^ (-1074 : Int) = 2 * (2 : Rat) ^ (-1075 : Int) := by
    rw [← two_zpow_succ]
    rfl
  have quarter : (2 : Rat) ^ (-1075 : Int) = 2 * (2 : Rat) ^ (-1076 : Int) := by
    rw [← two_zpow_succ]
    rfl
  have zero : nearest y = (0 : Int) * (2 : Rat) ^ lastPlace y := by
    refine nearest_eq ?_
    rw [Int.cast_zero, zero_mul, sub_zero, abs_of_pos positive, place]
    linarith
  rw [zero, Int.cast_zero, zero_mul]

/-- Where a positive number is rounded to a positive one of the format, it is in its range. -/
theorem range_of_round (positive : 0 < y) (some : 0 < q) (rounded : round y = finite q) :
    (2 : Rat) ^ (-1076 : Int) ≤ y ∧ y < (2 : Rat) ^ (1024 : Int) := by
  have same : roundPositive y = finite q := by
    rwa [round, if_neg positive.ne', if_neg (not_lt.mpr positive.le)] at rounded
  unfold roundPositive at same
  dsimp only at same
  split at same
  case isTrue => cases same
  case isFalse inside =>
    obtain rfl := finite.inj same
    constructor
    · by_contra tiny
      exact some.ne' (nearest_of_tiny positive (not_le.mp tiny))
    · by_contra large
      refine inside (limit_le_nearest ?_)
      rw [limit_eq]
      exact not_lt.mp large

/-- A number from zero on and below half the limit has a finite number of the format. -/
theorem exists_finite_of_lt (nonneg : 0 ≤ y) (inside : y < (2 : Rat) ^ (1023 : Int)) :
    ∃ q, ofRat? y = some (finite q) := by
  rcases nonneg.eq_or_lt with rfl | positive
  · exact ⟨0, rfl⟩
  · obtain ⟨low, _⟩ := binade_spec positive
    have small : binade y < 1023 := (zpow_lt_zpow_iff_right₀ (by norm_num)).mp (lt_of_le_of_lt low inside)
    have bounded : nearest y ≤ (2 : Rat) ^ (1023 : Int) := nearest_le inside.le (by unfold lastPlace; omega)
    have within : (2 : Rat) ^ (1023 : Int) < (2 : Rat) ^ (1024 : Int) := zpow_lt_zpow_right₀ (by norm_num) (by norm_num)
    have below : ¬ limit ≤ nearest y := by
      rw [limit_eq]
      exact not_le.mpr (lt_of_le_of_lt bounded within)
    have rounded : round y = finite (nearest y) := by
      rw [round, if_neg positive.ne', if_neg (not_lt.mpr positive.le), roundPositive, if_neg below]
    exact ⟨nearest y, by rw [ofRat?, rounded]⟩

end Double

end MusicScore
