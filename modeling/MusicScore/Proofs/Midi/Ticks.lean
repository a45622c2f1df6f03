import MusicScore.Midi.Ticks
import MusicScore.Proofs.Number.Rounding
import MusicScore.Proofs.Outcome

/-!
# Positions in ticks

A position goes to the nearest tick, and half-way between two ticks to the even one. No position is moved by more than
one half of a tick. So positions keep their order, and those that are more than one tick apart are at different ticks.

The same holds of positions and resolutions that are given as data: a position may be any number that lies on the
rational line, a binary64 number being taken as it is, and a resolution any number that stands for a whole one.
-/
namespace MusicScore.Midi

variable {a b beats : Rat} {resolution : Int}

/-! ## Near the exact position -/

/-- A position is moved by one half of a tick at most. -/
theorem abs_ticks_sub_le (beats : Rat) (resolution : Int) :
    |ticks beats resolution - beats * resolution| ≤ 1 / 2 := by
  rw [abs_sub_comm]
  exact abs_sub_roundHalfEven_le _

/-- A position that is moved by just one half of a tick goes to an even one. -/
theorem ticks_even (halfway : |ticks beats resolution - beats * resolution| = 1 / 2) :
    ticks beats resolution % 2 = 0 := by
  rw [abs_sub_comm] at halfway
  rcases roundHalfEven_near (beats * resolution) with near | ⟨_, even⟩
  · exact absurd halfway near.ne
  · exact even

/-- No position from beat zero on has a tick before the first one. -/
theorem ticks_nonneg (late : 0 ≤ beats) (positive : 0 < resolution) : 0 ≤ ticks beats resolution := by
  have scale : (0 : Rat) ≤ resolution := by exact_mod_cast positive.le
  exact roundHalfEven_nonneg (mul_nonneg late scale)

/-! ## In order -/

/-- A later position is not at an earlier tick. -/
theorem ticks_mono (forward : 0 ≤ resolution) (ordered : a ≤ b) : ticks a resolution ≤ ticks b resolution := by
  have scale : (0 : Rat) ≤ resolution := by exact_mod_cast forward
  exact roundHalfEven_mono (mul_le_mul_of_nonneg_right ordered scale)

/-- With a negative resolution a later position is not at a later tick. -/
theorem ticks_anti (backward : resolution ≤ 0) (ordered : a ≤ b) : ticks b resolution ≤ ticks a resolution := by
  have scale : (resolution : Rat) ≤ 0 := by exact_mod_cast backward
  exact roundHalfEven_mono (mul_le_mul_of_nonpos_right ordered scale)

/-- A position that is more than one tick later is at a later tick. -/
theorem ticks_lt (positive : 0 < resolution) (apart : 1 / (resolution : Rat) < b - a) :
    ticks a resolution < ticks b resolution := by
  have scale : (0 : Rat) < resolution := by exact_mod_cast positive
  have steps : 1 < (b - a) * resolution := (div_lt_iff₀ scale).mp apart
  rw [sub_mul] at steps
  exact roundHalfEven_lt steps

-- just one tick later is not enough: half-way after tick one goes up, half-way after tick two goes down
example : ticks (3 / 2) 1 = 2 ∧ ticks (5 / 2) 1 = 2 := by decide +kernel

/-! ## From data -/

/-- A number on the rational line is taken for the fraction at its place. -/
theorem exactFraction_of_place? {n : Number} (place : n.place? = some (.rational beats)) :
    exactFraction (.number n) = .ok beats := by
  cases n with
  | truth b => cases place; cases b <;> rfl
  | whole n => cases place; rfl
  | ratio q => cases place; rfl
  | float x =>
    cases x with
    | finite q => cases place; rfl
    | negativeZero => cases place; rfl
    | infinite negative => cases negative <;> cases place
    | nan mark => cases place

/-- A number on the rational line has the tick of its place, at a resolution that stands for a whole number. -/
theorem ticksOfData_of_place? {position perQuarter : Number} (place : position.place? = some (.rational beats))
    (meant : perQuarter.toInt? = some resolution) :
    ticksOfData (.number position) (.number perQuarter) = .ok (ticks beats resolution) := by
  have product : (Number.ratio beats).mul? perQuarter = some (.ratio (beats * resolution)) :=
    Number.ratio_mul?_of_toInt? beats meant
  refine Outcome.bind_eq_ok.mpr ⟨beats, exactFraction_of_place? place, ?_⟩
  simp only [product]
  rfl

/-! ## Keeping time -/

/-- Positions go to ticks, so many in a quarter note, each to the nearest one, and stay in their order. -/
structure KeepsTime (resolution : Int) (tick : Rat → Int) : Prop where
  /-- A later position is not at an earlier tick. -/
  ordered : ∀ a b, a ≤ b → tick a ≤ tick b
  /-- No position is moved by more than one half of a tick. -/
  near : ∀ a, |tick a - a * resolution| ≤ 1 / 2
  /-- Half-way between two ticks the even one is taken. -/
  even : ∀ a, |tick a - a * resolution| = 1 / 2 → tick a % 2 = 0
  /-- Positions that are more than one tick apart are at different ticks. -/
  apart : ∀ a b, 1 / (resolution : Rat) < b - a → tick a < tick b

/-- Ticks keep time at every resolution of one tick or more in a quarter note, and so do those of numbers that are given
as data. -/
theorem ticks_keep_time (positive : 1 ≤ resolution) :
    KeepsTime resolution (ticks · resolution) ∧
      ∀ (position perQuarter : Number) (beats : Rat), position.place? = some (.rational beats) →
        perQuarter.toInt? = some resolution →
          ticksOfData (.number position) (.number perQuarter) = .ok (ticks beats resolution) := by
  have forward : 0 < resolution := positive
  have keeps : KeepsTime resolution (ticks · resolution) :=
    { ordered := fun _ _ => ticks_mono forward.le
      near := fun beats => abs_ticks_sub_le beats resolution
      even := fun _ => ticks_even
      apart := fun _ _ => ticks_lt forward }
  exact ⟨keeps, fun _ _ _ => ticksOfData_of_place?⟩

/-- With five ticks in a quarter note, three tenths of a beat are half-way after the first tick and go up to the second,
and eight fifteenths, which are more than one tick later, go to the third. -/
theorem five_ticks_keep_time :
    (1 : Int) ≤ 5 ∧ |(ticks (3 / 10) 5 : Rat) - 3 / 10 * (5 : Int)| = 1 / 2 ∧ ticks (3 / 10) 5 % 2 = 0 ∧
      1 / ((5 : Int) : Rat) < 8 / 15 - 3 / 10 ∧ ticks (3 / 10) 5 < ticks (8 / 15) 5 ∧
      ticksOfData (.ofRat (3 / 10)) (.ofInt 5) = .ok 2 := by
  have first : ticks (3 / 10) 5 = 2 := by decide +kernel
  have halfway : |(ticks (3 / 10) 5 : Rat) - 3 / 10 * (5 : Int)| = 1 / 2 := by
    rw [first]
    norm_num
  have apart : 1 / ((5 : Int) : Rat) < 8 / 15 - 3 / 10 := by norm_num
  have positive : (1 : Int) ≤ 5 := by decide
  obtain ⟨keeps, fromData⟩ := ticks_keep_time positive
  have given := fromData (.ratio (3 / 10)) (.ofInt 5) (3 / 10) rfl rfl
  exact ⟨positive, halfway, keeps.even _ halfway, apart, keeps.apart _ _ apart, first ▸ given⟩

end MusicScore.Midi
