import Mathlib.Tactic.Common
import MusicScore.Datum.Order

/-!
# Keys that are alike

Two keys stand for one entry when they are equal, or one and the same thing that is not a number. This can be
turned round and carried on from one key to the next, though it need not hold of a key and itself: what is not
a number and bears no mark is like nothing.
-/
namespace MusicScore

/-- Points are the same only if they are one. -/
theorem Extended.same_iff {x y : Extended} : x.same y = true ↔ x = y := by
  cases x <;> cases y <;> simp [same]

/-- Two that are not numbers are one and the same when they bear one mark. -/
theorem Double.sameNan_iff {x y : Double} : x.sameNan y = true ↔ ∃ m, x = nan (some m) ∧ y = nan (some m) := by
  unfold sameNan
  split
  · simp [eq_comm]
  next apart =>
    simp only [Bool.false_eq_true, false_iff]
    rintro ⟨m, rfl, rfl⟩
    exact apart m m rfl rfl

namespace Number

variable {a b c : Number}

/-- Numbers stand for the same quantity when they have one place. -/
theorem same_iff_place : a.same b = true ↔ ∃ x, a.place? = some x ∧ b.place? = some x := by
  unfold same
  cases a.place? <;> cases b.place? <;> simp only [Extended.same_iff] <;> grind

/-- Numbers are alike when they stand for the same quantity, or are one thing that is not a number. -/
theorem alike_iff : a.alike b = true ↔
    a.same b = true ∨ ∃ m, a = float (.nan (some m)) ∧ b = float (.nan (some m)) := by
  unfold alike
  rw [Bool.or_eq_true]
  refine or_congr_right ?_
  split
  next x y => simp [Double.sameNan_iff]
  next apart =>
    simp only [Bool.false_eq_true, false_iff]
    rintro ⟨m, rfl, rfl⟩
    exact apart _ _ rfl rfl

/-- Whether numbers are the same can be turned round. -/
theorem same_symm (first : a.same b = true) : b.same a = true := by
  obtain ⟨x, left, right⟩ := same_iff_place.mp first
  exact same_iff_place.mpr ⟨x, right, left⟩

/-- Numbers that are the same as one are the same. -/
theorem same_trans (first : a.same b = true) (second : b.same c = true) : a.same c = true := by
  obtain ⟨x, left, middle⟩ := same_iff_place.mp first
  obtain ⟨y, own, right⟩ := same_iff_place.mp second
  obtain rfl := Option.some.inj (middle.symm.trans own)
  exact same_iff_place.mpr ⟨x, left, right⟩

/-- Whether numbers are alike can be turned round. -/
theorem alike_symm (first : a.alike b = true) : b.alike a = true := by
  rcases alike_iff.mp first with same | ⟨m, left, right⟩
  · exact alike_iff.mpr (.inl (same_symm same))
  · exact alike_iff.mpr (.inr ⟨m, right, left⟩)

/-- Numbers that are like one are alike. -/
theorem alike_trans (first : a.alike b = true) (second : b.alike c = true) : a.alike c = true := by
  rcases alike_iff.mp first with same | ⟨m, rfl, rfl⟩
  · rcases alike_iff.mp second with sameToo | ⟨m, rfl, rfl⟩
    · exact alike_iff.mpr (.inl (same_trans same sameToo))
    · obtain ⟨x, _, never⟩ := same_iff_place.mp same
      cases never
  · exact second

end Number

/-- Whether moments are the same can be turned round. -/
theorem Moment.same_symm {a b : Moment} (first : a.same b = true) : b.same a = true := by
  simp only [same, Bool.and_eq_true, decide_eq_true_eq] at first ⊢
  exact ⟨first.1.symm, first.2.symm⟩

/-- Moments that are the same as one are the same. -/
theorem Moment.same_trans {a b c : Moment} (first : a.same b = true) (second : b.same c = true) :
    a.same c = true := by
  simp only [same, Bool.and_eq_true, decide_eq_true_eq] at first second ⊢
  exact ⟨first.1.trans second.1, first.2.trans second.2⟩

namespace Datum

variable {a b c : Datum}

/-- Alike data are equal, or numbers that are alike. -/
theorem alike_iff : a.alike b = true ↔ a.same b = true ∨ ∃ x y, a = number x ∧ b = number y ∧ x.alike y = true := by
  unfold alike
  rw [Bool.or_eq_true]
  refine or_congr_right ?_
  unfold sameNan
  split
  next x y => simp
  next apart =>
    simp only [Bool.false_eq_true, false_iff]
    rintro ⟨x, y, rfl, rfl, _⟩
    exact apart x y rfl rfl

/-- If equality can be turned round from a datum, so can likeness. -/
theorem alike_symm_of (equal : ∀ {b}, a.same b = true → b.same a = true) (first : a.alike b = true) :
    b.alike a = true := by
  rcases alike_iff.mp first with same | ⟨x, y, rfl, rfl, alike⟩
  · exact alike_iff.mpr (.inl (equal same))
  · exact alike_iff.mpr (.inr ⟨y, x, rfl, rfl, Number.alike_symm alike⟩)

/-- Only a pair is equal to a pair. -/
theorem same_pair : (pair a b).same c = true ↔ ∃ d e, c = pair d e ∧ a.alike d = true ∧ b.alike e = true := by
  cases c <;> simp [same, alike]

/-- Only an interval is equal to an interval. -/
theorem same_interval : (interval a).same b = true ↔ ∃ c, b = interval c ∧ a.same c = true := by
  cases b <;> simp [same]

/-- Equality of keys can be turned round. -/
theorem same_symm (key : a.isKey = true) (equal : a.same b = true) : b.same a = true := by
  induction a using isKey.induct generalizing b with
  | case1 => cases key
  | case2 => cases key
  | case3 => cases key
  | case4 => cases key
  | case5 first second firstHypothesis secondHypothesis =>
    rw [isKey, Bool.and_eq_true] at key
    obtain ⟨c, d, rfl, left, right⟩ := same_pair.mp equal
    exact same_pair.mpr ⟨first, second, rfl, alike_symm_of (firstHypothesis key.1) left,
      alike_symm_of (secondHypothesis key.2) right⟩
  | case6 semitones inductionHypothesis =>
    obtain ⟨c, rfl, inside⟩ := same_interval.mp equal
    exact same_interval.mpr ⟨semitones, rfl, inductionHypothesis key inside⟩
  | case7 value noList noRecord noSet noAgain noPair noInterval =>
    -- The arms of the comparison are fewer than the pairs of kinds.
    unfold same at equal
    split at equal
    all_goals simp_all [same]
    case h_2 => exact Number.same_symm equal
    case h_5 => exact Moment.same_symm equal

/-- Numbers are alike as data when they are alike. -/
theorem alike_number {x y : Number} : (number x).alike (number y) = true ↔ x.alike y = true := by
  simp only [alike, same, sameNan, Bool.or_eq_true, or_iff_right_iff_imp]
  exact fun equal => Number.alike_iff.mpr (.inl equal)

/-- If equality is carried on from a datum, so is likeness. -/
theorem alike_trans_of (equal : ∀ {b c}, a.same b = true → b.same c = true → a.same c = true)
    (first : a.alike b = true) (second : b.alike c = true) : a.alike c = true := by
  rcases alike_iff.mp first with same | ⟨x, y, rfl, rfl, alike⟩
  · rcases alike_iff.mp second with sameToo | ⟨y, z, rfl, rfl, alike⟩
    · exact alike_iff.mpr (.inl (equal same sameToo))
    · cases a with
      | number x => exact alike_number.mpr (Number.alike_trans (alike_number.mp first) alike)
      | _ => simp [Datum.same] at same
  · cases c with
    | number z => exact alike_number.mpr (Number.alike_trans alike (alike_number.mp second))
    | _ => simp [Datum.alike, Datum.same, sameNan] at second

/-- Equality of keys is carried on. -/
theorem same_trans (key : a.isKey = true) (first : a.same b = true) (second : b.same c = true) :
    a.same c = true := by
  induction a using isKey.induct generalizing b c with
  | case1 => cases key
  | case2 => cases key
  | case3 => cases key
  | case4 => cases key
  | case5 left right leftHypothesis rightHypothesis =>
    rw [isKey, Bool.and_eq_true] at key
    obtain ⟨d, e, rfl, leftFirst, rightFirst⟩ := same_pair.mp first
    obtain ⟨f, g, rfl, leftSecond, rightSecond⟩ := same_pair.mp second
    exact same_pair.mpr ⟨f, g, rfl, alike_trans_of (leftHypothesis key.1) leftFirst leftSecond,
      alike_trans_of (rightHypothesis key.2) rightFirst rightSecond⟩
  | case6 semitones inductionHypothesis =>
    obtain ⟨d, rfl, insideFirst⟩ := same_interval.mp first
    obtain ⟨e, rfl, insideSecond⟩ := same_interval.mp second
    exact same_interval.mpr ⟨e, rfl, inductionHypothesis key insideFirst insideSecond⟩
  | case7 value noList noRecord noSet noAgain noPair noInterval =>
    unfold same at first
    split at first
    all_goals
      unfold same at second
      split at second
    all_goals first | contradiction | simp_all [same]
    case h_2 => exact Number.same_trans first second
    case h_5 => exact Moment.same_trans first second

/-- Likeness of keys can be turned round. -/
theorem alike_symm (key : a.isKey = true) (first : a.alike b = true) : b.alike a = true :=
  alike_symm_of (same_symm key) first

/-- Keys that are like one are alike. -/
theorem alike_trans (key : a.isKey = true) (first : a.alike b = true) (second : b.alike c = true) :
    a.alike c = true :=
  alike_trans_of (same_trans key) first second

end Datum

end MusicScore
