import Mathlib.Data.List.Pairwise
import MusicScore.Proofs.Scale.Walk

/-!
# Scales that ascend

What is taken of a scale ascends when no step stays on its degree or leads down. Only the sum of the steps is checked,
so that a scale type may have such a step, and then there is a tonic on which its pitches do not ascend or are refused.
The one exception is a step that is never taken: on every tonic the steps before it lead beyond the highest pitch, where
a scale stops.
-/
namespace MusicScore.Scale

variable {steps : List Int} {scale : Scale}

/-- The first pitches of the scale ascend, and there are fewer than `count` only if the steps lead beyond the highest
pitch. -/
def Ascends (scale : Scale) (steps : List Int) (count : Nat) : Prop :=
  ∃ pitches, scale.take count = .ok pitches ∧ (pitches.map Pitch.number).Pairwise (· < ·) ∧ pitches.length ≤ count ∧
    (pitches.length < count → Pitch.highest < reach scale.tonic.number steps pitches.length)

/-- Where each step up to a place leads up, the numbers ascend up to that place. -/
theorem reach_strictMono {tonic : Int} {stop : Nat}
    (up : ∀ place, place + 1 < stop → 0 < steps.getD (place % steps.length) 0) {lower higher : Nat}
    (less : lower < higher) (inside : higher < stop) : reach tonic steps lower < reach tonic steps higher := by
  induction higher, less using Nat.le_induction with
  | base =>
    have positive := up lower inside
    rw [reach_succ]
    omega
  | succ higher less inductionHypothesis =>
    have below := inductionHypothesis (by omega)
    have positive := up higher inside
    rw [reach_succ]
    omega

/-- Where the pitches of a scale ascend, each step that is taken before the scale stops leads up. -/
theorem Ascends.up {count : Nat} (ascends : scale.Ascends steps count) (whole : scale.type.HasSteps steps)
    (octave : steps.sum = 12) {place : Nat} (before : place + 1 < count)
    (low : ∀ earlier ≤ place, reach scale.tonic.number steps earlier ≤ Pitch.highest) :
    0 < steps.getD (place % steps.length) 0 := by
  obtain ⟨pitches, done, ascending, _, _⟩ := ascends
  obtain ⟨stop, _, same, _, beyond⟩ := reached_eq_map scale.tonic.number steps count
  by_contra down
  have next : reach scale.tonic.number steps (place + 1) ≤ reach scale.tonic.number steps place := by
    rw [reach_succ]
    omega
  -- A step that does not lead up is taken, as the number after it is not beyond the highest pitch either.
  have taken : place + 1 < stop := by
    by_contra stopped
    have cut := beyond (by omega)
    obtain rfl | earlier : stop = place + 1 ∨ stop ≤ place := by omega
    · exact absurd (next.trans (low place le_rfl)) (not_le.mpr cut)
    · exact absurd (low stop earlier) (not_le.mpr cut)
  rw [number_of_take whole octave done, same, List.pairwise_map, List.pairwise_iff_getElem] at ascending
  have above := ascending place (place + 1) (by simp; omega) (by simpa using taken) (Nat.lt_succ_self place)
  simp only [List.getElem_range] at above
  omega

/-- The pitches of a scale ascend if each step that is taken before the scale stops leads up. -/
theorem ascends_of_up (scale : Scale) (whole : scale.type.HasSteps steps) (octave : steps.sum = 12) {count : Nat}
    (up : ∀ place, place + 1 < count → (∀ earlier ≤ place, reach scale.tonic.number steps earlier ≤ Pitch.highest) →
      0 < steps.getD (place % steps.length) 0) : scale.Ascends steps count := by
  obtain ⟨stop, within, same, inside, beyond⟩ := reached_eq_map scale.tonic.number steps count
  have ascending {lower higher : Nat} (less : lower < higher) (taken : higher < stop) :
      reach scale.tonic.number steps lower < reach scale.tonic.number steps higher :=
    reach_strictMono (fun place next => up place (by omega) fun earlier least => inside earlier (by omega)) less taken
  have first {place : Nat} (taken : place < stop) : scale.tonic.number ≤ reach scale.tonic.number steps place := by
    obtain rfl | later := Nat.eq_zero_or_pos place
    · rw [reach_zero]
    · simpa using (ascending later taken).le
  cases outcome : scale.take count with
  | error fault =>
    obtain ⟨before, n, after, split, _, below, _⟩ := (take_eq_error whole octave count fault).mp outcome
    have member : n ∈ reached scale.tonic.number steps count := by simp [split]
    rw [same, List.mem_map] at member
    obtain ⟨place, taken, rfl⟩ := member
    have low := scale.tonic.number_nonneg.trans (first (List.mem_range.mp taken))
    exact absurd below (not_lt.mpr low)
  | ok pitches =>
    have numbers := number_of_take whole octave outcome
    rw [same] at numbers
    have length : pitches.length = stop := by simpa using congrArg List.length numbers
    refine ⟨pitches, outcome, ?_, by omega, fun cut => length ▸ beyond (by omega)⟩
    rw [numbers, List.pairwise_map]
    exact List.pairwise_lt_range.imp_of_mem fun _ taken less => ascending less (List.mem_range.mp taken)

/-- The scale types with names of their own ascend on every tonic. -/
theorem constants_ascend : ∀ entry ∈ ScaleType.constants,
    ∃ steps, entry.2.HasSteps steps ∧ ∀ tonic count, Ascends ⟨tonic, entry.2⟩ steps count := by
  have named : ∀ entry ∈ ScaleType.constants,
      ∃ steps : List Int, entry.2.steps = steps.map .ofInt ∧ steps.sum = 12 ∧ ∀ step ∈ steps, 0 < step := by
    intro entry member
    simp only [ScaleType.constants, List.mem_cons, List.not_mem_nil, or_false] at member
    rcases member with rfl | rfl | rfl | rfl | rfl | rfl | rfl | rfl | rfl
    all_goals exact ⟨_, rfl, rfl, by decide⟩
  intro entry member
  obtain ⟨steps, own, octave, up⟩ := named entry member
  have whole : entry.2.HasSteps steps := by
    rw [ScaleType.HasSteps, Number.StandFor, own, List.forall₂_map_left_iff, List.forall₂_same]
    exact fun _ _ => rfl
  refine ⟨steps, whole, fun tonic count => ascends_of_up _ whole octave fun place _ _ => ?_⟩
  have inside : place % steps.length < steps.length := Nat.mod_lt place (ScaleType.length_pos octave)
  rw [List.getD_eq_getElem _ _ inside]
  exact up _ (List.getElem_mem inside)

/-- A scale type ascends on every tonic exactly when each of its steps leads up, those apart that are never taken since
the steps before them lead beyond the highest pitch. -/
theorem ascends_iff {type : ScaleType} {data : List Datum} {name : Datum}
    (made : ScaleType.ofData data name = .ok type) (whole : type.HasSteps steps) :
    (∀ tonic count, Ascends ⟨tonic, type⟩ steps count) ↔
      ∀ degree step, steps[degree]? = some step → step ≤ 0 →
        ∃ earlier ≤ degree, Pitch.highest < (steps.take earlier).sum := by
  have octave := whole.sum_eq made
  constructor
  · intro ascends degree step found down
    by_contra taken
    simp only [not_exists, not_and, not_lt] at taken
    obtain ⟨inside, rfl⟩ := List.getElem?_eq_some_iff.mp found
    -- On the lowest tonic the scale goes on to this step.
    have low (earlier : Nat) (before : earlier ≤ degree) : reach 0 steps earlier ≤ Pitch.highest := by
      rw [reach_of_le (by omega), zero_add]
      exact taken earlier before
    have up := (ascends ⟨.plain 0, by decide⟩ (degree + 2)).up whole octave (Nat.lt_succ_self (degree + 1)) low
    rw [Nat.mod_eq_of_lt inside, List.getD_eq_getElem _ _ inside] at up
    omega
  · intro beyond tonic count
    refine ascends_of_up _ whole octave fun place _ low => ?_
    have inside : place % steps.length < steps.length := Nat.mod_lt place (ScaleType.length_pos octave)
    by_contra down
    rw [List.getD_eq_getElem _ _ inside, not_lt] at down
    obtain ⟨earlier, before, above⟩ := beyond _ _ (List.getElem?_eq_getElem inside) down
    have here : reach tonic.number steps earlier ≤ Pitch.highest :=
      low earlier (before.trans (Nat.mod_le place steps.length))
    rw [reach_of_le (before.trans inside.le)] at here
    have lowest := tonic.number_nonneg
    omega

/-- A scale type that begins with two pitches of the same number. -/
theorem ascends_iff_repeated :
    ScaleType.ofData [.number (.ofInt 0), .number (.ofInt 12)] (.text "") =
        .ok ⟨[.ofInt 0, .ofInt 12], .text ""⟩ ∧
      ScaleType.HasSteps ⟨[.ofInt 0, .ofInt 12], .text ""⟩ [0, 12] ∧
      ¬ ∀ tonic count, Ascends ⟨tonic, ⟨[.ofInt 0, .ofInt 12], .text ""⟩⟩ [0, 12] count := by
  have made : ScaleType.ofData [.number (.ofInt 0), .number (.ofInt 12)] (.text "") =
      .ok ⟨[.ofInt 0, .ofInt 12], .text ""⟩ := rfl
  have whole : ScaleType.HasSteps ⟨[.ofInt 0, .ofInt 12], .text ""⟩ [0, 12] := .cons rfl (.cons rfl .nil)
  refine ⟨made, whole, fun ascends => ?_⟩
  obtain ⟨earlier, first, above⟩ := (ascends_iff made whole).mp ascends 0 0 rfl le_rfl
  rw [Nat.le_zero.mp first] at above
  exact absurd above (by decide)

end MusicScore.Scale
