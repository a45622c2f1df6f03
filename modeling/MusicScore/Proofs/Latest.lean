import Mathlib.Algebra.Order.Ring.Rat
import MusicScore.Phrase.Basic

/-!
# The latest of some beats

Phrases, parts and scores keep the latest of some beats and do not look for it again. What they keep is the
latest when every beat is at or before it and one of the beats is reached; where there are no beats it is
zero. As long as no beat is negative, the latest of more beats is the later of the two.
-/
namespace MusicScore

/-- The later of two beats is their maximum. -/
theorem later_eq_max (a b : Rat) : later a b = max a b := rfl

/-- A beat that is not after another is not the later of the two. -/
theorem later_of_le {a b : Rat} (ordered : a ≤ b) : later a b = b := if_pos ordered

/-- The beat is the latest of the given ones; zero where there are none. -/
structure IsLatest (beats : List Rat) (latest : Rat) : Prop where
  bound : ∀ b ∈ beats, b ≤ latest
  reached : beats ≠ [] → latest ∈ beats
  absent : beats = [] → latest = 0

namespace IsLatest

variable {beats others : List Rat} {a b : Rat}

/-- No beats have zero for the latest. -/
theorem nil : IsLatest [] 0 := ⟨by simp, fun some => absurd rfl some, fun _ => rfl⟩

/-- A single beat is the latest. -/
theorem single (b : Rat) : IsLatest [b] b := ⟨by simp, by simp, by simp⟩

/-- There is one latest beat only. -/
theorem unique (first : IsLatest beats a) (second : IsLatest beats b) : a = b := by
  by_cases none : beats = []
  · rw [first.absent none, second.absent none]
  · exact le_antisymm (second.bound a (first.reached none)) (first.bound b (second.reached none))

/-- The latest of beats that are not negative is not negative. -/
theorem nonneg (latest : IsLatest beats a) (late : ∀ b ∈ beats, 0 ≤ b) : 0 ≤ a := by
  by_cases none : beats = []
  · exact (latest.absent none).ge
  · exact late a (latest.reached none)

/-- The latest of two lots of beats is the later of the two, if neither is negative. Without this the zero that
stands for no beats would be later than a negative beat. -/
theorem append (first : IsLatest beats a) (second : IsLatest others b) (late : 0 ≤ a) (lateToo : 0 ≤ b) :
    IsLatest (beats ++ others) (later a b) := by
  rw [later_eq_max]
  constructor
  case bound =>
    intro c member
    rcases List.mem_append.mp member with left | right
    · exact le_max_of_le_left (first.bound c left)
    · exact le_max_of_le_right (second.bound c right)
  case reached =>
    intro some
    by_cases left : beats = []
    · have right : others ≠ [] := fun none => some (by simp [left, none])
      rw [first.absent left, max_eq_right lateToo]
      exact List.mem_append_right beats (second.reached right)
    · by_cases right : others = []
      · rw [second.absent right, max_eq_left late]
        exact List.mem_append_left others (first.reached left)
      · rcases max_choice a b with same | same
        · rw [same]
          exact List.mem_append_left others (first.reached left)
        · rw [same]
          exact List.mem_append_right beats (second.reached right)
  case absent =>
    intro none
    obtain ⟨left, right⟩ := List.append_eq_nil_iff.mp none
    rw [first.absent left, second.absent right, max_self]

/-- Further beats up to the latest change nothing, if there are some only beside others. -/
theorem extend (latest : IsLatest beats a) (within : ∀ b ∈ others, b ≤ a) (beside : beats = [] → others = []) :
    IsLatest (beats ++ others) a where
  bound := by
    intro b member
    rcases List.mem_append.mp member with left | right
    · exact latest.bound b left
    · exact within b right
  reached := by
    intro some
    have left : beats ≠ [] := fun none => some (by simp [none, beside none])
    exact List.mem_append_left others (latest.reached left)
  absent := fun none => latest.absent (List.append_eq_nil_iff.mp none).1

/-- Beats that move to later ones, but not beyond the latest, have the same latest. -/
theorem moved {α : Type} {items : List α} {f g : α → Rat} (latest : IsLatest (items.map f) a)
    (later : ∀ x ∈ items, f x ≤ g x) (within : ∀ x ∈ items, g x ≤ a) : IsLatest (items.map g) a where
  bound := List.forall_mem_map.mpr within
  reached := by
    -- the beat that reached the latest has moved no further
    intro some
    obtain ⟨x, member, own⟩ := List.mem_map.mp (latest.reached (by simpa using some))
    exact List.mem_map.mpr ⟨x, member, le_antisymm (within x member) (own ▸ later x member)⟩
  absent := fun none => latest.absent (by simpa using none)

/-- Items that each have their latest beat have the latest of all of them, from a start that is the latest of
other beats. -/
theorem foldl_from {α : Type} {ends : α → List Rat} {last : α → Rat} {items : List α}
    (latest : IsLatest beats a) (late : 0 ≤ a) (each : ∀ x ∈ items, IsLatest (ends x) (last x))
    (eachLate : ∀ x ∈ items, 0 ≤ last x) :
    IsLatest (beats ++ items.flatMap ends) (items.foldl (fun b x => later b (last x)) a) := by
  induction items generalizing beats a with
  | nil => simpa using latest
  | cons x rest inductionHypothesis =>
    have both : IsLatest (beats ++ ends x) (later a (last x)) :=
      latest.append (each x List.mem_cons_self) late (eachLate x List.mem_cons_self)
    have bothLate : 0 ≤ later a (last x) := le_trans late (le_later_left _ _)
    simpa [List.append_assoc] using inductionHypothesis both bothLate
      (fun y member => each y (List.mem_cons_of_mem x member))
      (fun y member => eachLate y (List.mem_cons_of_mem x member))

/-- The latest of the beats of all items is the latest of their latest ones. -/
theorem foldl {α : Type} {ends : α → List Rat} {last : α → Rat} {items : List α}
    (each : ∀ x ∈ items, IsLatest (ends x) (last x)) (eachLate : ∀ x ∈ items, 0 ≤ last x) :
    IsLatest (items.flatMap ends) (items.foldl (fun b x => later b (last x)) 0) :=
  nil.foldl_from (le_refl 0) each eachLate

end IsLatest

end MusicScore
