import Mathlib.Algebra.Order.Ring.Rat
import Mathlib.Data.List.Lex
import Mathlib.Order.WithBot
import MusicScore.Proofs.Sorting
import MusicScore.Timeline.Basic

/-!
# The order of a timeline

Notes are ordered by the places of their numbers on the line, the most important number first, so notes all of
whose numbers have a place stand in a linear order. Sorting keeps each note as often as it was there, and notes
that have been sorted are left as they are.
-/
namespace MusicScore

namespace Number

/-- The place of a number on the line with both ends; what has no place is put at the lower end. -/
def point (a : Number) : WithBot (WithTop ℚ) :=
  match a.place? with
  | some (.rational q) => ((q : WithTop ℚ) : WithBot (WithTop ℚ))
  | some .plusInfinity => ⊤
  | _ => ⊥

variable {a b : Number}

/-- Numbers that have a place are ordered as their places are. -/
theorem lt_eq_point (left : a.isOrdered = true) (right : b.isOrdered = true) :
    a.lt b = decide (a.point < b.point) := by
  obtain ⟨x, left⟩ := Option.isSome_iff_exists.mp left
  obtain ⟨y, right⟩ := Option.isSome_iff_exists.mp right
  simp only [lt, point, left, right]
  have finite (q : ℚ) : ((q : WithTop ℚ) : WithBot (WithTop ℚ)) < ⊤ :=
    WithBot.coe_lt_coe.mpr (WithTop.coe_lt_top q)
  cases x <;> cases y <;> simp [Extended.before, WithBot.coe_lt_coe, finite]

/-- Numbers that have a place stand for the same quantity when their places are the same. -/
theorem same_eq_point (left : a.isOrdered = true) (right : b.isOrdered = true) :
    a.same b = decide (a.point = b.point) := by
  obtain ⟨x, left⟩ := Option.isSome_iff_exists.mp left
  obtain ⟨y, right⟩ := Option.isSome_iff_exists.mp right
  simp only [same, point, left, right]
  cases x <;> cases y <;> simp [Extended.same]

/-- Numbers that have a place count as the same when their places are. -/
theorem alike_eq_point (left : a.isOrdered = true) (right : b.isOrdered = true) :
    a.alike b = decide (a.point = b.point) := by
  unfold alike
  rw [same_eq_point left right]
  clear right
  split
  next x _ =>
    cases x with
    | nan mark => cases left
    | _ => rw [Double.sameNan.eq_def, Bool.or_false]
  next => rw [Bool.or_false]

end Number

namespace Timeline.Note

variable {a b : Note} {notes : List Note}

/-- The places of the numbers by which notes are ordered. -/
def points (n : Note) : List (WithBot (WithTop ℚ)) := n.keys.map Number.point

/-- Lists of numbers that have places are ordered as the lists of the places are. -/
theorem keysBefore_eq {as bs : List Number} (equally : as.length = bs.length)
    (left : as.all Number.isOrdered = true) (right : bs.all Number.isOrdered = true) :
    keysBefore as bs = decide (as.map Number.point < bs.map Number.point) := by
  induction as generalizing bs with
  | nil =>
    obtain rfl := List.eq_nil_of_length_eq_zero equally.symm
    rfl
  | cons a as inductionHypothesis =>
    cases bs with
    | nil => cases equally
    | cons b bs =>
      simp only [List.all_cons, Bool.and_eq_true] at left right
      simp only [keysBefore, Number.alike_eq_point left.1 right.1, Number.lt_eq_point left.1 right.1,
        inductionHypothesis (Nat.succ.inj equally) left.2 right.2, List.map_cons, List.cons_lt_cons_iff,
        decide_eq_true_eq]
      by_cases same : a.point = b.point <;> simp [same]

/-- Notes that have an order are compared by the places of their numbers. -/
theorem before_eq (left : a.isOrdered = true) (right : b.isOrdered = true) :
    before a b = decide (a.points < b.points) :=
  keysBefore_eq rfl left right

/-- Sorting keeps each note as often as it was there. -/
theorem sort_perm (notes : List Note) : (sort notes).Perm notes := by
  unfold sort
  split
  · exact List.mergeSort_perm notes _
  · unfold searchSort
    split
    next sorted done => exact Sorting.sort_perm done
    next never _ => exact never.elim

/-- Notes that have an order are sorted by the places of their numbers. -/
theorem sort_eq (ordered : ∀ n ∈ notes, n.isOrdered = true) :
    sort notes = notes.mergeSort fun a b => decide (a.points ≤ b.points) := by
  have all : notes.all isOrdered = true := List.all_eq_true.mpr ordered
  have compared : ∀ a ∈ notes, ∀ b ∈ notes, (!before b a) = decide (a.points ≤ b.points) := by
    intro a left b right
    rw [before_eq (ordered b right) (ordered a left), ← decide_not]
    exact decide_eq_decide.mpr not_lt
  have congruence : (notes.mergeSort fun a b => !before b a).map id =
      (notes.map id).mergeSort fun a b => decide (a.points ≤ b.points) := List.map_mergeSort compared
  unfold sort
  rw [if_pos all]
  simpa using congruence

/-- Notes that have an order stand in it when they are sorted. -/
theorem sort_pairwise (ordered : ∀ n ∈ notes, n.isOrdered = true) :
    (sort notes).Pairwise fun a b => a.points ≤ b.points := by
  rw [sort_eq ordered]
  refine (List.pairwise_mergeSort ?_ ?_ notes).imp of_decide_eq_true
  · intro a b c first second
    exact decide_eq_true (le_trans (of_decide_eq_true first) (of_decide_eq_true second))
  · intro a b
    simpa using le_total a.points b.points

/-- Notes that stand in their order are left as they are. -/
theorem sort_of_pairwise (ordered : ∀ n ∈ notes, n.isOrdered = true)
    (ascending : notes.Pairwise fun a b => a.points ≤ b.points) : sort notes = notes := by
  rw [sort_eq ordered]
  exact List.mergeSort_of_pairwise (ascending.imp decide_eq_true)

/-- Notes that have been sorted are left as they are. -/
theorem sort_sort (ordered : ∀ n ∈ notes, n.isOrdered = true) : sort (sort notes) = sort notes :=
  sort_of_pairwise (fun n member => ordered n ((sort_perm notes).mem_iff.mp member)) (sort_pairwise ordered)

/-- However notes are permuted, the places of their numbers come out of the sorting in one order. -/
theorem map_points_sort (ordered : ∀ n ∈ notes, n.isOrdered = true) {others : List Note}
    (permuted : others.Perm notes) : (sort others).map points = (sort notes).map points := by
  have orderedToo : ∀ n ∈ others, n.isOrdered = true := fun n member => ordered n (permuted.mem_iff.mp member)
  refine List.Perm.eq_of_pairwise (fun _ _ _ _ => le_antisymm) ?_ ?_ ?_
  · exact List.pairwise_map.mpr (sort_pairwise orderedToo)
  · exact List.pairwise_map.mpr (sort_pairwise ordered)
  · exact (((sort_perm others).trans permuted).trans (sort_perm notes).symm).map points

/-- Notes that have an order agree in all numbers when the places of their numbers do. -/
theorem same_iff (left : a.isOrdered = true) (right : b.isOrdered = true) :
    a.same b = true ↔ a.points = b.points := by
  simp only [isOrdered, keys, List.all_cons, List.all_nil, Bool.and_true, Bool.and_eq_true] at left right
  simp [same, points, keys, Number.alike_eq_point, left, right]

end Timeline.Note

end MusicScore
