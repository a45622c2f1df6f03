import Mathlib
import MusicScore.Proofs.Timeline.Order
import MusicScore.Timeline.Summary

/-!
# What a comparison of timelines counts

A comparison looks at the places of notes, that is at the lists of the numbers by which notes are ordered, and
counts each place once. Its three counts are those of the places in both timelines, of those in the second one
only and of those in the first one only, so that two of them make up the places of either timeline. They make
up its notes exactly when no two of these agree in all numbers; notes in unison are lost.
-/
namespace MusicScore.Timeline

/-- No two notes of the timeline agree in all numbers by which they are ordered. -/
def IsDistinct (t : Timeline) : Prop := t.notes.Pairwise fun n m => ¬ n.same m = true

/-- The places of some notes. -/
def places (notes : List Note) : Finset (List (WithBot (WithTop ℚ))) := (notes.map Note.points).toFinset

variable {notes others : List Note} {n : Note} {t other : Timeline}

/-- A note agrees with one of some notes exactly when it has a place of theirs. -/
theorem any_same_iff (own : n.isOrdered = true) (ordered : ∀ m ∈ notes, m.isOrdered = true) :
    notes.any n.same = true ↔ n.points ∈ places notes := by
  simp only [List.any_eq_true, places, List.mem_toFinset, List.mem_map]
  refine exists_congr fun m => and_congr_right fun member => ?_
  rw [Note.same_iff own (ordered m member), eq_comm]

/-! ## Repetitions -/

/-- Notes that were seen, the last one first, no two of them in one place, and the places they cover. -/
structure Seen (seen notes : List Note) : Prop where
  subset : ∀ n ∈ seen, n ∈ notes
  nodup : (seen.map Note.points).Nodup
  places_eq : places seen = places notes

/-- A further note is kept if its place has not been seen. -/
theorem Seen.next {seen : List Note} (kept : Seen seen notes) (ordered : ∀ m ∈ notes, m.isOrdered = true)
    (own : n.isOrdered = true) : Seen (if seen.any n.same then seen else n :: seen) (notes ++ [n]) := by
  have known : ∀ m ∈ seen, m.isOrdered = true := fun m member => ordered m (kept.subset m member)
  have after : places (notes ++ [n]) = insert n.points (places notes) := by
    simp [places]
  by_cases repeated : seen.any n.same = true
  · have inside : n.points ∈ places notes := kept.places_eq ▸ (any_same_iff own known).mp repeated
    rw [if_pos repeated]
    refine ⟨fun m member => List.mem_append_left _ (kept.subset m member), kept.nodup, ?_⟩
    rw [after, Finset.insert_eq_of_mem inside, kept.places_eq]
  · have fresh : n.points ∉ seen.map Note.points := fun member =>
      repeated ((any_same_iff own known).mpr (List.mem_toFinset.mpr member))
    rw [if_neg repeated]
    refine ⟨?_, List.nodup_cons.mpr ⟨fresh, kept.nodup⟩, ?_⟩
    · intro m member
      rcases List.mem_cons.mp member with rfl | earlier
      · exact List.mem_append_right _ (List.mem_singleton.mpr rfl)
      · exact List.mem_append_left _ (kept.subset m earlier)
    · rw [after, ← kept.places_eq]
      simp [places]

/-- Without repetitions there is one note in each place. -/
theorem seen_distinct (ordered : ∀ n ∈ notes, n.isOrdered = true) : Seen (distinct notes) notes := by
  -- Notes that were seen are kept in the reverse order, which matters to none of the three properties.
  have kept : Seen (notes.foldl (fun seen n => if seen.any n.same then seen else n :: seen) []) notes := by
    induction notes using List.reverseRecOn with
    | nil => exact ⟨by simp, by simp, rfl⟩
    | append_singleton earlier n inductionHypothesis =>
      rw [List.foldl_append]
      obtain ⟨before, own⟩ := List.forall_mem_append.mp ordered
      exact (inductionHypothesis before).next before (own n (List.mem_singleton.mpr rfl))
  refine ⟨fun n member => kept.subset n (List.mem_reverse.mp member), ?_, ?_⟩
  · simpa [distinct, List.map_reverse] using kept.nodup
  · rw [← kept.places_eq]
    simp [distinct, places]

/-- Of notes in different places, those whose place passes a test are as many as the places that pass it. -/
theorem length_filter (apart : (notes.map Note.points).Nodup) {test : Note → Bool}
    {passes : List (WithBot (WithTop ℚ)) → Prop} [DecidablePred passes]
    (each : ∀ n ∈ notes, test n = true ↔ passes n.points) :
    (notes.filter test).length = ((places notes).filter passes).card := by
  have kept : ((notes.filter test).map Note.points).Nodup := apart.sublist (List.filter_sublist.map _)
  have same : ((notes.filter test).map Note.points).toFinset = (places notes).filter passes := by
    ext point
    simp only [places, List.mem_toFinset, List.mem_map, List.mem_filter, Finset.mem_filter]
    constructor
    · rintro ⟨n, ⟨member, passed⟩, rfl⟩
      exact ⟨⟨n, member, rfl⟩, (each n member).mp passed⟩
    · rintro ⟨⟨n, member, rfl⟩, passed⟩
      exact ⟨n, ⟨member, (each n member).mpr passed⟩, rfl⟩
  rw [← same, List.toFinset_card_of_nodup kept, List.length_map]

/-! ## The counts -/

/-- The counts of a comparison are those of the places in the second timeline only, in the first one only, and in
both. -/
theorem difference_counts (ordered : ∀ n ∈ t.notes, n.isOrdered = true)
    (orderedToo : ∀ n ∈ other.notes, n.isOrdered = true) :
    (t.difference other).added = (places other.notes \ places t.notes).card ∧
      (t.difference other).removed = (places t.notes \ places other.notes).card ∧
        (t.difference other).unchanged = (places t.notes ∩ places other.notes).card := by
  have mine := seen_distinct ordered
  have others := seen_distinct orderedToo
  have own : ∀ n ∈ distinct t.notes, n.isOrdered = true := fun n member => ordered n (mine.subset n member)
  have ownToo : ∀ n ∈ distinct other.notes, n.isOrdered = true := fun n member =>
    orderedToo n (others.subset n member)
  refine ⟨?_, ?_, ?_⟩
  · rw [Finset.sdiff_eq_filter, ← others.places_eq, ← mine.places_eq]
    refine length_filter others.nodup fun n member => ?_
    rw [Bool.not_eq_true', ← Bool.not_eq_true, any_same_iff (ownToo n member) own]
  · rw [Finset.sdiff_eq_filter, ← others.places_eq, ← mine.places_eq]
    refine length_filter mine.nodup fun n member => ?_
    rw [Bool.not_eq_true', ← Bool.not_eq_true, any_same_iff (own n member) ownToo]
  · rw [← Finset.filter_mem_eq_inter, ← others.places_eq, ← mine.places_eq]
    exact length_filter mine.nodup fun n member => any_same_iff (own n member) ownToo

/-- There are as many places as notes exactly when no two notes agree in all numbers. -/
theorem card_places_eq_iff (ordered : ∀ n ∈ t.notes, n.isOrdered = true) :
    (places t.notes).card = t.noteCount ↔ t.IsDistinct := by
  have counted : (places t.notes).card = (t.notes.map Note.points).length ↔ (t.notes.map Note.points).Nodup :=
    Multiset.toFinset_card_eq_card_iff_nodup (m := Multiset.ofList (t.notes.map Note.points))
  rw [List.length_map] at counted
  rw [noteCount, counted, IsDistinct, List.Nodup, List.pairwise_map]
  refine List.Pairwise.iff_of_mem fun {n m} left right => ?_
  rw [Note.same_iff (ordered n left) (ordered m right)]

/-- A comparison accounts for every note of either timeline exactly when no two notes of it agree in all
numbers. -/
theorem difference_accounts_iff (ordered : ∀ n ∈ t.notes, n.isOrdered = true)
    (orderedToo : ∀ n ∈ other.notes, n.isOrdered = true) :
    ((t.difference other).unchanged + (t.difference other).added = other.noteCount ↔ other.IsDistinct) ∧
      ((t.difference other).unchanged + (t.difference other).removed = t.noteCount ↔ t.IsDistinct) := by
  obtain ⟨added, removed, unchanged⟩ := difference_counts ordered orderedToo
  rw [added, removed, unchanged, Finset.card_inter_add_card_sdiff, card_places_eq_iff ordered, Finset.inter_comm,
    Finset.card_inter_add_card_sdiff, card_places_eq_iff orderedToo]
  exact ⟨Iff.rfl, Iff.rfl⟩

end MusicScore.Timeline
