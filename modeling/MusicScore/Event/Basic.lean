import MusicScore.Duration
import MusicScore.Dynamic.Basic
import MusicScore.Pitch.Basic

/-!
# Events

An event is a note, a chord or a rest. A chord sounds at least one pitch, no pitch twice, and keeps its
pitches in ascending order: this is the order in which they are written, whatever order they were given
in.
-/
namespace MusicScore

/-- One pitch sounded for a duration at a dynamic. -/
structure Note where
  pitch : Pitch
  duration : Duration
  dynamic : Dynamic

/-- Pitches that sound together: at least one, in strictly ascending order. -/
structure Harmony where
  pitches : List Pitch
  nonempty : pitches ≠ []
  ascending : pitches.Pairwise (·.number < ·.number)

/-- Pitches that share a start, a duration and a dynamic. -/
structure Chord where
  harmony : Harmony
  duration : Duration
  dynamic : Dynamic

/-- Silence for a duration. -/
structure Rest where
  duration : Duration

/-- What a phrase is made of. -/
inductive Event where
  | note (n : Note)
  | chord (c : Chord)
  | rest (r : Rest)

namespace Harmony

/-- The first pitch that was already there earlier in the list. -/
def firstRepeated? : List Pitch → Option Pitch
  | pitches => go [] pitches
where
  /-- Look for a repeated pitch, given the numbers seen so far. -/
  go (seen : List Int) : List Pitch → Option Pitch
    | [] => none
    | p :: rest => if seen.contains p.number then some p else go (p.number :: seen) rest

theorem firstRepeated?_go_eq_none {seen : List Int} {pitches : List Pitch}
    (h : firstRepeated?.go seen pitches = none) :
    pitches.Pairwise (·.number ≠ ·.number) ∧ ∀ p ∈ pitches, p.number ∉ seen := by
  induction pitches generalizing seen with
  | nil => simp
  | cons p rest ih =>
    simp only [firstRepeated?.go] at h
    split at h
    · simp at h
    · rename_i fresh
      obtain ⟨apart, unseen⟩ := ih h
      refine ⟨List.pairwise_cons.2 ⟨fun q member same => ?_, apart⟩, ?_⟩
      · exact unseen q member (by simp [same])
      · intro q member
        rcases List.mem_cons.1 member with rfl | member
        · simpa using fresh
        · exact fun seenBefore => unseen q member (List.mem_cons_of_mem _ seenBefore)

/-- The order of pitches by note number. -/
def atMost (p q : Pitch) : Bool := p.number ≤ q.number

/-- Sorting pitches that are all different puts them in strictly ascending order. -/
theorem ascending_mergeSort {pitches : List Pitch}
    (apart : pitches.Pairwise (·.number ≠ ·.number)) :
    (pitches.mergeSort atMost).Pairwise (·.number < ·.number) := by
  have sorted : (pitches.mergeSort atMost).Pairwise fun p q => atMost p q :=
    List.pairwise_mergeSort
      (fun a b c h₁ h₂ => by simp only [atMost, decide_eq_true_eq] at *; omega)
      (fun a b => by simp only [atMost, Bool.or_eq_true, decide_eq_true_eq]; omega) pitches
  have stillApart : (pitches.mergeSort atMost).Pairwise (·.number ≠ ·.number) :=
    (List.mergeSort_perm pitches atMost).symm.pairwise apart fun h => Ne.symm h
  refine (sorted.and stillApart).imp fun {p q} h => ?_
  have := h.1
  have := h.2
  simp only [atMost, decide_eq_true_eq] at *
  omega

/-- The pitches in ascending order, unless there is none or one of them is repeated. -/
def ofPitches (pitches : List Pitch) : Except Fault Harmony :=
  if empty : pitches = [] then .error (.value .emptyChord)
  else
    match repeated : firstRepeated? pitches with
    | some p => .error (.value (.duplicatePitch p.name))
    | none =>
      .ok
        { pitches := pitches.mergeSort atMost
          nonempty := fun h => empty (by
            have := (List.mergeSort_perm pitches atMost).length_eq
            rw [h] at this
            exact List.eq_nil_of_length_eq_zero this.symm)
          ascending := ascending_mergeSort (firstRepeated?_go_eq_none repeated).1 }

end Harmony

namespace Note

/-- The text of a note. -/
def text (n : Note) : Shown := n.pitch.name ++ " " ++ n.duration.name ++ " " ++ n.dynamic.name

end Note

namespace Chord

/-- The text of a chord. -/
def text (c : Chord) : Shown :=
  let names := " ".intercalate (c.harmony.pitches.map Pitch.name)
  "[" ++ names ++ "] " ++ c.duration.name ++ " " ++ c.dynamic.name

end Chord

namespace Rest

/-- The text of a rest. -/
def text (r : Rest) : Shown := "rest " ++ r.duration.name

end Rest

namespace Event

/-- The duration of an event. -/
def duration : Event → Duration
  | note n => n.duration
  | chord c => c.duration
  | rest r => r.duration

/-- The length of an event in beats. -/
def beats (e : Event) : Rat := e.duration.beats

/-- The pitches that an event sounds, in ascending order; none for a rest. -/
def pitches : Event → List Pitch
  | note n => [n.pitch]
  | chord c => c.harmony.pitches
  | rest _ => []

/-- The dynamic of an event; a rest has none. -/
def dynamic? : Event → Option Dynamic
  | note n => some n.dynamic
  | chord c => some c.dynamic
  | rest _ => none

/-- The text of an event. -/
def text : Event → Shown
  | note n => n.text
  | chord c => c.text
  | rest r => r.text

theorem beats_pos (e : Event) : 0 < e.beats := e.duration.positive

end Event

end MusicScore
