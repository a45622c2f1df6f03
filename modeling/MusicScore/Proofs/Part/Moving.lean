import Mathlib
import MusicScore.Proofs.Midi.Retiming
import MusicScore.Proofs.Number.Rounding
import MusicScore.Proofs.Part.Lengths
import MusicScore.Proofs.Workspace.Reachable

/-!
# Moving phrases by whole beats

At an even resolution a part plays the same when all its phrases start some whole beats later: the same strokes in
the same order, each so many ticks later. No event becomes longer or shorter by it, however its start and its end are
rounded, so that the one part is accepted exactly when the other is.

This depends on the resolution. Half-way between two ticks the even one is taken, and the parity of a tick is the same
some beats later only if a beat has an even number of ticks.
-/
namespace MusicScore

open Midi

/-- Whole beats later is so many ticks later, where a beat has an even number of ticks. -/
theorem Midi.ticks_add_beats {resolution : Int} (even : resolution % 2 = 0) (position : Rat) (beats : Nat) :
    ticks (position + beats) resolution = ticks position resolution + beats * resolution := by
  have steps : (position + beats) * resolution = position * resolution + (beats * resolution : Int) := by
    push_cast
    rw [add_mul]
  have evenSteps : (beats * resolution) % 2 = 0 := by
    rw [Int.mul_emod, even, mul_zero]
    rfl
  unfold ticks
  rw [steps, roundHalfEven_add_even _ evenSteps]

-- with one tick to the beat, beat one half is rounded down and beat one and a half is rounded up
example : ticks (1 / 2) 1 = 0 ∧ ticks (1 / 2 + 1) 1 = 2 := by decide +kernel

namespace Placed

/-- The same thing some beats later in a part. -/
def moved {α : Type} (x : Placed α) (beats : Rat) : Placed α := { x with start := x.start + beats }

/-- The events of a phrase are moved with it. -/
theorem events_moved (x : Placed Phrase) (beats : Rat) : (x.moved beats).events = x.events.map (·.shifted beats) := by
  have twice (r : Resolved) : r.shifted (x.start + beats) = (r.shifted x.start).shifted beats := by
    simp only [Resolved.shifted, add_assoc]
  unfold events
  rw [List.map_map]
  exact List.map_congr_left fun r _ => twice r

end Placed

namespace Resolved

/-- The number of ticks that an event comes to. -/
def tickLength (resolution : Int) (r : Resolved) : Int := ticks r.finish resolution - ticks r.start resolution

/-- Events may be numbered before or after they are moved. -/
theorem number_shifted (events : List Resolved) (beats : Rat) :
    number (events.map (·.shifted beats)) = (number events).map (·.shifted beats) := by
  simp only [number, List.mapIdx_eq_zipIdx_map, List.zipIdx_map, List.map_map]
  rfl

/-- An event some whole beats later comes to the ticks that are so many later. -/
theorem retimed_shifted {resolution : Int} (even : resolution % 2 = 0) (r : Resolved) (beats : Nat) :
    r.Retimed (· + beats * resolution) resolution resolution (r.shifted beats) where
  event := rfl
  order := rfl
  start := ticks_add_beats even r.start beats
  finish := ticks_add_beats even r.finish beats

/-- An event some whole beats later comes to as many ticks. -/
theorem tickLength_shifted {resolution : Int} (even : resolution % 2 = 0) (r : Resolved) (beats : Nat) :
    (r.shifted beats).tickLength resolution = r.tickLength resolution := by
  obtain ⟨_, _, start, finish⟩ := r.retimed_shifted even beats
  unfold tickLength
  rw [start, finish]
  omega

end Resolved

namespace Part

/-- The second part plays what the first one does, so many ticks later. -/
structure Delays (resolution shift : Int) (first later : Part) : Prop where
  /-- The one has strokes exactly when the other has. -/
  accepted : (∃ strokes, Stroke.ofTimeline resolution later.timeline = .ok strokes) ↔
    ∃ strokes, Stroke.ofTimeline resolution first.timeline = .ok strokes
  /-- In order, the strokes are the same but for their ticks. -/
  strokes : ∀ early late, Stroke.ofTimeline resolution first.timeline = .ok early →
    Stroke.ofTimeline resolution later.timeline = .ok late →
      Stroke.sort late = (Stroke.sort early).map (Stroke.retimed (· + shift))
  /-- Each event comes to as many ticks. -/
  lengths : later.timeline.map (Resolved.tickLength resolution) =
    first.timeline.map (Resolved.tickLength resolution)

variable {first later : Part}

/-- Where all phrases of a part are put some beats later, so are its events. -/
theorem timeline_moved {beats : Rat} (moved : later.placed = first.placed.map (·.moved beats)) :
    later.timeline = first.timeline.map (·.shifted beats) := by
  have authored : later.authored = first.authored.map (·.shifted beats) := by
    unfold Part.authored
    rw [← Resolved.number_shifted, moved, List.flatMap_map, List.map_flatMap]
    simp only [Placed.events_moved]
  have sameOrder : ∀ a ∈ first.authored, ∀ b ∈ first.authored,
      a.startsBy b = (a.shifted beats).startsBy (b.shifted beats) := by
    intro a _ b _
    simp only [Resolved.startsBy, Resolved.shifted, add_le_add_iff_right]
  unfold timeline
  rw [authored, List.map_mergeSort sameOrder]

/-- Where all phrases of a part are put some whole beats later, the part plays the same so many ticks later. -/
theorem delays_of_moved {resolution : Int} {beats : Nat} (even : resolution % 2 = 0)
    (moved : later.placed = first.placed.map (·.moved beats)) : first.Delays resolution (beats * resolution) later := by
  have forward : StrictMono fun tick : Int => tick + beats * resolution := fun _ _ earlier =>
    Int.add_lt_add_right earlier (beats * resolution)
  have moves : ∀ r ∈ first.timeline, r.Retimed (· + beats * resolution) resolution resolution (r.shifted beats) :=
    fun r _ => r.retimed_shifted even beats
  constructor
  case accepted =>
    simp only [Stroke.ofTimeline_eq_ok, exists_and_left, exists_eq, and_true, timeline_moved moved]
    exact Stroke.forall_long_retimed_iff forward moves
  case strokes =>
    intro early late played replayed
    obtain ⟨_, rfl⟩ := Stroke.ofTimeline_eq_ok.mp played
    obtain ⟨_, rfl⟩ := Stroke.ofTimeline_eq_ok.mp replayed
    rw [timeline_moved moved]
    exact Stroke.sort_flatMap_retimed forward moves
  case lengths =>
    rw [timeline_moved moved, List.map_map]
    exact List.map_congr_left fun r _ => r.tickLength_shifted even beats

/-- A phrase may be put into a part at beat zero or at any whole beat after it. At an even resolution the part plays
the same in both cases, except that in the second it is so many ticks later. -/
theorem addPhrase_delays {resolution : Int} (even : resolution % 2 = 0) (instrument : Instrument) (name : Datum)
    (phrase : Phrase) (beats : Nat) :
    ∃ first later : Part, Part.addPhrase (PartOf.empty instrument name) phrase 0 = .ok first ∧
      Part.addPhrase (PartOf.empty instrument name) phrase beats = .ok later ∧
      first.Delays resolution (beats * resolution) later := by
  refine ⟨_, _, PartOf.place_eq_ok.mpr ⟨le_refl 0, rfl⟩, PartOf.place_eq_ok.mpr ⟨Nat.cast_nonneg beats, rfl⟩, ?_⟩
  apply delays_of_moved even
  simp [PartOf.empty, Placed.moved]

/-- A line of two notes. Where a beat has two ticks, the second one starts and ends half-way between ticks. -/
def halfway : Phrase :=
  let note := Workspace.middleC TimeSignature.common.beatUnit
  (Workspace.solo "Halfway" 60 [.trailing note (.text "1/4"), .event note]).phrase ⟨0⟩

/-- Three beats later the line plays the same six ticks later, with its halves rounded as before. -/
theorem halfway_delays : halfway.resolved.map (fun r => (r.start * 2, r.finish * 2)) = [(0, 2), (1 / 2, 5 / 2)] ∧
    ∃ first later : Part, Part.addPhrase (PartOf.empty .first (.text "Line")) halfway 0 = .ok first ∧
      Part.addPhrase (PartOf.empty .first (.text "Line")) halfway (3 : Nat) = .ok later ∧
      first.Delays 2 ((3 : Nat) * 2) later :=
  ⟨by cbv, addPhrase_delays (by decide) _ _ halfway 3⟩

end Part

end MusicScore
