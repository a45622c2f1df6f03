import Mathlib
import MusicScore.Proofs.Midi.Playing

/-!
# The same strokes at other ticks

Events may come to other ticks: at another resolution, or when their beats are moved. Where the new ticks are given
by a function of the old ones that keeps them apart and in their order, nothing else changes. An event is too short
at its new ticks exactly when it was at the old ones, and the strokes of a timeline come in the same order, each at
its new tick. Every tie stays a tie, so that it is decided by touch and order as before.

Where each tick becomes the same number of times as great, so does each distance of a track.
-/
namespace MusicScore

open Midi

namespace Midi.Stroke

/-- The stroke at the tick that a function gives for its own. -/
def retimed (f : Int → Int) (s : Stroke) : Stroke := { s with tick := f s.tick }

/-- Strokes at new ticks that are in the order of the old ones are in the same order. -/
theorem atMost_retimed {f : Int → Int} (forward : StrictMono f) (a b : Stroke) :
    (a.retimed f).atMost (b.retimed f) = a.atMost b := by
  have level : f a.tick = f b.tick ↔ a.tick = b.tick := forward.injective.eq_iff
  have before : f a.tick < f b.tick ↔ a.tick < b.tick := forward.lt_iff_lt
  rw [Bool.eq_iff_iff, atMost_iff, atMost_iff]
  simp only [retimed, level, before]

/-- Sorting comes to the same before and after the strokes are put at new ticks. -/
theorem sort_retimed {f : Int → Int} (forward : StrictMono f) (strokes : List Stroke) :
    sort (strokes.map (retimed f)) = (sort strokes).map (retimed f) :=
  (List.map_mergeSort fun a _ b _ => (atMost_retimed forward a b).symm).symm

end Midi.Stroke

namespace Resolved

/-- The second event is the first one, except that at its own resolution it starts and ends at the ticks that a
function gives for those of the first. -/
structure Retimed (f : Int → Int) (resolution other : Int) (r moved : Resolved) : Prop where
  event : moved.event = r.event
  order : moved.order = r.order
  start : ticks moved.start other = f (ticks r.start resolution)
  finish : ticks moved.finish other = f (ticks r.finish resolution)

variable {f : Int → Int} {resolution other : Int} {r moved : Resolved}

/-- An event is too short at its new ticks exactly when it was too short at the old ones. -/
theorem Retimed.tooShort_iff (retimed : Retimed f resolution other r moved) (forward : StrictMono f) :
    moved.TooShort other ↔ r.TooShort resolution := by
  unfold TooShort
  rw [retimed.event, retimed.start, retimed.finish, forward.le_iff_le]

/-- The strokes of an event come at its new ticks. -/
theorem Retimed.strokes (retimed : Retimed f resolution other r moved) :
    moved.strokes other = (r.strokes resolution).map (Stroke.retimed f) := by
  unfold Resolved.strokes
  rw [retimed.event, retimed.order, retimed.start, retimed.finish, List.map_flatMap]
  rfl

end Resolved

namespace Midi.Stroke

variable {f : Int → Int} {resolution other : Int} {timeline : List Resolved} {move : Resolved → Resolved}

/-- The strokes of a timeline whose events come to new ticks are the old ones in the same order, each at its new
tick. -/
theorem sort_flatMap_retimed (forward : StrictMono f)
    (moves : ∀ r ∈ timeline, r.Retimed f resolution other (move r)) :
    sort ((timeline.map move).flatMap (Resolved.strokes other)) =
      (sort (timeline.flatMap (Resolved.strokes resolution))).map (retimed f) := by
  have each : (timeline.map move).flatMap (Resolved.strokes other) =
      (timeline.flatMap (Resolved.strokes resolution)).map (retimed f) := by
    rw [List.flatMap_map, List.map_flatMap]
    exact List.flatMap_congr fun r member => (moves r member).strokes
  rw [each, sort_retimed forward]

/-- No event of a timeline is too short at its new ticks exactly when none was at the old ones. -/
theorem forall_long_retimed_iff (forward : StrictMono f)
    (moves : ∀ r ∈ timeline, r.Retimed f resolution other (move r)) :
    (∀ r ∈ timeline.map move, ¬ r.TooShort other) ↔ ∀ r ∈ timeline, ¬ r.TooShort resolution := by
  rw [List.forall_mem_map]
  exact forall₂_congr fun r member => not_congr ((moves r member).tooShort_iff forward)

end Midi.Stroke

namespace Midi

/-- The message at so many times the distance. -/
def Timed.stretched (factor : Nat) (t : Timed) : Timed := ⟨factor * t.delta, t.message⟩

namespace Track

variable {factor : Nat}

/-- The track with every distance so many times as great. -/
def stretched (factor : Nat) (track : Track) : Track := track.map (Timed.stretched factor)

/-- Distances that a quantity can hold were so before they were stretched. -/
theorem GapsFit.shrink {now : Int} {strokes : List Stroke} (positive : 0 < factor)
    (fits : GapsFit (factor * now) (strokes.map (Stroke.retimed (factor * ·)))) : GapsFit now strokes := by
  induction strokes generalizing now with
  | nil => exact gapsFit_nil now
  | cons s rest inductionHypothesis =>
    rw [List.map_cons] at fits
    obtain ⟨near, others⟩ := gapsFit_cons.mp fits
    refine gapsFit_cons.mpr ⟨?_, inductionHypothesis others⟩
    change factor * s.tick - factor * now ≤ Quantity.greatest at near
    rw [← mul_sub] at near
    -- a distance below zero is no obstacle, and one from zero on does not shrink when it is multiplied
    rcases le_total (s.tick - now) 0 with back | ahead
    · exact back.trans (by decide)
    · refine le_trans ?_ near
      exact le_mul_of_one_le_left ahead (by exact_mod_cast positive)

/-- The messages of strokes at so many times their ticks are at so many times their distances. -/
theorem ofHeard_stretched (factor channel : Nat) (now : Int) (strokes : List Stroke) :
    ofHeard channel (factor * now) (strokes.map (Stroke.retimed (factor * ·))) =
      (ofHeard channel now strokes).stretched factor := by
  induction strokes generalizing now with
  | nil => rfl
  | cons s rest inductionHypothesis =>
    have first : (Timed.mk (factor * s.tick - factor * now) (s.message channel)) =
        Timed.stretched factor ⟨s.tick - now, s.message channel⟩ := by
      rw [Timed.stretched, mul_sub]
    exact congrArg₂ List.cons first (inductionHypothesis s.tick)

/-- A layout of strokes at so many times their ticks is the stretched layout. -/
theorem layout_stretched (factor : Nat) (opening : List Message) (channel program : Nat) (strokes : List Stroke) :
    layout opening channel program (strokes.map (Stroke.retimed (factor * ·))) =
      (layout opening channel program strokes).stretched factor := by
  have atOnce (messages : List Message) :
      (messages.map (Timed.mk 0)).map (Timed.stretched factor) = messages.map (Timed.mk 0) := by
    simp [Timed.stretched]
  have last : [Timed.mk 0 .endOfTrack].map (Timed.stretched factor) = [⟨0, .endOfTrack⟩] := atOnce [.endOfTrack]
  have played := ofHeard_stretched factor channel 0 strokes
  rw [mul_zero] at played
  simp only [layout, played, stretched, List.map_append, atOnce, last]

end Track

end Midi

end MusicScore
