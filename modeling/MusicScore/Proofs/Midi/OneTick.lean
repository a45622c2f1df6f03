import MusicScore.Proofs.Midi.Strokes
import MusicScore.Proofs.Number.Rounding

/-!
# Events of one tick

An event is refused as shorter than one tick when it is released no later than it is pressed. Start and end
are rounded each by itself, so that an event may be refused which does last one tick: this happens exactly when
it lasts no more than that and starts half-way between an odd tick and the next one. Its start is then rounded up
to the even tick and its end down to the same. Every longer event is accepted wherever it starts.
-/
namespace MusicScore

open Midi

namespace Resolved

/-- The event lasts just one tick and starts half-way between an odd tick and the even one after it. -/
def BetweenTicks (resolution : Int) (r : Resolved) : Prop :=
  r.event.beats * resolution = 1 ∧ ∃ n : Int, n % 2 = 1 ∧ r.start * resolution = n + 1 / 2

/-- A sounding event that lasts one tick or longer counts as too short only between two ticks. -/
theorem tooShort_iff {resolution : Int} {r : Resolved} (sounds : r.event.pitches ≠ [])
    (lasts : r.finish = r.start + r.event.beats) (long : 1 ≤ r.event.beats * resolution) :
    r.TooShort resolution ↔ r.BetweenTicks resolution := by
  have steps : r.finish * resolution = r.start * resolution + r.event.beats * resolution := by
    rw [lasts, add_mul]
  unfold TooShort ticks
  rw [steps, roundHalfEven_add_le_iff long]
  exact and_iff_right sounds

/-- A middle C from a beat on that lasts one beat. -/
def beatOfC (start : Rat) (order : Int) : Resolved :=
  ⟨start, start + 1, .note ⟨⟨.plain 60, by decide⟩, TimeSignature.common.beatUnit, .standard⟩, order⟩

theorem beats_beatOfC (start : Rat) (order : Int) : (beatOfC start order).event.beats = 1 := by
  change TimeSignature.common.beatUnit.beats = 1
  decide +kernel

end Resolved

namespace Midi.Stroke

/-- A sounding event that lasts one tick or longer is refused as too short exactly when it lies between two
ticks; otherwise it has its strokes. Where the refusal has a text it is reported, and where the text is lost,
it is a number that cannot be written. -/
theorem ofTimeline_single {resolution : Int} {r : Resolved} (sounds : r.event.pitches ≠ [])
    (lasts : r.finish = r.start + r.event.beats) (long : 1 ≤ r.event.beats * resolution) :
    (ofTimeline resolution [r] = .error (.encoding (r.shortness resolution)) ↔
        r.BetweenTicks resolution) ∧
      (ofTimeline resolution [r] = .ok (r.strokes resolution) ↔ ¬ r.BetweenTicks resolution) ∧
      ∀ fault, ofTimeline resolution [r] = .error fault →
        fault.reported = if (r.shortness resolution).message = .lost then .range .unwritable
          else .encoding (r.shortness resolution) := by
  rw [← Resolved.tooShort_iff sounds lasts long]
  by_cases short : r.TooShort resolution
  · have refused : ofTimeline resolution [r] = .error (.encoding (r.shortness resolution)) :=
      ofTimeline_eq_error.mpr ⟨[], r, [], rfl, by simp, short, rfl⟩
    simp [refused, short, Fault.reported, Fault.message?]
  · have accepted : ofTimeline resolution [r] = .ok (r.strokes resolution) :=
      ofTimeline_eq_ok.mpr ⟨by simpa using short, by simp⟩
    simp [accepted, short]

/-- At one tick to the beat a note of one beat from beat three halves on lasts one tick, and is refused as
shorter. -/
theorem halfway_refused :
    (Resolved.beatOfC (3 / 2) 0).event.beats * (1 : Int) = 1 ∧
      ofTimeline 1 [Resolved.beatOfC (3 / 2) 0] =
        .error (.encoding ((Resolved.beatOfC (3 / 2) 0).shortness 1)) := by
  have sounds : (Resolved.beatOfC (3 / 2) 0).event.pitches ≠ [] := List.cons_ne_nil _ _
  have lasts : (Resolved.beatOfC (3 / 2) 0).finish =
      (Resolved.beatOfC (3 / 2) 0).start + (Resolved.beatOfC (3 / 2) 0).event.beats := by
    rw [Resolved.beats_beatOfC]
    rfl
  have oneTick : (Resolved.beatOfC (3 / 2) 0).event.beats * (1 : Int) = 1 := by
    rw [Resolved.beats_beatOfC]
    decide +kernel
  have half : (Resolved.beatOfC (3 / 2) 0).start * (1 : Int) = (1 : Int) + 1 / 2 := by decide +kernel
  have between : (Resolved.beatOfC (3 / 2) 0).BetweenTicks 1 := ⟨oneTick, 1, by decide, half⟩
  exact ⟨oneTick, (ofTimeline_single sounds lasts (le_of_eq oneTick.symm)).1.mpr between⟩

end Midi.Stroke

end MusicScore
