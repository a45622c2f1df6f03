import MusicScore.Proofs.Midi.Retiming
import MusicScore.Proofs.Number.Rounding
import MusicScore.Proofs.Score.Music

/-!
# Files at a finer resolution

Where every event of a score starts and ends on a tick, nothing is rounded, and a resolution that is so many times as
fine only makes each tick so many times as great. What is written is then the same: the same messages in the same
order in each track, at so many times the distances. A score that has a file at the finer resolution has one at the
coarser too, since no distance grows on the way back. The other way a distance may become too great for a quantity.
-/
namespace MusicScore

open Midi

namespace Resolved

variable {resolution : Int} {r : Resolved}

/-- The event starts and ends on a tick, so that neither is rounded. -/
structure OnTicks (resolution : Int) (r : Resolved) : Prop where
  start : ∃ tick : Int, r.start * resolution = tick
  finish : ∃ tick : Int, r.finish * resolution = tick

/-- A position on a tick is at so many times the tick when the resolution is so many times as fine. -/
theorem ticks_finer {beats : Rat} (factor : Nat) (onTick : ∃ tick : Int, beats * resolution = tick) :
    ticks beats (factor * resolution) = factor * ticks beats resolution := by
  obtain ⟨tick, exact_⟩ := onTick
  have finer : beats * ((factor * resolution : Int) : Rat) = (factor * tick : Int) := by
    push_cast
    rw [← exact_]
    ring
  unfold ticks
  rw [finer, exact_, roundHalfEven_intCast, roundHalfEven_intCast]

/-- Ticks that are so many times as great are in the same order. -/
theorem strictMono_finer {factor : Nat} (positive : 0 < factor) : StrictMono fun tick : Int => factor * tick :=
  strictMono_mul_left_of_pos (Int.natCast_pos.mpr positive)

/-- An event on ticks comes to so many times its ticks when the resolution is so many times as fine. -/
theorem OnTicks.retimed (onTicks : r.OnTicks resolution) (factor : Nat) :
    r.Retimed (factor * ·) resolution (factor * resolution) r where
  event := rfl
  order := rfl
  start := ticks_finer factor onTicks.start
  finish := ticks_finer factor onTicks.finish

end Resolved

/-- The content of a file at so many times its resolution: every distance is so many times as great. -/
def Midi.File.stretched (factor : Nat) (file : File) : File :=
  ⟨file.format, factor * file.ticksPerQuarter, file.tracks.map (Track.stretched factor)⟩

namespace Part

variable {part : Part} {resolution : Int} {factor : Nat}

/-- At a resolution that is so many times as fine, a part whose events are on ticks has its strokes in the same order,
each at so many times its tick. -/
theorem strokes_finer (positive : 0 < factor) (onTicks : ∀ r ∈ part.timeline, r.OnTicks resolution) :
    part.strokes (factor * resolution) = (part.strokes resolution).map (Stroke.retimed (factor * ·)) := by
  have moves : ∀ r ∈ part.timeline, r.Retimed (factor * ·) resolution (factor * resolution) (id r) :=
    fun r member => (onTicks r member).retimed factor
  have sorted := Stroke.sort_flatMap_retimed (Resolved.strictMono_finer positive) moves
  rwa [List.map_id] at sorted

end Part

namespace Score

variable {s : Score} {coarse fine : Options} {factor : Nat}

/-- What a track opens with does not depend on the resolution. -/
theorem openingMessages_resolution (sameNames : fine.includeTrackNames = coarse.includeTrackNames) (part : Part)
    (index : Nat) : openingMessages s fine part index = openingMessages s coarse part index := by
  have names (name : Datum) : nameMessages fine name = nameMessages coarse name := by
    unfold nameMessages
    rw [sameNames]
  unfold openingMessages generalMessages
  simp only [names]

/-- A part whose events are on ticks has a track at the coarser resolution if it has one at the finer, which is the
other one stretched. -/
theorem trackOf_coarser {part : Part} {index : Nat} {track : Track} (positive : 0 < factor)
    (finer : fine.ticksPerQuarter = factor * coarse.ticksPerQuarter)
    (sameNames : fine.includeTrackNames = coarse.includeTrackNames)
    (onTicks : ∀ r ∈ part.timeline, r.OnTicks coarse.ticksPerQuarter) (highest : index ≤ 15)
    (made : trackOf s fine part index = .ok track) :
    ∃ other, trackOf s coarse part index = .ok other ∧ track = other.stretched factor := by
  obtain ⟨opening, opened, long, gaps, rfl⟩ := (trackOf_eq_ok highest).mp made
  rw [openingMessages_resolution sameNames] at opened
  rw [finer] at long gaps ⊢
  rw [Part.strokes_finer positive onTicks] at gaps ⊢
  have shorter : Track.GapsFit 0 (part.strokes coarse.ticksPerQuarter) := by
    apply Track.GapsFit.shrink positive
    rwa [mul_zero]
  have longer : ∀ r ∈ part.timeline, ¬ r.TooShort coarse.ticksPerQuarter := by
    intro r member short
    have alike := ((onTicks r member).retimed factor).tooShort_iff (Resolved.strictMono_finer positive)
    exact long r member (alike.mpr short)
  refine ⟨_, (trackOf_eq_ok highest).mpr ⟨opening, opened, longer, shorter, rfl⟩, ?_⟩
  exact Track.layout_stretched factor opening index part.instrument.program _

/-- A score whose events are all on ticks, and which has a file at a resolution that is so many times as fine, has a
file at the coarser resolution as well: the messages are the same and in the same order, and each distance in the finer
file is so many times the one in the coarser. -/
theorem toFile_coarser {file : File} (finer : fine.ticksPerQuarter = factor * coarse.ticksPerQuarter)
    (sameNames : fine.includeTrackNames = coarse.includeTrackNames)
    (onTicks : ∀ part ∈ s.parts, ∀ r ∈ part.timeline, r.OnTicks coarse.ticksPerQuarter)
    (accepted : s.toFile fine = .ok file) :
    ∃ coarser, s.toFile coarse = .ok coarser ∧ file = coarser.stretched factor := by
  have positive : 0 < factor := by
    have fineInRange := fine.inRange.1
    by_contra zero
    obtain rfl : factor = 0 := by omega
    simp [finer] at fineInRange
  have each : ∀ part ∈ s.parts, ∀ index ≤ 15, ∀ track, trackOf s fine part index = .ok track →
      ∃ other, trackOf s coarse part index = .ok other ∧ track = other.stretched factor :=
    fun part member index highest track made =>
      trackOf_coarser positive finer sameNames (onTicks part member) highest made
  obtain ⟨tracks, remade, alike⟩ := toFile_relates each accepted
  have stretched : file.tracks = tracks.map (Track.stretched factor) := by
    rw [← List.forall₂_eq_eq_eq, List.forall₂_map_right_iff]
    exact alike
  obtain ⟨_, _, _, _, resolution⟩ := toFile_eq_ok.mp accepted
  refine ⟨_, remade, ?_⟩
  calc file = ⟨file.format, file.ticksPerQuarter, file.tracks⟩ := rfl
    _ = ⟨file.format, factor * coarse.ticksPerQuarter, tracks.map (Track.stretched factor)⟩ := by
      rw [resolution, finer, stretched]

/-- The score with the overlap starts and ends its events on whole beats, so that one tick in a beat is enough for it:
its file at the standard resolution is the one with a tick in each beat, stretched 960 times. -/
theorem overlap_coarser : ∃ coarser, (overlap.score ⟨0⟩).toFile ⟨1, true, by decide⟩ = .ok coarser ∧
    overlapFile = coarser.stretched 960 := by
  have spans : ((overlap.part ⟨1⟩).timeline.map fun r => (r.start, r.finish)) = [(1, 5), (3, 7)] := by cbv
  have onTicks : ∀ part ∈ (overlap.score ⟨0⟩).parts, ∀ r ∈ part.timeline, r.OnTicks 1 := by
    intro part inside r member
    rw [parts_overlap, List.mem_singleton] at inside
    subst inside
    have span : (r.start, r.finish) ∈ [((1 : Rat), (5 : Rat)), (3, 7)] := spans ▸ List.mem_map_of_mem member
    rcases List.mem_pair.mp span with first | second
    · obtain ⟨start, finish⟩ := Prod.mk.inj first
      exact ⟨⟨1, by simp [start]⟩, ⟨5, by simp [finish]⟩⟩
    · obtain ⟨start, finish⟩ := Prod.mk.inj second
      exact ⟨⟨3, by simp [start]⟩, ⟨7, by simp [finish]⟩⟩
  have finer : Options.standard.ticksPerQuarter = (960 : Nat) * 1 := rfl
  exact toFile_coarser finer rfl onTicks toFile_overlap

end Score

end MusicScore
