import MusicScore.Proofs.Midi.Body
import MusicScore.Proofs.Score.Music

/-!
# The bytes of the file of a score

The distances in the tracks of a score are quantities of the file format: none goes back in time, as no event
starts before beat zero, and one that is too large keeps the score from having a file at all. So every track has
its bytes, and once a score has a file nothing but the length of a track can keep it from being written.
-/
namespace MusicScore.Score

open Midi

variable {w : Workspace} {id : ScoreId} {s : Score} {options : Options} {file : File}

/-- The file of a score has a header. -/
theorem exists_header_of_toFile (accepted : s.toFile options = .ok file) :
    ∃ header, Chunk.header file.format file.tracks.length file.ticksPerQuarter = .ok header := by
  obtain ⟨counted, _, _, format, resolution⟩ := toFile_eq_ok.mp accepted
  have few := (checkPartCount_eq_ok.mp counted).2
  have count := tracks_length accepted
  have within := options.inRange
  exact ⟨_, Chunk.header_eq_ok.mpr ⟨by omega, by omega, by omega, rfl⟩⟩

/-- Every distance in the file of a score is a quantity. -/
theorem measurable_of_toFile (reachable : w.Reachable) (accepted : (w.score id).toFile options = .ok file) :
    ∀ track ∈ file.tracks, track.Measurable := by
  intro track inside
  obtain ⟨index, part, opening, found, _, _, rfl⟩ := part_of_track accepted inside
  obtain ⟨_, _, _, long, gaps, _⟩ := track_of_part accepted found
  obtain ⟨entry, _, rfl⟩ := List.mem_map.mp (List.mem_of_getElem? found)
  have late := reachable.timeline_start_nonneg entry
  exact Track.measurable_layout (Track.ascending_strokes options.inRange.1 long late) gaps

/-- The bytes of every track of a score can be counted in the four bytes of a chunk. -/
def TracksCounted (s : Score) (options : Options) : Prop :=
  ∀ file, s.toFile options = .ok file → ∀ track ∈ file.tracks, ∀ body, track.body = .ok body → body.length < 2 ^ 32

/-- A score that has a file has bytes exactly when those of its tracks can be counted, and is refused for nothing
else. -/
theorem bytes_of_toFile (reachable : w.Reachable) (accepted : (w.score id).toFile options = .ok file) :
    ((∃ bytes, file.bytes = .ok bytes) ↔ (w.score id).TracksCounted options) ∧
      ∀ fault, file.bytes = .error fault → fault = .fieldWidth := by
  obtain ⟨header, headed⟩ := exists_header_of_toFile accepted
  have measurable := measurable_of_toFile reachable accepted
  refine ⟨(File.exists_bytes_iff headed measurable).trans ?_, fun fault => File.bytes_eq_error headed measurable⟩
  constructor
  · intro short other same track inside body written
    cases accepted.symm.trans same
    obtain ⟨_, rfl⟩ := Track.body_eq_ok.mp written
    exact short track inside
  · intro counted track inside
    exact counted file accepted track inside _ (Track.body_eq_ok.mpr ⟨measurable track inside, rfl⟩)

end MusicScore.Score
