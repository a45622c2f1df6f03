import MusicScore.Proofs.Midi.Body
import MusicScore.Proofs.Score.Music

/-!
# Reading scores back

The bytes of a score are read as its file: no byte is left, and every track has the messages and the
distances that it was made with. All numbers that a track of a score can hold fit in their bytes, since
pitches, dynamics, programs and channels are bounded, and what the opening says was checked when it was made.
Only a text can be too long for a quantity of four bytes, which the format uses for its length.
-/
namespace MusicScore.Score

open Midi

variable {s : Score} {options : Options} {part : Part}

/-- The title and the names of the parts, where they are texts, are short enough to be measured. -/
def NamesFit (s : Score) : Prop :=
  ∀ text, s.title = .text text ∨ (∃ part ∈ s.parts, part.name = .text text) → text.length < 2 ^ 28

/-- What a track says in its opening fits. -/
theorem Describes.fits {m : Message} (names : s.NamesFit) (member : part ∈ s.parts)
    (describes : Describes s part m) : m.Fits := by
  cases describes with
  | name source latin =>
    refine ⟨latin, names _ ?_⟩
    rcases source with title | own
    · exact .inl title
    · exact .inr ⟨part, member, own⟩
  | tempo fits =>
    change s.tempo.microsecondsPerBeat.toNat ≤ 0xffffff
    omega
  | meter above below => exact ⟨above, below⟩
  | key key => trivial

/-- Every message of the file of a score fits. -/
theorem fits_of_toFile {file : File} (names : s.NamesFit) (accepted : s.toFile options = .ok file) :
    ∀ track ∈ file.tracks, ∀ t ∈ track, t.message.Fits := by
  intro track inside
  obtain ⟨index, part, opening, found, highest, opened, rfl⟩ := part_of_track accepted inside
  refine Track.fits_layout (fun m opens => ?_) (fun x struck => Part.fitsData_of_mem_strokes struck) highest
    (Nat.le_of_lt_succ part.instrument.program.isLt)
  exact (mem_openingMessages opened opens).fits names (List.mem_of_getElem? found)

/-- Reading undoes writing for every score that has bytes: they are read to the last one as the file of the
score, with a track for each part. -/
theorem read_toBytes {bytes : List UInt8} (names : s.NamesFit) (written : s.toBytes options = .ok bytes) :
    ∃ file, s.toFile options = .ok file ∧ File.read bytes = some (file, []) ∧ file.format = 1 ∧
      file.ticksPerQuarter = options.ticksPerQuarter ∧ file.ticksPerQuarter < 2 ^ 15 ∧
      file.tracks.length = s.parts.length := by
  obtain ⟨file, accepted, encoded⟩ := Outcome.bind_eq_ok.mp written
  obtain ⟨_, _, _, together, resolution⟩ := toFile_eq_ok.mp accepted
  have small : file.ticksPerQuarter < 2 ^ 15 := by
    have greatest := options.inRange.2
    omega
  have readBack := File.read_bytes together small (fits_of_toFile names accepted) encoded []
  rw [List.append_nil] at readBack
  exact ⟨file, accepted, readBack, together, resolution, small, tracks_length accepted⟩

/-- The bytes of the score with the overlap: a header chunk, and a track chunk of 45 bytes. -/
def overlapBytes : List UInt8 :=
  [0x4d, 0x54, 0x68, 0x64, 0, 0, 0, 6, 0, 1, 0, 1, 0x03, 0xc0] ++
  [0x4d, 0x54, 0x72, 0x6b, 0, 0, 0, 45] ++
  [0, 0xff, 0x03, 7, 0x4f, 0x76, 0x65, 0x72, 0x6c, 0x61, 0x70, 0, 0xff, 0x51, 3, 0x0f, 0x42, 0x40] ++
  [0, 0xc0, 40, 0x87, 0x40, 0x90, 60, 70, 0x8f, 0, 0x90, 60, 70] ++
  [0x8f, 0, 0x80, 60, 0, 0x8f, 0, 0x80, 60, 0, 0, 0xff, 0x2f, 0]

/-- The score with the overlap is written as these bytes. -/
theorem toBytes_overlap : (overlap.score ⟨0⟩).toBytes .standard = .ok overlapBytes := by
  have encoded : overlapFile.bytes = .ok overlapBytes := by cbv
  exact Outcome.bind_eq_ok.mpr ⟨overlapFile, toFile_overlap, encoded⟩

/-- The bytes of the score with the overlap are read as its file. -/
theorem read_overlapBytes : (overlap.score ⟨0⟩).toBytes .standard = .ok overlapBytes ∧
    File.read overlapBytes = some (overlapFile, []) := by
  have titled : (overlap.score ⟨0⟩).title = .text "Overlap" := by cbv
  have named : (overlap.part ⟨1⟩).name = .text "Violin" := by cbv
  have names : (overlap.score ⟨0⟩).NamesFit := by
    rintro text (title | ⟨part, member, own⟩)
    · cases titled.symm.trans title
      decide
    · rw [parts_overlap, List.mem_singleton] at member
      cases member
      cases named.symm.trans own
      decide
  obtain ⟨file, accepted, readBack, _⟩ := read_toBytes names toBytes_overlap
  cases toFile_overlap.symm.trans accepted
  exact ⟨toBytes_overlap, readBack⟩

end MusicScore.Score
