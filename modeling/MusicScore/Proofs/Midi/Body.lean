import MusicScore.Proofs.Midi.Chunks
import MusicScore.Proofs.Midi.Decoding
import MusicScore.Proofs.Midi.Playing

/-!
# The bytes of tracks

A track has its bytes exactly when each of its distances is a quantity of the file format, and once that holds nothing
but its length can keep the track from being written as a chunk. Strokes that go forward in distances that fit are laid
out as such a track. Its messages fit in their bytes, so that the track is read back.
-/
namespace MusicScore.Midi

/-- The message of a stroke whose data fit fits. -/
theorem Stroke.fits_message {s : Stroke} {channel : Nat} (fits : s.FitsData) (highest : channel ≤ 15) :
    (s.message channel).Fits := by
  obtain ⟨_, key, _, loud⟩ := fits
  unfold message
  cases s.touch with
  | press | release => exact ⟨highest, by omega, by omega⟩

namespace Track

variable {track : Track} {t : Timed}

/-- Strokes whose data fit are laid out in messages that fit, if those of the opening do. -/
theorem fits_layout {opening : List Message} {channel program : Nat} {strokes : List Stroke}
    (describes : ∀ m ∈ opening, m.Fits) (fits : ∀ s ∈ strokes, s.FitsData) (highest : channel ≤ 15)
    (greatest : program ≤ 127) : ∀ t ∈ layout opening channel program strokes, t.message.Fits := by
  intro t member
  rcases mem_layout member with ⟨m, opens, rfl⟩ | rfl | stroke | rfl
  · exact describes m opens
  · exact ⟨highest, greatest⟩
  · obtain ⟨s, struck, same⟩ := mem_ofHeard stroke
    exact same ▸ Stroke.fits_message (fits s struck) highest
  · trivial

/-- Every distance of the track is a quantity of the file format. -/
def Measurable (track : Track) : Prop := ∀ t ∈ track, 0 ≤ t.delta ∧ t.delta ≤ Quantity.greatest

/-- The bytes of a track of which every distance is a quantity. -/
def written (track : Track) : List UInt8 :=
  track.flatMap fun t => Quantity.bytes t.delta.toNat ++ t.message.bytes

/-- A track has bytes exactly when its distances are quantities. -/
theorem body_eq_ok {bytes : List UInt8} : track.body = .ok bytes ↔ track.Measurable ∧ bytes = track.written := by
  have each {t : Timed} {bytes : List UInt8} :
      (do return (← Quantity.encode t.delta) ++ t.message.bytes : Except Fault (List UInt8)) = .ok bytes ↔
        (0 ≤ t.delta ∧ t.delta ≤ Quantity.greatest) ∧
          bytes = Quantity.bytes t.delta.toNat ++ t.message.bytes := by
    unfold Quantity.encode
    by_cases within : 0 ≤ t.delta ∧ t.delta ≤ Quantity.greatest
    · simp [within, bind, Except.bind, pure, Except.pure, eq_comm]
    · simp [within, bind, Except.bind]
  unfold body written
  rw [Outcome.bind_eq_ok]
  simp only [Outcome.mapM_eq_ok_map each, List.flatMap_def]
  constructor
  · rintro ⟨_, ⟨measurable, rfl⟩, same⟩
    cases same
    exact ⟨measurable, rfl⟩
  · rintro ⟨measurable, rfl⟩
    exact ⟨_, ⟨measurable, rfl⟩, rfl⟩

/-- Strokes whose distances fit have no distance above the greatest quantity. -/
theorem delta_le_of_mem_ofHeard {channel : Nat} {now : Int} {strokes : List Stroke} (gaps : GapsFit now strokes)
    (member : t ∈ ofHeard channel now strokes) : t.delta ≤ Quantity.greatest := by
  induction strokes generalizing now with
  | nil => cases member
  | cons s rest inductionHypothesis =>
    obtain ⟨near, others⟩ := gapsFit_cons.mp gaps
    rcases List.mem_cons.mp member with rfl | more
    · exact near
    · exact inductionHypothesis others more

/-- Strokes that go forward in distances that fit are laid out with quantities for distances. -/
theorem measurable_layout {opening : List Message} {channel program : Nat} {strokes : List Stroke}
    (ascending : (0 :: strokes.map Stroke.tick).Pairwise (· ≤ ·)) (gaps : GapsFit 0 strokes) :
    (layout opening channel program strokes).Measurable := by
  have none : (0 : Int) ≤ 0 ∧ 0 ≤ Quantity.greatest := by decide
  intro t member
  rcases mem_layout member with ⟨m, _, rfl⟩ | rfl | stroke | rfl
  · exact none
  · exact none
  · exact ⟨delta_nonneg_of_mem_ofHeard ascending stroke, delta_le_of_mem_ofHeard gaps stroke⟩
  · exact none

end Track

namespace Chunk

/-- A track whose distances are quantities has a chunk, unless its bytes are too many to be counted. -/
theorem ofTrack_eq {track : Track} (measurable : track.Measurable) :
    ofTrack track = if lengthLimit ≤ track.written.length then .error .fieldWidth
      else .ok (trackName ++ bigEndian 4 track.written.length ++ track.written) := by
  have body : track.body = .ok track.written := Track.body_eq_ok.mpr ⟨measurable, rfl⟩
  have four : trackName.length = 4 := rfl
  simp only [ofTrack, body, bind, Except.bind, encode, four, ne_eq, not_true_eq_false, if_false]

end Chunk

namespace File

variable {file : File} {fault : Fault}

/-- A file with a header whose distances are quantities has bytes exactly when those of every track can be
counted. -/
theorem exists_bytes_iff {header : List UInt8}
    (headed : Chunk.header file.format file.tracks.length file.ticksPerQuarter = .ok header)
    (measurable : ∀ track ∈ file.tracks, track.Measurable) :
    (∃ bytes, file.bytes = .ok bytes) ↔ ∀ track ∈ file.tracks, track.written.length < Chunk.lengthLimit := by
  constructor
  · rintro ⟨bytes, done⟩ track member
    obtain ⟨_, _, remaining⟩ := Outcome.bind_eq_ok.mp done
    obtain ⟨chunks, each, _⟩ := Outcome.bind_eq_ok.mp remaining
    obtain ⟨index, found⟩ := List.mem_iff_getElem?.mp member
    obtain ⟨chunk, _, encoded⟩ := Outcome.mapM_getElem? each found
    rw [Chunk.ofTrack_eq (measurable track member)] at encoded
    by_contra long
    rw [if_pos (Nat.not_lt.mp long)] at encoded
    cases encoded
  · intro short
    cases each : file.tracks.mapM Chunk.ofTrack with
    | ok chunks => exact ⟨_, Outcome.bind_eq_ok.mpr ⟨header, headed, Outcome.bind_eq_ok.mpr ⟨chunks, each, rfl⟩⟩⟩
    | error fault =>
      obtain ⟨before, track, rest, split, _, refused⟩ := Outcome.mapM_eq_error.mp each
      have member : track ∈ file.tracks := by simp [split]
      rw [Chunk.ofTrack_eq (measurable track member), if_neg (Nat.not_le.mpr (short track member))] at refused
      cases refused

/-- A file with a header whose distances are quantities is refused only because a track has too many bytes. -/
theorem bytes_eq_error {header : List UInt8}
    (headed : Chunk.header file.format file.tracks.length file.ticksPerQuarter = .ok header)
    (measurable : ∀ track ∈ file.tracks, track.Measurable) (refused : file.bytes = .error fault) :
    fault = .fieldWidth := by
  rcases Outcome.bind_eq_error.mp refused with opened | ⟨_, _, remaining⟩
  · cases headed.symm.trans opened
  · rcases Outcome.bind_eq_error.mp remaining with each | ⟨_, _, never⟩
    · obtain ⟨before, track, rest, split, _, own⟩ := Outcome.mapM_eq_error.mp each
      have member : track ∈ file.tracks := by simp [split]
      rw [Chunk.ofTrack_eq (measurable track member)] at own
      split at own
      · exact (Except.error.inj own).symm
      · cases own
    · cases never

end File

end MusicScore.Midi
