import MusicScore.Proofs.Score.Decoding
import MusicScore.Proofs.Score.Files
import MusicScore.Proofs.Workspace.Copies

/-!
# Files with one more part

The bytes of a score are a header of fourteen bytes, which counts the tracks, and a chunk for each part. Every chunk
says its own length, so that the bytes can be taken apart into chunks in one way only. Where a part is added to the
score, a chunk is added behind the others, and in what comes before it only the count of the tracks changes: nothing
that is written for a part depends on another one. Except in the first place, where the track also speaks of the score
as a whole, a part has the same chunk in every score that has it in that place.
-/
namespace MusicScore

namespace Midi

namespace Chunk

/-- The bytes are those of a track chunk. -/
def IsTrack (chunk : List UInt8) : Prop := ∃ content, encode trackName content = .ok chunk

/-- It can be told where a track chunk ends, whatever comes after it. -/
theorem IsTrack.append_inj {chunk other rest others : List UInt8} (first : IsTrack chunk) (second : IsTrack other)
    (same : chunk ++ rest = other ++ others) : chunk = other ∧ rest = others := by
  obtain ⟨content, encoded⟩ := first
  obtain ⟨contentToo, encodedToo⟩ := second
  have readBack := read_encode encoded rest
  rw [same, read_encode encodedToo others] at readBack
  cases readBack
  cases encoded.symm.trans encodedToo
  exact ⟨rfl, rfl⟩

/-- A track chunk has bytes. -/
theorem IsTrack.ne_nil {chunk : List UInt8} (isTrack : IsTrack chunk) : chunk ≠ [] := by
  obtain ⟨content, encoded⟩ := isTrack
  rintro rfl
  have readBack := read_encode encoded []
  cases readBack

/-- Track chunks one after the other can be taken apart in one way only. -/
theorem eq_of_flatten_eq {chunks others : List (List UInt8)} (first : ∀ chunk ∈ chunks, IsTrack chunk)
    (second : ∀ chunk ∈ others, IsTrack chunk) (same : chunks.flatten = others.flatten) : chunks = others := by
  induction chunks generalizing others with
  | nil =>
    cases others with
    | nil => rfl
    | cons other rest =>
      have empty := List.flatten_eq_nil_iff.mp same.symm
      exact absurd (empty other List.mem_cons_self) (second other List.mem_cons_self).ne_nil
  | cons chunk rest inductionHypothesis =>
    obtain ⟨own, later⟩ := List.forall_mem_cons.mp first
    cases others with
    | nil =>
      have empty := List.flatten_eq_nil_iff.mp same
      exact absurd (empty chunk List.mem_cons_self) own.ne_nil
    | cons other others =>
      obtain ⟨ownToo, laterToo⟩ := List.forall_mem_cons.mp second
      obtain ⟨rfl, remaining⟩ := own.append_inj ownToo same
      rw [inductionHypothesis later laterToo remaining]

end Chunk

/-- The bytes are a header and track chunks, which the header counts. -/
structure ConsistsOf (bytes : List UInt8) (resolution : Int) (chunks : List (List UInt8)) : Prop where
  tracks : ∀ chunk ∈ chunks, Chunk.IsTrack chunk
  laidOut : bytes = Chunk.headerBytes File.simultaneous chunks.length resolution ++ chunks.flatten

/-- Bytes consist of the same track chunks however they are taken apart. -/
theorem ConsistsOf.unique {bytes : List UInt8} {resolution other : Int} {chunks others : List (List UInt8)}
    (first : ConsistsOf bytes resolution chunks) (second : ConsistsOf bytes other others) : chunks = others := by
  have same := first.laidOut.symm.trans second.laidOut
  obtain ⟨_, tracks⟩ := List.append_inj same (by simp)
  exact Chunk.eq_of_flatten_eq first.tracks second.tracks tracks

end Midi

/-- The parts have the same name, the same instrument and the same timeline. -/
structure Part.Matches (part other : Part) : Prop where
  name : part.name = other.name
  instrument : part.instrument = other.instrument
  timeline : part.timeline = other.timeline

namespace Score

open Midi

variable {s other : Score} {options : Options} {part : Part} {bytes : List UInt8}

/-- The chunk of a part with its number. -/
def chunkOf (s : Score) (options : Options) (numbered : Part × Nat) : Except Fault (List UInt8) :=
  trackOf s options numbered.1 numbered.2 >>= Chunk.ofTrack

/-- The chunk of a part is a track chunk. -/
theorem isTrack_of_chunkOf {numbered : Part × Nat} {chunk : List UInt8}
    (written : s.chunkOf options numbered = .ok chunk) : Chunk.IsTrack chunk := by
  obtain ⟨track, _, encoded⟩ := Outcome.bind_eq_ok.mp written
  obtain ⟨content, _, own⟩ := Outcome.bind_eq_ok.mp encoded
  exact ⟨content, own⟩

/-- A score that is written consists of the chunks of its parts. -/
theorem toBytes_chunks (written : s.toBytes options = .ok bytes) :
    ∃ chunks, s.parts.zipIdx.mapM (s.chunkOf options) = .ok chunks ∧
      ConsistsOf bytes options.ticksPerQuarter chunks := by
  obtain ⟨file, accepted, encoded⟩ := Outcome.bind_eq_ok.mp written
  obtain ⟨_, _, made, format, resolution⟩ := toFile_eq_ok.mp accepted
  obtain ⟨header, headed, remaining⟩ := Outcome.bind_eq_ok.mp encoded
  obtain ⟨chunks, each, same⟩ := Outcome.bind_eq_ok.mp remaining
  cases same
  have whole : s.parts.zipIdx.mapM (s.chunkOf options) = .ok chunks := Outcome.mapM_then made each
  refine ⟨chunks, whole, ?_, ?_⟩
  · intro chunk member
    obtain ⟨numbered, _, own⟩ := Outcome.mem_of_mapM whole member
    exact isTrack_of_chunkOf own
  · rw [format, resolution, ← Outcome.mapM_length each] at headed
    obtain ⟨_, _, _, rfl⟩ := Chunk.header_eq_ok.mp headed
    rfl

/-- A score that is written consists of the chunks of its parts up to the last one, and the chunk of that. -/
theorem toBytes_concat {front : List Part} (parts : s.parts = front ++ [part])
    (written : s.toBytes options = .ok bytes) :
    ∃ chunks last, front.zipIdx.mapM (s.chunkOf options) = .ok chunks ∧
      s.chunkOf options (part, front.length) = .ok last ∧
      ConsistsOf bytes options.ticksPerQuarter (chunks ++ [last]) := by
  obtain ⟨all, each, consists⟩ := toBytes_chunks written
  have numbered : s.parts.zipIdx = front.zipIdx ++ [(part, front.length)] := by
    simp [parts, List.zipIdx_append]
  rw [numbered] at each
  obtain ⟨chunks, last, before, own, rfl⟩ := Outcome.mapM_concat_eq_ok.mp each
  exact ⟨chunks, last, before, own, consists⟩

/-- Except in the first place, the chunk of a part does not depend on the score it is in. -/
theorem chunkOf_congr {like : Part} {index : Nat} (later : index ≠ 0) (same : part.Matches like) :
    s.chunkOf options (part, index) = other.chunkOf options (like, index) := by
  obtain ⟨name, instrument, timeline⟩ := same
  unfold chunkOf trackOf openingMessages
  simp only [if_neg later, name, instrument, timeline]

/-- The bytes of a score with one more part are those of the score with one more track counted and, at the end, one
more chunk. -/
theorem toBytes_push {more : List UInt8} (written : s.toBytes options = .ok bytes)
    (rewritten : Score.toBytes (s.push part) options = .ok more) :
    ∃ chunks last, chunks.length = s.parts.length ∧ s.chunkOf options (part, s.parts.length) = .ok last ∧
      ConsistsOf bytes options.ticksPerQuarter chunks ∧
      ConsistsOf more options.ticksPerQuarter (chunks ++ [last]) := by
  obtain ⟨chunks, each, consists⟩ := toBytes_chunks written
  obtain ⟨front, last, before, own, grown⟩ := toBytes_concat rfl rewritten
  -- no chunk of the longer score depends on how many parts there are
  have again : s.parts.zipIdx.mapM (s.chunkOf options) = .ok front := before
  cases each.symm.trans again
  have count : chunks.length = s.parts.length := by simpa using Outcome.mapM_length each
  exact ⟨chunks, last, count, own, consists, grown⟩

/-- A score that is written is written with one more part too, where there is a channel left and the part has a chunk
in its place. -/
theorem exists_toBytes_push {last : List UInt8} (written : s.toBytes options = .ok bytes) (room : s.parts.length < 16)
    (own : s.chunkOf options (part, s.parts.length) = .ok last) :
    ∃ more, Score.toBytes (s.push part) options = .ok more := by
  obtain ⟨file, accepted, encoded⟩ := Outcome.bind_eq_ok.mp written
  obtain ⟨_, announced, made, format, resolution⟩ := toFile_eq_ok.mp accepted
  obtain ⟨_, _, remaining⟩ := Outcome.bind_eq_ok.mp encoded
  obtain ⟨chunks, each, _⟩ := Outcome.bind_eq_ok.mp remaining
  obtain ⟨track, laidOut, chunk⟩ := Outcome.bind_eq_ok.mp own
  have counted : checkPartCount (s.push part) = .ok () :=
    checkPartCount_eq_ok.mpr ⟨by simp [ScoreOf.push], by simpa [ScoreOf.push] using room⟩
  have numbered : (s.push part).parts.zipIdx = s.parts.zipIdx ++ [(part, s.parts.length)] := by
    simp [ScoreOf.push, List.zipIdx_append]
  have tracks := Outcome.mapM_concat_eq_ok.mpr ⟨_, _, made, laidOut, rfl⟩
  rw [← numbered] at tracks
  have grown : Score.toFile (s.push part) options = .ok ⟨file.format, file.ticksPerQuarter, file.tracks ++ [track]⟩ :=
    toFile_eq_ok.mpr ⟨counted, announced, tracks, format, resolution⟩
  obtain ⟨header, headed⟩ := exists_header_of_toFile grown
  exact ⟨_, Outcome.bind_eq_ok.mpr ⟨_, grown, Outcome.bind_eq_ok.mpr ⟨header, headed, Outcome.bind_eq_ok.mpr
    ⟨_, Outcome.mapM_concat_eq_ok.mpr ⟨chunks, last, each, chunk, rfl⟩, rfl⟩⟩⟩⟩

/-- A score that is written has parts. -/
theorem parts_ne_nil (written : s.toBytes options = .ok bytes) : s.parts ≠ [] := by
  obtain ⟨file, accepted, _⟩ := Outcome.bind_eq_ok.mp written
  obtain ⟨counted, _⟩ := toFile_eq_ok.mp accepted
  exact (checkPartCount_eq_ok.mp counted).1

/-- A score that is written is one that is kept. -/
theorem kept_of_toBytes {w : Workspace} {id : ScoreId} (written : (w.score id).toBytes options = .ok bytes) :
    id.number < w.scores.length := by
  by_contra outside
  have entry : w.scoreEntry id = .empty (.text "") .moderate none := by
    unfold Workspace.scoreEntry
    rw [List.getElem?_eq_none (Nat.not_lt.mp outside), Option.getD_none]
  apply parts_ne_nil written
  rw [Workspace.score, entry]
  rfl

/-- A part that is put into a score only adds a chunk to the bytes of the score. The chunks that were there are the
same, and the header counts one more. The new chunk is also the last one of every other score that is written with as
many parts, the last of which is such a part. -/
theorem toBytes_addPart {w : Workspace} (reachable : w.Reachable) {score : ScoreId} {id : PartId} {more : List UInt8}
    (written : (w.score score).toBytes options = .ok bytes)
    (rewritten : ((w.run (.addPart score id)).1.score score).toBytes options = .ok more) :
    ∃ chunks last, chunks.length = (w.score score).parts.length ∧
      ConsistsOf bytes options.ticksPerQuarter chunks ∧
      ConsistsOf more options.ticksPerQuarter (chunks ++ [last]) ∧
      ∀ (other : Score) (like : Part) (others : List UInt8), other.toBytes options = .ok others →
        other.parts.length = chunks.length + 1 → other.parts.getLast? = some like → like.Matches (w.part id) →
          ∃ before, ConsistsOf others options.ticksPerQuarter (before ++ [last]) := by
  rw [Workspace.score_addPart reachable (kept_of_toBytes written)] at rewritten
  obtain ⟨chunks, last, count, own, consists, grown⟩ := toBytes_push written rewritten
  refine ⟨chunks, last, count, consists, grown, ?_⟩
  intro other like others otherWritten length ends same
  obtain ⟨front, parts⟩ := List.getLast?_eq_some_iff.mp ends
  obtain ⟨before, chunk, _, otherOwn, otherConsists⟩ := toBytes_concat parts otherWritten
  have place : front.length = (w.score score).parts.length := by
    rw [parts, List.length_append] at length
    exact (Nat.add_right_cancel length).trans count
  have later : front.length ≠ 0 := by
    rw [place]
    apply mt List.length_eq_zero_iff.mp
    exact parts_ne_nil written
  have copied : like.Matches (w.part id).copy := ⟨same.name, same.instrument, same.timeline⟩
  rw [chunkOf_congr later copied, place] at otherOwn
  cases own.symm.trans otherOwn
  exact ⟨before, otherConsists⟩

/-- The chunk of the part with the overlap in the second place: 37 bytes on the second channel. -/
def overlapChunk : List UInt8 :=
  [0x4d, 0x54, 0x72, 0x6b, 0, 0, 0, 37] ++
  [0, 0xff, 0x03, 6, 0x56, 0x69, 0x6f, 0x6c, 0x69, 0x6e, 0, 0xc1, 40, 0x87, 0x40, 0x91, 60, 70] ++
  [0x8f, 0, 0x91, 60, 70, 0x8f, 0, 0x81, 60, 0, 0x8f, 0, 0x81, 60, 0, 0, 0xff, 0x2f, 0]

/-- In the second place the part with the overlap has this chunk. -/
theorem chunkOf_overlap : (overlap.score ⟨0⟩).chunkOf .standard (overlap.part ⟨1⟩, 1) = .ok overlapChunk := by
  have found : (overlap.score ⟨0⟩).parts[0]? = some (overlap.part ⟨1⟩) := congrArg (·[0]?) parts_overlap
  obtain ⟨_, _, _, long, gaps, _⟩ := track_of_part toFile_overlap found
  have opened : (overlap.score ⟨0⟩).openingMessages .standard (overlap.part ⟨1⟩) 1 = .ok [.trackName "Violin"] := by cbv
  have encoded : Chunk.ofTrack (Track.layout [.trackName "Violin"] 1 (overlap.part ⟨1⟩).instrument.program
      ((overlap.part ⟨1⟩).strokes 960)) = .ok overlapChunk := by cbv
  exact Outcome.bind_eq_ok.mpr ⟨_, (trackOf_eq_ok (by decide)).mpr ⟨_, opened, long, gaps, rfl⟩, encoded⟩

/-- A score of one part without phrases. -/
def still : Score := ⟨.text "Still", .moderate, none, [PartOf.empty .first (.text "Piano")]⟩

/-- The score without phrases is written. -/
theorem toBytes_still : ∃ bytes, still.toBytes .standard = .ok bytes := by
  let track : Track :=
    [⟨0, .trackName "Still"⟩, ⟨0, .setTempo 500000⟩, ⟨0, .programChange 0 0⟩, ⟨0, .endOfTrack⟩]
  have made : trackOf still .standard (PartOf.empty .first (.text "Piano")) 0 = .ok track := by cbv
  have accepted : still.toFile .standard = .ok ⟨1, 960, [track]⟩ :=
    toFile_eq_ok.mpr ⟨rfl, by decide +kernel, Outcome.mapM_eq_ok.mpr (.cons made .nil), rfl, rfl⟩
  have encoded : File.bytes ⟨1, 960, [track]⟩ = .ok (Chunk.headerBytes 1 1 960 ++
      [0x4d, 0x54, 0x72, 0x6b, 0, 0, 0, 23, 0, 0xff, 0x03, 5, 0x53, 0x74, 0x69, 0x6c, 0x6c] ++
      [0, 0xff, 0x51, 3, 0x07, 0xa1, 0x20, 0, 0xc0, 0, 0, 0xff, 0x2f, 0]) := by cbv
  exact ⟨_, Outcome.bind_eq_ok.mpr ⟨_, accepted, encoded⟩⟩

/-- The part with the overlap is put into its score once more, and into the score without phrases. Both are written
with the same chunk at the end. -/
theorem overlap_appends : overlap.Reachable ∧ ∃ more others chunks last before,
    ((overlap.run (.addPart ⟨0⟩ ⟨0⟩)).1.score ⟨0⟩).toBytes .standard = .ok more ∧
      Score.toBytes (still.push (overlap.part ⟨0⟩)) .standard = .ok others ∧
      ConsistsOf overlapBytes 960 chunks ∧ ConsistsOf more 960 (chunks ++ [last]) ∧
      ConsistsOf others 960 (before ++ [last]) := by
  have reachable : overlap.Reachable := Workspace.reachable_iff.mpr ⟨_, rfl⟩
  have copied : (overlap.part ⟨0⟩).copy = overlap.part ⟨1⟩ := by cbv
  have one : (overlap.score ⟨0⟩).parts.length = 1 := congrArg List.length parts_overlap
  have second : (overlap.score ⟨0⟩).chunkOf .standard (overlap.part ⟨1⟩, (overlap.score ⟨0⟩).parts.length) =
      .ok overlapChunk := by
    rw [one]
    exact chunkOf_overlap
  obtain ⟨more, rewritten⟩ : ∃ more, ((overlap.run (.addPart ⟨0⟩ ⟨0⟩)).1.score ⟨0⟩).toBytes .standard = .ok more := by
    rw [Workspace.score_addPart reachable (kept_of_toBytes toBytes_overlap), copied]
    exact exists_toBytes_push toBytes_overlap (by omega) second
  obtain ⟨bytes, written⟩ := toBytes_still
  have alike : (overlap.part ⟨0⟩).Matches (overlap.part ⟨1⟩) := copied ▸ ⟨rfl, rfl, rfl⟩
  have own : still.chunkOf .standard (overlap.part ⟨0⟩, 1) = .ok overlapChunk :=
    (chunkOf_congr (by decide) alike).trans chunkOf_overlap
  obtain ⟨others, otherWritten⟩ := exists_toBytes_push written (by decide) own
  obtain ⟨chunks, last, count, consists, grown, same⟩ := toBytes_addPart reachable toBytes_overlap rewritten
  have two : (still.push (overlap.part ⟨0⟩)).parts.length = chunks.length + 1 := by
    rw [count, one]
    rfl
  obtain ⟨before, otherConsists⟩ := same _ (overlap.part ⟨0⟩) others otherWritten two rfl ⟨rfl, rfl, rfl⟩
  exact ⟨reachable, more, others, chunks, last, before, rewritten, otherWritten, consists, grown, otherConsists⟩

end Score

end MusicScore
