import MusicScore.Proofs.Midi.Chunks
import MusicScore.Proofs.Midi.Reader

/-!
# Reading undoes writing

A file that has been written is read back: the same messages at the same distances, in as many tracks, and
no byte is left. The proof follows the nesting of the format. What is written at one level stands in front
of other bytes at the next, so that every statement is about what was written with any bytes after it. What
a message has to fulfil is that its numbers fit in their bytes and that its text can be measured by a
quantity.
-/
namespace MusicScore.Midi

/-- Bytes of a known number are taken from what follows them. -/
theorem takeBytes_append {count : Nat} {front : List UInt8} (length : front.length = count)
    (rest : List UInt8) : takeBytes count (front ++ rest) = some (front, rest) := by
  subst length
  simp [takeBytes]

/-- A number that fits in its bytes is read back. -/
theorem readNumber_bigEndian {width n : Nat} (fits : n < Nat.pow 256 width) (rest : List UInt8) :
    readNumber width (bigEndian width n ++ rest) = some (n, rest) := by
  unfold readNumber
  rw [takeBytes_append (length_bigEndian width n)]
  simp [ofBigEndian_bigEndian width n fits]

namespace Signal

/-- A signal about the track is read back. -/
theorem read_metaBytes {data : List UInt8} (short : data.length < 128 ^ 4) (kind : UInt8) (rest : List UInt8) :
    read (Message.metaBytes kind data ++ rest) = some (about kind data, rest) := by
  have counted := Quantity.read_bytes short (data ++ rest)
  simp only [Message.metaBytes, List.cons_append, List.append_assoc, read, if_true, readAbout, counted,
    Option.bind_eq_bind, Option.bind_some, takeBytes_append rfl]
  rfl

/-- A voice signal is read back. -/
theorem read_voice {status channel : Nat} {data : List UInt8} (counted : dataCount? status = some data.length)
    (highest : channel ≤ 15) (small : ∀ b ∈ data, b.toNat < 128) (rest : List UInt8) :
    read (Message.status status channel :: data ++ rest) = some (voice status channel data, rest) := by
  have below : status < 0xf := by
    by_contra above
    simp [dataCount?, Nat.not_lt.mp above] at counted
  have byte : (Message.status status channel).toNat = status * 16 + channel := by
    unfold Message.status
    rw [UInt8.toNat_ofNat']
    omega
  have voiced : Message.status status channel ≠ 0xff := by
    intro same
    have value := congrArg UInt8.toNat same
    rw [byte] at value
    change status * 16 + channel = 255 at value
    omega
  have high : (status * 16 + channel) / 16 = status := by omega
  have low : (status * 16 + channel) % 16 = channel := by omega
  have data : data.all (·.toNat < 128) = true := by simpa using small
  simp only [List.cons_append, read, voiced, if_false, readVoice, byte, high, low, counted,
    Option.bind_eq_bind, Option.bind_some, takeBytes_append rfl, data, if_true]
  rfl

end Signal

namespace Message

/-- The numbers of a message fit in their bytes, and a quantity can measure its text. -/
def Fits : Message → Prop
  | trackName name => isLatin1 name = true ∧ name.length < 128 ^ 4
  | setTempo microseconds => microseconds ≤ 0xffffff
  | timeSignature numerator exponent => numerator ≤ 255 ∧ exponent ≤ 255
  | programChange channel program => channel ≤ 15 ∧ program ≤ 127
  | noteOn channel pitch velocity | noteOff channel pitch velocity =>
    channel ≤ 15 ∧ pitch ≤ 127 ∧ velocity ≤ 127
  | keySignature _ | endOfTrack => True

/-- A small number is the value of its byte. -/
theorem toNat_byte {n : Nat} (small : n ≤ 255) : (UInt8.ofNat n).toNat = n := by
  rw [UInt8.toNat_ofNat']
  omega

/-- A data byte is the value of its byte, in which the high bit is not set. -/
theorem toNat_dataByte {n : Nat} (small : n ≤ 127) : (UInt8.ofNat n).toNat = n ∧ (UInt8.ofNat n).toNat < 128 := by
  rw [toNat_byte (by omega)]
  exact ⟨rfl, Nat.lt_succ_of_le small⟩

/-- A text in Latin-1 is read back. -/
theorem ofLatin1_latin1 {text : String} (latin : isLatin1 text = true) : ofLatin1 (latin1 text) = text := by
  have each : ∀ c ∈ text.toList, c.toNat < 256 := by simpa [isLatin1] using latin
  have same : text.toList.map (fun c => Char.ofNat (UInt8.ofNat c.toNat).toNat) = text.toList.map id := by
    refine List.map_congr_left fun c member => ?_
    rw [toNat_byte (Nat.le_of_lt_succ (each c member))]
    exact Char.ofNat_toNat c
  unfold ofLatin1 latin1
  rw [List.map_map]
  exact (congrArg String.ofList (same.trans (List.map_id _))).trans (String.ofList_toList)

/-- A small whole number is read back from two's complement. -/
theorem ofSignedByte_signedByte {n : Int} (low : -128 ≤ n) (high : n ≤ 127) :
    ofSignedByte (signedByte n) = n := by
  unfold ofSignedByte signedByte
  rw [toNat_byte (by omega)]
  split <;> omega

/-- The message of a key is made out again. -/
theorem ofKeyBytes_key (key : Key) :
    ofKeyBytes (signedByte key.sharps) (if key.mode = .major then 0 else 1) = some (keySignature key) := by
  obtain ⟨sharps, mode, inRange⟩ := key
  have same := ofSignedByte_signedByte (n := sharps) (by omega) (by omega)
  unfold ofKeyBytes
  cases mode <;> simp [same, inRange]

/-- A message whose numbers fit is read back as a signal, and is made out from the signal. -/
theorem Fits.read_bytes {m : Message} (fits : m.Fits) (rest : List UInt8) :
    ∃ signal, Signal.read (m.bytes ++ rest) = some (signal, rest) ∧ ofSignal? signal = some m := by
  cases m with
  | trackName name =>
    obtain ⟨latin, short⟩ := fits
    have measured : (latin1 name).length < 128 ^ 4 := by
      rw [latin1, List.length_map, String.length_toList]
      exact short
    refine ⟨_, Signal.read_metaBytes measured 0x03 rest, ?_⟩
    simp [ofSignal?, ofAbout?, ofLatin1_latin1 latin]
  | setTempo microseconds =>
    have number := ofBigEndian_bigEndian 3 microseconds (Nat.lt_succ_of_le fits)
    refine ⟨_, Signal.read_metaBytes (by simp) 0x51 rest, ?_⟩
    simp [ofSignal?, ofAbout?, number]
  | timeSignature numerator exponent =>
    refine ⟨_, Signal.read_metaBytes (by simp) 0x58 rest, ?_⟩
    simp [ofSignal?, ofAbout?, toNat_byte fits.1, toNat_byte fits.2, clocksPerClick, thirtySecondsPerQuarter]
  | keySignature key =>
    refine ⟨_, Signal.read_metaBytes (by simp) 0x59 rest, ?_⟩
    simpa [ofSignal?, ofAbout?] using ofKeyBytes_key key
  | endOfTrack => exact ⟨_, Signal.read_metaBytes (by simp) 0x2f rest, rfl⟩
  | programChange channel program =>
    obtain ⟨highest, greatest⟩ := fits
    have value := toNat_dataByte greatest
    refine ⟨_, Signal.read_voice rfl highest ?_ rest, ?_⟩
    · exact List.forall_mem_singleton.mpr value.2
    · simp [ofSignal?, ofVoice?, value.1]
  | noteOn channel pitch velocity | noteOff channel pitch velocity =>
    obtain ⟨highest, key, loud⟩ := fits
    have struck := toNat_dataByte key
    have hard := toNat_dataByte loud
    refine ⟨_, Signal.read_voice rfl highest ?_ rest, ?_⟩
    · exact List.forall_mem_cons.mpr ⟨struck.2, List.forall_mem_singleton.mpr hard.2⟩
    · simp [ofSignal?, ofVoice?, struck.1, hard.1]

end Message

/-- A message and its distance that have been written are read back. -/
theorem Timed.read_written {t : Timed} {bytes : List UInt8} (fits : t.message.Fits)
    (written : Quantity.encode t.delta = .ok bytes) (rest : List UInt8) :
    Timed.read (bytes ++ t.message.bytes ++ rest) = some (t, rest) := by
  obtain ⟨signal, signalled, meant⟩ := fits.read_bytes rest
  obtain ⟨nonneg, distance⟩ := Quantity.read_encode written (t.message.bytes ++ rest)
  have delta : (t.delta.toNat : Int) = t.delta := Int.toNat_of_nonneg nonneg
  unfold Timed.read
  rw [List.append_assoc, distance]
  simp only [Option.bind_eq_bind, Option.bind_some, signalled, meant, delta]
  rfl

namespace Track

/-- Reading a track begins with its first message. -/
theorem read_of_first {bytes rest : List UInt8} {t : Timed} (first : Timed.read bytes = some (t, rest)) :
    read bytes = (read rest).map (t :: ·) := by
  have something : bytes ≠ [] := by
    intro nothing
    have shorter := Timed.read_shorter first
    simp [nothing] at shorter
  rw [read, if_neg something]
  split
  next found =>
    cases first.symm.trans found
    rfl
  next failed =>
    cases first.symm.trans failed

/-- The content of a track chunk that has been written is read back. -/
theorem read_body {track : Track} {bytes : List UInt8} (fits : ∀ t ∈ track, t.message.Fits)
    (written : track.body = .ok bytes) : read bytes = some track := by
  obtain ⟨pieces, each, same⟩ := Outcome.bind_eq_ok.mp written
  cases same
  have related := Outcome.mapM_eq_ok.mp each
  clear each written
  induction related with
  | nil => rw [List.flatten_nil, read, if_pos rfl]
  | @cons t piece rest others first _ inductionHypothesis =>
    obtain ⟨fit, remaining⟩ := List.forall_mem_cons.mp fits
    obtain ⟨distance, measured, same⟩ := Outcome.bind_eq_ok.mp first
    cases same
    rw [List.flatten_cons, read_of_first (Timed.read_written fit measured _), inductionHypothesis remaining]
    rfl

end Track

namespace Chunk

/-- A chunk that has been written is read back. -/
theorem read_encode {name content bytes : List UInt8} (written : encode name content = .ok bytes)
    (rest : List UInt8) : read name (bytes ++ rest) = some (content, rest) := by
  obtain ⟨four, small, rfl⟩ := encode_eq_ok.mp written
  have length : content.length < Nat.pow 256 4 := small
  unfold read
  rw [List.append_assoc, List.append_assoc, takeBytes_append four]
  simp only [Option.bind_eq_bind, Option.bind_some, if_true, readNumber_bigEndian length, takeBytes_append rfl]

/-- Two bytes that have been written are read back. -/
theorem readNumber_twoBytes {n : Int} {bytes : List UInt8} (written : twoBytes n = .ok bytes)
    (rest : List UInt8) : 0 ≤ n ∧ readNumber 2 (bytes ++ rest) = some (n.toNat, rest) := by
  obtain ⟨fits, rfl⟩ := twoBytes_eq_ok.mp written
  have small : n.toNat < Nat.pow 256 2 := by
    change n.toNat < 65536
    omega
  exact ⟨fits.1, readNumber_bigEndian small rest⟩

/-- Track chunks that have been written one after the other are read back. -/
theorem readTracks_written {tracks : List Track} {chunks : List (List UInt8)}
    (fits : ∀ track ∈ tracks, ∀ t ∈ track, t.message.Fits) (written : tracks.mapM ofTrack = .ok chunks)
    (rest : List UInt8) : readTracks tracks.length (chunks.flatten ++ rest) = some (tracks, rest) := by
  have related := Outcome.mapM_eq_ok.mp written
  clear written
  induction related with
  | nil => rfl
  | @cons track chunk others remaining first _ inductionHypothesis =>
    obtain ⟨fit, later⟩ := List.forall_mem_cons.mp fits
    obtain ⟨content, body, encoded⟩ := Outcome.bind_eq_ok.mp first
    rw [List.flatten_cons, List.append_assoc, List.length_cons, readTracks, read_encode encoded]
    simp only [Option.bind_eq_bind, Option.bind_some, Track.read_body fit body, inductionHypothesis later]
    rfl

end Chunk

namespace File

/-- A file of tracks that are played together, with a resolution in fifteen bits, is read back with whatever
comes after it. -/
theorem read_bytes {file : File} {bytes : List UInt8} (together : file.format = simultaneous)
    (small : file.ticksPerQuarter < 0x8000) (fits : ∀ track ∈ file.tracks, ∀ t ∈ track, t.message.Fits)
    (written : file.bytes = .ok bytes) (rest : List UInt8) : read (bytes ++ rest) = some (file, rest) := by
  obtain ⟨header, opened, remaining⟩ := Outcome.bind_eq_ok.mp written
  obtain ⟨chunks, each, same⟩ := Outcome.bind_eq_ok.mp remaining
  cases same
  obtain ⟨format, first, remaining⟩ := Outcome.bind_eq_ok.mp opened
  obtain ⟨count, second, remaining⟩ := Outcome.bind_eq_ok.mp remaining
  obtain ⟨division, third, encoded⟩ := Outcome.bind_eq_ok.mp remaining
  obtain ⟨_, formatRead⟩ := Chunk.readNumber_twoBytes first (count ++ division)
  obtain ⟨_, countRead⟩ := Chunk.readNumber_twoBytes second division
  obtain ⟨nonneg, divisionRead⟩ := Chunk.readNumber_twoBytes third []
  have tracksRead := Chunk.readTracks_written fits each rest
  have resolution : (file.ticksPerQuarter.toNat : Int) = file.ticksPerQuarter := Int.toNat_of_nonneg nonneg
  rw [List.append_nil] at divisionRead
  unfold read
  rw [List.append_assoc, Chunk.read_encode encoded]
  simp only [Option.bind_eq_bind, Option.bind_some, List.append_assoc, formatRead, countRead, divisionRead,
    Int.toNat_natCast, together, resolution]
  rw [if_pos ⟨trivial, trivial, by omega⟩]
  simp only [tracksRead, Option.bind_some, ← together]
  rfl

end File

end MusicScore.Midi
