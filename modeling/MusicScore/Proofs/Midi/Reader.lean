import MusicScore.Midi.File
import MusicScore.Proofs.Midi.Quantity

/-!
# Reading files

A reader of files in which tracks are played together and every status byte is written. It knows of the
file format only what the format says: a header chunk and track chunks of declared lengths, in a track
distances and signals in turn, and in a signal its own data. What a signal says is made out after the
signal has been read, so that a signal without a message is refused and not skipped. Every reader gives
what it has read together with the bytes that follow.
-/
namespace MusicScore.Midi

/-- The first bytes, as many as are asked for, and what follows. -/
def takeBytes (count : Nat) (bytes : List UInt8) : Option (List UInt8 × List UInt8) :=
  if count ≤ bytes.length then some (bytes.take count, bytes.drop count) else none

/-- A number in as many bytes as are asked for. -/
def readNumber (width : Nat) (bytes : List UInt8) : Option (Nat × List UInt8) := do
  let (front, rest) ← takeBytes width bytes
  return (ofBigEndian front, rest)

/-! ## Signals -/

/-- What follows a distance in a track. A voice signal has a status of four bits, a channel and data bytes; a
signal about the track has a kind and data of any length. -/
inductive Signal where
  | voice (status channel : Nat) (data : List UInt8)
  | about (kind : UInt8) (data : List UInt8)

namespace Signal

/-- The number of data bytes after a status; a data byte is no status. -/
def dataCount? (status : Nat) : Option Nat :=
  if status < 0x8 ∨ 0xf ≤ status then none
  else if status = 0xc ∨ status = 0xd then some 1
  else some 2

/-- Read a voice signal after its status byte. -/
def readVoice (first : UInt8) (bytes : List UInt8) : Option (Signal × List UInt8) := do
  let status := first.toNat / 16
  let count ← dataCount? status
  let (data, rest) ← takeBytes count bytes
  if data.all (·.toNat < 128) then return (voice status (first.toNat % 16) data, rest) else none

/-- Read a signal about the track after its first byte. -/
def readAbout : List UInt8 → Option (Signal × List UInt8)
  | [] => none
  | kind :: bytes => do
    let (length, bytes) ← Quantity.read bytes
    let (data, rest) ← takeBytes length bytes
    return (about kind data, rest)

/-- Read a signal. -/
def read : List UInt8 → Option (Signal × List UInt8)
  | [] => none
  | first :: bytes => if first = 0xff then readAbout bytes else readVoice first bytes

end Signal

/-! ## Messages -/

namespace Message

/-- The text of bytes in Latin-1. -/
def ofLatin1 (bytes : List UInt8) : String := String.ofList (bytes.map fun b => Char.ofNat b.toNat)

/-- The whole number from -128 to 127 that a byte stands for in two's complement. -/
def ofSignedByte (b : UInt8) : Int := if b.toNat < 128 then b.toNat else (b.toNat : Int) - 256

/-- The key signature message of a number of sharps and a mode. -/
def ofKeyBytes (sharps mode : UInt8) : Option Message :=
  if inRange : -7 ≤ ofSignedByte sharps ∧ ofSignedByte sharps ≤ 7 then
    if mode = 0 then some (keySignature ⟨ofSignedByte sharps, .major, inRange⟩)
    else if mode = 1 then some (keySignature ⟨ofSignedByte sharps, .minor, inRange⟩)
    else none
  else none

/-- The message of a signal about the track. -/
def ofAbout? (kind : UInt8) (data : List UInt8) : Option Message :=
  if kind = 0x03 then some (trackName (ofLatin1 data))
  else if kind = 0x51 then if data.length = 3 then some (setTempo (ofBigEndian data)) else none
  else if kind = 0x58 then
    match data with
    | [numerator, exponent, clocks, thirtySeconds] =>
      if clocks.toNat = clocksPerClick ∧ thirtySeconds.toNat = thirtySecondsPerQuarter then
        some (timeSignature numerator.toNat exponent.toNat)
      else none
    | _ => none
  else if kind = 0x59 then
    match data with
    | [sharps, mode] => ofKeyBytes sharps mode
    | _ => none
  else if kind = 0x2f then if data = [] then some endOfTrack else none
  else none

/-- The message of a voice signal. -/
def ofVoice? (status channel : Nat) (data : List UInt8) : Option Message :=
  match status, data with
  | 0x8, [pitch, velocity] => some (noteOff channel pitch.toNat velocity.toNat)
  | 0x9, [pitch, velocity] => some (noteOn channel pitch.toNat velocity.toNat)
  | 0xc, [program] => some (programChange channel program.toNat)
  | _, _ => none

/-- The message of a signal. -/
def ofSignal? : Signal → Option Message
  | .voice status channel data => ofVoice? status channel data
  | .about kind data => ofAbout? kind data

end Message

/-! ## Tracks -/

/-- Read a distance and a message. -/
def Timed.read (bytes : List UInt8) : Option (Timed × List UInt8) := do
  let (delta, bytes) ← Quantity.read bytes
  let (signal, rest) ← Signal.read bytes
  let message ← Message.ofSignal? signal
  return (⟨delta, message⟩, rest)

/-- Taking bytes leaves no more than there were. -/
theorem takeBytes_le {count : Nat} {bytes front rest : List UInt8}
    (done : takeBytes count bytes = some (front, rest)) : rest.length ≤ bytes.length := by
  unfold takeBytes at done
  split at done
  · cases done
    simp
  · cases done

/-- Reading a signal leaves no more than there was. -/
theorem Signal.read_le {bytes rest : List UInt8} {signal : Signal}
    (done : Signal.read bytes = some (signal, rest)) : rest.length ≤ bytes.length := by
  cases bytes with
  | nil => cases done
  | cons first bytes =>
    rw [Signal.read] at done
    split at done
    · cases bytes with
      | nil => cases done
      | cons kind bytes =>
        simp only [Signal.readAbout, Option.bind_eq_bind, Option.bind_eq_some_iff, Prod.exists] at done
        obtain ⟨length, others, counted, data, left, taken, same⟩ := done
        cases same
        have first := Quantity.readGroups_shorter counted
        have second := takeBytes_le taken
        simp only [List.length_cons]
        omega
    · simp only [Signal.readVoice, Option.bind_eq_bind, Option.bind_eq_some_iff, Prod.exists] at done
      obtain ⟨count, _, data, left, taken, same⟩ := done
      split at same
      · cases same
        exact Nat.le_succ_of_le (takeBytes_le taken)
      · cases same

/-- Reading a distance and a message takes at least one byte. -/
theorem Timed.read_shorter {bytes rest : List UInt8} {t : Timed}
    (done : Timed.read bytes = some (t, rest)) : rest.length < bytes.length := by
  simp only [Timed.read, Option.bind_eq_bind, Option.bind_eq_some_iff, Prod.exists] at done
  obtain ⟨delta, others, counted, signal, left, signalled, message, _, same⟩ := done
  cases same
  exact Nat.lt_of_le_of_lt (Signal.read_le signalled) (Quantity.readGroups_shorter counted)

/-- Read the content of a track chunk to its end. -/
def Track.read (bytes : List UInt8) : Option Track :=
  if bytes = [] then some []
  else
    match _done : Timed.read bytes with
    | some (t, rest) => (Track.read rest).map (t :: ·)
    | none => none
  termination_by bytes.length
  decreasing_by exact Timed.read_shorter ‹_›

/-! ## Files -/

namespace Chunk

/-- Read a chunk with a given name; its content is what the declared length says. -/
def read (name bytes : List UInt8) : Option (List UInt8 × List UInt8) := do
  let (found, bytes) ← takeBytes 4 bytes
  if found = name then
    let (length, bytes) ← readNumber 4 bytes
    takeBytes length bytes
  else none

/-- Read a number of track chunks. -/
def readTracks : Nat → List UInt8 → Option (List Track × List UInt8)
  | 0, bytes => some ([], bytes)
  | count + 1, bytes => do
    let (content, bytes) ← read trackName bytes
    let track ← Track.read content
    let (tracks, rest) ← readTracks count bytes
    return (track :: tracks, rest)

end Chunk

namespace File

/-- Read a file with tracks that are played together and time in ticks, for which the high bit of the
resolution is not set. -/
def read (bytes : List UInt8) : Option (File × List UInt8) := do
  let (header, bytes) ← Chunk.read Chunk.headerName bytes
  let (format, header) ← readNumber 2 header
  let (count, header) ← readNumber 2 header
  let (division, header) ← readNumber 2 header
  if header = [] ∧ format = simultaneous ∧ division < 0x8000 then
    let (tracks, rest) ← Chunk.readTracks count bytes
    return (⟨format, division, tracks⟩, rest)
  else none

end File

end MusicScore.Midi
