import MusicScore.Midi.Track

/-!
# Files

A file is a header chunk and one chunk for each track. A chunk is a name of four bytes, the length of its
content in four bytes, and its content. The header holds three numbers of two bytes each: the format of
the file, the number of tracks and the ticks in a quarter note.
-/
namespace MusicScore.Midi

namespace Chunk

/-- The name of the header chunk: `MThd` in ASCII. -/
def headerName : List UInt8 := [0x4d, 0x54, 0x68, 0x64]

/-- The name of a track chunk: `MTrk` in ASCII. -/
def trackName : List UInt8 := [0x4d, 0x54, 0x72, 0x6b]

/-- The least length that does not fit in four bytes. -/
def lengthLimit : Nat := 0x100000000

/-- The bytes of a chunk. -/
def encode (name content : List UInt8) : Except Fault (List UInt8) :=
  if name.length ≠ 4 then .error (.encoding (.chunkName name))
  else if lengthLimit ≤ content.length then .error .fieldWidth
  else .ok (name ++ bigEndian 4 content.length ++ content)

/-- A number in two bytes. -/
def twoBytes (n : Int) : Except Fault (List UInt8) :=
  if 0 ≤ n ∧ n ≤ 0xffff then .ok (bigEndian 2 n.toNat) else .error .fieldWidth

/-- The header chunk. -/
def header (format trackCount division : Int) : Except Fault (List UInt8) := do
  encode headerName ((← twoBytes format) ++ (← twoBytes trackCount) ++ (← twoBytes division))

/-- The chunk of a track. -/
def ofTrack (track : Track) : Except Fault (List UInt8) := do
  encode trackName (← track.body)

end Chunk

/-- The content of a file. -/
structure File where
  format : Nat
  ticksPerQuarter : Int
  tracks : List Track

namespace File

/-- The format for tracks that are played together. -/
def simultaneous : Nat := 1

/-- The bytes of a file. -/
def bytes (file : File) : Except Fault (List UInt8) := do
  let header ← Chunk.header file.format file.tracks.length file.ticksPerQuarter
  return header ++ (← file.tracks.mapM Chunk.ofTrack).flatten

end File

end MusicScore.Midi
