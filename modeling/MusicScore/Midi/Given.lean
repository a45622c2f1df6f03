import MusicScore.Datum.Order
import MusicScore.Midi.File
import MusicScore.Phrase.Given
import MusicScore.Sorting

/-!
# Strokes and tracks from data

Strokes may be made of data: from claims about events, or as they are given. They are put in order by what
the data are, which fails where two of them have no order. A track of such strokes holds the data as they
are, after it has been checked that a message can hold them; only whole numbers have bytes.
-/
namespace MusicScore.Midi

namespace Touch

/-- The touch that a datum is equal to the rank of. -/
def ofDatum (value : Datum) : Except Fault Touch :=
  if value.same (.ofInt release.rank) then .ok release
  else if value.same (.ofInt press.rank) then .ok press
  else .error (.range (.touch value.detail))

end Touch

/-- A press or a release of a key, with data for its numbers. -/
structure GivenStroke where
  tick : Datum
  touch : Touch
  pitch : Datum
  velocity : Datum
  order : Datum

namespace GivenStroke

/-- The two strokes of a pitch. -/
def pair (on off : Int) (velocity : Nat) (order : Datum) (pitch : Pitch) : List GivenStroke :=
  let key := Datum.number (.whole pitch.numeral)
  [⟨.ofInt on, .press, key, .ofInt velocity, order⟩, ⟨.ofInt off, .release, key, .ofInt 0, order⟩]

/-- The strokes of an event that sounds, between the ticks of its times. -/
def ofEvent (resolution : Datum) (c : Claim) (e : Event) (dynamic : Dynamic) :
    Except Fault (List GivenStroke) := do
  let on ← ticksOfData c.start resolution
  let off ← ticksOfData c.finish resolution
  if off ≤ on then .error (.encoding (.belowOneTick e.text c.start.plain resolution.plain))
  else return e.pitches.flatMap (pair on off dynamic.velocity c.order)

/-- The strokes of a claim; only events have strokes, and the times of a rest are not looked at. -/
def ofClaim (resolution : Datum) (c : Claim) : Except Fault (List GivenStroke) :=
  match c.event with
  | .event e =>
    match e.dynamic? with
    | some dynamic => ofEvent resolution c e dynamic
    | none => .ok []
  | value => .error (.encoding (.unknownEvent value.kindName))

/-- The strokes of claims, one after the other. -/
def ofClaims (resolution : Datum) (claims : List Claim) : Except Fault (List GivenStroke) := do
  return (← claims.mapM (ofClaim resolution)).flatten

/-- What the order of strokes goes by: the tick, then releases before presses, then the order. -/
def keys (s : GivenStroke) : List Datum := [s.tick, .ofInt s.touch.rank, s.order]

/-- Strokes in the order of a track. -/
def sort (strokes : List GivenStroke) : Except Fault (List GivenStroke) :=
  Sorting.sort (fun a b => Datum.itemsHold .before a.keys b.keys) strokes

end GivenStroke

/-- A message that holds data. -/
inductive GivenMessage where
  | programChange (channel program : Datum)
  | stroke (touch : Touch) (channel pitch velocity : Datum)
  | endOfTrack

/-- A message that holds data, with its distance from the one before. -/
structure GivenTimed where
  delta : Datum
  message : GivenMessage

namespace GivenMessage

/-- The whole number that a message holds; truth values count. -/
def wholeOf : Datum → Except Fault Int
  | .number n =>
    match n.toInt? with
    | some whole => .ok whole
    | none => .error .wrongKind
  | _ => .error .wrongKind

/-- A datum for a channel. -/
def checkChannel (value : Datum) : Except Fault Unit := do
  let channel ← wholeOf value
  if channel < 0 ∨ Track.highestChannel < channel then .error (.range .channel) else return

/-- A datum for a data byte. -/
def checkData (value : Datum) : Except Fault Unit := do
  let data ← wholeOf value
  if data < 0 ∨ Track.greatestData < data then .error (.range .dataByte) else return

/-- The byte of a datum that has been checked. -/
def byteOf (value : Datum) : UInt8 :=
  match wholeOf value with
  | .ok n => UInt8.ofNat n.toNat
  | .error _ => 0

/-- A status byte for a channel. -/
def status (high : Nat) (channel : Datum) : UInt8 := UInt8.ofNat (high * 16 + (byteOf channel).toNat)

/-- The bytes of a message. -/
def bytes : GivenMessage → List UInt8
  | programChange channel program => [status 0xc channel, byteOf program]
  | stroke .press channel pitch velocity => [status 0x9 channel, byteOf pitch, byteOf velocity]
  | stroke .release channel pitch velocity => [status 0x8 channel, byteOf pitch, byteOf velocity]
  | endOfTrack => Message.endOfTrack.bytes

/-- The message that chooses the instrument of a channel. The program is compared with the range first. -/
def ofProgram (channel program : Datum) : Except Fault GivenMessage := do
  match program with
  | .number n =>
    if !((Number.ofInt 0).le n && n.le (.ofInt Track.greatestData)) then
      .error (.encoding (.dataByte "Program" program.plain))
    checkChannel channel
    checkData program
    return programChange channel program
  | _ => .error .wrongKind

end GivenMessage

namespace GivenTimed

/-- The message of a stroke at a distance from the one before. -/
def ofStroke (channel : Datum) (delta : Number) (s : GivenStroke) : Except Fault GivenTimed := do
  if (Number.ofInt Quantity.greatest).lt delta then .error (.encoding (.quantity delta.text))
  GivenMessage.checkChannel channel
  GivenMessage.checkData s.pitch
  GivenMessage.checkData s.velocity
  return ⟨.number delta, .stroke s.touch channel s.pitch s.velocity⟩

/-- The messages of strokes after the tick `now`; only numbers are ticks. -/
def ofStrokes (channel : Datum) (now : Number) : List GivenStroke → Except Fault (List GivenTimed)
  | [] => .ok []
  | s :: rest =>
    match s.tick with
    | .number tick =>
      match tick.sub? now with
      | some delta => do
        let first ← ofStroke channel delta s
        return first :: (← ofStrokes channel tick rest)
      | none => .error .overflow
    | _ => .error .wrongKind

/-- The track of strokes. -/
def track (strokes : List GivenStroke) (channel program : Datum) : Except Fault (List GivenTimed) := do
  let programChange ← GivenMessage.ofProgram channel program
  let played ← ofStrokes channel (.ofInt 0) strokes
  return ⟨.ofInt 0, programChange⟩ :: played ++ [⟨.ofInt 0, .endOfTrack⟩]

/-- The chunk of a track. -/
def chunk (track : List GivenTimed) : Except Fault (List UInt8) := do
  let parts ← track.mapM fun t => do return (← Quantity.encodeDatum t.delta) ++ t.message.bytes
  Chunk.encode Chunk.trackName parts.flatten

end GivenTimed

namespace Chunk

/-- A datum in two bytes; only whole numbers have them. -/
def twoBytesOf : Datum → Except Fault (List UInt8)
  | .number n =>
    match n.toInt? with
    | some whole => twoBytes whole
    | none => .error .fieldWidth
  | _ => .error .fieldWidth

/-- The header chunk of data for its numbers. -/
def headerOf (format trackCount division : Datum) : Except Fault (List UInt8) := do
  let format ← twoBytesOf format
  let trackCount ← twoBytesOf trackCount
  let division ← twoBytesOf division
  encode headerName (format ++ trackCount ++ division)

end Chunk

end MusicScore.Midi
