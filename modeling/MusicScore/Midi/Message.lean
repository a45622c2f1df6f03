import MusicScore.Metadata
import MusicScore.Midi.Quantity
import MusicScore.Number.Logarithm

/-!
# Messages

A track of a file is a sequence of messages, each some ticks after the one before. A channel message
is a status byte and data bytes; a meta message is the byte `ff`, its kind, the length of its data as a
quantity, and its data. Status bytes are always written.
-/
namespace MusicScore.Midi

/-- A message of a track. -/
inductive Message where
  | trackName (name : String)
  | setTempo (microseconds : Nat)
  | timeSignature (numerator exponent : Nat)
  | keySignature (key : Key)
  | programChange (channel program : Nat)
  | noteOn (channel pitch velocity : Nat)
  | noteOff (channel pitch velocity : Nat)
  | endOfTrack

/-- A message with its distance in ticks from the one before. -/
structure Timed where
  delta : Int
  message : Message

namespace Message

/-- The clocks in a click of the metronome, for every time signature. -/
def clocksPerClick : Nat := 24

/-- The thirty-second notes in a quarter note, for every time signature. -/
def thirtySecondsPerQuarter : Nat := 8

/-- The bytes of a text in Latin-1, which is the first 256 characters. -/
def latin1 (text : String) : List UInt8 := text.toList.map fun c => UInt8.ofNat c.toNat

/-- The text has a form in Latin-1. -/
def isLatin1 (text : String) : Bool := text.toList.all fun c => c.toNat < 256

/-- The byte of a whole number from -128 to 127 in two's complement. -/
def signedByte (n : Int) : UInt8 := UInt8.ofNat (n % 256).toNat

/-- A meta message of a kind with its data. -/
def metaBytes (kind : UInt8) (data : List UInt8) : List UInt8 :=
  0xff :: kind :: Quantity.bytes data.length ++ data

/-- A status byte for a channel. -/
def status (high channel : Nat) : UInt8 := UInt8.ofNat (high * 16 + channel)

/-- The bytes of a message. -/
def bytes : Message → List UInt8
  | trackName name => metaBytes 0x03 (latin1 name)
  | setTempo microseconds => metaBytes 0x51 (bigEndian 3 microseconds)
  | timeSignature numerator exponent =>
    metaBytes 0x58 [UInt8.ofNat numerator, UInt8.ofNat exponent, UInt8.ofNat clocksPerClick,
      UInt8.ofNat thirtySecondsPerQuarter]
  | keySignature key =>
    metaBytes 0x59 [signedByte key.sharps, if key.mode = .major then 0 else 1]
  | programChange channel program => [status 0xc channel, UInt8.ofNat program]
  | noteOn channel pitch velocity =>
    [status 0x9 channel, UInt8.ofNat pitch, UInt8.ofNat velocity]
  | noteOff channel pitch velocity =>
    [status 0x8 channel, UInt8.ofNat pitch, UInt8.ofNat velocity]
  | endOfTrack => metaBytes 0x2f []

/-- The tempo message of a tempo; a beat has to fit in three bytes of microseconds. -/
def ofTempo (t : Tempo) : Except Fault Message :=
  if t.microsecondsPerBeat > 0xffffff then .error (.encoding (.tempo t.bpm))
  else .ok (setTempo t.microsecondsPerBeat.toNat)

/-- The name message of a track; the name has to be in Latin-1. -/
def ofName (name : String) : Except Fault Message :=
  if isLatin1 name then .ok (trackName name) else .error (.encoding (.trackName name))

/-- The name message of a datum; only a text is a name. -/
def ofGivenName : Datum → Except Fault Message
  | .text name => ofName name
  | _ => .error .noSuchMember

/-- The greatest exponent of a note value in a time signature message. -/
def greatestExponent : Nat := 255

/-- The greatest numerator in a time signature message. -/
def greatestNumerator : Nat := 255

/-- The time signature message of two numbers, which are checked one after the other. Of the note value
only its exponent is written, as binary64 arithmetic finds it. -/
def ofRatio (numerator denominator : Int) : Except Fault Message :=
  let greatest := Nat.pow 2 greatestExponent
  if numerator < 0 ∨ greatestNumerator < numerator then
    .error (.range (.metaField 0 greatestNumerator))
  else if denominator < 1 ∨ greatest < denominator then .error (.range (.metaField 1 greatest))
  else
    match Logarithm.exponent? greatestExponent denominator.toNat with
    | some exponent => .ok (timeSignature numerator.toNat exponent)
    | none => .error (.range .denominator)

/-- The time signature message of a meter. -/
def ofMeter (meter : Datum) : Except Fault Message := do
  let (numerator, denominator) ← Metadata.ratioOf meter
  ofRatio numerator denominator

/-- The messages of the metadata of a score: the meter, then the key. -/
def ofMetadata (m : Metadata) : Except Fault (List Message) := do
  return [← ofMeter m.meter, keySignature m.key]

end Message

end MusicScore.Midi
