import MusicScore.Midi.Message
import MusicScore.Midi.Stroke

/-!
# Tracks

A track is a list of messages, each with its distance in ticks from the one before. The track of a part
opens with messages at tick zero, names the instrument, plays the strokes in the order in which they
come, and ends with one end message. A distance above the greatest quantity is refused. Strokes that go
back in time give a negative distance, which has no bytes.
-/
namespace MusicScore.Midi

/-- The messages of a track. -/
abbrev Track := List Timed

namespace Track

/-- The highest channel. -/
def highestChannel : Int := 15

/-- The greatest data byte. -/
def greatestData : Int := 127

/-- The message of a stroke on a channel; key and velocity have to be data bytes. -/
def strokeMessage (channel : Nat) (s : Stroke) : Except Fault Message :=
  if 0 ≤ s.pitch.value ∧ s.pitch.value ≤ greatestData ∧ 0 ≤ s.velocity ∧ s.velocity ≤ greatestData then
    match s.touch with
    | .press => .ok (.noteOn channel s.pitch.value.toNat s.velocity.toNat)
    | .release => .ok (.noteOff channel s.pitch.value.toNat s.velocity.toNat)
  else .error (.range .dataByte)

/-- The messages of strokes after the tick `now`. -/
def strokeMessages (channel : Nat) (now : Int) : List Stroke → Except Fault Track
  | [] => .ok []
  | s :: rest => do
    let delta := s.tick - now
    if Quantity.greatest < delta then .error (.encoding (.quantity (wholeText delta)))
    let message ← strokeMessage channel s
    return ⟨delta, message⟩ :: (← strokeMessages channel s.tick rest)

/-- The message that chooses the instrument of a channel. -/
def programMessage (channel program : Int) : Except Fault Message :=
  if program < 0 ∨ greatestData < program then .error (.encoding (.dataByte "Program" (wholeText program)))
  else if channel < 0 ∨ highestChannel < channel then .error (.range .channel)
  else .ok (.programChange channel.toNat program.toNat)

/-- The track of strokes with messages in front of it. -/
def ofStrokes (strokes : List Stroke) (channel program : Int) (opening : List Message) :
    Except Fault Track := do
  let programChange ← programMessage channel program
  let played ← strokeMessages channel.toNat 0 strokes
  return (opening ++ [programChange]).map (Timed.mk 0) ++ played ++ [⟨0, .endOfTrack⟩]

/-- The bytes of messages with their distances. -/
def body (track : Track) : Except Fault (List UInt8) := do
  return (← track.mapM fun t => do return (← Quantity.encode t.delta) ++ t.message.bytes).flatten

end Track

end MusicScore.Midi
