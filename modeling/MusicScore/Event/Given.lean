import MusicScore.Beats
import MusicScore.Datum.Parts
import MusicScore.Pitch.Spelling

/-!
# Events from data

A pitch may be given as a pitch, a note number or a name, a duration as an amount of beats, and a
dynamic as a dynamic, a velocity, a marking or the name of one. The parts of an event are looked at in
this order, and the first that is refused decides the fault.
-/
namespace MusicScore

namespace Pitch

/-- The pitch with a datum for note number. -/
def ofDatum : Datum → Except Fault Pitch
  | .number n => ofNumber n
  | value => .error (.value (.pitch value.plain))

/-- The pitch that a datum stands for: a pitch, a name or a note number. -/
def given : Datum → Except Fault Pitch
  | .pitch p => .ok p
  | .text name => parse name
  | value => ofDatum value

/-- The pitch that a datum names; only a text names one. -/
def named : Datum → Except Fault Pitch
  | .text name => parse name
  | _ => .error .noSuchMember

/-- The pitch higher by an interval or a number of semitones. -/
def transposeBy (p : Pitch) : Datum → Except Fault Pitch
  | .number n => p.transpose n
  | .interval (.number n) => p.transpose n
  | _ => .error .wrongKind

end Pitch

namespace Number

/-- What is left of a number when the largest multiple of twelve that is not above it is taken away. -/
def octaveRest : Number → Number
  | .float (.finite q) => .float (Double.round (q - 12 * (q / 12).floor))
  | .float .negativeZero => .float (.finite 0)
  | .float _ => .float (.nan none)
  | .ratio q => .ratio (q - 12 * (q / 12).floor)
  | n => .ofInt ((n.toInt?.getD 0) % 12)

end Number

namespace PitchClass

/-- The class whose place in the octave is equal to a number. -/
def ofPlace (place : Number) : Except Fault PitchClass :=
  match (List.finRange 12).find? fun i : Fin 12 => place.same (.ofInt (i : Nat)) with
  | some i => .ok ⟨i⟩
  | none => .error (.range (.pitchClass place.detail))

/-- A template has the number of places filled in where a number would leave a rest; what comes of it is
a text and no place. -/
def ofTemplate (template : String) : Except Fault PitchClass :=
  match Text.Template.fill template.toList 12 with
  | .ok filled => .error (.range (.pitchClass (Text.quote (String.ofList filled))))
  | .error .wrongCount => .error .wrongKind
  | .error (.unreadable cause) => .error (.range (.template cause))

/-- The class of a datum for note number. -/
def ofDatum : Datum → Except Fault PitchClass
  | .number n => ofPlace n.octaveRest
  | .text template => ofTemplate template
  | _ => .error .wrongKind

/-- The class higher by a datum for semitones. -/
def transposeBy (c : PitchClass) : Datum → Except Fault PitchClass
  | .number n =>
    match Number.add? (.ofInt (c.index : Nat)) n with
    | some sum => ofPlace sum.octaveRest
    | none => .error .overflow
  | _ => .error .wrongKind

end PitchClass

namespace Duration

/-- The duration that a datum stands for; a duration stands for itself. -/
def given : Datum → Except Fault Duration
  | .duration d => .ok d
  | value => ofDatum value

end Duration

namespace Dynamic

/-- The dynamic with a datum for velocity. -/
def ofDatum : Datum → Except Fault Dynamic
  | .number (.whole n) => ofInt n.value
  | value => .error (.value (.dynamic value.plain))

/-- The whole number in a datum, a fractional part cut off. -/
def wholeOf : Datum → Except Fault Int
  | .number (.float (.finite q)) => .ok (truncate q)
  | .number (.float .negativeZero) => .ok 0
  | .number (.float (.nan _)) => .error (.range .noInteger)
  | .number (.float (.infinite _)) => .error .overflow
  | .number (.ratio q) => .ok (truncate q)
  | .number (.whole n) => .ok n.value
  | .number (.truth b) => .ok (if b then 1 else 0)
  | .pitch p => .ok p.number
  | .dynamic d => .ok d.velocity
  | _ => .error .wrongKind

/-- The dynamic of a marking, given by its name or by its velocity. -/
def ofMarking : Datum → Except Fault Dynamic
  | .text name => ofName name
  | value => do ofInt (← wholeOf value)

/-- The dynamic that a datum stands for. -/
def given : Datum → Except Fault Dynamic
  | .dynamic d => .ok d
  | .text name => ofName name
  | value => ofDatum value

end Dynamic

namespace Tempo

/-- The tempo with a datum for beats in a minute. -/
def ofDatum : Datum → Except Fault Tempo
  | .number (.whole n) => ofNumeral n
  | value => .error (.value (.tempo value.plain))

/-- The tempo that a datum stands for; a tempo stands for itself. -/
def given : Datum → Except Fault Tempo
  | .tempo t => .ok t
  | value => ofDatum value

end Tempo

namespace TimeSignature

/-- The time signature with two data for its numbers. -/
def ofData (numerator denominator : Datum) : Except Fault TimeSignature :=
  let shown := numerator.plain ++ "/" ++ denominator.plain
  match numerator, denominator with
  | .number (.whole n), .number (.whole d) => ofInts n.value d.value shown
  | _, _ => .error (.value (.timeSignature shown))

/-- The time signature that a datum is the text of; only a text is one. -/
def read : Datum → Except Fault TimeSignature
  | .text symbols => parse symbols
  | _ => .error .noSuchMember

end TimeSignature

namespace Datum

/-- The event that a datum is. -/
def event? : Datum → Option Event
  | event e => some e
  | _ => none

end Datum

namespace Note

/-- The note with the given parts. -/
def ofData (pitch duration dynamic : Datum) : Except Fault Note := do
  let pitch ← Pitch.given pitch
  let duration ← Duration.given duration
  return ⟨pitch, duration, ← Dynamic.given dynamic⟩

/-- One note for each pitch, all with the same duration and dynamic. -/
def sequence (pitches duration dynamic : Datum) : Except Fault (List Note) := do
  (← pitches.items).mapM fun pitch => ofData pitch duration dynamic

end Note

namespace Chord

/-- The chord of pitches that are known, with the other parts given. -/
def ofPitches (pitches : List Pitch) (duration dynamic : Datum) : Except Fault Chord := do
  let harmony ← Harmony.ofPitches pitches
  let duration ← Duration.given duration
  return ⟨harmony, duration, ← Dynamic.given dynamic⟩

/-- The chord with the given parts. -/
def ofData (pitches duration dynamic : Datum) : Except Fault Chord := do
  ofPitches (← (← pitches.items).mapM Pitch.given) duration dynamic

end Chord

namespace Rest

/-- The rest with a given duration. -/
def ofDatum (duration : Datum) : Except Fault Rest := do
  return ⟨← Duration.given duration⟩

end Rest

end MusicScore
