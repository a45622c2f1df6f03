import MusicScore.Datum.Parts
import MusicScore.Sorting

/-!
# Notes of a timeline

A note of a timeline is one pitch that sounds on a channel from one tick on for some ticks. Its numbers
are checked when it is made: pitch and velocity are from 0 to 127, the channel is below 16, and no time
is negative. Numbers of every kind are taken as they are, so a timeline that was read may hold halves of
ticks. The start in beats is there to be looked at; it has no part in the order of notes, nor in whether
two of them are the same. A time may be something that is not a number, which has no place in an order:
notes with such times are put where the comparisons of a search lead them.
-/
namespace MusicScore.Timeline

/-- One pitch that sounds on a channel. -/
structure Note where
  start : Number
  channel : Number
  pitch : Number
  duration : Number
  velocity : Number
  beat : Datum

namespace Note

/-- The number that a datum is. -/
def numberOf : Datum → Except Fault Number
  | .number n => .ok n
  | _ => .error .wrongKind

/-- The number is at least zero and passes a second test. -/
def isFromZero (n : Number) (below : Bool) : Bool := (Number.ofInt 0).le n && below

/-- The highest pitch and the greatest velocity. -/
def highest : Number := .ofInt 127

/-- The number of channels. -/
def channelCount : Number := .ofInt 16

/-- The note with these numbers, which are checked in the order pitch, velocity, channel, start and
duration. -/
def ofData (start channel pitch duration velocity beat : Datum) : Except Fault Note := do
  let pitch ← numberOf pitch
  if !isFromZero pitch (pitch.le highest) then .error (.range (.notePitch pitch.text))
  let velocity ← numberOf velocity
  if !isFromZero velocity (velocity.le highest) then .error (.range (.noteVelocity velocity.text))
  let channel ← numberOf channel
  if !isFromZero channel (channel.lt channelCount) then .error (.range (.noteChannel channel.text))
  let start ← numberOf start
  if start.lt (.ofInt 0) then .error (.range (.noteStart start.text))
  let duration ← numberOf duration
  if duration.lt (.ofInt 0) then .error (.range (.noteDuration duration.text))
  return ⟨start, channel, pitch, duration, velocity, beat⟩

/-- The names of the fields that every note has. -/
def fieldNames : List String := ["start_ticks", "channel", "pitch", "duration_ticks", "velocity"]

/-- The name of the field for the start in beats. -/
def beatName : String := "beat"

/-- The value of a field that has to be there. -/
def required (fields : List (Datum × Datum)) (name : String) : Except Fault Datum :=
  match Datum.field? fields name with
  | some value => .ok value
  | none => .error (.missingField name)

/-- The note of a record, which may have further fields. -/
def ofDatum (value : Datum) : Except Fault Note :=
  match value.fields? with
  | some fields => do
    let start ← required fields "start_ticks"
    let channel ← required fields "channel"
    let pitch ← required fields "pitch"
    let duration ← required fields "duration_ticks"
    let velocity ← required fields "velocity"
    ofData start channel pitch duration velocity ((Datum.field? fields beatName).getD .nothing)
  | none => .error .wrongKind

/-- The note with these fields and no others. -/
def ofFields (fields : List (String × Datum)) : Except Fault Note := do
  if fields.any fun field => !(beatName :: fieldNames).contains field.1 then .error .wrongKind
  match fieldNames.mapM fun name => fields.lookup name with
  | some [start, channel, pitch, duration, velocity] =>
    ofData start channel pitch duration velocity ((fields.lookup beatName).getD .nothing)
  | _ => .error .wrongKind

/-- The numbers by which notes are ordered, the most important first. -/
def keys (n : Note) : List Number := [n.start, n.channel, n.pitch, n.duration, n.velocity]

/-- The record of a note. The start in beats is left out when it is not known. -/
def toDatum (n : Note) : Datum :=
  let fields := (fieldNames.map Datum.text).zip (n.keys.map Datum.number)
  match n.beat with
  | .nothing => .ofFields fields
  | beat => .ofFields (fields ++ [(.text beatName, beat)])

/-- The first list of numbers comes before the second: the first numbers that differ decide. -/
def keysBefore : List Number → List Number → Bool
  | a :: as, b :: bs => if a.alike b then keysBefore as bs else a.lt b
  | _, _ => false

/-- The note comes before another. -/
def before (a b : Note) : Bool := keysBefore a.keys b.keys

/-- All numbers by which notes are ordered have a place on the line. -/
def isOrdered (n : Note) : Bool := n.keys.all Number.isOrdered

/-- Notes in the order that a search finds, whatever their numbers. -/
def searchSort (notes : List Note) : List Note :=
  match (Sorting.sort (fun a b => .ok (before a b)) notes : Except Empty (List Note)) with
  | .ok sorted => sorted
  | .error never => nomatch never

/-- Notes in order; notes that agree in all numbers stay as they are. -/
def sort (notes : List Note) : List Note :=
  if notes.all isOrdered then notes.mergeSort fun a b => !before b a else searchSort notes

/-- The two notes agree in all numbers by which notes are ordered. -/
def same (a b : Note) : Bool := (a.keys.zip b.keys).all fun (x, y) => x.alike y

/-- The tick at which a note ends. -/
def finish (n : Note) : Except Fault Number :=
  match n.start.add? n.duration with
  | some sum => .ok sum
  | none => .error .overflow

end Note

end MusicScore.Timeline
