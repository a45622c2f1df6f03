import MusicScore.Datum.Basic

/-!
# Values as records

A value of the library can be written as a record of its parts, so that a document can hold it. This goes
through lists and records to the values in them. What comes of it is new: no part of it stands in a second
place, and a value that stands inside itself cannot be written in this way. Intervals are left as they are.
-/
namespace MusicScore

/-- The record of some named parts. -/
def Datum.ofParts (parts : List (String × Datum)) : Datum :=
  .ofFields (parts.map fun (name, value) => (.text name, value))

namespace Pitch

/-- The record of a pitch. -/
def record (p : Pitch) : Datum := .ofParts [("number", .number (.whole p.numeral))]

end Pitch

namespace Duration

/-- The record of a duration. -/
def record (d : Duration) : Datum := .ofParts [("beats", .ofRat d.beats)]

end Duration

namespace Dynamic

/-- The record of a dynamic. -/
def record (d : Dynamic) : Datum := .ofParts [("velocity", .ofInt d.velocity)]

end Dynamic

namespace Event

/-- The record of an event. -/
def record : Event → Datum
  | note n =>
    .ofParts [("pitch", n.pitch.record), ("duration", n.duration.record),
      ("dynamic", n.dynamic.record)]
  | chord c =>
    .ofParts [("pitches", .ofList (c.harmony.pitches.map Pitch.record)),
      ("duration", c.duration.record), ("dynamic", c.dynamic.record)]
  | rest r => .ofParts [("duration", r.duration.record)]

end Event

namespace Datum

mutual

/-- The datum with all values of the library as records. -/
def asRecords : Datum → Except Fault Datum
  | moment _ m => .ok (.moment none m)
  | list _ items => do return .list none (← itemsAsRecords items)
  | record _ fields => do return .record none (← fieldsAsRecords fields)
  | set _ members => .ok (.set none members)
  | pair first second => do return .pair (← asRecords first) (← asRecords second)
  | again _ => .error .tooDeep
  | duration d => .ok d.record
  | pitch p => .ok p.record
  | dynamic d => .ok d.record
  | tempo t => .ok (.ofParts [("bpm", .number (.whole t.numeral))])
  | timeSignature t =>
    .ok (.ofParts [("numerator", .ofInt t.numerator), ("denominator", .ofInt t.denominator)])
  | event e => .ok e.record
  | value => .ok value

/-- The items with all values of the library as records. -/
def itemsAsRecords : List Datum → Except Fault (List Datum)
  | [] => .ok []
  | item :: rest => do
    let first ← asRecords item
    return first :: (← itemsAsRecords rest)

/-- The fields with all values of the library as records. -/
def fieldsAsRecords : List (Datum × Datum) → Except Fault (List (Datum × Datum))
  | [] => .ok []
  | (key, value) :: rest => do
    let first ← asRecords value
    return (key, first) :: (← fieldsAsRecords rest)

end

end Datum

end MusicScore
