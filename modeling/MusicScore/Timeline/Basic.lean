import MusicScore.Datum.Records
import MusicScore.Json.Reading
import MusicScore.Json.Writing
import MusicScore.Timeline.Note
import MusicScore.Yaml.Reading
import MusicScore.Yaml.Writing

/-!
# Timelines

A timeline shows a score in ticks: what is known of the whole, one track for each part, and every pitch
that sounds as a note. It can be read from a record and written as one. What is written has its tracks
in the order of their channels and its notes in their own order, so that equal timelines have equal
records. The fields of a timeline that was read may hold any data; only notes are checked.

A timeline is kept as a JSON or YAML document of its record, so that the document of a timeline does not
depend on the order in which its notes were found. Reading a document gives the timeline of the record in
it.
-/
namespace MusicScore

namespace Timeline

/-- What a timeline says of a part. -/
structure Track where
  channel : Datum
  program : Datum
  instrument : Datum
  name : Datum

end Timeline

/-- A score in ticks. -/
structure Timeline where
  version : Datum
  title : Datum
  tempo : Datum
  key : Datum
  timeSignature : Datum
  ticksPerBeat : Datum
  totalTicks : Datum
  tracks : List Timeline.Track
  notes : List Timeline.Note

namespace Timeline

namespace Track

/-- The names of the fields of a track. -/
def fieldNames : List String := ["channel", "program", "instrument", "name"]

/-- The track of a record with the fields of a track and no others; the name may be missing. -/
def ofDatum (value : Datum) : Except Fault Track :=
  match value.fields? with
  | some fields => do
    let known := fun (field : Datum × Datum) => fieldNames.any fun name => field.1.same (.text name)
    if !fields.all known then .error .wrongKind
    match Datum.field? fields "channel", Datum.field? fields "program",
      Datum.field? fields "instrument" with
    | some channel, some program, some instrument =>
      return ⟨channel, program, instrument, (Datum.field? fields "name").getD (.text "")⟩
    | _, _, _ => .error .wrongKind
  | none => .error .wrongKind

/-- The data of a track in the order of its fields. -/
def values (t : Track) : List Datum := [t.channel, t.program, t.instrument, t.name]

/-- The record of a track, in which all values are records. -/
def toDatum (t : Track) : Except Fault Datum :=
  (Datum.ofFields ((fieldNames.map Datum.text).zip t.values)).asRecords

/-- Tracks in the order of their channels; a fault when two channels have no order. -/
def sort (tracks : List Track) : Except Fault (List Track) :=
  Sorting.sort (fun a b => a.channel.before b.channel) tracks

end Track

/-- The version of the form in which timelines are written. -/
def currentVersion : String := "timeline_ir/v1"

/-- The timeline of a record; fields that are missing have the values of an empty score. -/
def ofDatum (document : Datum) : Except Fault Timeline :=
  match document.fields? with
  | some fields => do
    let value := fun name standard => (Datum.field? fields name).getD standard
    let tracks ← (← (value "tracks" (.ofList [])).items).mapM Track.ofDatum
    let notes ← (← (value "notes" (.ofList [])).items).mapM Note.ofDatum
    return {
      version := value "schema" (.text currentVersion)
      title := value "title" (.text "")
      tempo := value "tempo" (.ofInt 120)
      key := value "key" (.text "")
      timeSignature := value "time_signature" (.text "")
      ticksPerBeat := value "ticks_per_beat" (.ofInt 960)
      totalTicks := value "total_ticks" (.ofInt 0)
      tracks := tracks
      notes := notes }
  | none => .error .noSuchMember

/-- The timeline with its tracks and notes in order. -/
def canonical (t : Timeline) : Except Fault Timeline := do
  let tracks ← Track.sort t.tracks
  return { t with tracks := tracks, notes := Note.sort t.notes }

/-- What a timeline says of the whole, by the names of the fields. -/
def heading (t : Timeline) : List (String × Datum) :=
  [("schema", t.version), ("title", t.title), ("tempo", t.tempo), ("key", t.key),
    ("time_signature", t.timeSignature), ("ticks_per_beat", t.ticksPerBeat),
    ("total_ticks", t.totalTicks)]

/-- The record of a timeline as it is. -/
def record (t : Timeline) : Except Fault Datum := do
  let tracks ← t.tracks.mapM Track.toDatum
  return .ofParts (t.heading ++
    [("tracks", .ofList tracks), ("notes", .ofList (t.notes.map Note.toDatum))])

/-- The record of a timeline with its tracks and notes in order. -/
def toDatum (t : Timeline) : Except Fault Datum := do (← t.canonical).record

/-! ## Documents -/

/-- The JSON document of a timeline. -/
def toJson (layout : Json.Layout) (t : Timeline) : Except Fault (List Char) := do
  Json.write layout (← t.toDatum)

/-- The timeline of a JSON document. -/
def ofJson (s : List Char) : Except Fault Timeline := do ofDatum (← Json.read s)

/-- The YAML document of a timeline. -/
def toYaml (t : Timeline) : Except Fault (List Char) := do Yaml.write (← t.toDatum)

/-- The timeline of a YAML document. -/
def ofYaml (s : List Char) : Except Fault Timeline := do ofDatum (← Yaml.read s)

end Timeline

end MusicScore
