import MusicScore.Score.Encoding
import MusicScore.Timeline.Basic

/-!
# Timelines of scores

The timeline of a score has the strokes of each event as they are put into the file: a note starts at the
tick of its press and ends at that of its release. A score whose parts do not fit the channels, and an
event without strokes of its own, are refused as they are for a file. Names, tempo and gaps are not
looked at here.
-/
namespace MusicScore.Score

open MusicScore.Midi

/-- The notes of strokes that come in pairs of press and release. -/
def notesOfPairs (channel : Nat) (beat : Double) : List Stroke → List Timeline.Note
  | on :: off :: rest =>
    { start := .ofInt on.tick
      channel := .ofInt channel
      pitch := .whole on.pitch
      duration := .ofInt (off.tick - on.tick)
      velocity := .ofInt on.velocity
      beat := .number (.float beat) } :: notesOfPairs channel beat rest
  | _ => []

/-- The notes of an event on a channel. -/
def notesOfEvent (options : Options) (channel : Nat) (r : Resolved) :
    Except Fault (List Timeline.Note) := do
  let strokes ← Stroke.ofResolved options.ticksPerQuarter r
  if strokes.isEmpty then return []
  match Double.ofRat? r.start with
  | some beat => return notesOfPairs channel beat strokes
  | none => .error .overflow

/-- The notes of a part on a channel. -/
def notesOfPart (options : Options) (part : Part) (channel : Nat) :
    Except Fault (List Timeline.Note) := do
  return (← part.timeline.mapM (notesOfEvent options channel)).flatten

/-- The track of a part on a channel. -/
def timelineTrack (part : Part) (channel : Nat) : Timeline.Track :=
  { channel := .ofInt channel
    program := .ofInt (part.instrument.program : Nat)
    instrument := .text part.instrument.name
    name := part.name }

/-- The latest release of an event, zero at least. -/
def latestRelease (options : Options) (events : List Resolved) : Int :=
  events.foldl (fun latest r => max latest (releaseOf r)) 0
where
  /-- The tick of the release of an event that sounds. -/
  releaseOf (r : Resolved) : Int :=
    if r.event.pitches.isEmpty then 0 else ticks r.finish options.ticksPerQuarter

/-- The timeline of a score. -/
def toTimeline (s : Score) (options : Options) : Except Fault Timeline := do
  checkPartCount s
  let timeSignature ← match s.metadata with
    | some m => m.meter.plain.read
    | none => .ok ""
  let notes ← s.parts.zipIdx.mapM fun (part, index) => notesOfPart options part index
  Timeline.canonical {
    version := .text Timeline.currentVersion
    title := s.title
    tempo := .number (.whole s.tempo.numeral)
    key := .text ((s.metadata.map (·.key.name)).getD "")
    timeSignature := .text timeSignature
    ticksPerBeat := .ofInt options.ticksPerQuarter
    totalTicks := .ofInt (latestRelease options (s.parts.flatMap Part.timeline))
    tracks := s.parts.zipIdx.map fun (part, index) => timelineTrack part index
    notes := notes.flatten }

end MusicScore.Score
