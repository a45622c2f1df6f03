import MusicScore.Midi.File
import MusicScore.Midi.Options
import MusicScore.Score.Basic

/-!
# Scores as files

Every part of a score becomes a track on a channel of its own. The first track opens with the title, the
tempo and, if they are known, the meter and the key; every track with a name of its own says it, except
that the title stands for the name of the first part. A file has sixteen channels, so that a score has
one to sixteen parts.
-/
namespace MusicScore.Score

open MusicScore.Midi

/-- The number of channels. -/
def channelCount : Nat := 16

/-- A score with no parts, or with more parts than channels, is refused. -/
def checkPartCount (s : Score) : Except Fault Unit :=
  if s.parts.isEmpty then .error (.encoding (.noParts s.title.plain))
  else if channelCount < s.parts.length then .error (.encoding (.tooManyParts s.parts.length))
  else .ok ()

/-- The message of a name, where names are written; none for an empty name. -/
def nameMessages (options : Options) (name : Datum) : Except Fault (List Message) :=
  if options.includeTrackNames ∧ name.isTruthy then do return [← Message.ofGivenName name] else .ok []

/-- The messages about the whole score: title, tempo, meter and key. -/
def generalMessages (s : Score) (options : Options) : Except Fault (List Message) := do
  let title ← nameMessages options s.title
  let tempo ← Message.ofTempo s.tempo
  let metadata ← match s.metadata with
    | some m => Message.ofMetadata m
    | none => .ok []
  return title ++ tempo :: metadata

/-- The messages with which the track of a part opens. -/
def openingMessages (s : Score) (options : Options) (part : Part) (index : Nat) :
    Except Fault (List Message) := do
  if index = 0 then
    let general ← generalMessages s options
    let name ← if s.title.isTruthy then .ok [] else nameMessages options part.name
    return general ++ name
  else nameMessages options part.name

/-- The track of a part. -/
def trackOf (s : Score) (options : Options) (part : Part) (index : Nat) : Except Fault Track := do
  let opening ← openingMessages s options part index
  let strokes ← Stroke.ofTimeline options.ticksPerQuarter part.timeline
  Track.ofStrokes (Stroke.sort strokes) index (part.instrument.program : Nat) opening

/-- What is announced of a score before its file is made. -/
def announcement (s : Score) : Shown := s.title.plain ++ wholeText s.tempo.bpm

/-- The content of the file of a score, whose title and tempo have to have texts. -/
def toFile (s : Score) (options : Options) : Except Fault File := do
  checkPartCount s
  if !(announcement s).isShown then .error (.range .unwritable)
  let tracks ← s.parts.zipIdx.mapM fun (part, index) => trackOf s options part index
  return ⟨File.simultaneous, options.ticksPerQuarter, tracks⟩

/-- The bytes of the file of a score. -/
def toBytes (s : Score) (options : Options) : Except Fault (List UInt8) := do
  (← toFile s options).bytes

end MusicScore.Score
