import MusicScore.Metadata
import MusicScore.Part.Basic

/-!
# Scores

A score is a piece with a title: parts that are played together at one tempo, and, if they are known,
its key and meter. The order of the parts is the order in which they were added.
-/
namespace MusicScore

/-- A score that holds its parts in the form `α`. -/
structure ScoreOf (α : Type) where
  title : Datum
  tempo : Tempo
  metadata : Option Metadata
  parts : List α

/-- A score that holds the parts themselves. -/
abbrev Score := ScoreOf Part

namespace ScoreOf

variable {α β : Type}

/-- A score without parts. -/
def empty (title : Datum) (tempo : Tempo) (metadata : Option Metadata) : ScoreOf α :=
  ⟨title, tempo, metadata, []⟩

/-- The score with its parts in another form. -/
def map (f : α → β) (s : ScoreOf α) : ScoreOf β := { s with parts := s.parts.map f }

/-- The score at another tempo. -/
def setTempo (s : ScoreOf α) (tempo : Tempo) : ScoreOf α := { s with tempo := tempo }

/-- The score with one more part. -/
def push (s : ScoreOf α) (part : α) : ScoreOf α := { s with parts := s.parts ++ [part] }

/-- The description of a score. -/
def text (s : ScoreOf α) : Shown :=
  "Score(" ++ s.title.detail ++ ", tempo=" ++ wholeText s.tempo.bpm ++
    s!", parts={s.parts.length})"

end ScoreOf

namespace Score

/-- The score with a copy of a part at the end. -/
def addPart (s : Score) (part : Part) : Score := s.push part.copy

/-- The greatest length of the parts. -/
def length (s : Score) : Rat := s.parts.foldl (fun latest part => later latest part.length) 0

end Score

end MusicScore
