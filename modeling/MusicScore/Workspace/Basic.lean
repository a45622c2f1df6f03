import MusicScore.Score.Basic

/-!
# Workspaces

A workspace keeps phrases, parts and scores under numbers, so that something can be changed where it is
kept. A part holds the numbers of its phrases and a score those of its parts. What is put into a part or
a score is copied first, under a number of its own: a phrase belongs to one part at most and a part to
one score at most, and nothing that is done to the one that was copied reaches the copy.

What is kept is never removed, so that a number stays good. What a number stands for is read with all
that belongs to it.
-/
namespace MusicScore

/-- The number of a phrase in a workspace. -/
structure PhraseId where
  number : Nat
  deriving DecidableEq

/-- The number of a part in a workspace. -/
structure PartId where
  number : Nat
  deriving DecidableEq

/-- The number of a score in a workspace. -/
structure ScoreId where
  number : Nat
  deriving DecidableEq

/-- Phrases, parts and scores, each at the place of its number. -/
structure Workspace where
  phrases : List Phrase
  parts : List (PartOf PhraseId)
  scores : List (ScoreOf PartId)

namespace Workspace

/-- A workspace in which nothing is kept. -/
def empty : Workspace := ⟨[], [], []⟩

/-- The phrase with a number; an empty one where nothing is kept. -/
def phrase (w : Workspace) (id : PhraseId) : Phrase :=
  (w.phrases[id.number]?).getD (.empty (.text ""))

/-- The part with a number, by the numbers of its phrases. -/
def partEntry (w : Workspace) (id : PartId) : PartOf PhraseId :=
  (w.parts[id.number]?).getD (.empty .first (.text ""))

/-- The score with a number, by the numbers of its parts. -/
def scoreEntry (w : Workspace) (id : ScoreId) : ScoreOf PartId :=
  (w.scores[id.number]?).getD (.empty (.text "") .moderate none)

/-- The part with a number. -/
def part (w : Workspace) (id : PartId) : Part := (w.partEntry id).map w.phrase

/-- The score with a number. -/
def score (w : Workspace) (id : ScoreId) : Score := (w.scoreEntry id).map w.part

/-- Keep one more phrase. -/
def keepPhrase (w : Workspace) (p : Phrase) : PhraseId × Workspace :=
  (⟨w.phrases.length⟩, { w with phrases := w.phrases ++ [p] })

/-- Keep one more part. -/
def keepPart (w : Workspace) (p : PartOf PhraseId) : PartId × Workspace :=
  (⟨w.parts.length⟩, { w with parts := w.parts ++ [p] })

/-- Keep one more score. -/
def keepScore (w : Workspace) (s : ScoreOf PartId) : ScoreId × Workspace :=
  (⟨w.scores.length⟩, { w with scores := w.scores ++ [s] })

/-- Change the phrase with a number. -/
def setPhrase (w : Workspace) (id : PhraseId) (p : Phrase) : Workspace :=
  { w with phrases := w.phrases.set id.number p }

/-- Change the part with a number. -/
def setPart (w : Workspace) (id : PartId) (p : PartOf PhraseId) : Workspace :=
  { w with parts := w.parts.set id.number p }

/-- Change the score with a number. -/
def setScore (w : Workspace) (id : ScoreId) (s : ScoreOf PartId) : Workspace :=
  { w with scores := w.scores.set id.number s }

/-- Keep a copy of a part, whose phrases are copies under the next numbers. -/
def copyPart (w : Workspace) (id : PartId) : PartId × Workspace :=
  let entry := w.partEntry id
  let copies := (w.part id).placed.map (·.content)
  let placed := entry.placed.mapIdx fun index x =>
    { x with content := PhraseId.mk (w.phrases.length + index) }
  let entry := { entry with placed := placed, length := (w.part id).latestEnd }
  { w with phrases := w.phrases ++ copies }.keepPart entry

/-- Put a copy of a phrase into a part. -/
def placePhrase (w : Workspace) (part : PartId) (phrase : PhraseId) (start : Rat) :
    Except Fault (Placed PhraseId × Workspace) := do
  let content := w.phrase phrase
  let (copy, next) := w.keepPhrase content
  let entry ← (w.partEntry part).place copy content.length start
  return (⟨copy, start⟩, next.setPart part entry)

/-- Put a copy of a part into a score. -/
def addPart (w : Workspace) (score : ScoreId) (part : PartId) : PartId × Workspace :=
  let (copy, next) := w.copyPart part
  (copy, next.setScore score ((w.scoreEntry score).push copy))

end Workspace

end MusicScore
