import MusicScore.Event.Given
import MusicScore.Phrase.Given
import MusicScore.Part.Basic
import MusicScore.Tempo
import MusicScore.Workspace.Basic

/-!
# Commands to a workspace

A command makes, copies or changes one thing that is kept. It is answered by what was made, by an event
or a phrase with its times, or by nothing more than that it was done. A command that is refused changes
nothing, except that of several events those before the first refused one stay placed.
-/
namespace MusicScore.Workspace

/-- What a workspace can be told to do. -/
inductive Command where
  | newPhrase (name : Datum)
  | newPhraseOf (name events : Datum)
  | copyPhrase (phrase : PhraseId)
  | grow (phrase : PhraseId) (addition : Phrase.Addition)
  | newPart (instrument name : Datum)
  | copyPart (part : PartId)
  | placePhrase (part : PartId) (phrase : PhraseId) (start : Datum)
  | appendToPrevious (part : PartId) (phrase : PhraseId)
  | appendToEnd (part : PartId) (phrase : PhraseId)
  | takePhrase (part : PartId) (index : Int)
  | newScore (title tempo : Datum) (metadata : Option Metadata)
  | setTempo (score : ScoreId) (tempo : Datum)
  | addPart (score : ScoreId) (part : PartId)

/-- What a workspace answers. -/
inductive Reply where
  | done
  | event (placed : Resolved)
  | span (start finish : Rat)
  | phrase (id : PhraseId)
  | part (id : PartId)
  | score (id : ScoreId)

/-- The item at an index, where negative indices count from the end. -/
def itemAt? {α : Type} (items : List α) (index : Int) : Option α :=
  let place := if index < 0 then index + items.length else index
  if place < 0 then none else items[place.toNat]?

/-- Put a copy of a phrase into a part, and answer with its times. -/
def place (w : Workspace) (part : PartId) (phrase : PhraseId) (start : Rat) :
    Workspace × Except Fault Reply :=
  match w.placePhrase part phrase start with
  | .ok (placed, next) => (next, .ok (.span placed.start (placed.start + (w.phrase phrase).length)))
  | .error fault => (w, .error fault)

/-- Keep the phrase, if there is one, and answer with its number. -/
def keepMade (w : Workspace) (made : Except Fault Phrase) : Workspace × Except Fault Reply :=
  match made with
  | .ok p => let (id, next) := w.keepPhrase p; (next, .ok (.phrase id))
  | .error fault => (w, .error fault)

/-- Carry out a command. -/
def run (w : Workspace) : Command → Workspace × Except Fault Reply
  | .newPhrase name => w.keepMade (.ok (.empty name))
  | .newPhraseOf name events => w.keepMade (Phrase.ofData name events)
  | .copyPhrase phrase => w.keepMade (.ok (w.phrase phrase))
  | .grow phrase addition =>
    match (w.phrase phrase).grow addition with
    | (grown, .ok (some r)) => (w.setPhrase phrase grown, .ok (.event r))
    | (grown, .ok none) => (w.setPhrase phrase grown, .ok .done)
    | (grown, .error fault) => (w.setPhrase phrase grown, .error fault)
  | .newPart instrument name =>
    match Instrument.ofDatum instrument with
    | .ok i => let (id, next) := w.keepPart (.empty i name); (next, .ok (.part id))
    | .error fault => (w, .error fault)
  | .copyPart part => let (id, next) := w.copyPart part; (next, .ok (.part id))
  | .placePhrase part phrase start =>
    match start.beats with
    | .ok start => w.place part phrase start
    | .error fault => (w, .error fault)
  | .appendToPrevious part phrase => w.place part phrase (w.partEntry part).previousEnd
  | .appendToEnd part phrase => w.place part phrase (w.partEntry part).length
  | .takePhrase part index =>
    match itemAt? (w.partEntry part).placed index with
    | some placed => (w, .ok (.phrase placed.content))
    | none => (w, .error .noSuchIndex)
  | .newScore title tempo metadata =>
    match Tempo.given tempo with
    | .ok t => let (id, next) := w.keepScore (.empty title t metadata); (next, .ok (.score id))
    | .error fault => (w, .error fault)
  | .setTempo score tempo =>
    match Tempo.given tempo with
    | .ok t => (w.setScore score ((w.scoreEntry score).setTempo t), .ok .done)
    | .error fault => (w, .error fault)
  | .addPart score part => let (id, next) := w.addPart score part; (next, .ok (.part id))

end MusicScore.Workspace
