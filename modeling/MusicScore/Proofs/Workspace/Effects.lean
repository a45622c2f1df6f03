import MusicScore.Proofs.Outcome
import MusicScore.Proofs.Part.Lengths
import MusicScore.Proofs.Phrase.Growth
import MusicScore.Workspace.Command

/-!
# What commands do to a workspace

Whatever a command is, and whether it is refused or not, it makes one of a few changes. An addition changes the
phrase it is addressed to. Every other command leaves the phrases as they are and can only keep further ones; at
most one part is made, copied or given a phrase. So what holds of a workspace is looked at once for each change, and
what holds of its phrases and parts once for an addition and once for each of these effects, not for every command.
-/
namespace MusicScore.Workspace

/-- The reply to an addition: the event that was placed alone, or that it was done. -/
def Reply.ofPlaced : Option Resolved → Reply
  | some r => .event r
  | none => .done

/-- A command to a phrase puts the phrase after the addition in its place, and replies with the answer. -/
theorem run_grow (w : Workspace) (id : PhraseId) (addition : Phrase.Addition) :
    w.run (.grow id addition) =
      (w.setPhrase id ((w.phrase id).grow addition).1, ((w.phrase id).grow addition).2.map Reply.ofPlaced) := by
  cases outcome : (w.phrase id).grow addition with
  | mk next answer => rcases answer with fault | (_ | r) <;> simp [run, outcome, Except.map, Reply.ofPlaced]

/-! ## Changes -/

/-- The number of something in a workspace. -/
inductive Item where
  | phrase (id : PhraseId)
  | part (id : PartId)
  | score (id : ScoreId)
  deriving DecidableEq

/-- What a command changes, if it changes something that is kept. -/
def Command.target : Command → Option Item
  | .grow phrase _ => some (.phrase phrase)
  | .placePhrase part _ _ => some (.part part)
  | .appendToPrevious part _ => some (.part part)
  | .appendToEnd part _ => some (.part part)
  | .setTempo score _ => some (.score score)
  | .addPart score _ => some (.score score)
  | _ => none

variable {w next : Workspace} {target : Option Item}

/-- The changes that commands make to a workspace, with the item that is changed. -/
inductive Change (w : Workspace) : Option Item → Workspace → Prop where
  | nothing (target : Option Item) : Change w target w
  | phraseGrown (id : PhraseId) (addition : Phrase.Addition) :
      Change w (some (.phrase id)) (w.setPhrase id ((w.phrase id).grow addition).1)
  | phraseKept {p : Phrase} (made : p.Reachable ∨ ∃ id, p = w.phrase id) : Change w none (w.keepPhrase p).2
  | partKept (instrument : Instrument) (name : Datum) : Change w none (w.keepPart (.empty instrument name)).2
  | scoreKept (title : Datum) (tempo : Tempo) (metadata : Option Metadata) :
      Change w none (w.keepScore (.empty title tempo metadata)).2
  | partCopied (id : PartId) : Change w none (w.copyPart id).2
  | phrasePlaced (part : PartId) (phrase : PhraseId) {start : Rat} {entry : PartOf PhraseId}
      (placed : (w.partEntry part).place (w.keepPhrase (w.phrase phrase)).1 (w.phrase phrase).length start =
        .ok entry) : Change w (some (.part part)) ((w.keepPhrase (w.phrase phrase)).2.setPart part entry)
  | tempoSet (score : ScoreId) (tempo : Tempo) :
      Change w (some (.score score)) (w.setScore score ((w.scoreEntry score).setTempo tempo))
  | partAdded (score : ScoreId) (part : PartId) : Change w (some (.score score)) (w.addPart score part).2

/-- Putting a phrase into a part makes a change to the part, or it is refused and makes none. -/
theorem place_change (w : Workspace) (part : PartId) (phrase : PhraseId) (start : Rat) :
    w.Change (some (.part part)) (w.place part phrase start).1 := by
  unfold place
  cases outcome : w.placePhrase part phrase start with
  | error fault => exact .nothing _
  | ok result =>
    obtain ⟨entry, placed, same⟩ := Outcome.bind_eq_ok.mp outcome
    cases same
    exact .phrasePlaced part phrase placed

/-- Every command makes one of the changes to its target. -/
theorem run_change (w : Workspace) (command : Command) : w.Change command.target (w.run command).1 := by
  cases command with
  | newPhrase name => exact .phraseKept (.inl (.empty name))
  | newPhraseOf name events =>
    cases made : Phrase.ofData name events <;> simp only [run, keepMade, made]
    case error fault => exact .nothing _
    case ok p => exact .phraseKept (.inl (Phrase.reachable_ofData made))
  | copyPhrase phrase => exact .phraseKept (.inr ⟨phrase, rfl⟩)
  | grow id addition =>
    rw [run_grow]
    exact .phraseGrown id addition
  | newPart instrument name =>
    cases named : Instrument.ofDatum instrument <;> simp only [run, named]
    case error fault => exact .nothing _
    case ok i => exact .partKept i name
  | copyPart part => exact .partCopied part
  | placePhrase part phrase start =>
    cases amount : start.beats <;> simp only [run, amount]
    case error fault => exact .nothing _
    case ok beats => exact place_change w part phrase beats
  | appendToPrevious part phrase => exact place_change w part phrase _
  | appendToEnd part phrase => exact place_change w part phrase _
  | takePhrase part index =>
    cases taken : itemAt? (w.partEntry part).placed index <;> (simp only [run, taken]; exact .nothing _)
  | newScore title tempo metadata =>
    cases given : Tempo.given tempo <;> simp only [run, given]
    case error fault => exact .nothing _
    case ok t => exact .scoreKept title t metadata
  | setTempo score tempo =>
    cases given : Tempo.given tempo <;> simp only [run, given]
    case error fault => exact .nothing _
    case ok t => exact .tempoSet score t
  | addPart score part => exact .partAdded score part

/-! ## Effects -/

/-- What a command that is not an addition does to a workspace. -/
inductive Effect (w : Workspace) : Workspace → Prop where
  | onScores (scores : List (ScoreOf PartId)) : Effect w { w with scores := scores }
  | phraseKept {p : Phrase} (made : p.Reachable ∨ ∃ id, p = w.phrase id) : Effect w (w.keepPhrase p).2
  | partKept (instrument : Instrument) (name : Datum) : Effect w (w.keepPart (.empty instrument name)).2
  | partCopied (id : PartId) (scores : List (ScoreOf PartId)) : Effect w { (w.copyPart id).2 with scores := scores }
  | phrasePlaced (part : PartId) (phrase : PhraseId) {start : Rat} {entry : PartOf PhraseId}
      (placed : (w.partEntry part).place (w.keepPhrase (w.phrase phrase)).1 (w.phrase phrase).length start =
        .ok entry) : Effect w ((w.keepPhrase (w.phrase phrase)).2.setPart part entry)

/-- Nothing at all is an effect. -/
theorem Effect.nothing (w : Workspace) : w.Effect w := .onScores w.scores

/-- Every change other than one to a phrase has one of the effects. -/
theorem Change.effect (change : w.Change target next) (other : ∀ id, target ≠ some (.phrase id)) : w.Effect next := by
  cases change with
  | nothing => exact .nothing w
  | phraseGrown id addition => exact absurd rfl (other id)
  | phraseKept made => exact .phraseKept made
  | partKept instrument name => exact .partKept instrument name
  | scoreKept title tempo metadata => exact .onScores _
  | partCopied id => exact .partCopied id w.scores
  | phrasePlaced part phrase placed => exact .phrasePlaced part phrase placed
  | tempoSet score tempo => exact .onScores _
  | partAdded score part => exact .partCopied part _

/-- A command is an addition or has one of the effects, also where it is refused. -/
theorem grow_or_effect (w : Workspace) (command : Command) : (∃ id addition, command = .grow id addition) ∨
    (∀ id addition, command ≠ .grow id addition) ∧ w.Effect (w.run command).1 := by
  by_cases growth : ∃ id addition, command = .grow id addition
  · exact .inl growth
  · have other (id : PhraseId) (addition : Phrase.Addition) (same : command = .grow id addition) : False :=
      growth ⟨id, addition, same⟩
    refine .inr ⟨other, (run_change w command).effect fun id addressed => ?_⟩
    cases command with
    | grow own addition => exact other own addition rfl
    | _ => simp [Command.target] at addressed

end MusicScore.Workspace
