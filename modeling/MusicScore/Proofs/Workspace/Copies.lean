import MusicScore.Proofs.Workspace.Lengths
import MusicScore.Proofs.Workspace.Ownership
import MusicScore.Score.Encoding

/-!
# Copies of parts

A copy of a part finds its length anew from its phrases and takes over the end of the phrase that was added last. As
long as nothing has been added to the phrases of the part, the length that it keeps is that of its phrases, so that
the copy is the part made anew and the same. From then on the two are alike: whatever is done to one and to the other,
they answer the same, and hold the same phrases. For this it does not matter that a copy has another number, and other
numbers of phrases: the answers are made of what stands under the numbers.
-/
namespace MusicScore.Workspace

variable {w v : Workspace} {id a b : PartId}

/-! ## The past of a part -/

/-- The command adds to none of the phrases of the part. -/
def Spares (w : Workspace) (id : PartId) (command : Command) : Prop :=
  ∀ item ∈ w.slots (.part id), command.target ≠ some item

instance (w : Workspace) (id : PartId) (command : Command) : Decidable (w.Spares id command) :=
  inferInstanceAs (Decidable (∀ item ∈ w.slots (.part id), command.target ≠ some item))

/-- The workspaces that come of commands to an empty one none of which adds to a phrase of the part. -/
inductive ReachableSparing (id : PartId) : Workspace → Prop where
  | empty : ReachableSparing id empty
  | run {w : Workspace} {command : Command} (before : ReachableSparing id w) (spares : w.Spares id command) :
      ReachableSparing id (w.run command).1

/-- They are among those that can be made. -/
theorem ReachableSparing.reachable (sparing : w.ReachableSparing id) : w.Reachable := by
  induction sparing with
  | empty => exact .empty
  | run _ _ inductionHypothesis => exact inductionHypothesis.run _

/-- An addition to none of its phrases leaves a part as it is. -/
theorem part_grow_of_spares {phrase : PhraseId} {addition : Phrase.Addition}
    (spares : w.Spares id (.grow phrase addition)) : (w.run (.grow phrase addition)).1.part id = w.part id := by
  rw [run_grow]
  refine PartOf.map_congr ?_
  intro x member
  refine phrase_setPhrase_of_ne _ ?_
  rintro rfl
  exact spares _ (List.mem_map_of_mem member) rfl

/-- Where nothing has been added to its phrases, the length of a part is their latest end. -/
theorem ReachableSparing.latest (sparing : w.ReachableSparing id) :
    IsLatest ((w.part id).placed.map Placed.finish) (w.part id).length := by
  induction sparing with
  | empty => exact (current_of_empty id).latest
  | @run w command before spares inductionHypothesis =>
    rcases grow_or_effect w command with ⟨phrase, addition, rfl⟩ | ⟨_, effect⟩
    · rwa [part_grow_of_spares spares]
    · exact effect.latest before.reachable inductionHypothesis

/-- Such a part is the same when it is made anew. -/
theorem ReachableSparing.copy_eq (sparing : w.ReachableSparing id) : (w.part id).copy = w.part id := by
  have same : (w.part id).latestEnd = (w.part id).length :=
    (sparing.reachable.part_sound id).latestEnd.unique sparing.latest
  unfold Part.copy
  rw [same]

/-! ## The future of a part -/

/-- What can be done to a part: it is given a phrase or copied. Between that, further phrases are written. -/
inductive Step where
  | place (phrase : PhraseId) (start : Datum)
  | toPrevious (phrase : PhraseId)
  | toEnd (phrase : PhraseId)
  /-- The next step is done to the copy, or else to the part itself. -/
  | copy (follow : Bool)
  | write (name : Datum) (line : List Phrase.Addition)

namespace Step

/-- The commands of a step. -/
def commands (w : Workspace) (id : PartId) : Step → List Command
  | place phrase start => [.placePhrase id phrase start]
  | toPrevious phrase => [.appendToPrevious id phrase]
  | toEnd phrase => [.appendToEnd id phrase]
  | copy _ => [.copyPart id]
  | write name line => .newPhrase name :: line.map (.grow ⟨w.phrases.length⟩)

/-- The part that the next step is done to. -/
def next (w : Workspace) (id : PartId) : Step → PartId
  | copy true => (w.copyPart id).1
  | _ => id

end Step

/-- The replies to commands. -/
def replies (w : Workspace) : List Command → List (Except Fault Reply)
  | [] => []
  | command :: rest => (w.run command).2 :: (w.run command).1.replies rest

/-- What comes of steps, one after the other: the replies to each, and the part after it. -/
def course (w : Workspace) (id : PartId) : List Step → List (List (Except Fault Reply) × Part)
  | [] => []
  | step :: rest =>
    let after := w.runAll (step.commands w id)
    (w.replies (step.commands w id), after.part (step.next w id)) :: after.course (step.next w id) rest

/-- Two workspaces have the same phrases, and a part of one is the same as a part of the other. -/
structure Alike (w v : Workspace) (a b : PartId) : Prop where
  phrases : w.phrases = v.phrases
  parts : w.parts.length = v.parts.length
  kept : w.HoldsKept
  keptToo : v.HoldsKept
  inside : a.number < w.parts.length
  insideToo : b.number < v.parts.length
  same : w.part a = v.part b

/-- A phrase is refused before beat zero, and nothing changes. -/
theorem place_of_negative {phrase : PhraseId} {start : Rat} (early : start < 0) :
    w.place id phrase start = (w, .error (.placement (.phraseStart start))) := by
  have refused : (w.partEntry id).place (w.keepPhrase (w.phrase phrase)).1 (w.phrase phrase).length start =
      .error (.placement (.phraseStart start)) := if_pos early
  have outcome : w.placePhrase id phrase start = .error (.placement (.phraseStart start)) :=
    Outcome.bind_eq_error.mpr (.inl refused)
  simp only [place, outcome]

/-- A part that is copied stays as it is. -/
theorem part_copyPart_of_kept (kept : w.HoldsKept) (inside : a.number < w.parts.length) :
    (w.copyPart id).2.part a = w.part a :=
  part_of_append kept rfl ((partEntry_of_append rfl a).trans (if_neg inside.ne))

/-- Two parts that are alike are given the same phrase, or both refuse it with the same fault. -/
theorem Alike.place (alike : w.Alike v a b) (phrase : PhraseId) (start : Rat) :
    (w.place a phrase start).2 = (v.place b phrase start).2 ∧
      (w.place a phrase start).1.Alike (v.place b phrase start).1 a b := by
  obtain ⟨phrases, parts, kept, keptToo, inside, insideToo, same⟩ := alike
  have given : w.phrase phrase = v.phrase phrase := by rw [Workspace.phrase, Workspace.phrase, phrases]
  have change (w : Workspace) (id : PartId) := (place_change w id phrase start).effect (by simp)
  by_cases early : start < 0
  · rw [place_of_negative early, place_of_negative early]
    exact ⟨rfl, phrases, parts, kept, keptToo, inside, insideToo, same⟩
  · have keeps := (change w a).holdsKept kept
    have keepsToo := (change v b).holdsKept keptToo
    obtain ⟨next, done, more, still, read⟩ := run_place kept phrase inside (not_lt.mp early)
    obtain ⟨nextToo, doneToo, moreToo, stillToo, readToo⟩ := run_place keptToo phrase insideToo (not_lt.mp early)
    rw [done] at keeps ⊢
    rw [doneToo] at keepsToo ⊢
    refine ⟨by rw [given], ?_, ?_, keeps, keepsToo, still ▸ inside, stillToo ▸ insideToo, ?_⟩
    · rw [more, moreToo, phrases, given]
    · rw [still, stillToo, parts]
    · rw [read, readToo, same, given]

/-- Copies of parts that are alike are alike, and so are the parts themselves afterwards. -/
theorem Alike.copy (alike : w.Alike v a b) :
    (w.copyPart a).2.Alike (v.copyPart b).2 (w.copyPart a).1 (v.copyPart b).1 ∧
      (w.copyPart a).2.Alike (v.copyPart b).2 a b := by
  obtain ⟨phrases, parts, kept, keptToo, inside, insideToo, same⟩ := alike
  have more : (w.copyPart a).2.phrases = (v.copyPart b).2.phrases := by
    change w.phrases ++ _ = v.phrases ++ _
    rw [phrases, same]
  have length (w : Workspace) (id : PartId) : (w.copyPart id).2.parts.length = w.parts.length + 1 := by
    simp [copyPart, keepPart]
  have number (w : Workspace) (id : PartId) : (w.copyPart id).1.number = w.parts.length := rfl
  have keeps := run_holdsKept kept (.copyPart a)
  have keepsToo := run_holdsKept keptToo (.copyPart b)
  constructor
  · refine ⟨more, ?_, keeps, keepsToo, ?_, ?_, ?_⟩
    · rw [length, length, parts]
    · rw [length, number]
      exact Nat.lt_succ_self _
    · rw [length, number]
      exact Nat.lt_succ_self _
    · rw [part_copyPart, part_copyPart, same]
  · refine ⟨more, ?_, keeps, keepsToo, ?_, ?_, ?_⟩
    · rw [length, length, parts]
    · rw [length]
      exact Nat.lt_succ_of_lt inside
    · rw [length]
      exact Nat.lt_succ_of_lt insideToo
    · rw [part_copyPart_of_kept kept inside, part_copyPart_of_kept keptToo insideToo, same]

/-- An addition to a phrase of neither part is answered alike, and leaves the parts alike. -/
theorem Alike.grow (alike : w.Alike v a b) {phrase : PhraseId} (spared : .phrase phrase ∉ w.slots (.part a))
    (sparedToo : .phrase phrase ∉ v.slots (.part b)) (addition : Phrase.Addition) :
    (w.run (.grow phrase addition)).2 = (v.run (.grow phrase addition)).2 ∧
      (w.run (.grow phrase addition)).1.Alike (v.run (.grow phrase addition)).1 a b := by
  obtain ⟨phrases, parts, kept, keptToo, inside, insideToo, same⟩ := alike
  have grown : w.phrase phrase = v.phrase phrase := by rw [Workspace.phrase, Workspace.phrase, phrases]
  have unchanged (w : Workspace) (id : PartId) (spared : .phrase phrase ∉ w.slots (.part id)) :
      (w.run (.grow phrase addition)).1.part id = w.part id := by
    refine part_grow_of_spares ?_
    rintro item member addressed
    exact spared (Option.some.inj addressed ▸ member)
  refine ⟨?_, ?_, ?_, run_holdsKept kept _, run_holdsKept keptToo _, ?_, ?_, ?_⟩
  · rw [run_grow, run_grow, grown]
  · rw [run_grow, run_grow, grown]
    simp only [setPhrase, phrases]
  · rw [run_grow, run_grow]
    exact parts
  · rw [run_grow]
    exact inside
  · rw [run_grow]
    exact insideToo
  · rw [unchanged w a spared, unchanged v b sparedToo, same]

/-- Commands to the one workspace and to the other are answered alike, and leave a part of the one like a part of the
other. -/
def StayAlike (w v : Workspace) (commands others : List Command) (a b : PartId) : Prop :=
  w.replies commands = v.replies others ∧ (w.runAll commands).Alike (v.runAll others) a b

/-- Commands that are answered alike may be followed by more of the kind. -/
theorem StayAlike.cons {command other : Command} {commands others : List Command}
    (answer : (w.run command).2 = (v.run other).2)
    (further : (w.run command).1.StayAlike (v.run other).1 commands others a b) :
    w.StayAlike v (command :: commands) (other :: others) a b :=
  ⟨List.cons_eq_cons.mpr ⟨answer, further.1⟩, further.2⟩

/-- Single commands that are answered alike may leave the parts alike. -/
theorem StayAlike.single {command other : Command} (answer : (w.run command).2 = (v.run other).2)
    (after : (w.run command).1.Alike (v.run other).1 a b) : w.StayAlike v [command] [other] a b :=
  .cons answer ⟨rfl, after⟩

/-- A whole line that is added to a phrase of neither part leaves them alike. -/
theorem Alike.line {phrase : PhraseId} (line : List Phrase.Addition) (alike : w.Alike v a b)
    (spared : .phrase phrase ∉ w.slots (.part a)) (sparedToo : .phrase phrase ∉ v.slots (.part b)) :
    w.StayAlike v (line.map (.grow phrase)) (line.map (.grow phrase)) a b := by
  induction line generalizing w v with
  | nil => exact ⟨rfl, alike⟩
  | cons addition rest inductionHypothesis =>
    have slots (w : Workspace) (owner : Item) : (w.run (.grow phrase addition)).1.slots owner = w.slots owner := by
      rw [run_grow]
      cases owner <;> rfl
    obtain ⟨answer, still⟩ := alike.grow spared sparedToo addition
    exact .cons answer (inductionHypothesis still (by rwa [slots]) (by rwa [slots]))

/-- A phrase that is kept besides leaves the parts alike. -/
theorem Alike.keepPhrase (alike : w.Alike v a b) (p : Phrase) : (w.keepPhrase p).2.Alike (v.keepPhrase p).2 a b := by
  obtain ⟨phrases, parts, kept, keptToo, inside, insideToo, same⟩ := alike
  have keeps {w : Workspace} (kept : w.HoldsKept) : (w.keepPhrase p).2.HoldsKept := by
    intro part member x placed
    have before := kept part member x placed
    simpa [Workspace.keepPhrase] using Nat.lt_succ_of_lt before
  have unchanged {w : Workspace} (kept : w.HoldsKept) (id : PartId) : (w.keepPhrase p).2.part id = w.part id :=
    part_of_append kept rfl rfl
  refine ⟨?_, parts, keeps kept, keeps keptToo, inside, insideToo, ?_⟩
  · change w.phrases ++ [p] = v.phrases ++ [p]
    rw [phrases]
  · rw [unchanged kept, unchanged keptToo, same]

/-- The number of the phrase that is kept next belongs to no part. -/
theorem HoldsKept.not_mem_slots (kept : w.HoldsKept) (id : PartId) :
    .phrase ⟨w.phrases.length⟩ ∉ w.slots (.part id) := by
  intro member
  obtain ⟨x, placed, same⟩ := List.mem_map.mp member
  have number : x.content = ⟨w.phrases.length⟩ := Item.phrase.inj same
  have before := kept.partEntry id x placed
  rw [number] at before
  exact lt_irrefl _ before

/-- Commands that put the same phrase at the same beat into parts that are alike leave them alike. -/
theorem Alike.placing (alike : w.Alike v a b) {command other : Command} {phrase : PhraseId} {start : Rat}
    (own : w.run command = w.place a phrase start) (others : v.run other = v.place b phrase start) :
    w.StayAlike v [command] [other] a b := by
  obtain ⟨answer, after⟩ := alike.place phrase start
  rw [← own, ← others] at answer after
  exact .single answer after

/-- A phrase is put into parts that are alike at the same given beat, or none is put into either. -/
theorem Alike.placingGiven (alike : w.Alike v a b) (phrase : PhraseId) (start : Datum) :
    w.StayAlike v [.placePhrase a phrase start] [.placePhrase b phrase start] a b := by
  cases amount : start.beats with
  | error fault =>
    have refused (w : Workspace) (id : PartId) : w.run (.placePhrase id phrase start) = (w, .error fault) := by
      simp only [run, amount]
    refine .single ?_ ?_ <;> rw [refused, refused]
    exact alike
  | ok beats =>
    have placed (w : Workspace) (id : PartId) : w.run (.placePhrase id phrase start) = w.place id phrase beats := by
      simp only [run, amount]
    exact alike.placing (placed w a) (placed v b)

/-- A further phrase is written alike in both workspaces. -/
theorem Alike.writing (alike : w.Alike v a b) (name : Datum) (line : List Phrase.Addition) :
    w.StayAlike v (.newPhrase name :: line.map (.grow ⟨w.phrases.length⟩))
      (.newPhrase name :: line.map (.grow ⟨v.phrases.length⟩)) a b := by
  have begun := alike.keepPhrase (.empty name)
  have number : w.phrases.length = v.phrases.length := congrArg List.length alike.phrases
  have answer : (w.run (.newPhrase name)).2 = (v.run (.newPhrase name)).2 := by
    simp only [run, keepMade, Workspace.keepPhrase, number]
  have spared := alike.kept.not_mem_slots a
  have sparedToo := alike.keptToo.not_mem_slots b
  rw [← number] at sparedToo ⊢
  exact .cons answer (begun.line line spared sparedToo)

/-- A step is answered alike by parts that are alike, and leaves them alike. -/
theorem Alike.step (alike : w.Alike v a b) (step : Step) :
    w.StayAlike v (step.commands w a) (step.commands v b) (step.next w a) (step.next v b) := by
  cases step with
  | place phrase start => exact alike.placingGiven phrase start
  | toPrevious phrase =>
    have start : (w.part a).previousEnd = (v.part b).previousEnd := congrArg PartOf.previousEnd alike.same
    exact alike.placing rfl (congrArg (v.place b phrase) start.symm)
  | toEnd phrase =>
    have start : (w.part a).length = (v.part b).length := congrArg PartOf.length alike.same
    exact alike.placing rfl (congrArg (v.place b phrase) start.symm)
  | copy follow =>
    obtain ⟨copies, originals⟩ := alike.copy
    have number : (w.copyPart a).1 = (v.copyPart b).1 := congrArg PartId.mk alike.parts
    have answer : (w.run (.copyPart a)).2 = (v.run (.copyPart b)).2 := by
      simp only [run, number]
    cases follow with
    | true => exact .single answer copies
    | false => exact .single answer originals
  | write name line => exact alike.writing name line

/-- Steps have the same course for parts that are alike. -/
theorem Alike.course (alike : w.Alike v a b) (steps : List Step) : w.course a steps = v.course b steps := by
  induction steps generalizing w v a b with
  | nil => rfl
  | cons step rest inductionHypothesis =>
    obtain ⟨answers, after⟩ := alike.step step
    simp only [Workspace.course, answers, after.same, inductionHypothesis after]

/-! ## A part and its copy -/

/-- A score into which a part has been put has a copy of the part behind its other parts. -/
theorem score_addPart (reachable : w.Reachable) {score : ScoreId} (inside : score.number < w.scores.length)
    (id : PartId) : (w.run (.addPart score id)).1.score score = (w.score score).push (w.part id).copy := by
  have scores : (w.addPart score id).2.scores = w.scores.set score.number _ := rfl
  have entry : (w.addPart score id).2.scoreEntry score = (w.scoreEntry score).push (w.copyPart id).1 :=
    (scoreEntry_of_set scores score).trans (if_pos ⟨rfl, inside⟩)
  have others : (w.scoreEntry score).parts.map (w.copyPart id).2.part = (w.scoreEntry score).parts.map w.part := by
    refine List.map_congr_left ?_
    intro part held
    have slot : .part part ∈ w.slots (.score score) := List.mem_map_of_mem held
    exact part_copyPart_of_kept reachable.holdsKept (reachable.tree.kept slot)
  have read : (w.addPart score id).2.score score =
      ((w.scoreEntry score).push (w.copyPart id).1).map (w.copyPart id).2.part := congrArg (ScoreOf.map _) entry
  refine read.trans ?_
  simp only [Workspace.score, ScoreOf.map, ScoreOf.push, List.map_append, List.map_singleton, others, part_copyPart]

/-- A copy of a part, and the part that it was made of, are the same in what they hold and in what comes of it. -/
structure Twins (w next : Workspace) (id copy : PartId) : Prop where
  /-- The copy is another part, and the part is as it was. -/
  apart : copy ≠ id ∧ next.part id = w.part id
  /-- They hold the same phrases at the same starts. -/
  placed : (next.part copy).placed = (w.part id).placed
  /-- Their timelines are the same. -/
  timeline : (next.part copy).timeline = (w.part id).timeline
  /-- Their lengths are the same. -/
  length : (next.part copy).length = (w.part id).length
  /-- Whatever steps are done to one or to the other, each is answered alike and makes the same of them. -/
  future : ∀ steps, next.course copy steps = next.course id steps
  /-- A score that the part is put into is written as if it had the part itself. -/
  written : ∀ (score : ScoreId) (options : Midi.Options), score.number < w.scores.length →
    ((w.run (.addPart score id)).1.score score).toBytes options =
      Score.toBytes ((w.score score).push (w.part id)) options

/-- A part whose phrases nothing has been added to and its copy are the same, now and whatever is done to them. -/
theorem ReachableSparing.twins (sparing : w.ReachableSparing id) (inside : id.number < w.parts.length) :
    ∃ next copy, w.run (.copyPart id) = (next, .ok (.part copy)) ∧ w.Twins next id copy := by
  have reachable := sparing.reachable
  have same : (w.copyPart id).2.part (w.copyPart id).1 = w.part id := (part_copyPart w id).trans sparing.copy_eq
  have unchanged : (w.copyPart id).2.part id = w.part id := part_copyPart_of_kept reachable.holdsKept inside
  have another : (w.copyPart id).1 ≠ id := by
    intro number
    exact inside.ne (congrArg PartId.number number).symm
  have keeps := run_holdsKept reachable.holdsKept (.copyPart id)
  have length : (w.copyPart id).2.parts.length = w.parts.length + 1 := by simp [copyPart, keepPart]
  have alike : (w.copyPart id).2.Alike (w.copyPart id).2 (w.copyPart id).1 id := by
    refine ⟨rfl, rfl, keeps, keeps, ?_, ?_, same.trans unchanged.symm⟩
    · rw [length]
      exact Nat.lt_succ_self _
    · rw [length]
      exact Nat.lt_succ_of_lt inside
  refine ⟨(w.copyPart id).2, (w.copyPart id).1, rfl, ⟨another, unchanged⟩, ?_, ?_, ?_, alike.course, ?_⟩
  · rw [same]
  · rw [same]
  · rw [same]
  · intro score options kept
    rw [score_addPart reachable kept, sparing.copy_eq]

/-- A part with a long phrase and a short one over it; the long phrase that it was copied of has grown since. -/
def layered : Workspace :=
  .after [.newPhrase (.text "Long"),
    .grow ⟨0⟩ (.event (middleC TimeSignature.common.barDuration)),
    .newPhrase (.text "Short"),
    .grow ⟨1⟩ (.event (middleC TimeSignature.common.beatUnit)),
    .newPart (.ofInt 0) (.text "Piano"),
    .placePhrase ⟨0⟩ ⟨0⟩ (.ofInt 0),
    .placePhrase ⟨0⟩ ⟨1⟩ (.ofInt 0),
    .grow ⟨0⟩ (.event (middleC TimeSignature.common.beatUnit))]

/-- The part keeps two beats that differ, and its copy keeps both. -/
theorem layered_twins :
    ((layered.part ⟨0⟩).length, (layered.part ⟨0⟩).previousEnd) = (4, 1) ∧ layered.ReachableSparing ⟨0⟩ ∧
      (⟨0⟩ : PartId).number < layered.parts.length ∧
        ∃ next copy, layered.run (.copyPart ⟨0⟩) = (next, .ok (.part copy)) ∧ layered.Twins next ⟨0⟩ copy := by
  have sparing : layered.ReachableSparing ⟨0⟩ := by
    refine .run (.run (.run (.run (.run (.run (.run (.run .empty ?_) ?_) ?_) ?_) ?_) ?_) ?_) ?_
    all_goals decide +kernel
  have inside : (⟨0⟩ : PartId).number < layered.parts.length := by
    have one : layered.parts.length = 1 := by cbv
    exact one ▸ Nat.zero_lt_one
  exact ⟨by cbv, sparing, inside, sparing.twins inside⟩

end MusicScore.Workspace
