import MusicScore.Proofs.Workspace.Phrases

/-!
# The parts of a workspace

A part is read with the phrases that stand under its numbers. These are always kept, so that a phrase or a part
that is kept as well makes no difference to it, and a copy of a part reads as the part made anew. Of a part that is
read, a command other than an addition can only make an empty one, copy one or put a phrase into it.
-/
namespace MusicScore.Workspace

variable {w next : Workspace}

/-- The phrases of every part are kept. -/
def HoldsKept (w : Workspace) : Prop := ∀ part ∈ w.parts, ∀ x ∈ part.placed, x.content.number < w.phrases.length

/-- The phrases of a part that is read are kept. -/
theorem HoldsKept.partEntry (kept : w.HoldsKept) (id : PartId) :
    ∀ x ∈ (w.partEntry id).placed, x.content.number < w.phrases.length := by
  unfold Workspace.partEntry
  cases found : w.parts[id.number]? with
  | none => simp [PartOf.empty]
  | some part => exact kept part (List.mem_of_getElem? found)

/-- A phrase that is kept is read as before when others are kept behind it. -/
theorem phrase_of_append {more : List Phrase} (phrases : next.phrases = w.phrases ++ more) {id : PhraseId}
    (kept : id.number < w.phrases.length) : next.phrase id = w.phrase id := by
  simp [phrase, phrases, List.getElem?_append_left kept]

/-- A part of the same phrases is read as before when other phrases are kept behind them. -/
theorem part_of_append (kept : w.HoldsKept) {more : List Phrase} (phrases : next.phrases = w.phrases ++ more)
    {id : PartId} (entries : next.partEntry id = w.partEntry id) : next.part id = w.part id := by
  unfold part
  rw [entries]
  refine PartOf.map_congr ?_
  intro x member
  exact phrase_of_append phrases (kept.partEntry id x member)

/-- Behind the items of a list one more is read at the next place, and the others are read as before. -/
theorem getElem?_concat_getD {α : Type} (items : List α) (last other : α) (place : Nat) :
    (items ++ [last])[place]?.getD other = if place = items.length then last else items[place]?.getD other := by
  rcases Nat.lt_trichotomy place items.length with before | rfl | behind
  · rw [List.getElem?_append_left before, if_neg before.ne]
  · simp
  · have past : items.length + 1 ≤ place := behind
    rw [List.getElem?_eq_none (by simpa using past), List.getElem?_eq_none behind.le, if_neg behind.ne']

/-- An item that takes the place of another is read there if there was one, and the others are read as before. -/
theorem getElem?_set_getD {α : Type} (items : List α) (own place : Nat) (item other : α) :
    (items.set own item)[place]?.getD other =
      if place = own ∧ place < items.length then item else items[place]?.getD other := by
  by_cases here : place = own
  · subst here
    by_cases inside : place < items.length <;> simp [inside]
  · rw [List.getElem?_set_ne (Ne.symm here), if_neg fun both => here both.1]

/-- Where one more part is kept, it is read under its own number, and the others are read as before. -/
theorem partEntry_of_append {entry : PartOf PhraseId} (parts : next.parts = w.parts ++ [entry]) (id : PartId) :
    next.partEntry id = if id.number = w.parts.length then entry else w.partEntry id := by
  unfold partEntry
  rw [parts, getElem?_concat_getD]

/-- Where a part takes the place of another, it is read there if something was kept there, and the others are
read as before. -/
theorem partEntry_of_set {entry : PartOf PhraseId} {own : PartId} (parts : next.parts = w.parts.set own.number entry)
    (id : PartId) :
    next.partEntry id = if id = own ∧ id.number < w.parts.length then entry else w.partEntry id := by
  obtain ⟨number⟩ := id
  obtain ⟨place⟩ := own
  simp only [partEntry, parts, getElem?_set_getD, PartId.mk.injEq]

/-- Every effect leaves the phrases of the parts kept. -/
theorem Effect.holdsKept (effect : w.Effect next) (kept : w.HoldsKept) : next.HoldsKept := by
  cases effect with
  | onScores scores => exact kept
  | phraseKept made =>
    intro part member x placed
    have before := kept part member x placed
    simp only [keepPhrase, List.length_append, List.length_singleton]
    exact Nat.lt_succ_of_lt before
  | partKept instrument name =>
    intro part member x placed
    rcases List.mem_append.mp member with earlier | last
    · exact kept part earlier x placed
    · obtain rfl := List.mem_singleton.mp last
      cases placed
  | partCopied original scores =>
    intro part member x placed
    simp only [copyPart, keepPart, List.length_append]
    rcases List.mem_append.mp member with earlier | last
    · exact Nat.lt_add_right _ (kept part earlier x placed)
    · obtain rfl := List.mem_singleton.mp last
      obtain ⟨index, inside, rfl⟩ := List.mem_mapIdx.mp placed
      simpa [Workspace.part, PartOf.map] using inside
  | phrasePlaced own phrase placed =>
    obtain ⟨_, rfl⟩ := PartOf.place_eq_ok.mp placed
    intro part member x held
    have longer {number : Nat} (before : number < w.phrases.length) :
        number < (w.phrases ++ [w.phrase phrase]).length := by
      simpa using Nat.lt_succ_of_lt before
    rcases List.mem_or_eq_of_mem_set member with earlier | rfl
    · exact longer (kept part earlier x held)
    · rcases List.mem_append.mp held with before | last
      · exact longer (kept.partEntry own x before)
      · obtain rfl := List.mem_singleton.mp last
        simp [keepPhrase, setPart]

/-- Every command leaves the phrases of the parts kept. -/
theorem run_holdsKept (kept : w.HoldsKept) (command : Command) : (w.run command).1.HoldsKept := by
  rcases grow_or_effect w command with ⟨id, addition, rfl⟩ | ⟨_, effect⟩
  · rw [run_grow]
    intro part member x placed
    simpa [setPhrase] using kept part member x placed
  · exact effect.holdsKept kept

/-- The phrases of the parts of a workspace that can be made are kept. -/
theorem Reachable.holdsKept (reachable : w.Reachable) : w.HoldsKept := by
  induction reachable with
  | empty => simp [HoldsKept, Workspace.empty]
  | run _ command inductionHypothesis => exact run_holdsKept inductionHypothesis command

/-- A copy of a part is read as the part made anew. -/
theorem part_copyPart (w : Workspace) (id : PartId) :
    (w.copyPart id).2.part (w.copyPart id).1 = (w.part id).copy := by
  have copies (index : Nat) (inside : index < (w.partEntry id).placed.length) :
      (w.copyPart id).2.phrase ⟨w.phrases.length + index⟩ = w.phrase (w.partEntry id).placed[index].content := by
    simp [phrase, copyPart, keepPart, part, PartOf.map, inside]
  have placed :
      ((w.partEntry id).placed.mapIdx fun index x =>
          { x with content := PhraseId.mk (w.phrases.length + index) }).map
        (fun x => Placed.mk ((w.copyPart id).2.phrase x.content) x.start) =
      (w.partEntry id).placed.map fun x => ⟨w.phrase x.content, x.start⟩ := by
    refine List.ext_getElem (by simp) ?_
    intro index _ inside
    simp [copies index (by simpa using inside)]
  have parts : (w.copyPart id).2.parts = w.parts ++ [_] := rfl
  have entry := (partEntry_of_append parts (w.copyPart id).1).trans (if_pos rfl)
  rw [part, entry]
  unfold PartOf.map Part.copy
  rw [placed]
  rfl

/-- A part that is given a phrase is read with the phrase behind the others. -/
theorem part_placePhrase (kept : w.HoldsKept) {id : PartId} {phrase : PhraseId} {start : Rat}
    {entry : PartOf PhraseId} (inside : id.number < w.parts.length)
    (placed : (w.partEntry id).place (w.keepPhrase (w.phrase phrase)).1 (w.phrase phrase).length start = .ok entry) :
    (w.part id).addPhrase (w.phrase phrase) start =
      .ok (((w.keepPhrase (w.phrase phrase)).2.setPart id entry).part id) := by
  set next := (w.keepPhrase (w.phrase phrase)).2.setPart id entry with made
  have phrases : next.phrases = w.phrases ++ [w.phrase phrase] := rfl
  have parts : next.parts = w.parts.set id.number entry := rfl
  have earlier : (w.partEntry id).map next.phrase = w.part id := by
    refine PartOf.map_congr ?_
    intro x member
    exact phrase_of_append phrases (kept.partEntry id x member)
  have copied : next.phrase (w.keepPhrase (w.phrase phrase)).1 = w.phrase phrase :=
    phrase_keepPhrase_self w (w.phrase phrase)
  have read : next.part id = entry.map next.phrase := by
    rw [part, (partEntry_of_set parts id).trans (if_pos ⟨rfl, inside⟩)]
  have added := PartOf.place_map next.phrase placed
  rwa [earlier, copied, ← read] at added

/-- What an effect does to a part that is read: nothing, or the part is made empty, copied or given a phrase. -/
theorem Effect.part (effect : w.Effect next) (kept : w.HoldsKept) (id : PartId) :
    next.part id = w.part id ∨ (∃ instrument name, next.part id = .empty instrument name) ∨
      (∃ original, next.part id = (w.part original).copy) ∨
      ∃ phrase start, (w.part id).addPhrase (w.phrase phrase) start = .ok (next.part id) := by
  cases effect with
  | onScores scores => exact .inl rfl
  | phraseKept made => exact .inl (part_of_append kept rfl rfl)
  | partKept instrument name =>
    have phrases : (w.keepPart (.empty instrument name)).2.phrases = w.phrases ++ [] := by simp [keepPart]
    have parts : (w.keepPart (.empty instrument name)).2.parts = w.parts ++ [.empty instrument name] := rfl
    have entry := partEntry_of_append parts id
    by_cases own : id.number = w.parts.length
    · refine .inr (.inl ⟨instrument, name, ?_⟩)
      rw [Workspace.part, entry.trans (if_pos own)]
      rfl
    · exact .inl (part_of_append kept phrases (entry.trans (if_neg own)))
  | partCopied original scores =>
    have parts : (w.copyPart original).2.parts = w.parts ++ [_] := rfl
    have entry := partEntry_of_append parts id
    by_cases own : id.number = w.parts.length
    · obtain rfl : id = (w.copyPart original).1 := congrArg PartId.mk own
      exact .inr (.inr (.inl ⟨original, part_copyPart w original⟩))
    · exact .inl (part_of_append kept rfl (entry.trans (if_neg own)))
  | phrasePlaced own phrase placed =>
    by_cases here : id = own ∧ id.number < w.parts.length
    · obtain ⟨rfl, inside⟩ := here
      exact .inr (.inr (.inr ⟨phrase, _, part_placePhrase kept inside placed⟩))
    · exact .inl (part_of_append kept rfl ((partEntry_of_set rfl id).trans (if_neg here)))

/-- Every part of a workspace that can be made lies on its clock. -/
theorem Reachable.part_sound (reachable : w.Reachable) (id : PartId) : (w.part id).Sound := by
  obtain ⟨phrases, starts⟩ := reachable.invariant
  constructor
  case start_nonneg =>
    intro x member
    obtain ⟨entry, held, rfl⟩ := List.mem_map.mp member
    exact partEntry_starts starts id entry held
  case scheduled =>
    intro x member
    obtain ⟨entry, held, rfl⟩ := List.mem_map.mp member
    exact (phrase_reachable phrases entry.content).scheduled

/-! ## A score of one part -/

/-- A score that has just been made, with one part put into it, has a copy of the part and what it was made of. -/
theorem score_addPart_newScore (w : Workspace) (title : Datum) {tempo : Datum} {t : Tempo} (metadata : Option Metadata)
    (given : Tempo.given tempo = .ok t) (part : PartId) :
    ((w.run (.newScore title tempo metadata)).1.run (.addPart ⟨w.scores.length⟩ part)).1.score ⟨w.scores.length⟩ =
      ⟨title, t, metadata, [(w.part part).copy]⟩ := by
  set made := (w.keepScore (.empty title t metadata)).2 with same
  have begun : (w.run (.newScore title tempo metadata)).1 = made := by simp only [run, given, same]
  have entry : (made.addPart ⟨w.scores.length⟩ part).2.scoreEntry ⟨w.scores.length⟩ =
      ⟨title, t, metadata, [(made.copyPart part).1]⟩ := by
    simp [scoreEntry, addPart, setScore, copyPart, keepPart, same, keepScore, ScoreOf.push, ScoreOf.empty]
  have copied : (made.addPart ⟨w.scores.length⟩ part).2.part (made.copyPart part).1 = (w.part part).copy :=
    part_copyPart made part
  rw [begun]
  change (made.addPart ⟨w.scores.length⟩ part).2.score ⟨w.scores.length⟩ = _
  rw [score, entry]
  simp only [ScoreOf.map, List.map_cons, List.map_nil, copied]

/-- A note in a phrase, and the phrase put into a part. -/
def noteInPart : List Command :=
  [.newPhrase (.text "Line"),
    .grow ⟨0⟩ (.event (middleC TimeSignature.common.beatUnit)),
    .newPart (.ofInt 0) (.text "Piano"),
    .placePhrase ⟨0⟩ ⟨0⟩ (.ofInt 0)]

/-- A score with this part, at a tempo and with metadata. -/
def single (tempo : Datum) (metadata : Option Metadata) : Workspace :=
  .after (noteInPart ++ [.newScore (.text "Single") tempo metadata, .addPart ⟨0⟩ ⟨0⟩])

/-- The score is read with a copy of the part. -/
theorem score_single {tempo : Datum} {t : Tempo} (given : Tempo.given tempo = .ok t) (metadata : Option Metadata) :
    (single tempo metadata).score ⟨0⟩ =
      ⟨.text "Single", t, metadata, [((after noteInPart).part ⟨0⟩).copy]⟩ := by
  have fresh : (after noteInPart).scores.length = 0 := by cbv
  have read := score_addPart_newScore (after noteInPart) (.text "Single") metadata given ⟨0⟩
  rw [fresh] at read
  unfold single after at *
  rw [List.foldl_append]
  exact read

end MusicScore.Workspace
