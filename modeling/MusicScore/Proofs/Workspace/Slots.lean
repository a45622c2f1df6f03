import MusicScore.Proofs.Workspace.Parts

/-!
# The slots of a workspace

A part has slots with the numbers of phrases, and a score has slots with the numbers of parts. What a command does
to them is looked at once for each kind of change. Nothing is taken out of a slot or moved to another one. What is
put into a slot besides has a number that is new, and it is put there only; where it is a part, the phrases in its
own slots are new as well. Apart from the one number that the command is addressed to, the same stands under every
number as before.
-/
namespace MusicScore.Workspace

/-! ## Items -/

/-- Something is kept under the number. -/
def Item.Kept (w : Workspace) : Item → Prop
  | .phrase id => id.number < w.phrases.length
  | .part id => id.number < w.parts.length
  | .score id => id.number < w.scores.length

/-- The same stands under the number in two workspaces, whatever is read of what belongs to it. -/
def Item.SameEntry (w next : Workspace) : Item → Prop
  | .phrase id => next.phrase id = w.phrase id
  | .part id => next.partEntry id = w.partEntry id
  | .score id => next.scoreEntry id = w.scoreEntry id

/-- What stands in the slots of an item: the phrases of a part and the parts of a score. -/
def slots (w : Workspace) : Item → List Item
  | .phrase _ => []
  | .part id => (w.partEntry id).placed.map fun x => .phrase x.content
  | .score id => (w.scoreEntry id).parts.map .part

variable {w next : Workspace} {owner item : Item} {target : Option Item}

/-- Nothing stands in the slots of what is not kept. -/
theorem slots_of_not_kept (gone : ¬ owner.Kept w) : w.slots owner = [] := by
  cases owner with
  | phrase id => rfl
  | part id =>
    have beyond : w.parts[id.number]? = none := List.getElem?_eq_none (not_lt.mp gone)
    simp [slots, partEntry, beyond, PartOf.empty]
  | score id =>
    have beyond : w.scores[id.number]? = none := List.getElem?_eq_none (not_lt.mp gone)
    simp [slots, scoreEntry, beyond, ScoreOf.empty]

/-- Where as many phrases, parts and scores are kept or more, what was kept still is. -/
theorem Item.Kept.mono (phrases : w.phrases.length ≤ next.phrases.length) (parts : w.parts.length ≤ next.parts.length)
    (scores : w.scores.length ≤ next.scores.length) (kept : item.Kept w) : item.Kept next := by
  cases item with
  | phrase id => exact Nat.lt_of_lt_of_le kept phrases
  | part id => exact Nat.lt_of_lt_of_le kept parts
  | score id => exact Nat.lt_of_lt_of_le kept scores

/-- Where one more score is kept, it is read under its own number, and the others are read as before. -/
theorem scoreEntry_of_append {entry : ScoreOf PartId} (scores : next.scores = w.scores ++ [entry]) (id : ScoreId) :
    next.scoreEntry id = if id.number = w.scores.length then entry else w.scoreEntry id := by
  unfold scoreEntry
  rw [scores, getElem?_concat_getD]

/-- Where a score takes the place of another, it is read there if something was kept there, and the others are
read as before. -/
theorem scoreEntry_of_set {entry : ScoreOf PartId} {own : ScoreId}
    (scores : next.scores = w.scores.set own.number entry) (id : ScoreId) :
    next.scoreEntry id = if id = own ∧ id.number < w.scores.length then entry else w.scoreEntry id := by
  obtain ⟨number⟩ := id
  obtain ⟨place⟩ := own
  simp only [scoreEntry, scores, getElem?_set_getD, ScoreId.mk.injEq]

/-! ## Changes that leave the slots as they are -/

/-- One workspace has what another has, and what was put into slots besides is new and stands in one of them only.
Apart from the target, the same stands under every number. -/
structure Widens (w next : Workspace) (target : Option Item) (added : Item → List Item) : Prop where
  kept : ∀ {item : Item}, item.Kept w → item.Kept next
  slots : ∀ owner, next.slots owner = w.slots owner ++ added owner
  fresh : ∀ {owner item}, item ∈ added owner → ¬ item.Kept w ∧ item.Kept next
  oneSlot : ∀ {owner other item} {i j : Nat}, (added owner)[i]? = some item → (added other)[j]? = some item →
    owner = other ∧ i = j
  entry : ∀ {item : Item}, item.Kept w → target ≠ some item → item.SameEntry w next

/-- Where nothing is put into a slot, only the entries are to be looked at. -/
theorem Widens.of_slots (kept : ∀ {item : Item}, item.Kept w → item.Kept next)
    (slots : ∀ owner, next.slots owner = w.slots owner)
    (entry : ∀ {item : Item}, item.Kept w → target ≠ some item → item.SameEntry w next) :
    w.Widens next target fun _ => [] :=
  ⟨kept, by simp [slots], by simp, by simp, entry⟩

/-- A phrase that takes the place of another leaves the slots as they are. -/
theorem widens_setPhrase (w : Workspace) (id : PhraseId) (p : Phrase) :
    w.Widens (w.setPhrase id p) (some (.phrase id)) fun _ => [] := by
  refine .of_slots (.mono (by simp [setPhrase]) le_rfl le_rfl) (fun owner => by cases owner <;> rfl) ?_
  intro item _ apart
  cases item with
  | phrase other => exact phrase_setPhrase_of_ne p fun same => apart (same ▸ rfl)
  | part other => rfl
  | score other => rfl

/-- One more phrase is in no slot. -/
theorem widens_keepPhrase (w : Workspace) (p : Phrase) : w.Widens (w.keepPhrase p).2 none fun _ => [] := by
  refine .of_slots (.mono (by simp [keepPhrase]) le_rfl le_rfl) (fun owner => by cases owner <;> rfl) ?_
  intro item kept _
  cases item with
  | phrase id => exact phrase_of_append rfl kept
  | part id => rfl
  | score id => rfl

/-- One more part without phrases is in no slot and has none. -/
theorem widens_keepPart (w : Workspace) (instrument : Instrument) (name : Datum) :
    w.Widens (w.keepPart (.empty instrument name)).2 none fun _ => [] := by
  set made := (w.keepPart (.empty instrument name)).2 with same
  have parts : made.parts = w.parts ++ [_] := rfl
  have entry := partEntry_of_append parts
  refine .of_slots (.mono le_rfl (by simp [same, keepPart]) le_rfl) ?_ ?_
  · intro owner
    cases owner with
    | phrase id => rfl
    | part id =>
      by_cases last : id.number = w.parts.length
      · have gone : ¬ (Item.part id).Kept w := last.not_lt
        rw [slots_of_not_kept gone, slots, (entry id).trans (if_pos last)]
        rfl
      · rw [slots, (entry id).trans (if_neg last), slots]
    | score id => rfl
  · intro item kept _
    cases item with
    | phrase id => rfl
    | part id => exact (entry id).trans (if_neg (Nat.ne_of_lt kept))
    | score id => rfl

/-- One more score without parts has no slots. -/
theorem widens_keepScore (w : Workspace) (title : Datum) (tempo : Tempo) (metadata : Option Metadata) :
    w.Widens (w.keepScore (.empty title tempo metadata)).2 none fun _ => [] := by
  set made := (w.keepScore (.empty title tempo metadata)).2 with same
  have scores : made.scores = w.scores ++ [_] := rfl
  have entry := scoreEntry_of_append scores
  refine .of_slots (.mono le_rfl le_rfl (by simp [same, keepScore])) ?_ ?_
  · intro owner
    cases owner with
    | phrase id => rfl
    | part id => rfl
    | score id =>
      by_cases last : id.number = w.scores.length
      · have gone : ¬ (Item.score id).Kept w := last.not_lt
        rw [slots_of_not_kept gone, slots, (entry id).trans (if_pos last)]
        rfl
      · rw [slots, (entry id).trans (if_neg last), slots]
  · intro item kept _
    cases item with
    | phrase id => rfl
    | part id => rfl
    | score id => exact (entry id).trans (if_neg (Nat.ne_of_lt kept))

/-- A score at another tempo has the same slots. -/
theorem widens_setTempo (w : Workspace) (score : ScoreId) (tempo : Tempo) :
    w.Widens (w.setScore score ((w.scoreEntry score).setTempo tempo)) (some (.score score)) fun _ => [] := by
  set made := w.setScore score ((w.scoreEntry score).setTempo tempo) with same
  have scores : made.scores = w.scores.set score.number _ := rfl
  have entry := scoreEntry_of_set scores
  refine .of_slots (.mono le_rfl le_rfl (by simp [same, setScore])) ?_ ?_
  · intro owner
    cases owner with
    | phrase id => rfl
    | part id => rfl
    | score id =>
      rw [slots, entry id]
      split
      next here => rw [here.1]; rfl
      next => rfl
  · intro item _ apart
    cases item with
    | phrase id => rfl
    | part id => rfl
    | score id =>
      have other : ¬ (id = score ∧ id.number < w.scores.length) := fun here => apart (here.1 ▸ rfl)
      exact (entry id).trans (if_neg other)

/-! ## Changes that put something into slots -/

/-- What stands in one slot that is filled under a condition. -/
theorem of_getElem?_ite {filled : Prop} [Decidable filled] {x : Item} {index : Nat}
    (found : (if filled then [x] else [])[index]? = some item) : filled ∧ index = 0 ∧ item = x := by
  split at found
  next here =>
    cases index with
    | zero =>
      cases found
      exact ⟨here, rfl, rfl⟩
    | succ index => simp at found
  next => simp at found

/-- What is put into the slots when a phrase is put into a part. -/
def placed (w : Workspace) (part : PartId) : Item → List Item
  | .part own => if own = part ∧ own.number < w.parts.length then [.phrase ⟨w.phrases.length⟩] else []
  | _ => []

/-- All that is put into the slots then is one phrase in the part, under the next number. -/
theorem placed_getElem? {part : PartId} {index : Nat} (found : (w.placed part owner)[index]? = some item) :
    owner = .part part ∧ index = 0 ∧ item = .phrase ⟨w.phrases.length⟩ := by
  cases owner with
  | phrase own => simp [placed] at found
  | part own =>
    obtain ⟨⟨rfl, _⟩, first, same⟩ := of_getElem?_ite found
    exact ⟨rfl, first, same⟩
  | score own => simp [placed] at found

/-- A phrase that is put into a part gets one slot of it, under a number that is new. -/
theorem widens_place (w : Workspace) (part : PartId) (phrase : PhraseId) {length start : Rat}
    {entry : PartOf PhraseId}
    (done : (w.partEntry part).place (w.keepPhrase (w.phrase phrase)).1 length start = .ok entry) :
    w.Widens ((w.keepPhrase (w.phrase phrase)).2.setPart part entry) (some (.part part)) (w.placed part) := by
  obtain ⟨_, rfl⟩ := PartOf.place_eq_ok.mp done
  set made := (w.keepPhrase (w.phrase phrase)).2.setPart part _ with same
  have parts : made.parts = w.parts.set part.number _ := rfl
  have entry := partEntry_of_set parts
  constructor
  case kept => exact .mono (by simp [same, keepPhrase, setPart]) (by simp [same, keepPhrase, setPart]) le_rfl
  case slots =>
    intro owner
    cases owner with
    | phrase id => rfl
    | part id =>
      rw [slots, entry id, placed]
      split
      next here => rw [here.1, List.map_append]; rfl
      next => exact (List.append_nil _).symm
    | score id => exact (List.append_nil _).symm
  case fresh =>
    intro owner item member
    obtain ⟨index, found⟩ := List.mem_iff_getElem?.mp member
    obtain ⟨_, _, rfl⟩ := placed_getElem? found
    exact ⟨lt_irrefl _, by simp [Item.Kept, same, keepPhrase, setPart]⟩
  case oneSlot =>
    intro owner other item i j first second
    obtain ⟨rfl, rfl, _⟩ := placed_getElem? first
    obtain ⟨rfl, rfl, _⟩ := placed_getElem? second
    exact ⟨rfl, rfl⟩
  case entry =>
    intro item kept apart
    cases item with
    | phrase id => exact phrase_of_append rfl kept
    | part id =>
      have other : ¬ (id = part ∧ id.number < w.parts.length) := fun here => apart (here.1 ▸ rfl)
      exact (entry id).trans (if_neg other)
    | score id => rfl

/-- The numbers of the copies of the phrases of a part. -/
def copies (w : Workspace) (id : PartId) : List Item :=
  (w.partEntry id).placed.mapIdx fun index _ => .phrase ⟨w.phrases.length + index⟩

/-- What is put into the slots when a part is copied. -/
def copied (w : Workspace) (id : PartId) : Item → List Item
  | .part own => if own.number = w.parts.length then w.copies id else []
  | _ => []

/-- The copies of the phrases of a part have the next numbers, in the order of the phrases. -/
theorem copies_getElem? {id : PartId} {index : Nat} (found : (w.copies id)[index]? = some item) :
    item = .phrase ⟨w.phrases.length + index⟩ ∧ index < (w.partEntry id).placed.length := by
  obtain ⟨inside, rfl⟩ := List.getElem?_eq_some_iff.mp found
  exact ⟨by simp [copies], by simpa [copies] using inside⟩

/-- What is put into the slots when a part is copied are the copies of its phrases, in the slots of the new part. -/
theorem copied_getElem? {id : PartId} {index : Nat} (found : (w.copied id owner)[index]? = some item) :
    owner = .part ⟨w.parts.length⟩ ∧ item = .phrase ⟨w.phrases.length + index⟩ ∧
      index < (w.partEntry id).placed.length := by
  cases owner with
  | phrase own => simp [copied] at found
  | part own =>
    obtain ⟨number⟩ := own
    by_cases last : number = w.parts.length
    · subst last
      exact ⟨rfl, copies_getElem? (by simpa [copied] using found)⟩
    · simp [copied, last] at found
  | score own => simp [copied] at found

/-- A copy of a part is in no slot, and what stands in its own slots is new. -/
theorem widens_copyPart (w : Workspace) (id : PartId) : w.Widens (w.copyPart id).2 none (w.copied id) := by
  set made := (w.copyPart id).2 with same
  have parts : made.parts = w.parts ++ [_] := rfl
  have entry := partEntry_of_append parts
  have phrases : made.phrases.length = w.phrases.length + (w.partEntry id).placed.length := by
    simp [same, copyPart, keepPart, part, PartOf.map]
  constructor
  case kept => exact .mono (phrases ▸ Nat.le_add_right _ _) (by simp [same, copyPart, keepPart]) le_rfl
  case slots =>
    intro owner
    cases owner with
    | phrase own => rfl
    | part own =>
      by_cases last : own.number = w.parts.length
      · have gone : ¬ (Item.part own).Kept w := last.not_lt
        rw [slots_of_not_kept gone, slots, (entry own).trans (if_pos last), copied, if_pos last]
        refine List.ext_getElem (by simp [copies]) ?_
        simp [copies]
      · rw [slots, (entry own).trans (if_neg last), copied, if_neg last, List.append_nil, slots]
    | score own => exact (List.append_nil _).symm
  case fresh =>
    intro owner item member
    obtain ⟨index, found⟩ := List.mem_iff_getElem?.mp member
    obtain ⟨_, rfl, inside⟩ := copied_getElem? found
    refine ⟨Nat.not_lt.mpr (Nat.le_add_right _ _), ?_⟩
    simpa [Item.Kept, phrases] using inside
  case oneSlot =>
    intro owner other item i j first second
    obtain ⟨rfl, rfl, _⟩ := copied_getElem? first
    obtain ⟨rfl, numbers, _⟩ := copied_getElem? second
    exact ⟨rfl, by simpa using numbers⟩
  case entry =>
    intro item kept _
    cases item with
    | phrase own => exact phrase_of_append rfl kept
    | part own => exact (entry own).trans (if_neg (Nat.ne_of_lt kept))
    | score own => rfl

/-- What is put into the slots when a part is put into a score. -/
def addedTo (w : Workspace) (score : ScoreId) (part : PartId) : Item → List Item
  | .phrase _ => []
  | .part own => w.copied part (.part own)
  | .score own => if own = score ∧ own.number < w.scores.length then [.part ⟨w.parts.length⟩] else []

/-- What is put into the slots then is what copying the part puts there, and the copy in the score. -/
theorem addedTo_getElem? {score : ScoreId} {part : PartId} {index : Nat}
    (found : (w.addedTo score part owner)[index]? = some item) :
    (w.copied part owner)[index]? = some item ∨
      owner = .score score ∧ index = 0 ∧ item = .part ⟨w.parts.length⟩ := by
  cases owner with
  | phrase own => simp [addedTo] at found
  | part own => exact .inl found
  | score own =>
    obtain ⟨⟨rfl, _⟩, first, same⟩ := of_getElem?_ite found
    exact .inr ⟨rfl, first, same⟩

/-- A part that is put into a score gets one slot of it, under a number that is new, and so do its phrases in the
slots of the copy. -/
theorem widens_addPart (w : Workspace) (score : ScoreId) (id : PartId) :
    w.Widens (w.addPart score id).2 (some (.score score)) (w.addedTo score id) := by
  set next := (w.addPart score id).2 with same
  have copy := widens_copyPart w id
  have scores : next.scores = w.scores.set score.number _ := rfl
  have entry := scoreEntry_of_set scores
  have longer {item : Item} (kept : item.Kept (w.copyPart id).2) : item.Kept next :=
    kept.mono (w := (w.copyPart id).2) le_rfl le_rfl (by simp [same, addPart, setScore])
  constructor
  case kept => exact fun kept => longer (copy.kept kept)
  case slots =>
    intro owner
    cases owner with
    | phrase own => rfl
    | part own => exact copy.slots (.part own)
    | score own =>
      rw [slots, entry own, addedTo]
      split
      next here => rw [here.1, slots, ScoreOf.push, List.map_append]; rfl
      next => exact (List.append_nil _).symm
  case fresh =>
    intro owner item member
    obtain ⟨index, found⟩ := List.mem_iff_getElem?.mp member
    rcases addedTo_getElem? found with held | ⟨_, _, rfl⟩
    · obtain ⟨new, kept⟩ := copy.fresh (List.mem_of_getElem? held)
      exact ⟨new, longer kept⟩
    · exact ⟨lt_irrefl _, by simp [Item.Kept, same, addPart, setScore, copyPart, keepPart]⟩
  case oneSlot =>
    intro owner other item i j first second
    -- the copy of the part is no phrase, so it cannot be one of what copying puts into slots
    rcases addedTo_getElem? first with copied | ⟨rfl, rfl, rfl⟩
    · obtain ⟨_, rfl, _⟩ := copied_getElem? copied
      rcases addedTo_getElem? second with copiedToo | ⟨_, _, never⟩
      · exact copy.oneSlot copied copiedToo
      · cases never
    · rcases addedTo_getElem? second with copied | ⟨rfl, rfl, _⟩
      · obtain ⟨_, never, _⟩ := copied_getElem? copied
        cases never
      · exact ⟨rfl, rfl⟩
  case entry =>
    intro item kept apart
    cases item with
    | phrase own => exact copy.entry kept (Option.some_ne_none _).symm
    | part own => exact copy.entry kept (Option.some_ne_none _).symm
    | score own =>
      have other : ¬ (own = score ∧ own.number < w.scores.length) := fun here => apart (here.1 ▸ rfl)
      exact (entry own).trans (if_neg other)

/-- Every change keeps what is kept, and puts only what is new into slots. -/
theorem Change.widens (change : w.Change target next) : ∃ added, w.Widens next target added := by
  cases change with
  | nothing => exact ⟨_, .of_slots id (fun _ => rfl) fun {item} _ _ => by cases item <;> rfl⟩
  | phraseGrown id addition => exact ⟨_, widens_setPhrase w id _⟩
  | phraseKept made => exact ⟨_, widens_keepPhrase w _⟩
  | partKept instrument name => exact ⟨_, widens_keepPart w instrument name⟩
  | scoreKept title tempo metadata => exact ⟨_, widens_keepScore w title tempo metadata⟩
  | partCopied id => exact ⟨_, widens_copyPart w id⟩
  | phrasePlaced part phrase done => exact ⟨_, widens_place w part phrase done⟩
  | tempoSet score tempo => exact ⟨_, widens_setTempo w score tempo⟩
  | partAdded score part => exact ⟨_, widens_addPart w score part⟩

end MusicScore.Workspace
