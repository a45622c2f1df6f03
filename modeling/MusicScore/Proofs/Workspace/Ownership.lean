import MusicScore.Proofs.Workspace.Slots

/-!
# Ownership in a workspace

The numbers of what stands in the slots of parts and scores are handed out like any others, and what has such a
number can be changed there and be put into further parts and scores. Nothing comes to stand in a second slot by
that, because what is put into a slot is a copy under a new number. So each phrase belongs to one part at most and
each part to one score at most, and it does so for good.

What is read under a number, be it entries, a timeline, lengths or the bytes of a score, is made of what stands
there and of what it owns. A command changes what stands under the one number that it is addressed to. Hence only
this and what owns it can be read differently afterwards, and no later change to a phrase or a part reaches the part
or the score that it was put into.
-/
namespace MusicScore.Workspace

/-- An item owns what stands in its slots, and what that owns. -/
def Owns (w : Workspace) : Item → Item → Prop := Relation.TransGen fun owner item => item ∈ w.slots owner

/-- The same is read under the number in two workspaces, with all that belongs to it. -/
def Item.Same (w next : Workspace) : Item → Prop
  | .phrase id => next.phrase id = w.phrase id
  | .part id => next.part id = w.part id
  | .score id => next.score id = w.score id

/-- The command puts a phrase into a part, or a part into a score. -/
inductive Command.Puts : Command → Item → Item → Prop where
  | placePhrase (part : PartId) (phrase : PhraseId) (start : Datum) :
      Puts (.placePhrase part phrase start) (.phrase phrase) (.part part)
  | appendToPrevious (part : PartId) (phrase : PhraseId) :
      Puts (.appendToPrevious part phrase) (.phrase phrase) (.part part)
  | appendToEnd (part : PartId) (phrase : PhraseId) : Puts (.appendToEnd part phrase) (.phrase phrase) (.part part)
  | addPart (score : ScoreId) (part : PartId) : Puts (.addPart score part) (.part part) (.score score)

/-- The command changes the item or something that the item owns. -/
def Reaches (w : Workspace) (command : Command) (item : Item) : Prop :=
  ∃ target, command.target = some target ∧ (target = item ∨ w.Owns item target)

/-- The workspace after some more commands. -/
def runAll (w : Workspace) (commands : List Command) : Workspace :=
  commands.foldl (fun w command => (w.run command).1) w

/-- Whatever is kept stands in one slot at most, and a command reaches only what it is addressed to and its owners. -/
structure Separate (w : Workspace) : Prop where
  /-- No item stands in the slots of two owners, or in two slots of one. -/
  oneSlot : ∀ (owner other item : Item) (i j : Nat), (w.slots owner)[i]? = some item →
    (w.slots other)[j]? = some item → owner = other ∧ i = j
  /-- What a command does not reach is read as before. -/
  frame : ∀ command item, item.Kept w → ¬ w.Reaches command item → item.Same w (w.run command).1
  /-- What is kept stays with its owners, and gets no others. -/
  forGood : ∀ commands owner item, item.Kept w → ((w.runAll commands).Owns owner item ↔ w.Owns owner item)
  /-- Where something is put into an owner and not refused, the owner gets one more slot, with a new item. -/
  filled : ∀ command source owner reply, command.Puts source owner → owner.Kept w →
    (w.run command).2 = .ok reply →
      ∃ made, ¬ made.Kept w ∧ (w.run command).1.slots owner = w.slots owner ++ [made]
  /-- What is put into an owner that it does not belong to can be changed ever after without a change to the owner. -/
  ownerApart : ∀ command source owner, command.Puts source owner → source.Kept w → owner.Kept w →
    ¬ w.Owns owner source → ∀ commands change next, next = (w.run command).1.runAll commands →
      next.Reaches change source → owner.Same next (next.run change).1
  /-- Nor do such changes reach what was made for the slot, also where it was put back into its owner. -/
  copyApart : ∀ command source owner made, command.Puts source owner → source.Kept w →
    made ∈ (w.run command).1.slots owner → ¬ made.Kept w →
      ∀ commands change next, next = (w.run command).1.runAll commands →
        next.Reaches change source → made.Same next (next.run change).1

variable {w next : Workspace} {owner other item : Item} {target : Option Item}

/-! ## The tree -/

/-- What stands in a slot is kept, and it stands in no other slot. -/
structure Tree (w : Workspace) : Prop where
  kept : ∀ {owner item : Item}, item ∈ w.slots owner → item.Kept w
  oneSlot : ∀ {owner other item : Item} {i j : Nat}, (w.slots owner)[i]? = some item →
    (w.slots other)[j]? = some item → owner = other ∧ i = j

variable {added : Item → List Item}

/-- What stands in a slot either stood there before, or it has been put there and was not kept before. -/
theorem Widens.slot (widens : w.Widens next target added) (tree : w.Tree) {index : Nat}
    (found : (next.slots owner)[index]? = some item) :
    (w.slots owner)[index]? = some item ∧ item.Kept w ∨
      ∃ place, index = (w.slots owner).length + place ∧ (added owner)[place]? = some item ∧ ¬ item.Kept w := by
  rw [widens.slots, List.getElem?_append] at found
  split at found
  next => exact .inl ⟨found, tree.kept (List.mem_of_getElem? found)⟩
  next beyond =>
    have new := (widens.fresh (List.mem_of_getElem? found)).1
    exact .inr ⟨_, (Nat.add_sub_of_le (not_lt.mp beyond)).symm, found, new⟩

/-- Putting only what is new into slots leaves a tree. -/
theorem Widens.tree (widens : w.Widens next target added) (tree : w.Tree) : next.Tree where
  kept := by
    intro owner item member
    rw [widens.slots] at member
    rcases List.mem_append.mp member with earlier | new
    · exact widens.kept (tree.kept earlier)
    · exact (widens.fresh new).2
  oneSlot := by
    intro owner other item i j first second
    rcases widens.slot tree first with ⟨first, kept⟩ | ⟨k, rfl, first, new⟩
    · rcases widens.slot tree second with ⟨second, _⟩ | ⟨_, _, _, new⟩
      · exact tree.oneSlot first second
      · exact absurd kept new
    · rcases widens.slot tree second with ⟨_, kept⟩ | ⟨l, rfl, second, _⟩
      · exact absurd kept new
      · obtain ⟨rfl, rfl⟩ := widens.oneSlot first second
        exact ⟨rfl, rfl⟩

/-- The slots of every workspace that can be made form a tree. -/
theorem Reachable.tree (reachable : w.Reachable) : w.Tree := by
  induction reachable with
  | empty =>
    have none (owner : Item) : Workspace.empty.slots owner = [] := by cases owner <;> rfl
    exact ⟨by simp [none], by simp [none]⟩
  | run _ command inductionHypothesis =>
    obtain ⟨_, widens⟩ := (run_change _ command).widens
    exact widens.tree inductionHypothesis

/-- What comes lower in the tree has a lower rank. -/
def Item.rank : Item → Nat
  | .phrase _ => 0
  | .part _ => 1
  | .score _ => 2

/-- What stands in a slot is one rank lower. -/
theorem rank_of_mem_slots (held : item ∈ w.slots owner) : owner.rank = item.rank + 1 := by
  cases owner with
  | phrase id => cases held
  | part id =>
    obtain ⟨x, _, rfl⟩ := List.mem_map.mp held
    rfl
  | score id =>
    obtain ⟨part, _, rfl⟩ := List.mem_map.mp held
    rfl

/-- So nothing owns itself, or what owns it. -/
theorem Owns.rank_lt (owns : w.Owns owner item) : item.rank < owner.rank := by
  induction owns with
  | single held => exact rank_of_mem_slots held ▸ Nat.lt_succ_self _
  | tail _ held inductionHypothesis =>
    exact Nat.lt_trans (rank_of_mem_slots held ▸ Nat.lt_succ_self _) inductionHypothesis

/-- Of two owners of one item, one owns the other. -/
theorem Tree.comparable (tree : w.Tree) (first : w.Owns owner item) (second : w.Owns other item) :
    owner = other ∨ w.Owns owner other ∨ w.Owns other owner := by
  have same {a b item : Item} (heldA : item ∈ w.slots a) (heldB : item ∈ w.slots b) : a = b := by
    obtain ⟨_, foundA⟩ := List.mem_iff_getElem?.mp heldA
    obtain ⟨_, foundB⟩ := List.mem_iff_getElem?.mp heldB
    exact (tree.oneSlot foundA foundB).1
  -- both chains enter the item by the same slot, so they are followed back from there until one of them ends
  induction first with
  | single held =>
    cases second with
    | single heldToo => exact .inl (same held heldToo)
    | tail above heldToo => exact .inr (.inr (same held heldToo ▸ above))
  | tail above held inductionHypothesis =>
    cases second with
    | single heldToo => exact .inr (.inl (same held heldToo ▸ above))
    | tail aboveToo heldToo => exact inductionHypothesis (same heldToo held ▸ aboveToo)

/-- A command reaches two items only if they are the same or one owns the other. -/
theorem Tree.not_reaches (tree : w.Tree) {command : Command} (differ : item ≠ other) (above : ¬ w.Owns item other)
    (below : ¬ w.Owns other item) (reaches : w.Reaches command item) : ¬ w.Reaches command other := by
  rintro ⟨target, addressed, own⟩
  obtain ⟨_, addressedToo, ownToo⟩ := reaches
  cases addressed.symm.trans addressedToo
  rcases own with rfl | own <;> rcases ownToo with rfl | ownToo
  · exact differ rfl
  · exact above ownToo
  · exact below own
  · rcases tree.comparable ownToo own with same | owns | owns
    · exact differ same
    · exact above owns
    · exact below owns

/-! ## What stays as it is -/

/-- What was kept stands where it stood, and nowhere else. -/
theorem Widens.mem_slots_iff (widens : w.Widens next target added) (kept : item.Kept w) :
    item ∈ next.slots owner ↔ item ∈ w.slots owner := by
  rw [widens.slots, List.mem_append]
  exact or_iff_left fun new => (widens.fresh new).1 kept

/-- What was kept has the owners that it had. -/
theorem Widens.owns_iff (widens : w.Widens next target added) (kept : item.Kept w) :
    next.Owns owner item ↔ w.Owns owner item := by
  constructor
  · intro owns
    induction owns with
    | single held => exact .single ((widens.mem_slots_iff kept).mp held)
    | @tail middle _ _ held inductionHypothesis =>
      have before := (widens.mem_slots_iff kept).mp held
      -- a new part or score holds nothing that was kept
      have middleKept : middle.Kept w := by
        by_contra gone
        simp [slots_of_not_kept gone] at before
      exact .tail (inductionHypothesis middleKept) before
  · refine Relation.TransGen.mono ?_ owner item
    intro owner item held
    exact widens.slots owner ▸ List.mem_append_left _ held

/-- What is kept stays kept. -/
theorem kept_runAll (commands : List Command) (kept : item.Kept w) : item.Kept (w.runAll commands) := by
  induction commands generalizing w with
  | nil => exact kept
  | cons command rest inductionHypothesis =>
    obtain ⟨_, widens⟩ := (run_change w command).widens
    exact inductionHypothesis (widens.kept kept)

/-- What is kept has the same owners after any commands. -/
theorem owns_runAll_iff (commands : List Command) (kept : item.Kept w) :
    (w.runAll commands).Owns owner item ↔ w.Owns owner item := by
  induction commands generalizing w with
  | nil => exact Iff.rfl
  | cons command rest inductionHypothesis =>
    obtain ⟨_, widens⟩ := (run_change w command).widens
    exact (inductionHypothesis (widens.kept kept)).trans (widens.owns_iff kept)

/-- More commands make a workspace that can be made as well. -/
theorem Reachable.runAll (reachable : w.Reachable) (commands : List Command) : (w.runAll commands).Reachable := by
  induction commands generalizing w with
  | nil => exact reachable
  | cons command rest inductionHypothesis => exact inductionHypothesis (reachable.run command)

/-- A part is read as before, unless it or one of its phrases is the target. -/
theorem Widens.part_same (widens : w.Widens next target added) (tree : w.Tree) {id : PartId}
    (kept : (Item.part id).Kept w) (here : target ≠ some (.part id))
    (below : ∀ item ∈ w.slots (.part id), target ≠ some item) : next.part id = w.part id := by
  have entry : next.partEntry id = w.partEntry id := widens.entry kept here
  unfold part
  rw [entry]
  refine PartOf.map_congr ?_
  intro x member
  have held : Item.phrase x.content ∈ w.slots (.part id) := List.mem_map_of_mem member
  exact widens.entry (tree.kept held) (below _ held)

/-- What is neither the target nor an owner of it is read as before. -/
theorem Widens.same (widens : w.Widens next target added) (tree : w.Tree) (kept : item.Kept w)
    (here : target ≠ some item) (below : ∀ other, w.Owns item other → target ≠ some other) : item.Same w next := by
  cases item with
  | phrase id => exact widens.entry kept here
  | part id => exact widens.part_same tree kept here fun other held => below other (.single held)
  | score id =>
    have entry : next.scoreEntry id = w.scoreEntry id := widens.entry kept here
    have parts : (w.scoreEntry id).parts.map next.part = (w.scoreEntry id).parts.map w.part := by
      refine List.map_congr_left ?_
      intro part member
      have held : Item.part part ∈ w.slots (.score id) := List.mem_map_of_mem member
      refine widens.part_same tree (tree.kept held) (below _ (.single held)) ?_
      exact fun other own => below other (.tail (.single held) own)
    simp only [Item.Same, score, entry, ScoreOf.map, parts]

/-- What a command does not reach is read as before. -/
theorem Tree.same_run (tree : w.Tree) {command : Command} (kept : item.Kept w) (apart : ¬ w.Reaches command item) :
    item.Same w (w.run command).1 := by
  obtain ⟨_, widens⟩ := (run_change w command).widens
  refine widens.same tree kept ?_ ?_
  · exact fun addressed => apart ⟨item, addressed, .inl rfl⟩
  · exact fun other owns addressed => apart ⟨other, addressed, .inr owns⟩

/-- What is put into an owner is one rank lower. -/
theorem Command.Puts.rank_eq {command : Command} (puts : command.Puts item owner) : owner.rank = item.rank + 1 := by
  cases puts <;> rfl

/-- A phrase that is put into a part and not refused gets the last slot of it. -/
theorem slots_place {part : PartId} {phrase : PhraseId} {start : Rat} {reply : Reply}
    (kept : (Item.part part).Kept w) (done : (w.place part phrase start).2 = .ok reply) :
    (w.place part phrase start).1.slots (.part part) = w.slots (.part part) ++ [.phrase ⟨w.phrases.length⟩] := by
  unfold place at done ⊢
  cases outcome : w.placePhrase part phrase start with
  | error fault =>
    rw [outcome] at done
    cases done
  | ok result =>
    obtain ⟨entry, placed, same⟩ := Outcome.bind_eq_ok.mp outcome
    cases same
    have slots := (widens_place w part phrase placed).slots (.part part)
    rwa [Workspace.placed, if_pos ⟨rfl, kept⟩] at slots

/-- What is put into an owner and not refused gets the last slot of it, under a number that is new. -/
theorem Command.Puts.slots {command : Command} {reply : Reply} (puts : command.Puts item owner)
    (kept : owner.Kept w) (done : (w.run command).2 = .ok reply) :
    ∃ made, ¬ made.Kept w ∧ (w.run command).1.slots owner = w.slots owner ++ [made] := by
  have new : ¬ (Item.phrase ⟨w.phrases.length⟩).Kept w := lt_irrefl _
  cases puts with
  | placePhrase part phrase start =>
    cases amount : start.beats with
    | error fault =>
      simp only [run, amount] at done
      cases done
    | ok beats =>
      simp only [run, amount] at done ⊢
      exact ⟨_, new, slots_place kept done⟩
  | appendToPrevious part phrase => exact ⟨_, new, slots_place kept done⟩
  | appendToEnd part phrase => exact ⟨_, new, slots_place kept done⟩
  | addPart score part =>
    have slots := (widens_addPart w score part).slots (.score score)
    rw [addedTo, if_pos ⟨rfl, kept⟩] at slots
    exact ⟨.part ⟨w.parts.length⟩, lt_irrefl w.parts.length, slots⟩

/-- In every workspace that can be made, ownership is a tree, and changes stay where they are made. -/
theorem Reachable.separate (reachable : w.Reachable) : w.Separate where
  oneSlot _ _ _ _ _ first second := reachable.tree.oneSlot first second
  frame _ _ kept apart := reachable.tree.same_run kept apart
  forGood commands _ _ kept := owns_runAll_iff commands kept
  filled _ _ _ _ puts kept done := puts.slots kept done
  ownerApart := by
    rintro command source owner puts sourceKept ownerKept free commands change next rfl reaches
    have tree := ((reachable.run command).runAll commands).tree
    have later : owner.Kept ((w.run command).1.runAll commands) := kept_runAll (command :: commands) ownerKept
    have ranks := puts.rank_eq
    refine tree.same_run later (tree.not_reaches ?_ ?_ ?_ reaches)
    · rintro rfl
      omega
    · intro above
      have lower := Owns.rank_lt above
      omega
    · intro owns
      exact free ((owns_runAll_iff (command :: commands) sourceKept).mp owns)
  copyApart := by
    rintro command source owner made puts sourceKept held new commands change next rfl reaches
    have tree := ((reachable.run command).runAll commands).tree
    have later : made.Kept ((w.run command).1.runAll commands) :=
      kept_runAll commands ((reachable.run command).tree.kept held)
    have ranks : made.rank = source.rank := Nat.succ.inj ((rank_of_mem_slots held).symm.trans puts.rank_eq)
    refine tree.same_run later (tree.not_reaches ?_ ?_ ?_ reaches)
    · rintro rfl
      exact new sourceKept
    all_goals
      intro owns
      have lower := Owns.rank_lt owns
      omega

/-- A part that has been given one of its own phrases again, and a score that has been given one of its own parts
again, which then got a phrase of the other. -/
def reused : Workspace :=
  .after [.newPhrase (.text "Line"),
    .newPart (.ofInt 0) (.text "Piano"),
    .placePhrase ⟨0⟩ ⟨0⟩ (.ofInt 0),
    .appendToEnd ⟨0⟩ ⟨1⟩,
    .newScore (.text "Reused") (.ofInt 120) none,
    .addPart ⟨0⟩ ⟨0⟩,
    .addPart ⟨0⟩ ⟨1⟩,
    .placePhrase ⟨1⟩ ⟨5⟩ (.ofInt 0)]

/-- Each time the slot got a number of its own. -/
theorem reused_separate :
    reused.slots (.score ⟨0⟩) = [.part ⟨1⟩, .part ⟨2⟩] ∧ reused.slots (.part ⟨0⟩) = [.phrase ⟨1⟩, .phrase ⟨2⟩] ∧
      reused.slots (.part ⟨1⟩) = [.phrase ⟨3⟩, .phrase ⟨4⟩, .phrase ⟨7⟩] ∧
        reused.slots (.part ⟨2⟩) = [.phrase ⟨5⟩, .phrase ⟨6⟩] ∧ reused.Separate :=
  ⟨by cbv, by cbv, by cbv, by cbv, Reachable.separate (reachable_iff.mpr ⟨_, rfl⟩)⟩

end MusicScore.Workspace
