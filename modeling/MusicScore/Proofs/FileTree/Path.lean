import Mathlib.Data.List.Induction
import MusicScore.FileTree
import MusicScore.Proofs.Outcome

/-!
# Paths

A path leads to the location that its names spell, two points taking the last of them away again. It can be followed
exactly when every name on the way, two points apart, is short enough and that of a folder. Whether this is so depends
on the places that the parts of the path lead to, and on nothing else in the tree.
-/
namespace MusicScore.FileTree

variable {t made : FileTree} {place location other : Location} {path front : List Name} {name : Name} {item : Item}

/-! ## Items -/

/-- The root is a folder. -/
@[simp] theorem item?_root (t : FileTree) : t.item? [] = some .folder := if_pos rfl

/-- Under the first entry that is for the location stands its item; otherwise the rest is searched. -/
theorem lookup_entry (items : List (Location × Item)) :
    List.lookup other ((location, item) :: items) = if location = other then some item else items.lookup other := by
  rw [List.lookup_cons]
  by_cases same : location = other
  · simp [same]
  · simp [same, beq_eq_false_iff_ne.mpr (Ne.symm same)]

/-- After an item has been set it is what is found at its location, and all others are as before. -/
theorem lookup_setItem (items : List (Location × Item)) :
    (setItem location item items).lookup other = if location = other then some item else items.lookup other := by
  induction items with
  | nil => rw [setItem, lookup_entry]
  | cons first rest inductionHypothesis =>
    obtain ⟨place, old⟩ := first
    unfold setItem
    by_cases here : place = location
    · rw [if_pos here, lookup_entry, lookup_entry, here]
      split <;> rfl
    · rw [if_neg here, lookup_entry, lookup_entry, inductionHypothesis]
      by_cases same : place = other
      · have apart : ¬ location = other := fun there => here (same.trans there.symm)
        rw [if_pos same, if_neg apart, if_pos same]
      · rw [if_neg same, if_neg same]

/-- An item that is put in a tree is found at its location, and all others are as before. -/
theorem item?_put (below : location ≠ []) :
    (t.put location item).item? other = if location = other then some item else t.item? other := by
  unfold item? put
  by_cases root : other = []
  · have apart : location ≠ other := fun same => below (same.trans root)
    rw [if_pos root, if_neg apart, if_pos root]
  · rw [if_neg root, if_neg root, lookup_setItem]

/-! ## Where a path leads -/

/-- The location that a name leads to. -/
def step (place : Location) (name : Name) : Location :=
  if name = upward then place.dropLast else place ++ [name]

/-- The location that a path leads to. -/
def locate (path : List Name) : Location := path.foldl step []

/-- The location is that of a part of the path. -/
def OnTheWay (path : List Name) (location : Location) : Prop := ∃ front, front <+: path ∧ location = locate front

/-- A path with one more name leads on by this name. -/
theorem locate_concat : locate (front ++ [name]) = step (locate front) name := by
  simp [locate]

/-- A name other than two points leads to what has this name. -/
theorem locate_of_name (named : name ≠ upward) : locate (front ++ [name]) = locate front ++ [name] := by
  rw [locate_concat, step, if_neg named]

/-- What is on the way is on a longer way. -/
theorem OnTheWay.further (onTheWay : OnTheWay front location) : OnTheWay (front ++ [name]) location := by
  obtain ⟨part, within, rfl⟩ := onTheWay
  exact ⟨part, within.trans (List.prefix_append front [name]), rfl⟩

/-! ## Following a path -/

/-- The path can be followed: every name on the way, two points apart, is short enough and that of a folder. -/
def Leads (t : FileTree) (path : List Name) : Prop :=
  ∀ front name, front ++ [name] <+: path → name ≠ upward →
    isTooLong name = false ∧ t.item? (locate front ++ [name]) = some .folder

/-- The path can be followed as soon as folders have been made on it: every name on the way, two points apart, is short
enough and not that of a file. -/
def Passable (t : FileTree) (path : List Name) : Prop :=
  ∀ front name, front ++ [name] <+: path → name ≠ upward →
    isTooLong name = false ∧ ∀ bytes, t.item? (locate front ++ [name]) ≠ some (.file bytes)

theorem leads_nil (t : FileTree) : t.Leads [] := by
  intro front name within
  simp at within

/-- What holds of every name on a path with one more name holds of every name on the path, and of this name. -/
theorem forall_parts_concat_iff {holds : List Name → Name → Prop} :
    (∀ before part, before ++ [part] <+: front ++ [name] → holds before part) ↔
      (∀ before part, before ++ [part] <+: front → holds before part) ∧ holds front name := by
  constructor
  · intro all
    exact ⟨fun before part within => all before part (within.trans (List.prefix_append front [name])),
      all front name (List.prefix_refl _)⟩
  · rintro ⟨earlier, last⟩ before part within
    rcases List.prefix_concat_iff.mp within with same | inside
    · obtain ⟨rfl, ends⟩ := List.append_inj' same rfl
      cases ends
      exact last
    · exact earlier before part inside

/-- A path with one more name can be followed when the path can be, and the name is that of a folder. -/
theorem leads_concat_iff :
    t.Leads (path ++ [name]) ↔ t.Leads path ∧
      (name ≠ upward → isTooLong name = false ∧ t.item? (locate path ++ [name]) = some .folder) :=
  forall_parts_concat_iff

/-- A path with one more name is passable when the path is, and the name is not that of a file. -/
theorem passable_concat_iff :
    t.Passable (path ++ [name]) ↔ t.Passable path ∧
      (name ≠ upward → isTooLong name = false ∧ ∀ bytes, t.item? (locate path ++ [name]) ≠ some (.file bytes)) :=
  forall_parts_concat_iff

/-- A path that can be followed is passable. -/
theorem Leads.passable (leads : t.Leads path) : t.Passable path := by
  intro front name within named
  obtain ⟨short, folder⟩ := leads front name within named
  refine ⟨short, fun bytes file => ?_⟩
  cases folder.symm.trans file

/-- The way to a part of a path can be followed too. -/
theorem Leads.part (leads : t.Leads path) (part : front <+: path) : t.Leads front :=
  fun before name within => leads before name (within.trans part)

/-- Where a path leads there are folders all the way from the root. -/
theorem Leads.folder_along (leads : t.Leads path) (within : location <+: locate path) :
    t.item? location = some .folder := by
  induction path using List.reverseRecOn generalizing location with
  | nil =>
    rw [List.prefix_nil.mp within]
    exact item?_root t
  | append_singleton path name inductionHypothesis =>
    obtain ⟨before, last⟩ := leads_concat_iff.mp leads
    rw [locate_concat, step] at within
    split at within
    · exact inductionHypothesis before (within.trans (List.dropLast_prefix _))
    next named =>
      rcases List.prefix_concat_iff.mp within with rfl | earlier
      · exact (last named).2
      · exact inductionHypothesis before earlier

/-- On the way of a path that can be followed there are folders. -/
theorem Leads.folder (leads : t.Leads path) (onTheWay : OnTheWay path location) : t.item? location = some .folder := by
  obtain ⟨front, part, rfl⟩ := onTheWay
  exact (leads.part part).folder_along (List.prefix_refl _)

/-- A path can be followed as before after an item has been put where no folder was. -/
theorem Leads.put (leads : t.Leads path) (free : t.item? location ≠ some .folder) :
    (t.put location item).Leads path := by
  have below : location ≠ [] := by
    rintro rfl
    exact free (item?_root t)
  intro front name within named
  obtain ⟨short, folder⟩ := leads front name within named
  have apart : location ≠ locate front ++ [name] := by
    rintro rfl
    exact free folder
  rw [item?_put below, if_neg apart]
  exact ⟨short, folder⟩

/-- A path in two parts is followed part by part. -/
theorem follow_append (front rest : List Name) :
    t.follow place (front ++ rest) = t.follow place front >>= fun found => t.follow found rest := by
  induction front generalizing place with
  | nil => rfl
  | cons name front inductionHypothesis =>
    rw [List.cons_append, follow, follow]
    split
    · exact inductionHypothesis
    · split
      · rfl
      · split
        · rfl
        · rfl
        · exact inductionHypothesis

/-- A single name is followed unless it is too long or that of no folder. -/
theorem follow_single_eq_ok :
    t.follow place [name] = .ok location ↔
      (name ≠ upward → isTooLong name = false ∧ t.item? (place ++ [name]) = some .folder) ∧ location = step place name := by
  have here (found : Location) : t.follow found [] = .ok location ↔ location = found := by
    rw [follow, Except.ok.injEq, eq_comm]
  rw [follow, step]
  by_cases around : name = upward
  · simp [around, here]
  · rw [if_neg around, if_neg around]
    by_cases long : isTooLong name = true
    · simp [around, long]
    · rw [if_neg long]
      cases t.item? (place ++ [name]) with
      | none => simp [around]
      | some found => cases found <;> simp [around, long, here]

/-- A path is followed exactly when it can be, and it leads where its names say. -/
theorem follow_eq_ok : t.follow [] path = .ok location ↔ t.Leads path ∧ location = locate path := by
  induction path using List.reverseRecOn generalizing location with
  | nil => simp [follow, leads_nil, locate, eq_comm]
  | append_singleton path name inductionHypothesis =>
    rw [follow_append, Outcome.bind_eq_ok, leads_concat_iff, locate_concat]
    simp only [inductionHypothesis, follow_single_eq_ok]
    constructor
    · rintro ⟨_, ⟨leads, rfl⟩, last, rfl⟩
      exact ⟨⟨leads, last⟩, rfl⟩
    · rintro ⟨⟨leads, last⟩, rfl⟩
      exact ⟨_, ⟨leads, rfl⟩, last, rfl⟩

/-- A passable path fails to be followed only because something on it is missing. -/
theorem Passable.missing {refusal : Refusal} (passable : t.Passable path)
    (refused : t.follow [] path = .error refusal) : refusal = .missing := by
  induction path using List.reverseRecOn with
  | nil => cases refused
  | append_singleton path name inductionHypothesis =>
    obtain ⟨before, last⟩ := passable_concat_iff.mp passable
    rw [follow_append, Outcome.bind_eq_error] at refused
    rcases refused with early | ⟨place, found, refused⟩
    · exact inductionHypothesis before early
    · obtain ⟨_, rfl⟩ := follow_eq_ok.mp found
      unfold follow at refused
      by_cases around : name = upward
      · rw [if_pos around] at refused
        cases refused
      · obtain ⟨short, noFile⟩ := last around
        rw [if_neg around, short, if_neg Bool.false_ne_true] at refused
        split at refused
        · exact (Except.error.inj refused).symm
        next bytes file => exact absurd file (noFile bytes)
        · cases refused

end MusicScore.FileTree
