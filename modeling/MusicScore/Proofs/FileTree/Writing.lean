import MusicScore.Proofs.FileTree.Path

/-!
# Making folders and writing files

When the folders on a path are made, the tree grows by folders that were missing on the way, and by nothing else,
whether or not the last of them can be made. Each missing folder takes a call inside the one for the folder after it, so
that none is made where something is missing farther back on the path than calls can stand within one another. Where
this is not so, they can all be made exactly when the path is passable and not too long, and the path can be followed
then. So a file can be written at the end of a path exactly when the path before its name is passable, the name is not
too long and no two points, and no folder is in the place of the file, be it old or one of those that are made on the
way.
-/
namespace MusicScore.FileTree

variable {t made : FileTree} {reach : Nat} {location : Location} {path front : List Name} {name : Name} {item : Item}

/-! ## Growth -/

/-- At a location there is what was there before, or there is a new folder in a folder, on the way of a path. -/
def GrownAt (path : List Name) (t made : FileTree) (location : Location) : Prop :=
  made.item? location = t.item? location ∨
    OnTheWay path location ∧ t.item? location = none ∧ made.item? location = some .folder ∧
      made.item? location.dropLast = some .folder

/-- One tree has grown into another by folders that were missing on the way of a path. -/
def Grows (path : List Name) (t made : FileTree) : Prop := ∀ location, GrownAt path t made location

theorem Grows.refl (path : List Name) (t : FileTree) : Grows path t t := fun _ => .inl rfl

/-- A tree that grows on the way of a path grows on that of a longer one. -/
theorem Grows.further (grows : Grows front t made) : Grows (front ++ [name]) t made := by
  intro location
  rcases grows location with same | ⟨onTheWay, absent, folder⟩
  · exact .inl same
  · exact .inr ⟨onTheWay.further, absent, folder⟩

/-- What was a folder is still one. -/
theorem GrownAt.folder (grown : GrownAt path t made location) (folder : t.item? location = some .folder) :
    made.item? location = some .folder := by
  rcases grown with same | ⟨_, absent, _⟩
  · exact same.trans folder
  · cases absent.symm.trans folder

/-- One more folder on the way, in a folder where nothing has its name. -/
theorem Grows.put (grows : Grows path t made) (onTheWay : OnTheWay path location)
    (absent : made.item? location = none) (inside : made.item? location.dropLast = some .folder) :
    Grows path t (made.put location .folder) := by
  have below : location ≠ [] := by
    rintro rfl
    simp at absent
  have kept {other : Location} (folder : made.item? other = some .folder) :
      (made.put location .folder).item? other = some .folder := by
    rw [item?_put below]
    split
    · rfl
    · exact folder
  intro other
  by_cases here : location = other
  · subst here
    have before : t.item? location = none := by
      rcases grows location with same | ⟨_, absent, _⟩
      · exact same ▸ absent
      · exact absent
    exact .inr ⟨onTheWay, before, by rw [item?_put below, if_pos rfl], kept inside⟩
  · rcases grows other with same | ⟨onTheWay, before, folder, around⟩
    · exact .inl (by rw [item?_put below, if_neg here, same])
    · exact .inr ⟨onTheWay, before, kept folder, kept around⟩

/-- Something is missing on the path even without its last names, one more than there are calls that may stand within
the first one. -/
def Buried (reach : Nat) (t : FileTree) (path : List Name) : Prop :=
  isTooLongPath path = false ∧ t.follow [] (path.take (path.length - (reach + 1))) = .error .missing

/-- The folders that are missing on the path can be made. -/
def CanLead (t : FileTree) (path : List Name) : Prop := isTooLongPath path = false ∧ t.Passable path

/-- Read the file at the end of a path. -/
def read? (t : FileTree) (path : List Name) : Option (List UInt8) :=
  match path.getLast?, t.follow [] path.dropLast with
  | some name, .ok place =>
    if name = upward ∨ isTooLong name = true then none
    else
      match t.item? (place ++ [name]) with
      | some (.file bytes) => some bytes
      | _ => none
  | _, _ => none

/-- A file can be written with a name in the folder that a path leads to, once the folders on this path have been made:
the path is passable, the name is one, and no folder has it or will have it by then. -/
structure Writable (t : FileTree) (front : List Name) (name : Name) : Prop where
  short : isTooLongPath (front ++ [name]) = false
  passable : t.Passable front
  named : name ≠ upward
  brief : isTooLong name = false
  free : t.item? (locate front ++ [name]) ≠ some .folder
  apart : ¬ OnTheWay front (locate front ++ [name])

/-- A file can be written at the end of the path. -/
def CanHold (t : FileTree) (path : List Name) : Prop :=
  ∃ front name, path = front ++ [name] ∧ t.Writable front name

/-- One tree has become another by a file at the end of a path: the file is there, in a folder, and besides it the tree
has grown by missing folders on the way. -/
structure Holds (path : List Name) (bytes : List UInt8) (t made : FileTree) : Prop where
  read : made.read? path = some bytes
  item : made.item? (locate path) = some (.file bytes)
  inside : made.item? (locate path).dropLast = some .folder
  elsewhere : ∀ other, other ≠ locate path → GrownAt path.dropLast t made other

/-- A file takes no folder away. -/
theorem Holds.folder {bytes : List UInt8} (possible : t.CanHold path) (holds : Holds path bytes t made)
    (folder : t.item? location = some .folder) : made.item? location = some .folder := by
  refine (holds.elsewhere location ?_).folder folder
  rintro rfl
  obtain ⟨front, last, rfl, writable⟩ := possible
  exact writable.free (locate_of_name writable.named ▸ folder)

/-! ## Trees -/

/-- Every item lies in a folder. -/
def IsTree (t : FileTree) : Prop := ∀ location name, t.item? (location ++ [name]) ≠ none → t.item? location = some .folder

/-- Where one tree has grown, a new item lies in a folder, and an old one does if its folder is left. -/
theorem GrownAt.inside (grown : GrownAt path t made (location ++ [name])) (tree : t.IsTree)
    (folders : t.item? location = some .folder → made.item? location = some .folder)
    (there : made.item? (location ++ [name]) ≠ none) : made.item? location = some .folder := by
  rcases grown with same | ⟨_, _, _, within⟩
  · exact folders (tree location name (same ▸ there))
  · rwa [List.dropLast_concat] at within

end MusicScore.FileTree
