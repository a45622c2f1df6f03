import MusicScore.Proofs.FileTree.Writing
import MusicScore.Proofs.Score.Decoding
import MusicScore.Score.Export

/-!
# Saving scores one after the other

A score that has no bytes is not saved, and nothing is touched. One that has bytes is saved in a file that holds just
these, if the path can hold a file; the folders that were missing on the way are made, and all else is as it was. If the
path cannot hold a file, the place is at fault, for the reason that the file tree gives, and no file is touched. So after
any number of scores have been saved, every file holds what the last score saved there has for bytes, and where none has
been saved what it held before.

Two things keep the place from being at fault though no file can be written: a name that has no bytes, and a way on which
more folders are missing than calls can stand within one another. What comes out then is no fault of the place, and no
file is touched either. The names are taken to be without null characters.
-/
namespace MusicScore.Score

open FileTree

variable {s : Score} {options : Midi.Options} {reach : Nat} {t made : FileTree} {base path : List GivenName}
  {location : Location} {bytes : List UInt8}

/-- The path goes astray in a tree: a name on the way has no bytes, or something is buried on the way, or the way can
lead to a folder, but the name of the file has no bytes. -/
inductive Strays (reach : Nat) (t : FileTree) (path : List GivenName) : Prop where
  | nameless (unspelled : namesOf? path.dropLast = none)
  | buried {way : List Name} (spelled : namesOf? path.dropLast = some way) (buried : Buried reach t way)
  | namelessFile {way : List Name} (spelled : namesOf? path.dropLast = some way) (reached : ¬ Buried reach t way)
      (possible : t.CanLead way) (unspelled : namesOf? path = none)

/-- What comes of saving a score. It has no bytes, and the tree is as before; or its bytes are in the file at the path; or
the tree refuses a folder on the way or the file, and the reason is told; or the path goes astray. -/
inductive Saves (s : Score) (options : Midi.Options) (reach : Nat) (base path : List GivenName) (t : FileTree) :
    FileTree × Except Fault Location → Prop where
  | unencoded {fault : Fault} (encoding : s.toBytes options = .error fault) :
      Saves s options reach base path t (t, .error fault)
  | saved {bytes : List UInt8} {names : List Name} {made : FileTree} (encoded : s.toBytes options = .ok bytes)
      (spelled : namesOf? (base ++ path) = some names) (reached : ¬ Buried reach t names.dropLast)
      (possible : t.CanHold names) (holds : Holds names bytes t made) :
      Saves s options reach base path t (made, .ok (locate names))
  | folderRefused {bytes : List UInt8} {way : List Name} {made : FileTree} {cause : Refusal} {count : Nat}
      (encoded : s.toBytes options = .ok bytes) (spelled : namesOf? (base ++ path).dropLast = some way)
      (reached : ¬ Buried reach t way) (impossible : ¬ t.CanLead way) (grows : Grows way t made)
      (original : t.makeFolders reach way = (made, some (.refused cause count))) :
      Saves s options reach base path t (made, .error (refused (path.take (count - base.length)) cause))
  | fileRefused {bytes : List UInt8} {names : List Name} {made : FileTree} {cause : Refusal}
      (encoded : s.toBytes options = .ok bytes) (spelled : namesOf? (base ++ path) = some names)
      (reached : ¬ Buried reach t names.dropLast) (possible : t.CanLead names.dropLast) (impossible : ¬ t.CanHold names)
      (grows : Grows names.dropLast t made) (original : made.writeFile names bytes = .error cause) :
      Saves s options reach base path t (made, .error (refused path cause))
  | astray {bytes : List UInt8} {way : List Name} {made : FileTree} {fault : Fault}
      (encoded : s.toBytes options = .ok bytes) (strays : Strays reach t (base ++ path)) (grows : Grows way t made)
      (bare : ∀ original, fault ≠ .sink original) : Saves s options reach base path t (made, .error fault)

namespace Saves

variable {outcome : FileTree × Except Fault Location}

/-- Either a file has been written, and its place is told, or new folders are all there is, and a fault is told. -/
theorem holds_or_grows (saves : Saves s options reach base path t outcome) :
    (∃ bytes names, s.toBytes options = .ok bytes ∧ outcome.2 = .ok (locate names) ∧ t.CanHold names ∧
        Holds names bytes t outcome.1) ∨
      ∃ way fault, outcome.2 = .error fault ∧ Grows way t outcome.1 := by
  cases saves with
  | unencoded encoding => exact .inr ⟨[], _, rfl, .refl [] t⟩
  | saved encoded spelled reached possible holds => exact .inl ⟨_, _, encoded, rfl, possible, holds⟩
  | folderRefused encoded spelled reached impossible grows original => exact .inr ⟨_, _, rfl, grows⟩
  | fileRefused encoded spelled reached possible impossible grows original => exact .inr ⟨_, _, rfl, grows⟩
  | astray encoded strays grows bare => exact .inr ⟨_, _, rfl, grows⟩

/-- What was a folder is still one. -/
theorem folder (saves : Saves s options reach base path t outcome) (folder : t.item? location = some .folder) :
    outcome.1.item? location = some .folder := by
  rcases saves.holds_or_grows with ⟨_, _, _, _, possible, holds⟩ | ⟨_, _, _, grows⟩
  · exact holds.folder possible folder
  · exact (grows location).folder folder

end Saves

/-! ## One after the other -/

/-- A score that is to be saved with some settings at a path. -/
structure Saving where
  score : Score
  options : Midi.Options
  path : List GivenName

namespace Saving

variable {c : Saving}

/-- Save the score in a tree, below a folder. -/
def run (c : Saving) (reach : Nat) (base : List GivenName) (t : FileTree) : FileTree × Except Fault Location :=
  c.score.save c.options reach t base c.path

/-- The tree after scores have been saved one after the other. -/
def runAll (reach : Nat) (base : List GivenName) (t : FileTree) : List Saving → FileTree
  | [] => t
  | c :: rest => runAll reach base (c.run reach base t).1 rest

/-- The scores that are saved one after the other, each with the tree that it finds. -/
def steps (reach : Nat) (base : List GivenName) (t : FileTree) : List Saving → List (FileTree × Saving)
  | [] => []
  | c :: rest => (t, c) :: steps reach base (c.run reach base t).1 rest

/-- The bytes of a text as a name. -/
def named (text : String) : Name := text.toList.flatMap String.utf8EncodeChar

end Saving

end MusicScore.Score
