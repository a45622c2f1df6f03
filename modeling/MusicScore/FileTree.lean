import MusicScore.Text.Quoted

/-!
# File trees

A file tree has folders and files, each at a location: the names on the way to it from the root, which is a
folder. Every item that is not the root lies in a folder. A path is followed name by name from the root,
two points leading to the folder around; a name that is not there, or is that of a file, ends the way, and
so does a name with too many bytes. A path with too many bytes is not even begun.

Folders and files are made one at a time. A file replaces one of the same name; a folder replaces
nothing. What is refused leaves the tree as it was, and says why with the number and the words by which
file systems name it. Folders that are missing on a path are looked for from the last one on, each inside
the call for the one after it, and calls can stand within one another only so often.

A name is a sequence of bytes. It is given as a text in which, besides whole characters, halves of
characters can stand. Some of the halves stand for single bytes; the others have none.
-/
namespace MusicScore

/-- Why a file or a folder could not be made. -/
inductive Refusal where
  | missing
  | exists
  | notFolder
  | isFolder
  | nameTooLong
  deriving DecidableEq

namespace Refusal

/-- The number of a refusal. -/
def number : Refusal → Nat
  | missing => 2
  | «exists» => 17
  | notFolder => 20
  | isFolder => 21
  | nameTooLong => 36

/-- The refusal in words. -/
def words : Refusal → String
  | missing => "No such file or directory"
  | «exists» => "File exists"
  | notFolder => "Not a directory"
  | isFolder => "Is a directory"
  | nameTooLong => "File name too long"

/-- The text of a refusal at a path. -/
def message (r : Refusal) (quotedPath : String) : String := s!"[Errno {r.number}] {r.words}: {quotedPath}"

end Refusal

namespace FileTree

/-! ## Names -/

/-- A name of a folder or a file, in bytes. -/
abbrev Name := List UInt8

/-- The two points that lead to the folder around. -/
def upward : Name := [0x2e, 0x2e]

/-- A glyph of a name as it is given: a character, or a half with its distance from the first of the halves. -/
inductive Glyph where
  | whole (c : Char)
  | half (n : Fin 0x800)
  deriving DecidableEq

/-- A name as it is given. -/
abbrev GivenName := List Glyph

/-- The name that a text spells. -/
def spell (text : String) : GivenName := text.toList.map .whole

/-- The number of the first half. -/
def firstHalf : Nat := 0xd800

/-- The bytes of a glyph. The halves from U+DC80 to U+DCFF stand for the bytes from 80 to ff. -/
def Glyph.bytes? : Glyph → Option (List UInt8)
  | whole c => some (String.utf8EncodeChar c)
  | half n =>
    let code := firstHalf + n.val
    if 0xdc80 ≤ code ∧ code ≤ 0xdcff then some [UInt8.ofNat (code - 0xdc00)] else none

/-- The bytes of a name as it is given. -/
def nameOf? (name : GivenName) : Option Name := (name.mapM Glyph.bytes?).map List.flatten

/-- The names of a path as it is given. -/
def namesOf? (path : List GivenName) : Option (List Name) := path.mapM nameOf?

/-- Some name holds a null character. -/
def holdsNull (path : List GivenName) : Bool := path.any fun name => name.contains (.whole '\x00')

/-- The names of a path; empty names and single points lead nowhere. -/
def pathOf (text : String) : List GivenName :=
  ((text.splitOn "/").filter fun name => name ≠ "" ∧ name ≠ ".").map spell

/-- A glyph inside a quotation with the given mark. -/
def Glyph.quoted (mark : Char) : Glyph → List Char
  | whole c => Text.quotedChar mark c
  | half n => '\\' :: 'u' :: Text.hex 4 (firstHalf + n.val)

/-- The whole characters of a name as it is given. -/
def characters (name : GivenName) : List Char :=
  name.filterMap fun glyph =>
    match glyph with
    | .whole c => some c
    | .half _ => none

/-- The text of a path in quotation marks. -/
def quotePath (path : List GivenName) : String :=
  let glyphs := if path = [] then spell "." else (spell "/").intercalate path
  let mark := Text.quotationMark (characters glyphs)
  String.ofList (mark :: glyphs.flatMap (Glyph.quoted mark) ++ [mark])

/-- The most bytes of a name. -/
def maxNameBytes : Nat := 255

/-- The name has too many bytes. -/
def isTooLong (name : Name) : Bool := maxNameBytes < name.length

/-- The most bytes of a path. -/
def maxPathBytes : Nat := 4095

/-- The path, which has a slash before each name, has too many bytes. -/
def isTooLongPath (path : List Name) : Bool :=
  maxPathBytes < path.foldl (fun total name => total + name.length + 1) 0

/-! ## Items -/

/-- The names on the way from the root to an item. -/
abbrev Location := List Name

/-- What is at a location. -/
inductive Item where
  | folder
  | file (bytes : List UInt8)
  deriving DecidableEq

end FileTree

/-- Folders and files, each location once. -/
structure FileTree where
  items : List (FileTree.Location × FileTree.Item)

namespace FileTree

/-- A tree that has only its root. -/
def empty : FileTree := ⟨[]⟩

/-- The item at a location. -/
def item? (t : FileTree) (location : Location) : Option Item :=
  if location = [] then some .folder else t.items.lookup location

/-- Set the item at a location. -/
def setItem (location : Location) (item : Item) :
    List (Location × Item) → List (Location × Item)
  | [] => [(location, item)]
  | (other, old) :: rest =>
    if other = location then (location, item) :: rest else (other, old) :: setItem location item rest

/-- The tree with an item at a location. -/
def put (t : FileTree) (location : Location) (item : Item) : FileTree :=
  ⟨setItem location item t.items⟩

/-! ## Paths -/

/-- Follow a path from a folder to a folder. -/
def follow (t : FileTree) (place : Location) : List Name → Except Refusal Location
  | [] => .ok place
  | name :: rest =>
    if name = upward then t.follow place.dropLast rest
    else if isTooLong name then .error .nameTooLong
    else
      match t.item? (place ++ [name]) with
      | none => .error .missing
      | some (.file _) => .error .notFolder
      | some .folder => t.follow (place ++ [name]) rest

/-- The path leads to a folder. -/
def leadsToFolder (t : FileTree) (path : List Name) : Bool :=
  if isTooLongPath path then false
  else
    match t.follow [] path with
    | .ok _ => true
    | .error _ => false

/-- Make the folder at the end of a path. -/
def makeFolder (t : FileTree) (path : List Name) : Except Refusal FileTree := do
  match path.getLast? with
  | none => .error .exists
  | some name =>
    if isTooLongPath path then .error .nameTooLong
    let place ← t.follow [] path.dropLast
    if name = upward then .error .exists
    else if isTooLong name then .error .nameTooLong
    else
      match t.item? (place ++ [name]) with
      | some _ => .error .exists
      | none => return t.put (place ++ [name]) .folder

/-- Make the folder at the end of a path after the folders on the way have been made. -/
def makeLastFolder (t : FileTree) (path : List Name) : FileTree × Option Refusal :=
  match t.makeFolder path with
  | .ok made => (made, none)
  | .error .missing => (t, some .missing)
  | .error refusal => if t.leadsToFolder path then (t, none) else (t, some refusal)

/-- What stands in the way of the folders on a path: one of them, the last of so many names, is refused, or
too many are missing. -/
inductive Obstacle where
  | refused (cause : Refusal) (names : Nat)
  | tooDeep
  deriving DecidableEq

/-- What comes of the last folder of a path, as what comes of the path. -/
def settled (path : List Name) (outcome : FileTree × Option Refusal) : FileTree × Option Obstacle :=
  (outcome.1, outcome.2.map fun cause => .refused cause path.length)

/-- Make the folder at the end of a path that is given from its last name on, and the folders on the way
to it that are missing. So many calls may stand within this one. -/
def makeFoldersBackward (t : FileTree) : (reach : Nat) → List Name → FileTree × Option Obstacle
  | _, [] => (t, none)
  | reach, name :: outer =>
    let path := (name :: outer).reverse
    match t.makeLastFolder path with
    | (_, some .missing) =>
      match reach with
      | 0 => (t, some .tooDeep)
      | reach + 1 =>
        match t.makeFoldersBackward reach outer with
        | (made, none) => settled path (made.makeLastFolder path)
        | stopped => stopped
    | outcome => settled path outcome

/-- Make the folder at the end of a path, and the folders on the way to it that are missing. It is no
fault when the folder is there already. -/
def makeFolders (t : FileTree) (reach : Nat) (path : List Name) : FileTree × Option Obstacle :=
  t.makeFoldersBackward reach path.reverse

/-- Write a file at the end of a path, and say where it is. -/
def writeFile (t : FileTree) (path : List Name) (bytes : List UInt8) :
    Except Refusal (Location × FileTree) := do
  match path.getLast? with
  | none => .error .isFolder
  | some name =>
    if isTooLongPath path then .error .nameTooLong
    let place ← t.follow [] path.dropLast
    if name = upward then .error .isFolder
    else if isTooLong name then .error .nameTooLong
    else
      let location := place ++ [name]
      match t.item? location with
      | some .folder => .error .isFolder
      | _ => return (location, t.put location (.file bytes))

end FileTree

end MusicScore
