import MusicScore.FileTree
import MusicScore.Score.Encoding
import MusicScore.Sink

/-!
# Exporting scores

A score is exported to a sink or saved as a file. The whole file is made before the first byte is written,
so that nothing is written of a score that has no file, and the tree is left as it was.

A score is saved at a path below a folder; folders that are missing on the way are made. A path on which no
file can be written is a fault of the place, and the folders that were made by then are left. A name that
has no bytes or holds a null character is no name at all, which is a fault of the path and not of the place,
and so is a way on which too many folders are missing.
-/
namespace MusicScore.Score

/-- Write the file of a score to a sink. -/
def exportTo (s : Score) (options : Midi.Options) (sink : Sink) : Delivery :=
  match s.toBytes options with
  | .ok bytes => sink.writeAll bytes
  | .error fault => ⟨.error fault, []⟩

open FileTree

/-- The fault of a place that refused a file or a folder, at a path below a folder. -/
def refused (path : List GivenName) (cause : Refusal) : Fault := .sink (.refused cause (quotePath path))

/-- The fault of a path below a folder on which something stands in the way of folders. -/
def obstructed (base path : List GivenName) : Obstacle → Fault
  | .refused cause names => refused (path.take (names - base.length)) cause
  | .tooDeep => .tooDeep

/-- Write bytes to a file below a folder, and say where the file is. So many calls may stand within one
another while folders are made. -/
def saveBytes (reach : Nat) (bytes : List UInt8) (t : FileTree) (base path : List GivenName) :
    FileTree × Except Fault Location :=
  match namesOf? (base ++ path).dropLast with
  | none => (t, .error .halfInPath)
  | some way =>
    if holdsNull (base ++ path).dropLast then (t, .error (.range .nullCharacter))
    else
      match t.makeFolders reach way with
      | (made, some obstacle) => (made, .error (obstructed base path obstacle))
      | (made, none) =>
        match namesOf? (base ++ path) with
        | none => (made, .error .halfInPath)
        | some names =>
          if holdsNull path then (made, .error (.range .nullCharacter))
          else
            match made.writeFile names bytes with
            | .ok (location, written) => (written, .ok location)
            | .error cause => (made, .error (refused path cause))

/-- Save a score at a path below a folder, and say where the file is. -/
def save (s : Score) (options : Midi.Options) (reach : Nat) (t : FileTree) (base path : List GivenName) :
    FileTree × Except Fault Location :=
  match s.toBytes options with
  | .ok bytes => saveBytes reach bytes t base path
  | .error fault => (t, .error fault)

end MusicScore.Score
