import MusicScore.Pitch.Basic
import MusicScore.Text.CharClass
import MusicScore.Text.Digit

/-!
# Spelled pitches

A spelling is a letter from A to G, an accidental and an octave; it stands for the note number
`(octave + 1) * 12 + letter + accidental`, if that is one. In text the letter may be small, the
accidental is one of `b`, `bb`, `#`, `##`, `x` or missing, and the octave is a run of decimal digits of
any script with an optional minus. Blanks around a spelling are ignored.
-/
namespace MusicScore

/-- The letters of the natural notes. -/
inductive Letter where
  | c
  | d
  | e
  | f
  | g
  | a
  | b
  deriving DecidableEq, Repr

namespace Letter

/-- All letters, from C up. -/
def all : List Letter := [c, d, e, f, g, a, b]

/-- Semitones above C. -/
def semitones : Letter → Int
  | c => 0
  | d => 2
  | e => 4
  | f => 5
  | g => 7
  | a => 9
  | b => 11

/-- The capital letter. -/
def capital : Letter → Char
  | c => 'C'
  | d => 'D'
  | e => 'E'
  | f => 'F'
  | g => 'G'
  | a => 'A'
  | b => 'B'

/-- The letter that a character of either case stands for. -/
def ofChar? (character : Char) : Option Letter := all.find? (·.capital = character.toUpper)

end Letter

/-- The alterations of a natural note. -/
inductive Accidental where
  | doubleFlat
  | flat
  | natural
  | sharp
  | doubleSharp
  deriving DecidableEq, Repr

namespace Accidental

/-- The alteration in semitones. -/
def semitones : Accidental → Int
  | doubleFlat => -2
  | flat => -1
  | natural => 0
  | sharp => 1
  | doubleSharp => 2

/-- The accidental at the front of a text, the longest symbol that fits, and what follows it. -/
def take : List Char → Accidental × List Char
  | 'b' :: 'b' :: rest => (doubleFlat, rest)
  | '#' :: '#' :: rest => (doubleSharp, rest)
  | 'b' :: rest => (flat, rest)
  | '#' :: rest => (sharp, rest)
  | 'x' :: rest => (doubleSharp, rest)
  | rest => (natural, rest)

end Accidental

/-- A letter, an accidental and an octave. -/
structure Spelling where
  letter : Letter
  accidental : Accidental
  octave : Int
  deriving DecidableEq, Repr

namespace Spelling

open MusicScore.Text

/-- The note number that a spelling stands for, in the range or not. -/
def number (s : Spelling) : Int :=
  (s.octave + 1) * 12 + s.letter.semitones + s.accidental.semitones

/-- The digits of an octave: a sign, and at least one digit to the end of the text. -/
def octaveDigits? (s : List Char) : Option (Bool × List Nat) :=
  let (negative, body) :=
    match s with
    | '-' :: rest => (true, rest)
    | _ => (false, s)
  if body.isEmpty then none else (body.mapM digitValue?).map fun digits => (negative, digits)

/-- Read a spelling. A text of another form is no pitch name, and an octave has a greatest number of
digits. -/
def read (name : String) : Except Fault Spelling :=
  match trim name.toList with
  | [] => .error (.value (.pitchName name))
  | first :: rest =>
    let (accidental, tail) := Accidental.take rest
    match Letter.ofChar? first, octaveDigits? tail with
    | some letter, some (negative, digits) =>
      if digits.length ≤ maxDigits then
        .ok ⟨letter, accidental, IntegerText.signed negative (ofDigits digits)⟩
      else .error (.range (.digits digits.length))
    | _, _ => .error (.value (.pitchName name))

end Spelling

namespace Pitch

/-- The pitch of a spelling. -/
def ofSpelling (s : Spelling) : Except Fault Pitch := ofInt s.number

/-- The pitch that a name like `C4`, `F#3`, `Bb2` or `C-1` stands for. -/
def parse (name : String) : Except Fault Pitch := do
  ofSpelling (← Spelling.read name)

/-- The pitch of a letter and an accidental in an octave that may be a number of any kind. -/
def ofParts (letter : Letter) (accidental : Accidental) (octave : Number) : Except Fault Pitch :=
  let number : Option Number := do
    let above ← Number.add? octave (.ofInt 1)
    let base ← Number.mul? above (.ofInt 12)
    let natural ← Number.add? base (.ofInt letter.semitones)
    Number.add? natural (.ofInt accidental.semitones)
  match number with
  | some n => ofNumber n
  | none => .error .overflow

end Pitch

end MusicScore
