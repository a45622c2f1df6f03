import MusicScore.Text.Digit
import MusicScore.Yaml.Cursor
import MusicScore.Yaml.Folding

/-!
# Reading quoted scalars

Between quotation marks, blanks around a line break belong to the break: a single break stands for one
blank, and of several the first is left out. Between single marks, two of them stand for one. Between
double marks a backslash begins an escape; before a line break it joins the lines. No text reaches over a
mark that separates documents.
-/
namespace MusicScore.Yaml.Quoted

open MusicScore.Text

/-- The characters that letters stand for after a backslash. -/
def letterEscapes : List (Char × Char) :=
  Folding.letterEscapes.map (fun (char, letter) => (letter, char)) ++
    [('\t', '\t'), (' ', ' '), ('/', '/')]

/-- The letters after which a character is written by number, with the number of digits. -/
def numberEscapes : List (Char × Nat) := [('x', 2), ('u', 4), ('U', 8)]

/-- The character with a number. The number of a half stands for no whole character. Numbers beyond the
last character are refused, the larger ones as too large for a number of four bytes with a sign. -/
def numbered (n : Nat) : Except Fault Char :=
  if n < 0x110000 then if n.isValidChar then .ok (Char.ofNat n) else .error .halfInDocument
  else if n < 0x80000000 then .error (.range .codePoint)
  else .error .overflow

/-- The line breaks ahead, with the blanks around them. -/
def breaks : Nat → Cursor → Except Fault (List Char × Cursor)
  | 0, c => .ok ([], c)
  | fuel + 1, c =>
    if c.isAtSeparator then .error .yaml
    else
      let c := c.skipWhile fun ch => ch = ' ' || ch = '\t'
      if c.isAt isLineBreak then do
        let (first, c) := c.lineBreak
        let (more, c) ← breaks fuel c
        return (first ++ more, c)
      else .ok ([], c)

/-- The blanks and line breaks ahead, as they count in a text. -/
def gap (fuel : Nat) (c : Cursor) : Except Fault (List Char × Cursor) :=
  let (blanks, c) := c.takeWhile fun ch => ch = ' ' || ch = '\t'
  match c.peek? with
  | none => .error .yaml
  | some ch =>
    if isLineBreak ch then do
      let (first, c) := c.lineBreak
      let (more, c) ← breaks fuel c
      return (foldBreaks first more, c)
    else .ok (blanks, c)

/-- What an escape stands for, after its backslash. -/
def escape (fuel : Nat) (c : Cursor) : Except Fault (List Char × Cursor) :=
  match c.peek? with
  | none => .error .yaml
  | some letter =>
    match letterEscapes.lookup letter with
    | some ch => .ok ([ch], c.next)
    | none =>
      match numberEscapes.lookup letter with
      | some count =>
        let digits := c.next.rest.take count
        if digits.length = count then
          match ofHex? digits with
          | some n => do return ([← numbered n], c.next.skip count)
          | none => .error .yaml
        else .error .yaml
      | none =>
        if isLineBreak letter then breaks fuel c.lineBreak.2 else .error .yaml

/-- The text up to the closing mark, and the place after it. -/
def body (double : Bool) : Nat → Cursor → Except Fault (List Char × Cursor)
  | 0, _ => .error .yaml
  | fuel + 1, c =>
    match c.peek? with
    | none => .error .yaml
    | some ch =>
      if ch = (if double then '"' else '\'') then
        if !double && c.peekAt? 1 = some '\'' then do
          let (more, c) ← body double fuel (c.skip 2)
          return ('\'' :: more, c)
        else .ok ([], c.next)
      else do
        let (piece, c) ←
          if isBlankOrBreak ch then gap fuel c
          else if double && ch = '\\' then escape fuel c.next
          else .ok ([ch], c.next)
        let (more, c) ← body double fuel c
        return (piece ++ more, c)

/-- The quoted text ahead. -/
def read (double : Bool) (c : Cursor) : Except Fault (List Char × Cursor) :=
  body double (c.left + 1) c.next

end MusicScore.Yaml.Quoted
