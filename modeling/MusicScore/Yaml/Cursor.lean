import MusicScore.Fault
import MusicScore.Yaml.Style

/-!
# A place in a document

A document is read from front to back. The cursor holds what is left of it and knows how much that is, and
how far it has come: in characters, in lines, and in columns of the current line. A byte order mark takes
no column.
-/
namespace MusicScore.Yaml

/-- A place in a document, with what is left of it and the number of its characters. -/
structure Cursor where
  rest : List Char
  left : Nat
  index : Nat
  line : Nat
  column : Nat

namespace Cursor

/-- The start of a document. -/
def start (s : List Char) : Cursor := ⟨s, s.length, 0, 0, 0⟩

/-- The next character. -/
def peek? (c : Cursor) : Option Char := c.rest.head?

/-- The character after some others. -/
def peekAt? (c : Cursor) (n : Nat) : Option Char := c.rest[n]?

/-- A character after which the next one is on another line, given that one. -/
def endsLine (ch : Char) (next : Option Char) : Bool :=
  if ch = '\r' then next ≠ some '\n' else Style.isBreak ch

/-- The place after the next character. -/
def next (c : Cursor) : Cursor :=
  match c.rest with
  | [] => c
  | ch :: rest =>
    if endsLine ch rest.head? then ⟨rest, c.left - 1, c.index + 1, c.line + 1, 0⟩
    else if ch = '\ufeff' then ⟨rest, c.left - 1, c.index + 1, c.line, c.column⟩
    else ⟨rest, c.left - 1, c.index + 1, c.line, c.column + 1⟩

/-- The place after some characters. -/
def skip : Nat → Cursor → Cursor
  | 0, c => c
  | n + 1, c => skip n c.next

/-- The characters ahead that pass a test, and the place after them. -/
def takeWhile (c : Cursor) (test : Char → Bool) : List Char × Cursor :=
  let taken := c.rest.takeWhile test
  (taken, c.skip taken.length)

/-- The place after the characters ahead that pass a test. -/
def skipWhile (c : Cursor) (test : Char → Bool) : Cursor := (c.takeWhile test).2

/-- The next character passes a test. -/
def isAt (c : Cursor) (test : Char → Bool) : Bool := c.peek?.any test

/-- The document has ended, or the next character passes a test. -/
def isAtEndOr (c : Cursor) (test : Char → Bool) : Bool := c.peek?.all test

end Cursor

/-- A character that breaks a line. -/
def isLineBreak (c : Char) : Bool := c = '\r' || Style.isBreak c

/-- A blank of a line, or a line break. -/
def isBlankOrBreak (c : Char) : Bool := c = ' ' || c = '\t' || isLineBreak c

/-- A plain blank, or a line break. -/
def isSpaceOrBreak (c : Char) : Bool := c = ' ' || isLineBreak c

namespace Cursor

/-- The line break ahead as it counts in a text, and the place after it. -/
def lineBreak (c : Cursor) : List Char × Cursor :=
  match c.rest with
  | '\r' :: '\n' :: _ => (['\n'], c.skip 2)
  | ch :: _ =>
    if ch = '\u2028' || ch = '\u2029' then ([ch], c.next)
    else if isLineBreak ch then (['\n'], c.next)
    else ([], c)
  | [] => ([], c)

/-- Three marks ahead, with a blank or the end after them, separate documents. -/
def isAtSeparator (c : Cursor) : Bool :=
  (['-', '-', '-'].isPrefixOf c.rest || ['.', '.', '.'].isPrefixOf c.rest) &&
    (c.peekAt? 3).all isBlankOrBreak

/-- The place after blanks and a comment, which have to reach to the end of the line. -/
def restOfLine (c : Cursor) : Except Fault Cursor :=
  let c := c.skipWhile (· = ' ')
  let c := if c.isAt (· = '#') then c.skipWhile (!isLineBreak ·) else c
  if c.isAtEndOr isLineBreak then .ok c.lineBreak.2 else .error .yaml

end Cursor

/-- The text of the line breaks between two words: one break stands for a blank, and of several the
first is left out. -/
def foldBreaks (first : List Char) (more : List Char) : List Char :=
  if first ≠ ['\n'] then first ++ more else if more.isEmpty then [' '] else more

end MusicScore.Yaml
