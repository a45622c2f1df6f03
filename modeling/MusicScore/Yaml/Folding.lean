import MusicScore.Text.Digit
import MusicScore.Yaml.Style

/-!
# Folding scalars into lines

A long scalar goes on in the next line, behind a margin, wherever a single blank between two words stands
beyond the width of the page; the reader takes such a line break for the blank. Between double marks a
line is broken with a backslash, and a blank at the start of the next line has one before it. A line
break of the text itself is written as one line more between single marks, and as an escape between
double ones.

A key stays on its line whatever its length.
-/
namespace MusicScore.Yaml

open MusicScore.Text

/-- Where a scalar is written: the column of its first character, the margin of further lines, and
whether there may be any. -/
structure Place where
  column : Nat
  margin : Nat
  mayFold : Bool

namespace Folding

/-- The column beyond which a line is folded. -/
def width : Nat := 80

/-- The start of a further line. -/
def nextLine (margin : Nat) : List Char := '\n' :: List.replicate margin ' '

/-- Equal characters at the front of a text that pass a test, and what follows them. -/
def run (test : Char → Bool) (s : List Char) : List Char × List Char :=
  (s.takeWhile test, s.dropWhile test)

/-- A plain scalar from a column on. The characters of a word follow one another; a blank is looked at
together with the blanks after it. -/
def plainFrom (place : Place) : (fuel column : Nat) → List Char → List Char
  | 0, _, s => s
  | _, _, [] => []
  | fuel + 1, column, c :: rest =>
    if c = ' ' then
      let (more, after) := run (· = ' ') rest
      if more.isEmpty && width < column && place.mayFold then
        nextLine place.margin ++ plainFrom place fuel place.margin after
      else c :: more ++ plainFrom place fuel (column + 1 + more.length) after
    else c :: plainFrom place fuel (column + 1) rest

/-- The inside of a text between single marks, from a column on; the first character of the whole text
is never folded, nor is the last. -/
def singleFrom (place : Place) : (fuel column : Nat) → (isFirst : Bool) → List Char → List Char
  | 0, _, _, s => s
  | _, _, _, [] => []
  | fuel + 1, column, isFirst, c :: rest =>
    if c = ' ' then
      let (more, after) := run (· = ' ') rest
      if more.isEmpty && width < column && place.mayFold && !isFirst && !after.isEmpty then
        nextLine place.margin ++ singleFrom place fuel place.margin false after
      else c :: more ++ singleFrom place fuel (column + 1 + more.length) false after
    else if c = '\n' then
      let (more, after) := run (· = '\n') rest
      '\n' :: more ++ nextLine place.margin ++ singleFrom place fuel place.margin false after
    else if c = '\'' then '\'' :: '\'' :: singleFrom place fuel (column + 2) false rest
    else c :: singleFrom place fuel (column + 1) false rest

/-- The characters between double marks that have an escape of one letter. -/
def letterEscapes : List (Char × Char) :=
  [('\x00', '0'), ('\x07', 'a'), ('\x08', 'b'), ('\t', 't'), ('\n', 'n'), ('\x0b', 'v'), ('\x0c', 'f'),
    ('\r', 'r'), ('\x1b', 'e'), ('"', '"'), ('\\', '\\'), ('\x85', 'N'), ('\xa0', '_'),
    ('\u2028', 'L'), ('\u2029', 'P')]

/-- A character by its number, in the shortest of three widths. -/
def numberEscape (c : Char) : List Char :=
  let n := c.toNat
  if n < 0x100 then '\\' :: 'x' :: hexCapital 2 n
  else if n < 0x10000 then '\\' :: 'u' :: hexCapital 4 n
  else '\\' :: 'U' :: hexCapital 8 n

/-- The escape of a character that is not written as it is. -/
def escape? (c : Char) : Option (List Char) :=
  match letterEscapes.lookup c with
  | some letter => some ['\\', letter]
  | none => if ' ' ≤ c ∧ c ≤ '~' then none else some (numberEscape c)

/-- A break of the line between double marks. -/
def doubleBreak (place : Place) (rest : List Char) : List Char :=
  '\\' :: nextLine place.margin ++ if rest.head? = some ' ' then ['\\'] else []

/-- The column after a break of the line between double marks. -/
def columnAfterBreak (place : Place) (rest : List Char) : Nat :=
  place.margin + if rest.head? = some ' ' then 1 else 0

/-- The inside of a text between double marks, from a column on. A line may be broken before a blank,
before a character that follows an escape or a break, and after an escape; never before the second
character, nor before the last. -/
def doubleFrom (place : Place) : (column : Nat) → (isFirst isFresh : Bool) → List Char → List Char
  | _, _, _, [] => []
  | column, isFirst, isFresh, c :: rest =>
    let inside := place.mayFold && !isFirst && !rest.isEmpty
    match escape? c with
    | some escape =>
      let column := column + escape.length
      if inside && width + 1 < column then
        escape ++ doubleBreak place rest ++
          doubleFrom place (columnAfterBreak place rest) false true rest
      else escape ++ doubleFrom place column false true rest
    | none =>
      if inside && (c = ' ' || isFresh) && width < column then
        doubleBreak place (c :: rest) ++ c ::
          doubleFrom place (columnAfterBreak place (c :: rest) + 1) false false rest
      else c :: doubleFrom place (column + 1) false false rest

end Folding

/-- The lines of a text behind a margin. Every line of the text ends with a line break, also the last. -/
def Folding.literalLines (margin : Nat) (s : List Char) : List Char :=
  let atStart := s.foldl (fun (written, isFresh) c =>
    (c :: (if isFresh then List.replicate margin ' ' ++ written else written), c = '\n')) ([], true)
  '\n' :: atStart.1.reverse

/-- The text of a scalar in a style at a place. -/
def Style.write (style : Style) (place : Place) (s : List Char) : List Char :=
  match style with
  | .plain => Folding.plainFrom place (s.length + 1) place.column s
  | .single => '\'' :: Folding.singleFrom place (s.length + 1) (place.column + 1) true s ++ ['\'']
  | .double => '"' :: Folding.doubleFrom place (place.column + 1) true false s ++ ['"']
  | .literal => '|' :: Folding.literalLines place.margin s

end MusicScore.Yaml
