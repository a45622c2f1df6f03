import MusicScore.Text.Digit
import MusicScore.Text.Printable

/-!
# Quoted text

Names are quoted in messages and descriptions. The quotation mark is a single one, unless the text
holds single marks and no double ones. A backslash and the mark itself are escaped, line breaks and
tabs have escapes of one letter, and every other hidden character is written by number in two, four or
eight hexadecimal digits. Bytes are quoted in the same way, as text of the first 256 characters of
which only ASCII is shown.
-/
namespace MusicScore.Text

/-- The quotation mark for a text. -/
def quotationMark (s : List Char) : Char :=
  if s.contains '\'' && !s.contains '"' then '"' else '\''

/-- A character by its number, in the shortest of the three widths. -/
def escapeByNumber (c : Char) : List Char :=
  let n := c.toNat
  if n < 0x100 then '\\' :: 'x' :: hex 2 n
  else if n < 0x10000 then '\\' :: 'u' :: hex 4 n
  else '\\' :: 'U' :: hex 8 n

/-- A character inside a quotation with the given mark. -/
def quotedChar (mark c : Char) : List Char :=
  if c = mark || c = '\\' then ['\\', c]
  else if c = '\n' then ['\\', 'n']
  else if c = '\r' then ['\\', 'r']
  else if c = '\t' then ['\\', 't']
  else if isPrintable c then [c]
  else escapeByNumber c

/-- The text in quotation marks. -/
def quoted (s : List Char) : List Char :=
  let mark := quotationMark s
  mark :: s.flatMap (quotedChar mark) ++ [mark]

/-- The text of a string in quotation marks. -/
def quote (s : String) : String := String.ofList (quoted s.toList)

/-- A byte inside a quotation with the given mark; bytes outside ASCII are written by number. -/
def quotedByte (mark : Char) (b : UInt8) : List Char :=
  if b.toNat < 0x7f then quotedChar mark (Char.ofNat b.toNat) else '\\' :: 'x' :: hex 2 b.toNat

/-- Bytes in quotation marks, after the letter that tells them from text. -/
def quoteBytes (bytes : List UInt8) : String :=
  let mark := quotationMark (bytes.map fun b => Char.ofNat b.toNat)
  String.ofList ('b' :: mark :: bytes.flatMap (quotedByte mark) ++ [mark])

end MusicScore.Text
