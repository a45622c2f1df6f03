/-!
# Classes of characters

A class is a list of closed ranges, so that a table of the Unicode standard can be written down as it
is published and asked about one character at a time. The one class that is needed everywhere is white
space, in the sense of the Unicode bidirectional classes for spaces and separators, which also counts
the four information separators U+001C to U+001F. Names and amounts are read without the blanks around
them; a zero-width space or a byte order mark is not blank and stays.
-/
namespace MusicScore.Text

/-- A closed range of code points. -/
structure CodeRange where
  first : Nat
  last : Nat

/-- The ranges that a list of end points in pairs stands for; an odd end point counts alone. -/
def CodeRange.ofEnds : List Nat → List CodeRange
  | first :: last :: rest => ⟨first, last⟩ :: CodeRange.ofEnds rest
  | [alone] => [⟨alone, alone⟩]
  | [] => []

/-- The character lies in the range, both ends included. -/
def CodeRange.holds (range : CodeRange) (c : Char) : Bool :=
  range.first ≤ c.toNat && c.toNat ≤ range.last

/-- The character lies in one of the ranges. -/
def inRanges (ranges : List CodeRange) (c : Char) : Bool :=
  ranges.any (·.holds c)

/-! ## White space -/

/-- The blank characters of the Unicode standard. -/
def blankRanges : List CodeRange :=
  CodeRange.ofEnds [0x9, 0xd, 0x1c, 0x20, 0x85, 0x85, 0xa0, 0xa0, 0x1680, 0x1680, 0x2000, 0x200a,
    0x2028, 0x2029, 0x202f, 0x202f, 0x205f, 0x205f, 0x3000, 0x3000]

/-- The character is white space. -/
def isBlank (c : Char) : Bool := inRanges blankRanges c

/-- The text without the blanks at its front. -/
def trimStart (s : List Char) : List Char := s.dropWhile isBlank

/-- The text without the blanks at its end. -/
def trimEnd (s : List Char) : List Char := (s.reverse.dropWhile isBlank).reverse

/-- The text without the blanks at either end. -/
def trim (s : List Char) : List Char := trimEnd (trimStart s)

@[simp] theorem trim_nil : trim [] = [] := rfl

end MusicScore.Text
