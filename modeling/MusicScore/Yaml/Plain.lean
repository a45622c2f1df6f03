import MusicScore.Yaml.Cursor

/-!
# Reading plain scalars

A plain scalar goes on over blanks and line breaks as long as the lines stay behind the margin. It ends
before a comment, before a colon with a blank after it, and before a mark that separates documents; in
brackets also before a comma or a bracket. Breaks between its lines count as in quoted text.
-/
namespace MusicScore.Yaml.Plain

/-- A mark that structures brackets. -/
def isBracketMark (c : Char) : Bool := [',', '?', '[', ']', '\x7b', '\x7d'].contains c

/-- The plain text of one word ahead. -/
def word (inBrackets : Bool) : List Char → List Char
  | [] => []
  | c :: rest =>
    let colonEnds := rest.head?.all fun next =>
      isBlankOrBreak next || (inBrackets && next ≠ '?' && isBracketMark next)
    if isBlankOrBreak c || (c = ':' && colonEnds) || (inBrackets && isBracketMark c) then []
    else c :: word inBrackets rest

/-- The further line breaks ahead, with the blanks around them; nothing before a separator. -/
def breaks : Nat → Cursor → Option (List Char) × Cursor
  | 0, c => (some [], c)
  | fuel + 1, c =>
    if c.isAt (· = ' ') then breaks fuel c.next
    else if c.isAt isLineBreak then
      let (first, c) := c.lineBreak
      if c.isAtSeparator then (none, c)
      else
        let (more, c) := breaks fuel c
        (more.map (first ++ ·), c)
    else (some [], c)

/-- What the blanks and line breaks ahead stand for between two words, the place after them, and
whether a line has ended. Nothing stands for the end of the scalar. -/
def gap (c : Cursor) : List Char × Cursor × Bool :=
  let (blanks, c) := c.takeWhile (· = ' ')
  if c.isAt isLineBreak then
    let (first, c) := c.lineBreak
    if c.isAtSeparator then ([], c, true)
    else
      match breaks (c.left + 1) c with
      | (some more, c) => (foldBreaks first more, c, true)
      | (none, c) => ([], c, true)
  else (blanks, c, false)

/-- The rest of a scalar, the place after it, and whether it ended with a line. The blanks before the
next word count only if there is one. -/
def body (inBrackets : Bool) (margin : Int) :
    (fuel : Nat) → (pending : List Char) → (lineEnded : Bool) → Cursor → List Char × Cursor × Bool
  | 0, _, lineEnded, c => ([], c, lineEnded)
  | fuel + 1, pending, lineEnded, c =>
    let found := if c.isAt (· = '#') then [] else word inBrackets c.rest
    if found.isEmpty then ([], c, lineEnded)
    else
      let (between, c, lineEnded) := gap (c.skip found.length)
      if between.isEmpty || c.isAt (· = '#') || (!inBrackets && (c.column : Int) < margin) then
        (pending ++ found, c, lineEnded)
      else
        let (more, c, lineEnded) := body inBrackets margin fuel between lineEnded c
        (pending ++ found ++ more, c, lineEnded)

/-- The plain scalar ahead, whose further lines have to be behind the margin. -/
def read (inBrackets : Bool) (margin : Int) (c : Cursor) : List Char × Cursor × Bool :=
  body inBrackets margin (c.left + 1) [] false c

end MusicScore.Yaml.Plain
