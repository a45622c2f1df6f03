import MusicScore.Yaml.Kind

/-!
# Styles of scalars

A text can be written plain, in single quotation marks or in double ones. Plain text must not begin or
end with a blank, break a line, look like a piece of structure, or stand for a value of another kind.
Single marks hold any text whose characters can be shown, except that no line may begin or end with a
blank. Double marks hold every text, with escapes. The first style that a text admits is taken. Bytes are
written as whole lines behind a margin.
-/
namespace MusicScore.Yaml

/-- How a scalar is written. -/
inductive Style where
  | plain
  | single
  | double
  | literal
  deriving DecidableEq

namespace Style

/-- A character that ends a line. -/
def isBreak (c : Char) : Bool :=
  c = '\n' || c = '\x85' || c = '\u2028' || c = '\u2029'

/-- A character after which a word begins. -/
def isGap (c : Char) : Bool :=
  c = ' ' || c = '\t' || c = '\r' || c = '\x00' || isBreak c

/-- The text ends or goes on with a gap. -/
def gapFollows (rest : List Char) : Bool := rest.head?.all isGap

/-- The character can be written as it is. -/
def isShown (c : Char) : Bool := c = '\n' || (' ' ≤ c && c ≤ '~')

/-- A character that begins a piece of structure when it comes first. -/
def isLeadingIndicator (c : Char) : Bool :=
  ['#', ',', '[', ']', '\x7b', '\x7d', '&', '*', '!', '|', '>', '\'', '"', '%', '@', '\x60'].contains c

/-- The text looks like a piece of structure at its first character. -/
def beginsAsStructure : List Char → Bool
  | '-' :: '-' :: '-' :: _ => true
  | '.' :: '.' :: '.' :: _ => true
  | c :: rest =>
    isLeadingIndicator c || ((c = '?' || c = ':' || c = '-') && gapFollows rest)
  | [] => false

/-- The text holds a piece of structure after its first character, given the character before. -/
def holdsStructure (previous : Char) : List Char → Bool
  | [] => false
  | c :: rest =>
    (c = ':' && gapFollows rest) || (c = '#' && isGap previous) || holdsStructure c rest

/-- The text looks like a piece of structure. -/
def looksLikeStructure (s : List Char) : Bool :=
  match s with
  | [] => false
  | c :: rest => beginsAsStructure s || holdsStructure c rest

/-- Two neighbours of the text, in order, pass a test. -/
def someNeighbours (test : Char → Char → Bool) : List Char → Bool
  | a :: b :: rest => test a b || someNeighbours test (b :: rest)
  | _ => false

/-- The text has more than one line. -/
def isMultiline (s : List Char) : Bool := s.any isBreak

/-- The text begins or ends with a blank or a line break. -/
def hasBlankEnds (s : List Char) : Bool :=
  [s.head?, s.getLast?].any fun end? => end?.any fun c => c = ' ' || isBreak c

/-- The text may be written plain, wherever its kind allows it. -/
def admitsPlain (s : List Char) : Bool :=
  s.isEmpty ||
    !(hasBlankEnds s || isMultiline s || looksLikeStructure s || s.any fun c => !isShown c)

/-- The text may be written in single marks. -/
def admitsSingle (s : List Char) : Bool :=
  !(s.any (fun c => !isShown c) || someNeighbours (fun a b => a = ' ' && isBreak b) s ||
    someNeighbours (fun a b => isBreak a && b = ' ') s)

/-- The style of a text. -/
def ofText (s : List Char) : Style :=
  if Kind.ofPlain s = .text && admitsPlain s then plain
  else if admitsSingle s then single
  else double

end Style

end MusicScore.Yaml
