/-!
# Patterns of text

A pattern is a regular expression over characters. A text matches when, character by character, the
pattern of what may still follow is taken, and what is left in the end admits the empty text.
-/
namespace MusicScore.Text

/-- A set of texts. -/
inductive Pattern where
  | nothing
  | empty
  | oneOf (ranges : List (Char × Char))
  | followed (first second : Pattern)
  | either (first second : Pattern)
  | repeated (item : Pattern)
  deriving DecidableEq

namespace Pattern

/-- The pattern admits the empty text. -/
def admitsEmpty : Pattern → Bool
  | nothing => false
  | empty => true
  | oneOf _ => false
  | followed a b => a.admitsEmpty && b.admitsEmpty
  | either a b => a.admitsEmpty || b.admitsEmpty
  | repeated _ => true

/-- One pattern after another; simpler when one of them admits nothing or only the empty text. -/
def join (a b : Pattern) : Pattern :=
  if a = nothing ∨ b = nothing then nothing
  else if a = empty then b
  else if b = empty then a
  else followed a b

/-- Either pattern; simpler when one of them admits nothing, or when they are the same. -/
def choose (a b : Pattern) : Pattern :=
  if a = nothing then b else if b = nothing ∨ a = b then a else either a b

/-- The pattern of what may follow a character. -/
def after (c : Char) : Pattern → Pattern
  | nothing => nothing
  | empty => nothing
  | oneOf ranges => if ranges.any fun (first, last) => first ≤ c && c ≤ last then empty else nothing
  | followed a b =>
    let through := join (a.after c) b
    if a.admitsEmpty then choose through (b.after c) else through
  | either a b => choose (a.after c) (b.after c)
  | repeated a => join (a.after c) (repeated a)

/-- The text matches the pattern. -/
def admits (p : Pattern) (s : List Char) : Bool :=
  (s.foldl (fun left c => left.after c) p).admitsEmpty

/-- One of some single characters. -/
def chars (choices : List Char) : Pattern := oneOf (choices.map fun c => (c, c))

/-- A word. -/
def word (letters : List Char) : Pattern :=
  letters.foldr (fun c rest => join (chars [c]) rest) empty

/-- One of some words. -/
def words (choices : List String) : Pattern :=
  choices.foldr (fun s rest => choose (word s.toList) rest) nothing

/-- Patterns one after the other. -/
def all (items : List Pattern) : Pattern := items.foldr join empty

/-- One of some patterns. -/
def any (choices : List Pattern) : Pattern := choices.foldr choose nothing

/-- The pattern or nothing at all. -/
def optional (p : Pattern) : Pattern := choose empty p

/-- The pattern once or more often. -/
def atLeastOnce (p : Pattern) : Pattern := join p (repeated p)

end Pattern

end MusicScore.Text
