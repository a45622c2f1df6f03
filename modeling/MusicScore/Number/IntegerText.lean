import MusicScore.Text.CharClass
import MusicScore.Text.Digit

/-!
# Whole numbers in text

A whole number is written as an optional sign and decimal digits of any script. One underscore may
stand between two digits, and blanks may stand around the number; the four information separators are
no blanks here. A number of more than `Text.maxDigits` digits is refused.
-/
namespace MusicScore.IntegerText

open MusicScore.Text

/-- A blank that may stand beside a whole number. -/
def isMargin (c : Char) : Bool := isBlank c && !(0x1c ≤ c.toNat && c.toNat ≤ 0x1f)

/-- The sign at the front of a text, and what follows it: `true` for a minus. -/
def takeSign : List Char → Bool × List Char
  | '-' :: rest => (true, rest)
  | '+' :: rest => (false, rest)
  | rest => (false, rest)

/-- The digits that go on a group of digits, each with at most one underscore before it. -/
def moreDigits : List Char → List Nat × List Char
  | [] => ([], [])
  | '_' :: c :: rest =>
    match digitValue? c with
    | some d => let more := moreDigits rest; (d :: more.1, more.2)
    | none => ([], '_' :: c :: rest)
  | c :: rest =>
    match digitValue? c with
    | some d => let more := moreDigits rest; (d :: more.1, more.2)
    | none => ([], c :: rest)

/-- The longest group of digits at the front of a text. -/
def digitGroup? : List Char → Option (List Nat × List Char)
  | [] => none
  | c :: rest =>
    (digitValue? c).map fun d => let more := moreDigits rest; (d :: more.1, more.2)

/-- A number with its sign. -/
def signed (negative : Bool) (n : Nat) : Int := if negative then -(n : Int) else n

/-- Read a whole number. -/
def read? (s : List Char) : Option Int :=
  let (negative, body) := takeSign (s.dropWhile isMargin)
  match digitGroup? body with
  | some (digits, rest) =>
    if digits.length ≤ maxDigits && rest.all isMargin then some (signed negative (ofDigits digits))
    else none
  | none => none

/-- Write a whole number. -/
def write (n : Int) : List Char :=
  if n < 0 then '-' :: digitsOf n.natAbs else digitsOf n.natAbs

/-- The text of a whole number that is known to be short. -/
def text (n : Int) : String := String.ofList (write n)

end MusicScore.IntegerText
