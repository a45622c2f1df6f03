import MusicScore.Number.Rounding
import MusicScore.Text.Digit

/-!
# Templates

A template is a text with one place for a number. The place is marked by a percent sign, and says in what
form the number is written: flags, a least width, a precision and a letter. Two percent signs stand for
one. A star for the width or the precision takes the number for it, and then none is left for a place,
since the number is used once: a template with no place, or with more than one, cannot be filled.
-/
namespace MusicScore.Text

/-- Why a template cannot be read. -/
inductive TemplateFault where
  | incomplete
  | wideField
  | longFraction
  | unknownLetter (letter : Char) (index : Nat)
  deriving DecidableEq

/-- Why a template cannot be filled: it does not have one place, or it cannot be read. -/
inductive Obstacle where
  | wrongCount
  | unreadable (cause : TemplateFault)

namespace TemplateFault

/-- A letter as it is shown; one outside ASCII, or that cannot be seen, is shown as a question mark. -/
def shownLetter (c : Char) : Char := if 31 ≤ c.toNat ∧ c.toNat ≤ 126 then c else '?'

/-- The text of a template that cannot be read. -/
def message : TemplateFault → String
  | incomplete => "incomplete format"
  | wideField => "width too big"
  | longFraction => "precision too big"
  | unknownLetter letter index =>
    "unsupported format character '" ++ String.singleton (shownLetter letter) ++ "' (0x" ++
      String.ofList (hex 1 letter.toNat) ++ ") at index " ++ toString index

end TemplateFault

namespace Template

/-- The form in which a number is written at a place. -/
structure Form where
  toLeft : Bool
  withPlus : Bool
  withBlank : Bool
  alternate : Bool
  withZeros : Bool
  width : Option Nat
  precision : Option Nat

/-- What a number is written as, before it is fitted into its width: sign and base in front, and digits
or letters. -/
structure Piece where
  front : List Char
  body : List Char
  isNumeral : Bool

/-- The piece in its width: filled with zeros after the front, or with blanks at one side. -/
def Form.fit (form : Form) (piece : Piece) : List Char :=
  let text := piece.front ++ piece.body
  let missing := form.width.getD 0 - text.length
  if form.toLeft then text ++ List.replicate missing ' '
  else if form.withZeros && piece.isNumeral then
    piece.front ++ List.replicate missing '0' ++ piece.body
  else List.replicate missing ' ' ++ text

/-- What stands in front of a number that is not negative. -/
def Form.sign (form : Form) : List Char :=
  if form.withPlus then ['+'] else if form.withBlank then [' '] else []

/-- The digits of a number in a base, as many as the precision asks for at least. -/
def Form.whole (form : Form) (mark : List Char) (digits : List Char) : Piece :=
  let missing := form.precision.getD 0 - digits.length
  ⟨form.sign ++ (if form.alternate then mark else []), List.replicate missing '0' ++ digits, true⟩

/-- A number rounded to `places` digits, the first of them not zero, and the power of ten of the first. -/
def significant (places n : Nat) : Nat × Nat :=
  let size := (digitsOf n).length
  if size ≤ places then (n * Nat.pow 10 (places - size), size - 1)
  else
    let rounded := (roundHalfEven (mkRat n (Nat.pow 10 (size - places)))).toNat
    if rounded < Nat.pow 10 places then (rounded, size - 1) else (rounded / 10, size)

/-- The point and the digits after it; the point stands alone only in the alternate form. -/
def Form.fraction (form : Form) (digits : List Char) : List Char :=
  if digits.isEmpty then (if form.alternate then ['.'] else []) else '.' :: digits

/-- Digits without the zeros at the end. -/
def withoutZeros (digits : List Char) : List Char := (digits.reverse.dropWhile (· = '0')).reverse

/-- An exponent of at least two digits. -/
def exponentText (power : Nat) : List Char :=
  let digits := digitsOf power
  'e' :: '+' :: List.replicate (2 - digits.length) '0' ++ digits

/-- A number with an exponent. -/
def Form.scientific (form : Form) (places : Nat) (cut : Bool) (n : Nat) : List Char :=
  let (digits, power) := significant (places + 1) n
  let written := digitsOf digits
  let after := written.drop 1 ++ List.replicate (places + 1 - written.length) '0'
  written.take 1 ++ form.fraction (if cut then withoutZeros after else after) ++ exponentText power

/-- A number with as many places after the point as the precision says. -/
def Form.fixed (form : Form) (places n : Nat) : List Char :=
  digitsOf n ++ form.fraction (List.replicate places '0')

/-- A number in the shorter of both forms. -/
def Form.general (form : Form) (n : Nat) : List Char :=
  let places := (form.precision.getD 6).max 1
  let power := (significant places n).2
  if places ≤ power then form.scientific (places - 1) (!form.alternate) n
  else if form.alternate then form.fixed (places - 1 - power) n
  else form.fixed 0 n

/-- The letter in capitals. -/
def capital (s : List Char) : List Char := s.map Char.toUpper

/-- The number in the form that a letter names. -/
def Form.write? (form : Form) (letter : Char) (n : Nat) : Option Piece :=
  let decimal := digitsOf n
  let places := form.precision.getD 6
  let float := fun (s : List Char) => some (Piece.mk form.sign s true)
  match letter with
  | 'd' | 'i' | 'u' => some (form.whole [] decimal)
  | 'o' => some (form.whole ['0', 'o'] (Nat.toDigits 8 n))
  | 'x' => some (form.whole ['0', 'x'] (Nat.toDigits 16 n))
  | 'X' => some (form.whole ['0', 'X'] (capital (Nat.toDigits 16 n)))
  | 'e' => float (form.scientific places false n)
  | 'E' => float (capital (form.scientific places false n))
  | 'f' | 'F' => float (form.fixed places n)
  | 'g' => float (form.general n)
  | 'G' => float (capital (form.general n))
  | 'c' => some ⟨[], [Char.ofNat n], false⟩
  | 's' | 'r' | 'a' => some ⟨[], decimal.take (form.precision.getD decimal.length), false⟩
  | _ => none

/-- What is left of a template, and whether the number has been used. -/
structure Rest where
  chars : List Char
  isUsed : Bool

/-- Use the number. -/
def Rest.use (r : Rest) : Except Obstacle Rest :=
  if r.isUsed then .error .wrongCount else .ok { r with isUsed := true }

/-- The number that decimal digits of ASCII spell. -/
def numberOf (digits : List Char) : Nat := ofDigits (digits.map fun c => c.toNat - 48)

/-- A decimal digit of ASCII. -/
def isDecimal (c : Char) : Bool := '0' ≤ c && c ≤ '9'

/-- The amount ahead: the number for a star, or that of digits, which has a limit; nothing where there are
no digits. -/
def amount (n limit : Nat) (cause : TemplateFault) (r : Rest) :
    Except Obstacle (Option Nat × Rest) :=
  match r.chars with
  | '*' :: rest => do return (some n, ← { r with chars := rest }.use)
  | _ =>
    let digits := r.chars.takeWhile isDecimal
    if digits.isEmpty then .ok (none, r)
    else if limit < numberOf digits then .error (.unreadable cause)
    else .ok (some (numberOf digits), { r with chars := r.chars.drop digits.length })

/-- The greatest width. -/
def greatestWidth : Nat := 0x7fffffffffffffff

/-- The greatest precision. -/
def greatestPrecision : Nat := 0x7fffffff

/-- The precision ahead, after a point; zero when the point stands alone. -/
def precision (n : Nat) (r : Rest) : Except Obstacle (Option Nat × Rest) :=
  match r.chars with
  | '.' :: rest => do
    let (found, r) ← amount n greatestPrecision .longFraction { r with chars := rest }
    return (some (found.getD 0), r)
  | _ => .ok (none, r)

/-- The text without a letter for the size of a number, which says nothing. -/
def withoutSize : List Char → List Char
  | c :: rest => if c = 'h' || c = 'l' || c = 'L' then rest else c :: rest
  | [] => []

/-- Fill the place whose percent sign has been read, in a template of `size` characters. A name in
parentheses asks for a number of that name, and there is none. -/
def place (size n : Nat) (chars : List Char) (isUsed : Bool) : Except Obstacle (List Char × Rest) := do
  if chars.head? = some '(' then .error .wrongCount
  let flags := chars.takeWhile ['-', '+', ' ', '#', '0'].contains
  let (width, r) ← amount n greatestWidth .wideField ⟨chars.drop flags.length, isUsed⟩
  let (precision, r) ← precision n r
  match withoutSize r.chars with
  | [] => .error (.unreadable .incomplete)
  | letter :: rest =>
    let r ← { r with chars := rest }.use
    let form : Form :=
      { toLeft := flags.contains '-'
        withPlus := flags.contains '+'
        withBlank := flags.contains ' '
        alternate := flags.contains '#'
        withZeros := flags.contains '0'
        width := width
        precision := precision }
    match form.write? letter n with
    | some piece => return (form.fit piece, r)
    | none => .error (.unreadable (.unknownLetter letter (size - rest.length - 1)))

/-- Fill the places that are left. The fuel is the number of characters. -/
def fillFrom (size n : Nat) : (fuel : Nat) → List Char → (isUsed : Bool) → Except Obstacle (List Char)
  | _, [], isUsed => if isUsed then .ok [] else .error .wrongCount
  | 0, _ :: _, _ => .error .wrongCount
  | fuel + 1, c :: rest, isUsed =>
    if c = '%' then
      match rest with
      | '%' :: rest => do return '%' :: (← fillFrom size n fuel rest isUsed)
      | _ => do
        let (text, r) ← place size n rest isUsed
        return text ++ (← fillFrom size n fuel r.chars r.isUsed)
    else do return c :: (← fillFrom size n fuel rest isUsed)

/-- The template with the number at its place. -/
def fill (template : List Char) (n : Nat) : Except Obstacle (List Char) :=
  fillFrom template.length n template.length template false

end Template

end MusicScore.Text
