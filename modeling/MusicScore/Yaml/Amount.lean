import MusicScore.Fault
import MusicScore.Number.Double.Reading
import MusicScore.Text.Digit
import MusicScore.Text.Case

/-!
# Amounts in scalars

A whole number may be written in binary, octal, decimal, hexadecimal or sexagesimal places, a binary64
number in decimal or sexagesimal ones. Underscores may stand anywhere and count for nothing. The
characters of a plain scalar have nearly always been found to be an amount before it is read; what was
only said to be one, by a tag, may be refused here.
-/
namespace MusicScore.Yaml.Amount

open MusicScore.Text

/-- The sign of an amount, and the rest without underscores; a fault when there is nothing at all. -/
def signed (s : List Char) : Except Fault (Bool × List Char) :=
  match s.filter (· ≠ '_') with
  | [] => .error .noSuchIndex
  | marked => .ok (IntegerText.takeSign marked)

/-- The value of a digit in a base of at most sixteen. -/
def digitIn? (base : Nat) (c : Char) : Option Nat :=
  let value := match digitValue? c with
    | some d => some d
    | none => hexValue? c
  value.filter (· < base)

/-- The letters that may follow a zero to name the base. -/
def baseLetters : Nat → List Char
  | 2 => ['b', 'B']
  | 8 => ['o', 'O']
  | 16 => ['x', 'X']
  | _ => []

/-- The text without a zero and a letter that name the base. -/
def dropBase (base : Nat) : List Char → List Char
  | '0' :: c :: rest => if (baseLetters base).contains c then rest else '0' :: c :: rest
  | s => s

/-- The whole number that digits in a base spell, with blanks around it. The number of decimal digits
is limited. -/
def wholeIn (base : Nat) (s : List Char) : Except Fault Int :=
  let (negative, body) := IntegerText.takeSign (s.dropWhile IntegerText.isMargin)
  let body := dropBase base body
  let digits := (body.takeWhile fun c => (digitIn? base c).isSome).filterMap (digitIn? base)
  let rest := body.drop digits.length
  if base = 10 && maxDigits < digits.length then .error (.range (.digits digits.length))
  else if digits.isEmpty || !rest.all IntegerText.isMargin then
    .error (.range (.wholeLiteral base (quote (String.ofList s))))
  else .ok (IntegerText.signed negative (digits.foldl (fun total d => base * total + d) 0))

/-- The parts of a text between its colons. -/
def partsOf (s : List Char) : List (List Char) :=
  ((String.ofList s).splitOn ":").map (·.toList)

/-- The number of a magnitude in whatever places. -/
def magnitude (s : List Char) : Except Fault Int :=
  match s with
  | [] => .error .noSuchIndex
  | ['0'] => .ok 0
  | '0' :: 'b' :: rest => wholeIn 2 rest
  | '0' :: 'x' :: rest => wholeIn 16 rest
  | '0' :: _ => wholeIn 8 s
  | _ =>
    if s.contains ':' then do
      return (← (partsOf s).mapM (wholeIn 10)).foldl (fun total part => 60 * total + part) 0
    else wholeIn 10 s

/-- The whole number of a scalar. -/
def whole (s : List Char) : Except Fault Int := do
  let (negative, body) ← signed s
  let n ← magnitude body
  return if negative then -n else n

/-- The binary64 number in decimal places, with blanks around it. -/
def decimal (s : List Char) : Except Fault Double :=
  match Double.read? (trim s) with
  | some x => .ok x
  | none => .error (.range (.floatLiteral (quote (String.ofList s))))

/-- The sum of sexagesimal places, the last place first, each rounded once when it is weighed and once
when it is added. -/
def weigh (weight : Nat) (total : Double) : List Double → Except Fault Double
  | [] => .ok total
  | place :: rest =>
    match Double.ofRat? weight with
    | some w => weigh (60 * weight) (total.add (place.mul w)) rest
    | none => .error .overflow

/-- What bears this mark is not a number and was read from YAML. -/
def nanMark : Nat := 1

/-- The binary64 number of a scalar. -/
def float (s : List Char) : Except Fault Double := do
  let (negative, body) ← signed (small s)
  let x ←
    if body = ".inf".toList then Except.ok (Double.infinite false)
    else if body = ".nan".toList then Except.ok (.nan (some nanMark))
    else if body.contains ':' then do
      weigh 1 (.finite 0) (← (partsOf body).mapM decimal).reverse
    else decimal body
  return if negative then x.neg else x

end MusicScore.Yaml.Amount
