import MusicScore.Datum.Order
import MusicScore.Json.Basic
import MusicScore.Number.Double.Reading

/-!
# Reading JSON

A text is read as one value with blanks around it. Whole numbers are read exactly, all others as
binary64 numbers; three names stand for the binary64 numbers that JSON has no form for, and what is not a
number is one and the same thing wherever it is read. Of fields with the same key the last one counts, in
the place of the first. What is not JSON is refused, without saying where.

The reader takes what it needs from the front of a text and leaves the rest. It is bounded by the length
of the text, since no two steps in a row leave it as it is.
-/
namespace MusicScore.Json

open MusicScore.Text

/-- A blank between values. -/
def isSpace (c : Char) : Bool := c = ' ' || c = '\t' || c = '\n' || c = '\r'

/-- The text without the blanks at its front. -/
def skipSpace (s : List Char) : List Char := s.dropWhile isSpace

/-- The digits of a whole number: a zero alone, or digits that do not start with one. -/
def wholeDigits (s : List Char) : List Nat × List Char :=
  match s with
  | '0' :: rest => ([0], rest)
  | _ => Double.asciiDigits s

/-- The digits of a fractional part, if there is one. -/
def fraction? : List Char → Option (List Nat × List Char)
  | '.' :: rest =>
    match Double.asciiDigits rest with
    | ([], _) => none
    | found => some found
  | _ => none

/-- The exponent, if there is one. -/
def exponent? : List Char → Option (Int × List Char)
  | c :: rest => if c = 'e' || c = 'E' then Double.exponentAfterMark? rest else none
  | [] => none

/-- A number after its sign. It is whole when it has neither fractional part nor exponent. -/
def unsignedNumber (negative : Bool) (s : List Char) : Except Fault (Number × List Char) :=
  match wholeDigits s with
  | ([], _) => .error .malformedJson
  | (whole, rest) =>
    let part := fraction? rest
    let (digits, afterPart) := part.getD ([], rest)
    let power := exponent? afterPart
    let (shift, last) := power.getD (0, afterPart)
    if part.isNone && power.isNone then
      if whole.length ≤ maxDigits then
        .ok (.ofInt (IntegerText.signed negative (ofDigits whole)), rest)
      else .error (.range (.digits whole.length))
    else
      .ok (.float (Double.ofDecimal negative (ofDigits (whole ++ digits)) (shift - digits.length)),
        last)

/-- What bears this mark is not a number and was read from JSON. -/
def nanMark : Nat := 0

/-- The words that stand for values. -/
def words : List (String × Datum) :=
  [("null", .nothing), ("true", .ofBool true), ("false", .ofBool false),
    ("NaN", .number (.float (.nan (some nanMark)))), ("Infinity", .number (.float (.infinite false))),
    ("-Infinity", .number (.float (.infinite true)))]

/-- The word at the front of a text, and what follows it. -/
def word? (s : List Char) : Option (Datum × List Char) :=
  match words.find? fun word => word.1.toList.isPrefixOf s with
  | some (name, value) => some (value, s.drop name.length)
  | none => none

/-- A value without parts: a word or a number. -/
def atom (s : List Char) : Except Fault (Datum × List Char) :=
  match word? s with
  | some found => .ok found
  | none => do
    let (n, rest) ← match s with
      | '-' :: rest => unsignedNumber true rest
      | _ => unsignedNumber false s
    return (.number n, rest)

mutual

/-- A value that begins at the front of a text, at a level. -/
def value : (fuel level : Nat) → List Char → Except Fault (Datum × List Char)
  | 0, _, _ => .error .malformedJson
  | fuel + 1, level, s =>
    if deepest < level then .error .tooDeep
    else
      match s with
      | '"' :: rest => do
        let (chars, rest) ← text fuel rest
        return (.text chars, rest)
      | '[' :: rest =>
        match skipSpace rest with
        | ']' :: rest => .ok (.ofList [], rest)
        | rest => do
          let (items, rest) ← items fuel (level + 1) rest
          return (.ofList items, rest)
      | '\x7b' :: rest =>
        match skipSpace rest with
        | '\x7d' :: rest => .ok (.ofFields [], rest)
        | rest => do
          let (fields, rest) ← fields fuel (level + 1) rest
          return (.ofFields (Datum.distinctFields fields), rest)
      | _ => atom s

/-- The items of a list up to its closing bracket. -/
def items : (fuel level : Nat) → List Char → Except Fault (List Datum × List Char)
  | 0, _, _ => .error .malformedJson
  | fuel + 1, level, s => do
    let (item, rest) ← value fuel level s
    match skipSpace rest with
    | ']' :: rest => return ([item], rest)
    | ',' :: rest =>
      let (more, rest) ← items fuel level (skipSpace rest)
      return (item :: more, rest)
    | _ => .error .malformedJson

/-- The fields of a record up to its closing bracket. -/
def fields : (fuel level : Nat) → List Char → Except Fault (List (Datum × Datum) × List Char)
  | 0, _, _ => .error .malformedJson
  | fuel + 1, level, s =>
    match s with
    | '"' :: rest => do
      let (name, rest) ← text fuel rest
      match skipSpace rest with
      | ':' :: rest =>
        let (item, rest) ← value fuel level (skipSpace rest)
        match skipSpace rest with
        | '\x7d' :: rest => return ([(.text name, item)], rest)
        | ',' :: rest =>
          let (more, rest) ← fields fuel level (skipSpace rest)
          return ((.text name, item) :: more, rest)
        | _ => .error .malformedJson
      | _ => .error .malformedJson
    | _ => .error .malformedJson

end

/-- Read a text as a datum. -/
def read (s : List Char) : Except Fault Datum := do
  let (result, rest) ← value (2 * s.length + 2) 0 (skipSpace s)
  match skipSpace rest with
  | [] => return result
  | _ => .error .malformedJson

end MusicScore.Json
