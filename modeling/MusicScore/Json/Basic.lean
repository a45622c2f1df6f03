import MusicScore.Fault

/-!
# Texts and depth in JSON

Texts are written in ASCII between quotation marks. Characters outside ASCII are written by number in four
hexadecimal digits, those beyond the first plane as two such numbers, the halves of the character. A half
by itself stands for no whole character, and a text that names one is not read.

Lists and records can stand within one another only so often, both where they are read and where they are
written.
-/
namespace MusicScore.Json

open MusicScore.Text

/-- How often lists and records can stand within one another: the limit of a thousand calls within one another, less
those at work already where a document is read or written, since each takes one call. -/
def deepest : Nat := 980

/-- A fault beyond the deepest level. -/
def checkLevel (level : Nat) : Except Fault Unit := if deepest < level then .error .tooDeep else .ok ()

/-! ## Writing texts -/

/-- A code unit of sixteen bits by its number. -/
def unitEscape (n : Nat) : List Char := '\\' :: 'u' :: hex 4 n

/-- A character by its number; one beyond the first plane as two code units. -/
def numberEscape (c : Char) : List Char :=
  let n := c.toNat
  if n < 0x10000 then unitEscape n
  else
    let offset := n - 0x10000
    unitEscape (0xd800 + offset / 0x400) ++ unitEscape (0xdc00 + offset % 0x400)

/-- A character inside a text. -/
def escape (c : Char) : List Char :=
  if c = '"' || c = '\\' then ['\\', c]
  else if c = '\n' then ['\\', 'n']
  else if c = '\r' then ['\\', 'r']
  else if c = '\t' then ['\\', 't']
  else if c = '\x0c' then ['\\', 'f']
  else if c = '\x08' then ['\\', 'b']
  else if 0x20 ≤ c.toNat ∧ c.toNat < 0x7f then [c]
  else numberEscape c

/-- A text in quotation marks. -/
def quoted (s : List Char) : List Char := '"' :: s.flatMap escape ++ ['"']

/-! ## Reading texts -/

/-- The code unit that four hexadecimal digits spell, and what follows them. -/
def codeUnit? : List Char → Option (Nat × List Char)
  | a :: b :: c :: d :: rest => (ofHex? [a, b, c, d]).map (·, rest)
  | _ => none

/-- The code unit is the first of two. -/
def isHighUnit (n : Nat) : Bool := 0xd800 ≤ n && n < 0xdc00

/-- The code unit is the second of two. -/
def isLowUnit (n : Nat) : Bool := 0xdc00 ≤ n && n < 0xe000

/-- The character of two code units. -/
def joinUnits (high low : Nat) : Char :=
  Char.ofNat (0x10000 + (high - 0xd800) * 0x400 + (low - 0xdc00))

/-- The character written by number, after the letter that announces it. -/
def numbered (s : List Char) : Except Fault (Char × List Char) :=
  match codeUnit? s with
  | none => .error .malformedJson
  | some (unit, rest) =>
    if isHighUnit unit then
      match rest with
      | '\\' :: 'u' :: more =>
        match codeUnit? more with
        | none => .error .malformedJson
        | some (low, after) =>
          if isLowUnit low then .ok (joinUnits unit low, after) else .error .halfInDocument
      | _ => .error .halfInDocument
    else if isLowUnit unit then .error .halfInDocument
    else .ok (Char.ofNat unit, rest)

/-- The character that a letter after a backslash stands for. -/
def letterEscape? (c : Char) : Option Char :=
  if c = '"' || c = '\\' || c = '/' then some c
  else if c = 'b' then some '\x08'
  else if c = 'f' then some '\x0c'
  else if c = 'n' then some '\n'
  else if c = 'r' then some '\r'
  else if c = 't' then some '\t'
  else none

/-- The character that is escaped, after its backslash. -/
def escaped : List Char → Except Fault (Char × List Char)
  | [] => .error .malformedJson
  | 'u' :: rest => numbered rest
  | letter :: rest =>
    match letterEscape? letter with
    | some c => .ok (c, rest)
    | none => .error .malformedJson

/-- The characters of a text up to its closing mark, and what follows the mark. -/
def textBody : Nat → List Char → Except Fault (List Char × List Char)
  | 0, _ => .error .malformedJson
  | _, [] => .error .malformedJson
  | fuel + 1, c :: rest =>
    if c = '"' then .ok ([], rest)
    else if c = '\\' then do
      let (char, after) ← escaped rest
      let (chars, last) ← textBody fuel after
      return (char :: chars, last)
    else if c.toNat < 0x20 then .error .malformedJson
    else do
      let (chars, last) ← textBody fuel rest
      return (c :: chars, last)

/-- A text after its opening mark. -/
def text (fuel : Nat) (s : List Char) : Except Fault (String × List Char) := do
  let (chars, rest) ← textBody fuel s
  return (String.ofList chars, rest)

end MusicScore.Json
