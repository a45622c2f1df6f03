import MusicScore.Yaml.Block
import MusicScore.Yaml.Plain
import MusicScore.Yaml.Quoted

/-!
# Tokens

A document is first cut into tokens: the marks of its structure, names, and scalars. Structure that is
only to be seen from margins has tokens of its own, for the start and the end of a collection. This module
reads the tokens that are words by themselves; `Yaml.Token.Lexer` finds the structure.
-/
namespace MusicScore.Yaml

/-- The name of a tag: a handle, which stands for the start of the name, and the rest of it. -/
structure TagName where
  handle : Option (List Char)
  suffix : List Char

/-- A line that says something about the document that follows. -/
inductive Directive where
  | version (major minor : Nat)
  | handle (name start : List Char)
  | other

/-- A token. -/
inductive Token where
  | streamEnd
  | directive (d : Directive)
  | documentStart
  | documentEnd
  | sequenceStart
  | mappingStart
  | blockEnd
  | bracketOpen
  | bracketClose
  | braceOpen
  | braceClose
  | comma
  | entry
  | key
  | value
  | alias (name : List Char)
  | anchor (name : List Char)
  | tag (name : TagName)
  | scalar (text : List Char) (isPlain : Bool)

namespace Token

/-- A character of a name. -/
def isNameChar (c : Char) : Bool :=
  ('0' ≤ c && c ≤ '9') || ('A' ≤ c && c ≤ 'Z') || ('a' ≤ c && c ≤ 'z') || c = '-' || c = '_'

/-- A character that may follow the name of an anchor or an alias. -/
def isAfterName (c : Char) : Bool :=
  isBlankOrBreak c || ['?', ':', ',', ']', '\x7d', '%', '@', '\x60'].contains c

/-- The name of an anchor or an alias, after its mark. -/
def anchorName (c : Cursor) : Except Fault (List Char × Cursor) :=
  let (name, after) := c.next.takeWhile isNameChar
  if !name.isEmpty && after.isAtEndOr isAfterName then .ok (name, after) else .error .yaml

/-- A character of the address of a tag. -/
def isAddressChar (c : Char) : Bool :=
  isNameChar c || [';', '/', '?', ':', '@', '&', '=', '+', '$', ',', '.', '!', '~', '*', '\'', '(', ')',
    '[', ']'].contains c

/-- The bytes that are written as two hexadecimal digits each after a percent sign. -/
def addressBytes : Nat → Cursor → Except Fault (List UInt8 × Cursor)
  | 0, c => .ok ([], c)
  | fuel + 1, c =>
    match c.rest with
    | '%' :: a :: b :: _ =>
      match Text.ofHex? [a, b] with
      | some n => do
        let (more, c) ← addressBytes fuel (c.skip 3)
        return (UInt8.ofNat n :: more, c)
      | none => .error .yaml
    | '%' :: _ => .error .yaml
    | _ => .ok ([], c)

/-- The address of a tag, which is not empty. -/
def address : Nat → Cursor → Except Fault (List Char × Cursor)
  | 0, _ => .error .yaml
  | fuel + 1, c => do
    let (plain, after) := c.takeWhile isAddressChar
    if after.isAt (· = '%') then
      let (bytes, after) ← addressBytes fuel after
      match String.fromUTF8? ⟨bytes.toArray⟩ with
      | none => .error .yaml
      | some text =>
        let escaped := plain ++ text.toList
        if after.isAt fun ch => isAddressChar ch || ch = '%' then
          let (more, after) ← address fuel after
          return (escaped ++ more, after)
        else return (escaped, after)
    else if plain.isEmpty then .error .yaml
    else return (plain, after)

/-- The address ahead. -/
def addressOf (c : Cursor) : Except Fault (List Char × Cursor) := address (c.left + 1) c

/-- The handle of a tag: a mark alone, or a name between two of them. -/
def handle (c : Cursor) : Except Fault (List Char × Cursor) :=
  if c.isAt (· = '!') then
    let c := c.next
    if c.isAt (· = ' ') then .ok (['!'], c)
    else
      let (name, after) := c.takeWhile isNameChar
      if after.isAt (· = '!') then .ok ('!' :: name ++ ['!'], after.next) else .error .yaml
  else .error .yaml

/-- The tag ahead. -/
def tagName (c : Cursor) : Except Fault (TagName × Cursor) := do
  let (name, c) ← match c.peekAt? 1 with
    | some '<' => do
      let (suffix, after) ← addressOf (c.skip 2)
      if after.isAt (· = '>') then pure (TagName.mk none suffix, after.next) else .error .yaml
    | none => pure (TagName.mk none ['!'], c.next)
    | some ch =>
      if isBlankOrBreak ch then pure (TagName.mk none ['!'], c.next)
      else
        let ahead := c.next.rest.takeWhile fun ch => !isSpaceOrBreak ch
        if ahead.contains '!' then do
          let (handle, after) ← handle c
          let (suffix, after) ← addressOf after
          pure (TagName.mk (some handle) suffix, after)
        else do
          let (suffix, after) ← addressOf c.next
          pure (TagName.mk (some ['!']) suffix, after)
  if c.isAtEndOr isSpaceOrBreak then return (name, c) else .error .yaml

/-- The number ahead, of at least one digit. -/
def versionNumber (c : Cursor) : Except Fault (Nat × Cursor) :=
  let (digits, after) := c.takeWhile fun ch => '0' ≤ ch && ch ≤ '9'
  if digits.isEmpty then .error .yaml
  else .ok (digits.foldl (fun n d => 10 * n + (d.toNat - 48)) 0, after)

/-- What a directive says, after its name. -/
def directiveValue (name : List Char) (c : Cursor) : Except Fault (Directive × Cursor) :=
  if name = "YAML".toList then do
    let (major, c) ← versionNumber (c.skipWhile (· = ' '))
    if !c.isAt (· = '.') then .error .yaml
    let (minor, c) ← versionNumber c.next
    if c.isAtEndOr isSpaceOrBreak then return (.version major minor, c) else .error .yaml
  else if name = "TAG".toList then do
    let (handle, c) ← handle (c.skipWhile (· = ' '))
    if !c.isAt (· = ' ') then .error .yaml
    let (start, c) ← addressOf (c.skipWhile (· = ' '))
    if c.isAtEndOr isSpaceOrBreak then return (.handle handle start, c) else .error .yaml
  else .ok (.other, c.skipWhile (!isLineBreak ·))

/-- The directive ahead. -/
def directiveLine (c : Cursor) : Except Fault (Directive × Cursor) := do
  let (name, after) := c.next.takeWhile isNameChar
  if name.isEmpty || !after.isAtEndOr isSpaceOrBreak then .error .yaml
  let (said, after) ← directiveValue name after
  return (said, ← after.restOfLine)

end Token

end MusicScore.Yaml
