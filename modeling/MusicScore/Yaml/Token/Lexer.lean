import MusicScore.Yaml.Token

/-!
# Finding the structure

The lexer reads one token after the other and keeps the margins of the block collections that are open.
A token that begins in a new column opens a collection, and one that begins further left closes those
whose margins it leaves.

A key has no mark of its own when it fits on one line: it is known by the colon after it. So the lexer
remembers where a key may have begun, for each level of brackets, and puts the marks there when the colon
comes. A key that did not get its colon in its line, or within 1024 characters, is forgotten, which is a
fault where only a key can stand.
-/
namespace MusicScore.Yaml

/-- A place where a key may have begun: the number of tokens before it, and where it stands. -/
structure PossibleKey where
  tokenCount : Nat
  isRequired : Bool
  index : Nat
  line : Nat
  column : Nat

/-- What the lexer knows between two tokens. The tokens are kept with the last one first. -/
structure Lexer where
  cursor : Cursor
  tokens : List Token
  tokenCount : Nat
  depth : Nat
  margin : Int
  outer : List Int
  keyMayBegin : Bool
  keys : List (Nat × PossibleKey)

namespace Lexer

/-- The lexer at the start of a document. -/
def start (s : List Char) : Lexer :=
  { cursor := .start s
    tokens := []
    tokenCount := 0
    depth := 0
    margin := -1
    outer := []
    keyMayBegin := true
    keys := [] }

/-- The lexer with one more token. -/
def push (l : Lexer) (t : Token) : Lexer :=
  { l with tokens := t :: l.tokens, tokenCount := l.tokenCount + 1 }

/-- The lexer with a token more after the first `count` ones. -/
def insert (l : Lexer) (count : Nat) (t : Token) : Lexer :=
  let later := l.tokenCount - count
  { l with
    tokens := l.tokens.take later ++ t :: l.tokens.drop later
    tokenCount := l.tokenCount + 1 }

/-- The lexer with a token more, further on in the document. -/
def pushAt (l : Lexer) (t : Token) (c : Cursor) : Lexer := { l.push t with cursor := c }

/-- The longest distance between the start of a key and its colon. -/
def keyReach : Nat := 1024

/-- The key is not in the line of the cursor, or too far away. -/
def isStale (c : Cursor) (k : PossibleKey) : Bool := k.line ≠ c.line || keyReach < c.index - k.index

/-- Forget the keys that did not get their colon in time. -/
def dropStaleKeys (l : Lexer) : Except Fault Lexer :=
  if l.keys.any fun (_, k) => isStale l.cursor k && k.isRequired then .error .yaml
  else .ok { l with keys := l.keys.filter fun (_, k) => !isStale l.cursor k }

/-- Forget the key that may have begun at this level of brackets. -/
def dropKey (l : Lexer) : Except Fault Lexer :=
  match l.keys.lookup l.depth with
  | some k =>
    if k.isRequired then .error .yaml
    else .ok { l with keys := l.keys.filter fun (depth, _) => depth ≠ l.depth }
  | none => .ok l

/-- Remember that a key may begin here. -/
def saveKey (l : Lexer) : Except Fault Lexer :=
  if l.keyMayBegin then do
    let l ← l.dropKey
    let k : PossibleKey :=
      { tokenCount := l.tokenCount
        isRequired := l.depth = 0 && l.margin = l.cursor.column
        index := l.cursor.index
        line := l.cursor.line
        column := l.cursor.column }
    return { l with keys := (l.depth, k) :: l.keys }
  else .ok l

/-- Close the block collections whose margins are beyond a column. -/
def closeTo (column : Int) : List Int → Lexer → Lexer
  | [], l => l
  | outer :: rest, l =>
    if l.depth = 0 && column < l.margin then
      closeTo column rest { l.push .blockEnd with margin := outer, outer := rest }
    else l

/-- The lexer with the block collections beyond a column closed. -/
def unwind (l : Lexer) (column : Int) : Lexer := closeTo column l.outer l

/-- Open a block collection at a column, if there is none with this margin; the token of its start goes
after the first `count` ones. -/
def openAt (l : Lexer) (column : Nat) (count : Nat) (t : Token) : Lexer :=
  if l.margin < column then
    { l.insert count t with margin := column, outer := l.margin :: l.outer }
  else l

/-- The place of the next token: after blanks, comments and, in block context, line breaks, after which
a key may begin. -/
def toNextToken : Nat → Lexer → Lexer
  | 0, l => l
  | fuel + 1, l =>
    let c := l.cursor.skipWhile (· = ' ')
    let c := if c.isAt (· = '#') then c.skipWhile (!isLineBreak ·) else c
    if c.isAt isLineBreak then
      let broken := { l with cursor := c.lineBreak.2 }
      toNextToken fuel (if l.depth = 0 then { broken with keyMayBegin := true } else broken)
    else { l with cursor := c }

/-- The end of the document. -/
def atEnd (l : Lexer) : Except Fault Lexer := do
  let l ← (l.unwind (-1)).dropKey
  return l.push .streamEnd

/-- A directive. -/
def atDirective (l : Lexer) : Except Fault Lexer := do
  let l ← (l.unwind (-1)).dropKey
  let (d, c) ← Token.directiveLine l.cursor
  return { l.pushAt (.directive d) c with keyMayBegin := false }

/-- A mark that separates documents. -/
def atSeparator (l : Lexer) (t : Token) : Except Fault Lexer := do
  let l ← (l.unwind (-1)).dropKey
  return { l.pushAt t (l.cursor.skip 3) with keyMayBegin := false }

/-- An opening bracket. -/
def atOpening (l : Lexer) (t : Token) : Except Fault Lexer := do
  let l ← l.saveKey
  return { l.pushAt t l.cursor.next with depth := l.depth + 1, keyMayBegin := true }

/-- A closing bracket. -/
def atClosing (l : Lexer) (t : Token) : Except Fault Lexer := do
  let l ← l.dropKey
  return { l.pushAt t l.cursor.next with depth := l.depth - 1, keyMayBegin := false }

/-- A comma in brackets. -/
def atComma (l : Lexer) : Except Fault Lexer := do
  let l ← l.dropKey
  return { l.pushAt .comma l.cursor.next with keyMayBegin := true }

/-- The dash of an item. -/
def atEntry (l : Lexer) : Except Fault Lexer := do
  if l.depth = 0 && !l.keyMayBegin then .error .yaml
  let l := if l.depth = 0 then l.openAt l.cursor.column l.tokenCount .sequenceStart else l
  let l ← l.dropKey
  return { l.pushAt .entry l.cursor.next with keyMayBegin := true }

/-- The question mark of a key. -/
def atKey (l : Lexer) : Except Fault Lexer := do
  if l.depth = 0 && !l.keyMayBegin then .error .yaml
  let l := if l.depth = 0 then l.openAt l.cursor.column l.tokenCount .mappingStart else l
  let l ← l.dropKey
  return { l.pushAt .key l.cursor.next with keyMayBegin := l.depth = 0 }

/-- The colon after a key that was remembered. -/
def atColonOf (l : Lexer) (k : PossibleKey) : Lexer :=
  let l := { l with keys := l.keys.filter fun (depth, _) => depth ≠ l.depth }
  let l := l.insert k.tokenCount .key
  let l := if l.depth = 0 then l.openAt k.column k.tokenCount .mappingStart else l
  { l.pushAt .value l.cursor.next with keyMayBegin := false }

/-- The colon of a value. -/
def atColon (l : Lexer) : Except Fault Lexer :=
  match l.keys.lookup l.depth with
  | some k => .ok (l.atColonOf k)
  | none => do
    if l.depth = 0 && !l.keyMayBegin then .error .yaml
    let l := if l.depth = 0 then l.openAt l.cursor.column l.tokenCount .mappingStart else l
    let l ← l.dropKey
    return { l.pushAt .value l.cursor.next with keyMayBegin := l.depth = 0 }

/-- A name. -/
def atName (l : Lexer) (t : List Char → Token) : Except Fault Lexer := do
  let l ← l.saveKey
  let (name, c) ← Token.anchorName l.cursor
  return { l.pushAt (t name) c with keyMayBegin := false }

/-- A tag. -/
def atTag (l : Lexer) : Except Fault Lexer := do
  let l ← l.saveKey
  let (name, c) ← Token.tagName l.cursor
  return { l.pushAt (.tag name) c with keyMayBegin := false }

/-- A block scalar. -/
def atBlockScalar (l : Lexer) (folded : Bool) : Except Fault Lexer := do
  let l ← l.dropKey
  let (text, c) ← Block.read folded l.margin l.cursor
  return { l.pushAt (.scalar text false) c with keyMayBegin := true }

/-- A quoted scalar. -/
def atQuoted (l : Lexer) (double : Bool) : Except Fault Lexer := do
  let l ← l.saveKey
  let (text, c) ← Quoted.read double l.cursor
  return { l.pushAt (.scalar text false) c with keyMayBegin := false }

/-- A plain scalar; a key may begin after it if it ended with its line. -/
def atPlain (l : Lexer) : Except Fault Lexer := do
  let l ← l.saveKey
  let (text, c, lineEnded) := Plain.read (l.depth ≠ 0) (l.margin + 1) l.cursor
  return { l.pushAt (.scalar text true) c with keyMayBegin := lineEnded }

/-- A character that cannot begin a plain scalar by itself. -/
def isIndicator (c : Char) : Bool :=
  isBlankOrBreak c || Style.isLeadingIndicator c || c = '-' || c = '?' || c = ':'

/-- A plain scalar begins with a character, given the next one. -/
def beginsPlain (inBrackets : Bool) (c : Char) (next : Option Char) : Bool :=
  !isIndicator c ||
    (!next.all isBlankOrBreak && (c = '-' || (!inBrackets && (c = '?' || c = ':'))))

/-- Read the token that begins with a character. -/
def readToken (l : Lexer) (ch : Char) : Except Fault Lexer :=
  let c := l.cursor
  let gapNext := (c.peekAt? 1).all isBlankOrBreak
  let inBrackets := l.depth ≠ 0
  if ch = '%' && c.column = 0 then l.atDirective
  else if ch = '-' && c.column = 0 && c.isAtSeparator then l.atSeparator .documentStart
  else if ch = '.' && c.column = 0 && c.isAtSeparator then l.atSeparator .documentEnd
  else if ch = '[' then l.atOpening .bracketOpen
  else if ch = '\x7b' then l.atOpening .braceOpen
  else if ch = ']' then l.atClosing .bracketClose
  else if ch = '\x7d' then l.atClosing .braceClose
  else if ch = ',' then l.atComma
  else if ch = '-' && gapNext then l.atEntry
  else if ch = '?' && (inBrackets || gapNext) then l.atKey
  else if ch = ':' && (inBrackets || gapNext) then l.atColon
  else if ch = '*' then l.atName .alias
  else if ch = '&' then l.atName .anchor
  else if ch = '!' then l.atTag
  else if ch = '|' && !inBrackets then l.atBlockScalar false
  else if ch = '>' && !inBrackets then l.atBlockScalar true
  else if ch = '\'' then l.atQuoted false
  else if ch = '"' then l.atQuoted true
  else if beginsPlain inBrackets ch (c.peekAt? 1) then l.atPlain
  else .error .yaml

/-- Read all tokens that are left. -/
def run : Nat → Lexer → Except Fault (List Token)
  | 0, _ => .error .yaml
  | fuel + 1, l => do
    let l ← (toNextToken (l.cursor.left + 1) l).dropStaleKeys
    let l := l.unwind l.cursor.column
    match l.cursor.peek? with
    | none => return (← l.atEnd).tokens.reverse
    | some ch => run fuel (← l.readToken ch)

end Lexer

/-- A character that a document may hold. -/
def isDocumentChar (c : Char) : Bool :=
  c = '\t' || c = '\n' || c = '\r' || c = '\x85' || (' ' ≤ c && c ≤ '~') ||
    ('\xa0' ≤ c && c.toNat ≠ 0xfffe && c.toNat ≠ 0xffff)

/-- The tokens of a document; a byte order mark at its start is no part of it. -/
def tokens (s : List Char) : Except Fault (List Token) :=
  if s.all isDocumentChar then
    let l := Lexer.start s
    let l := if l.cursor.isAt (· = '\ufeff') then { l with cursor := l.cursor.next } else l
    l.run (s.length + 2)
  else .error .yaml

end MusicScore.Yaml
