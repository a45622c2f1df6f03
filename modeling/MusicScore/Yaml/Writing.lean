import MusicScore.Yaml.Written

/-!
# Writing YAML

Data are written in block form: the fields of a record and the items of a list each on a line of their
own, behind a margin that grows with the depth. Only what is empty is written in brackets. The items of
a list that is the value of a field stand at the margin of the field itself. A field whose key is empty,
too long or has several lines is written with its key behind a question mark.

An anchor and a tag stand before their node. What has parts then begins on the next line, since no
item or field follows them on theirs.
-/
namespace MusicScore.Yaml

/-- How far a margin grows with each level. -/
def step : Nat := 2

/-- A line break and a margin; there is no second break after a text that ends with one. -/
def breakAfter (text : List Char) (margin : Nat) : List Char :=
  if text.getLast? = some '\n' then List.replicate margin ' ' else Folding.nextLine margin

/-- Entries on lines of their own behind a margin. -/
def lines (margin : Nat) : List (List Char) → List Char
  | [] => []
  | [entry] => entry
  | entry :: rest => entry ++ breakAfter entry margin ++ lines margin rest

/-- The name of an anchor: its number in at least three digits. -/
def anchorName (anchor : Nat) : List Char :=
  let digits := Text.digitsOf anchor
  'i' :: 'd' :: List.replicate (3 - digits.length) '0' ++ digits

/-- The anchor and the tag before a node, each with a blank after it. -/
def properties (anchor? : Option Nat) (tag? : Option String) : List Char :=
  (match anchor? with
    | some anchor => '&' :: anchorName anchor ++ [' ']
    | none => []) ++
  match tag? with
  | some tag => tag.toList ++ [' ']
  | none => []

/-- Anchor and tag at the end of a line. -/
def lineEnd (properties : List Char) : List Char := properties.dropLast

namespace Written

/-- The length from which a key does not fit before its colon. -/
def keyLimit : Nat := 128

/-- The node can be a key on one line, before its colon. -/
def isSimpleKey : Written → Bool
  | named _ => true
  | scalar anchor? s =>
    let anchorLength := (anchor?.map fun anchor => (anchorName anchor).length).getD 0
    !s.text.isEmpty && !Style.isMultiline s.text &&
      anchorLength + s.tagLength + s.text.length < keyLimit
  | _ => false

/-- The text of a scalar, with an anchor and a tag, from a column on. -/
def scalarText (anchor? : Option Nat) (s : Scalar) (place : Place) : List Char :=
  let before := properties anchor? s.tag?
  before ++ s.style.write { place with column := place.column + before.length } s.text

/-- The text of a key. -/
def keyText (place : Place) : Written → List Char
  | named anchor => '*' :: anchorName anchor
  | scalar anchor? s => scalarText anchor? s place
  | _ => []

mutual

/-- The text of a node that begins right after the mark of an item or of a long key. A list with an anchor
that is the value of a field stands at the margin of the field. -/
def nodeText (isItem : Bool) (margin : Nat) : Written → List Char
  | named anchor => '*' :: anchorName anchor
  | scalar anchor? s => scalarText anchor? s ⟨margin + step, margin + step, true⟩
  | list anchor? [] => properties anchor? none ++ ['[', ']']
  | list none items => lines (margin + step) (itemTexts (margin + step) items)
  | list anchor? items =>
    let margin := if isItem then margin + step else margin
    lineEnd (properties anchor? none) ++ Folding.nextLine margin ++ lines margin (itemTexts margin items)
  | record anchor? tag? [] => properties anchor? tag? ++ ['\x7b', '\x7d']
  | record anchor? tag? fields =>
    let before := properties anchor? tag?
    (if before.isEmpty then [] else lineEnd before ++ Folding.nextLine (margin + step)) ++
      lines (margin + step) (fieldTexts (margin + step) fields)

/-- The text of a node after the colon of a key that ends before a column. -/
def valueText (margin column : Nat) : Written → List Char
  | named anchor => ' ' :: '*' :: anchorName anchor
  | scalar anchor? s => ' ' :: scalarText anchor? s ⟨column + 1, margin + step, true⟩
  | list anchor? [] => ' ' :: properties anchor? none ++ ['[', ']']
  | list anchor? items =>
    lineEnd (' ' :: properties anchor? none) ++ Folding.nextLine margin ++
      lines margin (itemTexts margin items)
  | record anchor? tag? [] => ' ' :: properties anchor? tag? ++ ['\x7b', '\x7d']
  | record anchor? tag? fields =>
    lineEnd (' ' :: properties anchor? tag?) ++ Folding.nextLine (margin + step) ++
      lines (margin + step) (fieldTexts (margin + step) fields)

/-- The texts of the items of a list. -/
def itemTexts (margin : Nat) : List Written → List (List Char)
  | [] => []
  | item :: rest => ('-' :: ' ' :: nodeText true margin item) :: itemTexts margin rest

/-- The texts of the fields of a record. -/
def fieldTexts (margin : Nat) : List (Written × Written) → List (List Char)
  | [] => []
  | (key, value) :: rest =>
    let text :=
      if key.isSimpleKey then
        let before := key.keyText ⟨margin, margin + step, false⟩
        before ++ ':' :: valueText margin (margin + before.length + 1) value
      else
        let before := key.keyText ⟨margin + step, margin + step, true⟩
        '?' :: ' ' :: before ++ breakAfter before margin ++ ':' :: ' ' :: nodeText false margin value
    text :: fieldTexts margin rest

end

/-- The mark of the end of a document. -/
def endMark : List Char := "...\n".toList

/-- The document of a node. A plain scalar that is the whole document is followed by the mark of its end. -/
def document : Written → List Char
  | named anchor => '*' :: anchorName anchor ++ ['\n']
  | scalar anchor? s =>
    let text := scalarText anchor? s ⟨0, step, true⟩
    text ++ breakAfter text 0 ++ if s.style = .plain then endMark else []
  | list anchor? items =>
    let before := properties anchor? none
    if items.isEmpty then before ++ ['[', ']', '\n']
    else
      let text := lines 0 (itemTexts 0 items)
      (if before.isEmpty then [] else lineEnd before ++ ['\n']) ++ text ++ breakAfter text 0
  | record anchor? tag? fields =>
    let before := properties anchor? tag?
    if fields.isEmpty then before ++ ['\x7b', '\x7d', '\n']
    else
      let text := lines 0 (fieldTexts 0 fields)
      (if before.isEmpty then [] else lineEnd before ++ ['\n']) ++ text ++ breakAfter text 0

end Written

/-- The document of a datum. -/
def write (d : Datum) : Except Fault (List Char) := do return (← Written.ofDatum d).document

end MusicScore.Yaml
