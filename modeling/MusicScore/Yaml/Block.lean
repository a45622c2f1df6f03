import MusicScore.Yaml.Cursor

/-!
# Reading block scalars

A block scalar is the text of whole lines behind a margin, which is given by a digit or found at the first
line that is not empty. A literal scalar keeps its line breaks. A folded one reads a single break
between two lines that begin without a blank as one blank. The breaks at its end are kept, cut to one or
left out, as its header says.
-/
namespace MusicScore.Yaml.Block

/-- What becomes of the line breaks at the end. -/
inductive Chomping where
  | strip
  | clip
  | keep
  deriving DecidableEq

/-- The sign for the breaks at the end. -/
def chomping? (c : Cursor) : Option Chomping :=
  match c.peek? with
  | some '+' => some .keep
  | some '-' => some .strip
  | _ => none

/-- The digit for the margin. -/
def digit? (c : Cursor) : Option Nat :=
  match c.peek? with
  | some d => if '0' ≤ d ∧ d ≤ '9' then some (d.toNat - 48) else none
  | none => none

/-- The digit for the margin ahead, if there is one; zero is no margin. -/
def increment (c : Cursor) : Except Fault (Option Nat × Cursor) :=
  match digit? c with
  | some 0 => .error .yaml
  | some n => .ok (some n, c.next)
  | none => .ok (none, c)

/-- The header: a sign and a digit in either order, each of which may be missing. -/
def header (c : Cursor) : Except Fault (Chomping × Option Nat × Cursor) := do
  let (chomping, width, c) ← match chomping? c with
    | some chomping => do
      let (width, c) ← increment c.next
      pure (chomping, width, c)
    | none => do
      let (width, c) ← increment c
      match width, chomping? c with
      | some width, some chomping => pure (chomping, some width, c.next)
      | width, _ => pure (Chomping.clip, width, c)
  if c.isAtEndOr isSpaceOrBreak then return (chomping, width, ← c.restOfLine) else .error .yaml

/-- The empty lines ahead and the width of the widest run of blanks in front of a line. -/
def findMargin : (fuel : Nat) → (widest : Nat) → Cursor → List Char × Nat × Cursor
  | 0, widest, c => ([], widest, c)
  | fuel + 1, widest, c =>
    if c.isAt (· = ' ') then
      let c := c.next
      findMargin fuel (max widest c.column) c
    else if c.isAt isLineBreak then
      let (first, c) := c.lineBreak
      let (more, widest, c) := findMargin fuel widest c
      (first ++ more, widest, c)
    else ([], widest, c)

/-- The place after at most so many blanks that the column is that of the margin. -/
def skipMargin (margin : Nat) (c : Cursor) : Cursor :=
  c.skip (min (margin - c.column) (c.rest.takeWhile (· = ' ')).length)

/-- The empty lines ahead. -/
def emptyLines (margin : Nat) : (fuel : Nat) → Cursor → List Char × Cursor
  | 0, c => ([], c)
  | fuel + 1, c =>
    let c := skipMargin margin c
    if c.isAt isLineBreak then
      let (first, c) := c.lineBreak
      let (more, c) := emptyLines margin fuel c
      (first ++ more, c)
    else ([], c)

/-- The lines from the first one that is not empty, after the given line breaks. -/
def body (folded : Bool) (chomping : Chomping) (margin : Nat) :
    (fuel : Nat) → (before : List Char) → Cursor → List Char × Cursor
  | 0, _, c => ([], c)
  | fuel + 1, before, c =>
    let solid := !c.isAt fun ch => ch = ' ' || ch = '\t'
    let (line, c) := c.takeWhile (!isLineBreak ·)
    let (lineEnd, c) := c.lineBreak
    let (after, c) := emptyLines margin (c.left + 1) c
    if c.column = margin && c.peek?.isSome then
      let joined := folded && lineEnd = ['\n'] && solid && !c.isAt fun ch => ch = ' ' || ch = '\t'
      let between := if joined then (if after.isEmpty then [' '] else []) else lineEnd
      let (more, c) := body folded chomping margin fuel after c
      (before ++ line ++ between ++ more, c)
    else
      let tail := match chomping with
        | .strip => []
        | .clip => lineEnd
        | .keep => lineEnd ++ after
      (before ++ line ++ tail, c)

/-- The block scalar ahead, in a collection with the given margin. -/
def read (folded : Bool) (outer : Int) (c : Cursor) : Except Fault (List Char × Cursor) := do
  let (chomping, width, c) ← header c.next
  let least := max (outer + 1) 1
  let fuel := c.left + 1
  let (before, margin, c) := match width with
    | some width =>
      let margin := (least + width - 1).toNat
      let (before, c) := emptyLines margin fuel c
      (before, margin, c)
    | none =>
      let (before, widest, c) := findMargin fuel 0 c
      (before, max least.toNat widest, c)
  if c.column = margin && c.peek?.isSome then return body folded chomping margin fuel before c
  else return (if chomping = .keep then before else [], c)

end MusicScore.Yaml.Block
