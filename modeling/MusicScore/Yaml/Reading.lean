import MusicScore.Yaml.Draft
import MusicScore.Yaml.Token.Lexer

/-!
# Reading YAML

A document stands for a datum: its scalars for nothing, numbers, texts, bytes and moments, its sequences
for lists and its mappings for records and sets. An empty text stands for nothing.

A value that has an anchor may stand in several places, and then it bears the number of its node as a
mark. Inside of itself it is only named by this mark, so that a datum is finite whatever the document says.
-/
namespace MusicScore.Yaml

/-- The drafts of values, and how often each of them is a part. -/
structure Stock where
  drafts : Array (Option Draft)
  uses : Array Nat

namespace Stock

/-- The stock of some drafts. -/
def ofDrafts (drafts : Array (Option Draft)) : Stock :=
  ⟨drafts, drafts.foldl (fun uses draft =>
    ((draft.map Draft.parts).getD []).foldl (fun uses id => uses.modify id (· + 1)) uses)
    (Array.replicate drafts.size 0)⟩

/-- The mark of a value: there is one where the value is a part more than once, or all of the document
and a part. -/
def mark? (stock : Stock) (root id : NodeId) : Option Nat :=
  if 1 < (stock.uses[id]?).getD 0 + (if id = root then 1 else 0) then some id else none

end Stock

/-- A value that has been found, whether it is free of names for what is around it, and the values that are
known for good. -/
structure Unfolded where
  value : Datum
  isClosed : Bool
  known : Array (Option Datum)

/-- Values that have been found one after another. -/
structure UnfoldedItems where
  values : List Datum
  isClosed : Bool
  known : Array (Option Datum)

namespace Unfolded

/-- Keep a value for good if it names nothing around it. -/
def kept (id : NodeId) (value : Datum) (isClosed : Bool) (known : Array (Option Datum)) : Unfolded :=
  ⟨value, isClosed, if isClosed then known.setIfInBounds id (some value) else known⟩

end Unfolded

/-- Data in neighbouring places as pairs. -/
def inPairs : List Datum → List (Datum × Datum)
  | key :: value :: rest => (key, value) :: inPairs rest
  | _ => []

namespace Stock

/-- The value of a node within others, which are only named where they stand again. A path has each node at
most once. -/
def unfold (stock : Stock) (root : NodeId) :
    Nat → (within : List NodeId) → (known : Array (Option Datum)) → NodeId → Unfolded
  | 0, _, known, id => ⟨.again id, false, known⟩
  | fuel + 1, within, known, id =>
    match (known[id]?).getD none with
    | some value => ⟨value, true, known⟩
    | none =>
      if within.contains id then ⟨.again id, false, known⟩
      else
        match (stock.drafts[id]?).getD none with
        | none => ⟨.nothing, true, known⟩
        | some draft =>
          let mark := stock.mark? root id
          let parts : UnfoldedItems := draft.parts.foldl (fun found part =>
            let next := unfold stock root fuel (id :: within) found.known part
            ⟨next.value :: found.values, found.isClosed && next.isClosed, next.known⟩) ⟨[], true, known⟩
          let values := parts.values.reverse
          let value := match draft with
            | .whole (.moment _ m) => .moment mark m
            | .whole value => value
            | .list _ => .list mark values
            | .record _ => .record mark (inPairs values)
            | .set _ => .set mark values
            | .pairs _ => .list mark ((inPairs values).map fun (key, value) => .pair key value)
          Unfolded.kept id value parts.isClosed parts.known

end Stock

/-- The datum of a document. -/
def Document.value (d : Document) : Except Fault Datum := do
  let stock := Stock.ofDrafts (← d.drafts)
  let size := stock.drafts.size
  return (stock.unfold d.root (size + 1) [] (Array.replicate size none) d.root).value

/-- Read a text as a datum. -/
def read (s : List Char) : Except Fault Datum := do
  match ← Document.ofTokens (← tokens s) with
  | some document => document.value
  | none => return .nothing

end MusicScore.Yaml
