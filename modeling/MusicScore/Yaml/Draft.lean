import MusicScore.Datum.Order
import MusicScore.Text.Base64
import MusicScore.Yaml.Amount
import MusicScore.Yaml.Merging
import MusicScore.Yaml.Time

/-!
# Drafts of values

The values of a document are put together from the outside in. A value without parts is made at once. A
list, a record or a set is first made empty and waits until the values before it have got their parts; so
a value may even be a part of itself, and of two faults the one that is less deep is found first.

Of fields with equal keys the last value counts, in the place of the first. Only a value that cannot
change may be a key: those are the ones without parts.
-/
namespace MusicScore.Yaml

/-- A value that is put together: one without parts, or the numbers of the parts that it has so far. -/
inductive Draft where
  | whole (value : Datum)
  | list (items : List NodeId)
  | record (fields : List (NodeId × NodeId))
  | set (members : List NodeId)
  | pairs (entries : List (NodeId × NodeId))

namespace Draft

/-- The empty draft of a kind whose values have parts. -/
def empty? : Kind → Option Draft
  | .sequence => some (list [])
  | .mapping => some (record [])
  | .members => some (set [])
  | .pairs => some (pairs [])
  | _ => none

/-- The numbers of the parts. -/
def parts : Draft → List NodeId
  | whole _ => []
  | list items => items
  | record fields => fields.flatMap fun (key, value) => [key, value]
  | set members => members
  | pairs entries => entries.flatMap fun (key, value) => [key, value]

end Draft

/-- The truth value that a word stands for, in letters of either case. -/
def truthOf (s : List Char) : Except Fault Bool :=
  let word := String.ofList (Text.small s)
  if Kind.yesWords.contains word then .ok true
  else if Kind.noWords.contains word then .ok false
  else .error (.missingField word)

/-- The bytes that a text spells. -/
def bytesOf (s : List Char) : Except Fault (List UInt8) :=
  if s.any fun c => 127 < c.toNat then .error .yaml
  else
    match Text.Base64.decode s with
    | some bytes => .ok bytes
    | none => .error .yaml

namespace Nodes

/-- The text of a scalar, or that of the standard value of a mapping. -/
def text (nodes : Nodes) : Nat → NodeId → Except Fault (List Char)
  | 0, _ => .error .tooDeep
  | fuel + 1, id =>
    match nodes[id]? with
    | some ⟨_, .scalar s⟩ => .ok s
    | some ⟨_, .mapping fields⟩ =>
      match fields.find? fun field => nodes.kind? field.1 = some .standard with
      | some (_, value) => text nodes fuel value
      | none => .error .yaml
    | _ => .error .yaml

/-- The value of a node of a kind whose values have no parts. The signs with a meaning of their own are no
values. -/
def value (nodes : Nodes) (kind : Kind) (id : NodeId) : Except Fault Datum := do
  let s := nodes.text (nodes.size + 1) id
  match kind with
  | .nothing => let _ ← s; return .nothing
  | .truth => return .ofBool (← truthOf (← s))
  | .whole => return .ofInt (← Amount.whole (← s))
  | .float => return .number (.float (← Amount.float (← s)))
  | .text => return .text (String.ofList (← s))
  | .bytes => return .bytes (← bytesOf (← s))
  | .time =>
    let s ← s
    if (nodes.fields? id).isSome then .error .wrongKind
    return .moment none (← Time.read s)
  | _ => .error .yaml

end Nodes

/-- What is known while values are put together: the nodes, the drafts of those that have been begun, and
the ones that wait for their parts, the newest first. -/
structure Drafts where
  nodes : Nodes
  made : Array (Option Draft)
  waiting : List NodeId

namespace Drafts

/-- The draft of a node that has been begun. -/
def draft? (s : Drafts) (id : NodeId) : Option Draft := (s.made[id]?).getD none

/-- Set the draft of a node. -/
def put (s : Drafts) (id : NodeId) (draft : Draft) : Drafts :=
  { s with made := s.made.setIfInBounds id (some draft) }

/-- Let a node wait for its parts. -/
def await (s : Drafts) (id : NodeId) : Drafts := { s with waiting := id :: s.waiting }

/-- Begin the value of a node, unless that has been done. -/
def start (s : Drafts) (id : NodeId) : Except Fault Drafts :=
  if (s.draft? id).isSome then .ok s
  else
    match s.nodes.kind? id with
    | none => .error .yaml
    | some kind =>
      match Draft.empty? kind with
      | some draft => .ok ((s.put id draft).await id)
      | none => do return s.put id (.whole (← s.nodes.value kind id))

/-- The value of a key that has been begun. -/
def key (s : Drafts) (id : NodeId) : Except Fault Datum :=
  match s.draft? id with
  | some (.whole value) => .ok value
  | _ => .error .yaml

/-- Set a field, in the place of one with an equal key or at the end. -/
def setField (name : NodeId) (key : Datum) (value : NodeId) :
    List (NodeId × Datum × NodeId) → List (NodeId × Datum × NodeId)
  | [] => [(name, key, value)]
  | (other, otherKey, old) :: rest =>
    if otherKey.alike key then (other, otherKey, value) :: rest
    else (other, otherKey, old) :: setField name key value rest

/-- The fields of a mapping, their keys and values begun. -/
def fields (limit : Nat) (s : Drafts) (id : NodeId) :
    Except Fault (List (NodeId × NodeId) × Drafts) := do
  if (s.nodes.fields? id).isNone then .error .yaml
  let s := { s with nodes := ← s.nodes.mergeFrom limit [] id }
  let (found, s) ← ((s.nodes.fields? id).getD []).foldlM (fun (found, s) (name, value) => do
    let s ← s.start name
    let key ← s.key name
    let s ← s.start value
    return (setField name key value found, s)) (([] : List (NodeId × Datum × NodeId)), s)
  return (found.map fun (name, _, value) => (name, value), s)

/-- The entries of a sequence of pairs: each is a mapping of one field. -/
def entries (s : Drafts) (items : List NodeId) : Except Fault (List (NodeId × NodeId) × Drafts) :=
  items.foldlM (fun (found, s) item => do
    match s.nodes.fields? item with
    | some [(name, value)] =>
      let s ← s.start name
      let s ← s.start value
      return (found ++ [(name, value)], s)
    | _ => .error .yaml) ([], s)

/-- Give a value its parts. -/
def fill (limit : Nat) (s : Drafts) (id : NodeId) : Except Fault Drafts := do
  match s.draft? id with
  | some (.list _) =>
    match s.nodes.items? id with
    | some items => return (← items.foldlM start s).put id (.list items)
    | none => .error .yaml
  | some (.record _) =>
    let (fields, s) ← s.fields limit id
    return s.put id (.record fields)
  | some (.set _) =>
    let (fields, s) ← s.fields limit id
    return s.put id (.set (fields.map (·.1)))
  | some (.pairs _) =>
    match s.nodes.items? id with
    | some items =>
      let (entries, s) ← s.entries items
      return s.put id (.pairs entries)
    | none => .error .yaml
  | _ => return s

/-- Give all values their parts, those that have waited longest first. Every value waits at most once. -/
def fillAll (limit : Nat) : Nat → Drafts → Except Fault Drafts
  | 0, s => .ok s
  | fuel + 1, s =>
    if s.waiting.isEmpty then .ok s
    else do fillAll limit fuel (← s.waiting.reverse.foldlM (fill limit) { s with waiting := [] })

end Drafts

/-- The drafts of all the values of a document. -/
def Document.drafts (d : Document) : Except Fault (Array (Option Draft)) := do
  let s : Drafts := ⟨d.nodes, Array.replicate d.nodes.size none, []⟩
  let s ← (← s.start d.root).fillAll (Nodes.fieldCount d.nodes + 1) (d.nodes.size + 1)
  return s.made

end MusicScore.Yaml
