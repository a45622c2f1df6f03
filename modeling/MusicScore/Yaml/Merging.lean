import MusicScore.Yaml.Node

/-!
# Merged mappings

The sign `<<` as a key takes over the fields of another mapping, or of all the mappings of a sequence. They
stand before the mapping's own fields, those of the last mapping of a sequence first, so that of equal keys
the mapping's own counts. The sign `=` for a standard value is no more than a text when it is a key.

A mapping may even take over from itself. A sign is taken away before the mappings it names are looked
at, so every step leaves fewer signs, and no field with a sign is ever taken over.
-/
namespace MusicScore.Yaml

/-- The nodes of a document by their numbers. -/
abbrev Nodes := Array Node

namespace Nodes

/-- The kind of a node. -/
def kind? (nodes : Nodes) (id : NodeId) : Option Kind := nodes[id]?.bind (·.kind)

/-- The fields of a mapping. -/
def fields? (nodes : Nodes) (id : NodeId) : Option (List (NodeId × NodeId)) :=
  match nodes[id]? with
  | some ⟨_, .mapping fields⟩ => some fields
  | _ => none

/-- The items of a sequence. -/
def items? (nodes : Nodes) (id : NodeId) : Option (List NodeId) :=
  match nodes[id]? with
  | some ⟨_, .sequence items⟩ => some items
  | _ => none

/-- Set the fields of a mapping. -/
def setFields (nodes : Nodes) (id : NodeId) (fields : List (NodeId × NodeId)) : Nodes :=
  nodes.modify id fun node => { node with content := .mapping fields }

/-- A sign for a standard value becomes a text. -/
def asText (nodes : Nodes) (id : NodeId) : Nodes :=
  if nodes.kind? id = some .standard then nodes.modify id fun node => { node with kind := some .text }
  else nodes

/-- The key is the sign that takes over other fields. -/
def isMerge (nodes : Nodes) (field : NodeId × NodeId) : Bool := nodes.kind? field.1 = some .merge

/-- The nodes after a mapping has taken over what its signs name; the fields found before are given, those
that stand first first. -/
def mergeFrom : Nat → (found : List (NodeId × NodeId)) → Nodes → NodeId → Except Fault Nodes
  | 0, _, _, _ => .error .tooDeep
  | fuel + 1, found, nodes, id =>
    let fields := (nodes.fields? id).getD []
    match fields.find? nodes.isMerge with
    | none => .ok ((fields.map (·.1)).foldl asText (nodes.setFields id (found ++ fields)))
    | some (_, source) => do
      let nodes := nodes.setFields id (fields.eraseP nodes.isMerge)
      let sources ← match nodes.items? source with
        | some items => .ok items
        | none => if (nodes.fields? source).isSome then .ok [source] else .error .yaml
      let (taken, nodes) ← sources.foldlM (fun (taken, nodes) source => do
        if (nodes.fields? source).isNone then .error .yaml
        let nodes ← mergeFrom fuel [] nodes source
        return ((nodes.fields? source).getD [] ++ taken, nodes)) ([], nodes)
      mergeFrom fuel (found ++ taken) nodes id

/-- The number of fields of all mappings. -/
def fieldCount (nodes : Nodes) : Nat :=
  nodes.foldl (fun count node => match node.content with
    | .mapping fields => count + fields.length
    | _ => count) 0

end Nodes

end MusicScore.Yaml
