import MusicScore.Yaml.Kind
import MusicScore.Yaml.Token

/-!
# Nodes

A document is made of nodes: scalars, sequences and mappings. Each of them has a kind, which is given by its
tag, or else by what it is; the kind of a plain scalar is read off its characters. An anchor gives a node a
name under which it can stand in further places, even inside of itself. So the nodes are numbered, and a
collection holds the numbers of its parts.

The nodes are found from the tokens by descent. A collection takes only its own tokens, so that the rest of
the tokens goes back to whoever asked for the node. Every call takes a token or ends, within a bound given
by their number.
-/
namespace MusicScore.Yaml

/-- The number of a node in its document. -/
abbrev NodeId := Nat

/-- What a node holds. -/
inductive Content where
  | scalar (text : List Char)
  | sequence (items : List NodeId)
  | mapping (fields : List (NodeId × NodeId))

/-- A node of a document. A tag that is not known gives no kind. -/
structure Node where
  kind : Option Kind
  content : Content

namespace Node

/-- The node where nothing is written. -/
def missing : Node := ⟨some .nothing, .scalar []⟩

/-- What is known while the nodes of a document are found: the tokens that are left, the nodes, the
anchors, the handles of tags, and how many nodes the next one stands in. -/
structure Source where
  tokens : List Token
  nodes : Array Node
  anchors : List (List Char × NodeId)
  handles : List (List Char × List Char)
  depth : Nat

namespace Source

/-- The handles that every document knows. -/
def standardHandles : List (List Char × List Char) :=
  [(['!'], ['!']), (['!', '!'], Kind.standardTag)]

/-- The rest of the tokens after the first. -/
def rest (s : Source) : Source := { s with tokens := s.tokens.drop 1 }

/-- The full name of a tag. -/
def tagOf (s : Source) (name : TagName) : Except Fault (List Char) :=
  match name.handle with
  | none => .ok name.suffix
  | some handle =>
    match s.handles.lookup handle with
    | some start => .ok (start ++ name.suffix)
    | none => .error .yaml

/-- An anchor ahead, and what is left. -/
def anchor (s : Source) : Option (List Char) × Source :=
  match s.tokens with
  | .anchor name :: _ => (some name, s.rest)
  | _ => (none, s)

/-- A tag ahead, and what is left. -/
def tag (s : Source) : Except Fault (Option (List Char) × Source) :=
  match s.tokens with
  | .tag name :: _ => do return (some (← s.tagOf name), s.rest)
  | _ => .ok (none, s)

/-- An anchor and a tag ahead, in either order, and what is left. -/
def properties (s : Source) : Except Fault (Option (List Char) × Option (List Char) × Source) := do
  let (name, s) := s.anchor
  let (tag, s) ← s.tag
  match name with
  | some _ => return (name, tag, s)
  | none =>
    if tag.isSome then
      let (name, s) := s.anchor
      return (name, tag, s)
    else return (none, none, s)

/-- Set what an anchor stands for. -/
def setAnchor (s : Source) (name : Option (List Char)) (id : NodeId) : Source :=
  match name with
  | some name => { s with anchors := (name, id) :: s.anchors }
  | none => s

/-- One more node. -/
def push (s : Source) (node : Node) : NodeId × Source :=
  (s.nodes.size, { s with nodes := s.nodes.push node })

/-- Set what a node is. -/
def put (s : Source) (id : NodeId) (node : Node) : Source :=
  { s with nodes := s.nodes.setIfInBounds id node }

/-- The source of what is inside of a node. -/
def deeper (s : Source) : Source := { s with depth := s.depth + 1 }

/-- The source of what follows a node. -/
def shallower (s : Source) : Source := { s with depth := s.depth - 1 }

end Source

/-- A tag that says no more than that there is one. -/
def openTag : List Char := ['!']

/-- The kind of a scalar that has a tag or none. -/
def kindOfScalar (tag : Option (List Char)) (isPlain : Bool) (text : List Char) : Option Kind :=
  match tag with
  | none => some (if isPlain then Kind.ofPlain text else .text)
  | some tag => if tag = openTag then some (Kind.ofPlain text) else Kind.ofTag? tag

/-- The kind of a collection that has a tag or none. -/
def kindOfCollection (tag : Option (List Char)) (usual : Kind) : Option Kind :=
  match tag with
  | none => some usual
  | some tag => if tag = openTag then some usual else Kind.ofTag? tag

/-- A scalar. -/
def ofScalar (tag : Option (List Char)) (isPlain : Bool) (text : List Char) : Node :=
  ⟨kindOfScalar tag isPlain text, .scalar text⟩

/-- A sequence. -/
def ofItems (tag : Option (List Char)) (items : List NodeId) : Node :=
  ⟨kindOfCollection tag .sequence, .sequence items⟩

/-- A mapping. -/
def ofFields (tag : Option (List Char)) (fields : List (NodeId × NodeId)) : Node :=
  ⟨kindOfCollection tag .mapping, .mapping fields⟩

/-- Where a node stands: whether collections may be in block form, and whether a sequence may stand at
the margin of the mapping around it. -/
structure Position where
  inBlock : Bool
  atMargin : Bool

/-- A node in a block sequence. -/
def Position.block : Position := ⟨true, false⟩

/-- A key or a value in a block mapping. -/
def Position.field : Position := ⟨true, true⟩

/-- A node in brackets. -/
def Position.flow : Position := ⟨false, false⟩

/-- The node of a token ends here: nothing is written for it. -/
def endsField : Token → Bool
  | .key => true
  | .value => true
  | .blockEnd => true
  | _ => false

/-- The item of a block sequence ends here. -/
def endsEntry : Token → Bool
  | .entry => true
  | .blockEnd => true
  | _ => false

/-- The item of a sequence at the margin of a mapping ends here. -/
def endsMarginEntry (t : Token) : Bool := endsEntry t || endsField t

/-- The item of a sequence in brackets ends here. -/
def endsBracketItem : Token → Bool
  | .comma => true
  | .bracketClose => true
  | _ => false

/-- The key in a sequence in brackets ends here. -/
def endsBracketKey : Token → Bool
  | .value => true
  | t => endsBracketItem t

/-- The value in braces ends here. -/
def endsBraceItem : Token → Bool
  | .comma => true
  | .braceClose => true
  | _ => false

/-- The key in braces ends here. -/
def endsBraceKey : Token → Bool
  | .value => true
  | t => endsBraceItem t

/-- How often nodes can stand within one another: half of the limit of a thousand calls within one another, less those
at work already where a document is read, since each node takes two calls. -/
def deepest : Nat := 480

mutual

/-- The node ahead. -/
def read : Nat → Position → Source → Except Fault (NodeId × Source)
  | 0, _, _ => .error .yaml
  | fuel + 1, position, s =>
    match s.tokens with
    | .alias name :: _ =>
      match s.anchors.lookup name with
      | some id => .ok (id, s.rest)
      | none => .error .yaml
    | _ => do
      if deepest < s.depth then .error .tooDeep
      let (name, tag, s) ← s.properties
      if name.any fun name => (s.anchors.lookup name).isSome then .error .yaml
      let (id, inside) := s.push missing
      let inside := (inside.setAnchor name id).deeper
      let (node, after) ← body fuel position name.isSome tag inside
      return (id, (after.put id node).shallower)

/-- The content of the node ahead, after its anchor and its tag. -/
def body : Nat → Position → (isAnchored : Bool) → Option (List Char) → Source →
    Except Fault (Node × Source)
  | 0, _, _, _, _ => .error .yaml
  | fuel + 1, position, isAnchored, tag, s =>
    let bare := fun (_ : Unit) =>
      if isAnchored || tag.isSome then .ok (ofScalar tag true [], s) else .error .yaml
    match s.tokens with
    | .scalar text isPlain :: _ => .ok (ofScalar tag isPlain text, s.rest)
    | .bracketOpen :: _ => do
      let (items, s) ← bracketItems fuel true s.rest
      return (ofItems tag items, s)
    | .braceOpen :: _ => do
      let (fields, s) ← braceFields fuel true s.rest
      return (ofFields tag fields, s)
    | .entry :: _ =>
      if position.atMargin then do
        let (items, s) ← marginItems fuel s
        return (ofItems tag items, s)
      else bare ()
    | .sequenceStart :: _ =>
      if position.inBlock then do
        let (items, s) ← blockItems fuel s.rest
        return (ofItems tag items, s)
      else bare ()
    | .mappingStart :: _ =>
      if position.inBlock then do
        let (fields, s) ← blockFields fuel s.rest
        return (ofFields tag fields, s)
      else bare ()
    | _ => bare ()

/-- The node ahead, or the missing one where a token says that nothing is written. -/
def optional : Nat → (Token → Bool) → Position → Source → Except Fault (NodeId × Source)
  | 0, _, _, _ => .error .yaml
  | fuel + 1, isEnd, position, s =>
    if s.tokens.head?.any isEnd then .ok (s.push missing) else read fuel position s

/-- The value after a key, which may have no mark. -/
def fieldValue : Nat → (Token → Bool) → Position → Source → Except Fault (NodeId × Source)
  | 0, _, _, _ => .error .yaml
  | fuel + 1, isEnd, position, s =>
    match s.tokens with
    | .value :: _ => optional fuel isEnd position s.rest
    | _ => .ok (s.push missing)

/-- The items of a block sequence up to its end. -/
def blockItems : Nat → Source → Except Fault (List NodeId × Source)
  | 0, _ => .error .yaml
  | fuel + 1, s =>
    match s.tokens with
    | .entry :: _ => do
      let (item, s) ← optional fuel endsEntry .block s.rest
      let (more, s) ← blockItems fuel s
      return (item :: more, s)
    | .blockEnd :: _ => .ok ([], s.rest)
    | _ => .error .yaml

/-- The items of a sequence at the margin of a mapping. -/
def marginItems : Nat → Source → Except Fault (List NodeId × Source)
  | 0, _ => .error .yaml
  | fuel + 1, s =>
    match s.tokens with
    | .entry :: _ => do
      let (item, s) ← optional fuel endsMarginEntry .block s.rest
      let (more, s) ← marginItems fuel s
      return (item :: more, s)
    | _ => .ok ([], s)

/-- The fields of a block mapping up to its end. -/
def blockFields : Nat → Source → Except Fault (List (NodeId × NodeId) × Source)
  | 0, _ => .error .yaml
  | fuel + 1, s =>
    match s.tokens with
    | .key :: _ => do
      let (key, s) ← optional fuel endsField .field s.rest
      let (value, s) ← fieldValue fuel endsField .field s
      let (more, s) ← blockFields fuel s
      return ((key, value) :: more, s)
    | .blockEnd :: _ => .ok ([], s.rest)
    | _ => .error .yaml

/-- The items of a sequence in brackets up to the closing one. Before each but the first there is a
comma. A key in the sequence makes an item of one field. -/
def bracketItems : Nat → (isFirst : Bool) → Source → Except Fault (List NodeId × Source)
  | 0, _, _ => .error .yaml
  | fuel + 1, isFirst, s =>
    match s.tokens, isFirst with
    | .bracketClose :: _, _ => .ok ([], s.rest)
    | .comma :: _, false => bracketItem fuel s.rest
    | _, true => bracketItem fuel s
    | _, false => .error .yaml

/-- An item of a sequence in brackets, and those after it; or the closing bracket. -/
def bracketItem : Nat → Source → Except Fault (List NodeId × Source)
  | 0, _ => .error .yaml
  | fuel + 1, s =>
    match s.tokens with
    | .bracketClose :: _ => .ok ([], s.rest)
    | .key :: _ => do
      let (key, s) ← optional fuel endsBracketKey .flow s.rest
      let (value, s) ← fieldValue fuel endsBracketItem .flow s
      let (id, s) := s.push (ofFields none [(key, value)])
      let (more, s) ← bracketItems fuel false s
      return (id :: more, s)
    | _ => do
      let (item, s) ← read fuel .flow s
      let (more, s) ← bracketItems fuel false s
      return (item :: more, s)

/-- The fields in braces up to the closing one. Before each but the first there is a comma. -/
def braceFields : Nat → (isFirst : Bool) → Source → Except Fault (List (NodeId × NodeId) × Source)
  | 0, _, _ => .error .yaml
  | fuel + 1, isFirst, s =>
    match s.tokens, isFirst with
    | .braceClose :: _, _ => .ok ([], s.rest)
    | .comma :: _, false => braceField fuel s.rest
    | _, true => braceField fuel s
    | _, false => .error .yaml

/-- A field in braces, and those after it; or the closing brace. A node without a key mark is a key
without a value. -/
def braceField : Nat → Source → Except Fault (List (NodeId × NodeId) × Source)
  | 0, _ => .error .yaml
  | fuel + 1, s =>
    match s.tokens with
    | .braceClose :: _ => .ok ([], s.rest)
    | .key :: _ => do
      let (key, s) ← optional fuel endsBraceKey .flow s.rest
      let (value, s) ← fieldValue fuel endsBraceItem .flow s
      let (more, s) ← braceFields fuel false s
      return ((key, value) :: more, s)
    | _ => do
      let (key, s) ← read fuel .flow s
      let (value, s) := s.push missing
      let (more, s) ← braceFields fuel false s
      return ((key, value) :: more, s)

end

/-- Take in what the directives ahead say: at most one version, which has to be the first, and handles,
each once. -/
def directives : List Token → (versionSeen : Bool) → (handles : List (List Char × List Char)) →
    Except Fault (List Token × List (List Char × List Char))
  | .directive (.version major _) :: rest, seen, handles =>
    if seen || major ≠ 1 then .error .yaml else directives rest true handles
  | .directive (.handle name start) :: rest, seen, handles =>
    if (handles.lookup name).isSome then .error .yaml
    else directives rest seen (handles ++ [(name, start)])
  | .directive .other :: rest, seen, handles => directives rest seen handles
  | rest, _, handles => .ok (rest, handles)

/-- The token begins or ends a document. -/
def isBoundary : Token → Bool
  | .directive _ => true
  | .documentStart => true
  | .documentEnd => true
  | .streamEnd => true
  | _ => false

end Node

/-- The nodes of a document, and the number of the one that is all of it. -/
structure Document where
  nodes : Array Node
  root : NodeId

namespace Document

open Node

/-- A document that has been found has to be the only one: only marks of an end may follow. -/
def onlyOne (root : NodeId) (s : Source) : Except Fault Document :=
  let tail := s.tokens.dropWhile fun t => match t with
    | .documentEnd => true
    | _ => false
  match tail with
  | [.streamEnd] => .ok ⟨s.nodes, root⟩
  | _ => .error .yaml

/-- The document of a node ahead. -/
def ofSource (s : Source) : Except Fault Document := do
  let (root, s) ← read (8 * s.tokens.length + 8) .block s
  onlyOne root s

/-- The document after directives and the mark of its start. -/
def afterDirectives (tokens : List Token) : Except Fault Document := do
  let (rest, handles) ← directives tokens false []
  match rest with
  | .documentStart :: rest =>
    let s : Source := ⟨rest, #[], [], handles ++ Source.standardHandles, 0⟩
    if rest.head?.any isBoundary then
      let (root, s) := s.push missing
      onlyOne root s
    else ofSource s
  | _ => .error .yaml

/-- The only document of some tokens; nothing where there is none. -/
def ofTokens (tokens : List Token) : Except Fault (Option Document) := do
  match tokens with
  | [.streamEnd] => return none
  | .directive _ :: _ => return some (← afterDirectives tokens)
  | .documentStart :: _ => return some (← afterDirectives tokens)
  | _ => return some (← ofSource ⟨tokens, #[], [], Source.standardHandles, 0⟩)

end Document

end MusicScore.Yaml
