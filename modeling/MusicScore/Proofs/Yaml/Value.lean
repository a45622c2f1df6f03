import MusicScore.Proofs.Yaml.Draft

/-!
# The datum of a document

Where every node is a part at most once, and the root is no part, no value is marked, and what is found for the root is
the datum that it represents. Every path goes on to later nodes only, so none comes back to where it was.
-/
namespace MusicScore.Yaml

open Nodes

variable {nodes : Nodes} {root id : NodeId} {d e : Datum} {level : Nat} {s : Drafts}

/-! ## One value for a node -/

/-- A moment of a document has no mark before it is known where it stands. -/
theorem Nodes.IsWhole.unmarked {mark : Option Nat} {m : Moment} (whole : nodes.IsWhole id (.moment mark m)) :
    mark = none := by
  obtain ⟨kind, text, node, value⟩ := whole
  have scalar : nodes.text (nodes.size + 1) id = .ok text := by simp [Nodes.text, node]
  have flat : nodes.fields? id = none := by simp [fields?, node]
  cases kind with
  | time =>
    simp only [Nodes.value, scalar, flat, bind, Except.bind, Option.isSome_none, Bool.false_eq_true, if_false] at value
    split at value
    · cases value
    · cases value
      rfl
  | nothing | text =>
    obtain ⟨_, _, same⟩ := Outcome.bind_eq_ok.mp value
    cases same
  | truth | whole | float | bytes =>
    obtain ⟨_, _, inner⟩ := Outcome.bind_eq_ok.mp value
    obtain ⟨_, _, same⟩ := Outcome.bind_eq_ok.mp inner
    cases same
  | _ => cases value

/-- A node represents one datum at most. -/
theorem Nodes.Represents.unique (first : nodes.Represents level id d) (second : nodes.Represents level id e) : d = e := by
  induction level generalizing id d e with
  | zero => exact first.elim
  | succ level inductionHypothesis =>
    have inner : Relator.RightUnique (nodes.Represents level) := fun _ _ _ => inductionHypothesis
    cases first with
    | whole own =>
      obtain ⟨noItems, noFields⟩ := own.apart
      cases second with
      | whole other => exact own.unique other
      | list node _ _ => simp [items?, node] at noItems
      | record node _ _ _ _ => simp [fields?, node] at noFields
    | @list items values node later each =>
      cases second with
      | whole other =>
        have noItems := other.apart.1
        simp [items?, node] at noItems
      | list node' _ each' =>
        have same := node.symm.trans node'
        simp only [Option.some.injEq, Node.mk.injEq, true_and, Content.sequence.injEq] at same
        subst same
        rw [List.right_unique_forall₂' inner each each']
      | record node' _ _ _ _ => simp [node] at node'
    | record node later distinct keys values =>
      cases second with
      | whole other =>
        have noFields := other.apart.2
        simp [fields?, node] at noFields
      | list node' _ each' => simp [node] at node'
      | record node' _ _ keys' values' =>
        have same := node.symm.trans node'
        simp only [Option.some.injEq, Node.mk.injEq, true_and, Content.mapping.injEq] at same
        subst same
        let field (f : NodeId × NodeId) (part : String × Datum) : Prop :=
          nodes.IsWhole f.1 (.text part.1) ∧ nodes.Represents level f.2 part.2
        have fields : Relator.RightUnique field := by
          rintro f ⟨name, value⟩ ⟨name', value'⟩ ⟨key, own⟩ ⟨key', own'⟩
          obtain rfl := inductionHypothesis own own'
          obtain rfl := Datum.text.inj (key.unique key')
          rfl
        rw [List.right_unique_forall₂' fields (keys.mp (fun _ _ => And.intro) values)
          (keys'.mp (fun _ _ => And.intro) values')]

/-! ## Marks -/

/-- The parts of a node. -/
def Node.parts (node : Node) : List NodeId :=
  match node.content with
  | .scalar _ => []
  | .sequence items => items
  | .mapping fields => fields.flatMap fun field => [field.1, field.2]

/-- A node with items is a sequence. -/
theorem Node.parts_of_items? {items : List NodeId} {node : Node} (found : nodes[id]? = some node)
    (own : nodes.items? id = some items) : node.parts = items := by
  unfold items? at own
  split at own
  next _ _ same =>
    obtain rfl := Option.some.inj (found.symm.trans same)
    exact Option.some.inj own
  next => cases own

/-- A node with fields is a mapping. -/
theorem Node.parts_of_fields? {fields : List (NodeId × NodeId)} {node : Node} (found : nodes[id]? = some node)
    (own : nodes.fields? id = some fields) : node.parts = fields.flatMap fun field => [field.1, field.2] := by
  unfold fields? at own
  split at own
  next _ _ same =>
    obtain rfl := Option.some.inj (found.symm.trans same)
    obtain rfl := Option.some.inj own
    rfl
  next => cases own

/-- The parts of drafts. -/
def partsOf (drafts : List (Option Draft)) : List NodeId := drafts.flatMap fun draft => (draft.map Draft.parts).getD []

/-- A value is counted as a part no more often than it is one. -/
theorem count_modify (ids : List NodeId) (uses : Array Nat) (id : NodeId) :
    ((ids.foldl (fun uses id => uses.modify id (· + 1)) uses)[id]?).getD 0 ≤ (uses[id]?).getD 0 + ids.count id := by
  induction ids generalizing uses with
  | nil => simp
  | cons first ids inductionHypothesis =>
    have onward := inductionHypothesis (uses.modify first (· + 1))
    rw [List.foldl_cons]
    rw [Array.getElem?_modify] at onward
    by_cases same : first = id
    · subst same
      rw [if_pos rfl] at onward
      rw [List.count_cons_self]
      cases found : uses[first]? with
      | none =>
        rw [found] at onward
        simp only [Option.map_none, Option.getD_none] at onward ⊢
        omega
      | some n =>
        rw [found] at onward
        simp only [Option.map_some, Option.getD_some] at onward ⊢
        omega
    · rw [if_neg same] at onward
      rwa [List.count_cons_of_ne same]

/-- Where no value is a part more than once, and the root is no part, there are no marks. -/
theorem Stock.mark?_ofDrafts {drafts : Array (Option Draft)} (once : (partsOf drafts.toList).Nodup)
    (outermost : root ∉ partsOf drafts.toList) (id : NodeId) : (Stock.ofDrafts drafts).mark? root id = none := by
  have uses : (Stock.ofDrafts drafts).uses = (partsOf drafts.toList).foldl (fun uses id => uses.modify id (· + 1))
      (Array.replicate drafts.size 0) := by
    rw [partsOf, List.foldl_flatMap, Stock.ofDrafts, Array.foldl_toList]
  have start : (((Array.replicate drafts.size 0 : Array Nat))[id]?).getD 0 = 0 := by
    rw [Array.getElem?_replicate]
    split_ifs <;> rfl
  have few := count_modify (partsOf drafts.toList) (Array.replicate drafts.size 0) id
  rw [start, ← uses] at few
  have single : ¬ 1 < ((Stock.ofDrafts drafts).uses[id]?).getD 0 + (if id = root then 1 else 0) := by
    split_ifs with same
    · subst same
      rw [List.count_eq_zero.mpr outermost] at few
      omega
    · have single := List.nodup_iff_count.mp once id
      omega
  rw [Stock.mark?, if_neg single]

/-- The parts of right drafts are parts of the nodes. -/
theorem Drafts.Sound.parts_sublist (sound : s.Sound nodes []) :
    (partsOf s.made.toList).Sublist (nodes.toList.flatMap Node.parts) := by
  have each : List.Forall₂ (fun draft node => ((Option.map Draft.parts draft).getD []).Sublist (Node.parts node))
      s.made.toList nodes.toList := by
    refine List.forall₂_iff_get.mpr ⟨by simpa using sound.size, fun i inside within => ?_⟩
    rw [Array.length_toList] at inside within
    rw [List.get_eq_getElem, List.get_eq_getElem, Array.getElem_toList, Array.getElem_toList]
    cases made : s.made[i] with
    | none => exact List.nil_sublist _
    | some draft =>
      have found : s.draft? i = some draft := by rw [Drafts.draft?, Array.getElem?_eq_getElem inside, made]; rfl
      have node : nodes[i]? = some nodes[i] := Array.getElem?_eq_getElem within
      cases sound.right i draft found with
      | whole own => exact List.nil_sublist _
      | list own _ =>
        rw [Node.parts_of_items? node own]
        exact List.Sublist.refl _
      | record own _ =>
        rw [Node.parts_of_fields? node own]
        exact List.Sublist.refl _
      | emptyList waits _ => cases waits
      | emptyRecord waits _ => cases waits
  have whole {drafts : List (Option Draft)} {nodes : List Node}
      (each : List.Forall₂ (fun draft node => ((Option.map Draft.parts draft).getD []).Sublist (Node.parts node))
        drafts nodes) : (partsOf drafts).Sublist (nodes.flatMap Node.parts) := by
    induction each with
    | nil => exact List.Sublist.refl _
    | cons first _ inductionHypothesis => exact first.append inductionHypothesis
  exact whole each

/-- The draft of a sequence has its items. -/
theorem Drafts.Sound.list {draft : Draft} {items : List NodeId} (sound : s.Sound nodes [])
    (node : nodes[id]? = some ⟨some .sequence, .sequence items⟩) (made : s.draft? id = some draft) :
    draft = .list items ∧ ∀ item ∈ items, s.Begun item := by
  have items : nodes.items? id = some items := by simp [items?, node]
  have noFields : nodes.fields? id = none := by simp [fields?, node]
  cases sound.right id draft made with
  | whole own => cases items.symm.trans own.apart.1
  | list own all =>
    obtain rfl := Option.some.inj (items.symm.trans own)
    exact ⟨rfl, all⟩
  | record own _ => cases noFields.symm.trans own
  | emptyList waits _ => cases waits
  | emptyRecord waits _ => cases waits

/-- The draft of a mapping has its fields. -/
theorem Drafts.Sound.record {draft : Draft} {fields : List (NodeId × NodeId)} (sound : s.Sound nodes [])
    (node : nodes[id]? = some ⟨some .mapping, .mapping fields⟩) (made : s.draft? id = some draft) :
    draft = .record fields ∧ ∀ field ∈ fields, s.Begun field.1 ∧ s.Begun field.2 := by
  have fields : nodes.fields? id = some fields := by simp [fields?, node]
  have noItems : nodes.items? id = none := by simp [items?, node]
  cases sound.right id draft made with
  | whole own => cases fields.symm.trans own.apart.2
  | list own _ => cases noItems.symm.trans own
  | record own all =>
    obtain rfl := Option.some.inj (fields.symm.trans own)
    exact ⟨rfl, all⟩
  | emptyList waits _ => cases waits
  | emptyRecord waits _ => cases waits

/-! ## What is found -/

/-- What is known for good is what nodes represent. -/
def KnownRight (nodes : Nodes) (known : Array (Option Datum)) : Prop :=
  ∀ id v, (known[id]?).getD none = some v → ∀ level d, nodes.Represents level id d → d = v

/-- One more value may be kept. -/
theorem KnownRight.kept {known : Array (Option Datum)} (right : KnownRight nodes known)
    (represented : nodes.Represents level id d) : KnownRight nodes (known.setIfInBounds id (some d)) := by
  intro other v found level' d' own
  rw [Array.getElem?_setIfInBounds] at found
  by_cases same : id = other
  · subst same
    rw [if_pos rfl] at found
    split_ifs at found with inside
    · obtain rfl := Option.some.inj found
      exact (own.mono (Nat.le_max_left level' level)).unique (represented.mono (Nat.le_max_right level' level))
    · cases found
  · rw [if_neg same] at found
    exact right other v found level' d' own

/-- Data in places that follow one another are pairs again. -/
theorem inPairs_flatMap (parts : List (String × Datum)) :
    inPairs (parts.flatMap fun part => [.text part.1, part.2]) = parts.map fun part => (.text part.1, part.2) := by
  induction parts with
  | nil => rfl
  | cons part parts inductionHypothesis =>
    rw [List.flatMap_cons, List.map_cons, ← inductionHypothesis]
    rfl

/-- What holds of both sides of each field holds of all parts of a mapping. -/
theorem forall_mem_sides {fields : List (NodeId × NodeId)} {motive : NodeId → Prop}
    (both : ∀ field ∈ fields, motive field.1 ∧ motive field.2) :
    ∀ part ∈ fields.flatMap fun field => [field.1, field.2], motive part := by
  intro part member
  obtain ⟨field, own, side⟩ := List.mem_flatMap.mp member
  rcases List.mem_pair.mp side with rfl | rfl
  · exact (both field own).1
  · exact (both field own).2

/-- The keys and values of a mapping represent the keys and values of the record. -/
theorem Nodes.represents_parts {fields : List (NodeId × NodeId)} {parts : List (String × Datum)}
    (keys : List.Forall₂ (fun field part => nodes.IsWhole field.1 (.text part.1)) fields parts)
    (values : List.Forall₂ (fun field part => nodes.Represents level field.2 part.2) fields parts) :
    List.Forall₂ (nodes.Represents level) (fields.flatMap fun field => [field.1, field.2])
      (parts.flatMap fun part => [.text part.1, part.2]) := by
  induction keys with
  | nil => exact .nil
  | cons key _ inductionHypothesis =>
    obtain ⟨value, values⟩ := List.forall₂_cons.mp values
    cases level with
    | zero => exact value.elim
    | succ level => exact .cons (.whole key) (.cons value (inductionHypothesis values))

/-- The value is found for the node within others, whatever is known by then, and all that is known afterwards is
right. -/
def Stock.Finds (stock : Stock) (nodes : Nodes) (root : NodeId) (fuel : Nat) (within : List NodeId) (id : NodeId)
    (value : Datum) : Prop :=
  ∀ known, KnownRight nodes known →
    ∃ known', stock.unfold root fuel within known id = ⟨value, true, known'⟩ ∧ KnownRight nodes known'

section

variable {stock : Stock} {known : Array (Option Datum)} {within : List NodeId} {fuel : Nat}

/-- The parts of a value are found one after the other. -/
theorem Stock.unfold_parts {parts : List NodeId} {values : List Datum} {step : UnfoldedItems → NodeId → UnfoldedItems}
    (steps : ∀ found part, step found part =
      ⟨(stock.unfold root fuel within found.known part).value :: found.values,
        found.isClosed && (stock.unfold root fuel within found.known part).isClosed,
        (stock.unfold root fuel within found.known part).known⟩)
    (each : List.Forall₂ (stock.Finds nodes root fuel within) parts values) (right : KnownRight nodes known)
    (earlier : List Datum) :
    ∃ known', parts.foldl step ⟨earlier, true, known⟩ = ⟨values.reverse ++ earlier, true, known'⟩ ∧
      KnownRight nodes known' := by
  induction each generalizing known earlier with
  | nil => exact ⟨known, rfl, right⟩
  | @cons part value _ _ first _ inductionHypothesis =>
    obtain ⟨between, found, right⟩ := first known right
    obtain ⟨known', others, right⟩ := inductionHypothesis right (value :: earlier)
    refine ⟨known', ?_, right⟩
    rw [List.foldl_cons, steps, found, List.reverse_cons, List.append_assoc, List.singleton_append]
    exact others

/-- The datum that a node represents is found for it if it is found where it is not yet known. -/
theorem Stock.finds_of_unknown (represented : nodes.Represents level id d)
    (unknown : ∀ known, KnownRight nodes known → (known[id]?).getD none = none →
      ∃ known', stock.unfold root (fuel + 1) within known id = ⟨d, true, known'⟩ ∧ KnownRight nodes known') :
    stock.Finds nodes root (fuel + 1) within id d := by
  intro known right
  cases found : (known[id]?).getD none with
  | some v =>
    obtain rfl := right id v found _ _ represented
    exact ⟨known, by simp only [Stock.unfold, found], right⟩
  | none => exact unknown known right found

/-- The datum that a node represents is found for it within nodes that come earlier, if each part of its draft is found
within it. -/
theorem Stock.finds_of_parts (sound : s.Sound nodes []) (drafts : stock.drafts = s.made)
    (marks : ∀ id, stock.mark? root id = none) (represented : nodes.Represents (level + 1) id d) (begun : s.Begun id)
    (later : ∀ around ∈ within, around < id)
    (inner : ∀ {parts : List NodeId} {values : List Datum}, List.Forall₂ (nodes.Represents level) parts values →
      (∀ part ∈ parts, s.Begun part) → (∀ part ∈ parts, id < part) →
        List.Forall₂ (stock.Finds nodes root fuel (id :: within)) parts values) :
    stock.Finds nodes root (fuel + 1) within id d := by
  refine Stock.finds_of_unknown represented fun known right unknown => ?_
  have outside : within.contains id = false := by
    rw [List.contains_eq_mem, decide_eq_false_iff_not]
    exact fun member => Nat.lt_irrefl id (later id member)
  obtain ⟨draft, made⟩ := Option.isSome_iff_exists.mp begun
  have present : (stock.drafts[id]?).getD none = some draft := by
    rw [drafts]
    exact made
  have kept {known : Array (Option Datum)} (right : KnownRight nodes known) :
      KnownRight nodes (known.setIfInBounds id (some d)) := right.kept represented
  simp only [Stock.unfold, unknown, outside, present, Bool.false_eq_true, if_false, marks]
  cases represented with
  | whole own =>
    obtain rfl : Draft.whole d = draft := Option.some.inj ((sound.draft_eq begun own).symm.trans made)
    refine ⟨_, ?_, kept right⟩
    cases d with
    | moment mark m =>
      obtain rfl := own.unmarked
      rfl
    | _ => rfl
  | @list items values node after each =>
    obtain ⟨rfl, all⟩ := sound.list node made
    obtain ⟨known', folded, right⟩ := Stock.unfold_parts (fun _ _ => rfl) (inner each all after) right []
    refine ⟨_, ?_, kept right⟩
    rw [Draft.parts, folded]
    simp [Unfolded.kept, Datum.ofList]
  | @record fields parts node after distinct keys values =>
    obtain ⟨rfl, all⟩ := sound.record node made
    obtain ⟨known', folded, right⟩ := Stock.unfold_parts (fun _ _ => rfl)
      (inner (represents_parts keys values) (forall_mem_sides all) (forall_mem_sides after)) right []
    refine ⟨_, ?_, kept right⟩
    rw [Draft.parts, folded]
    simp [Unfolded.kept, Datum.ofParts, Datum.ofFields, inPairs_flatMap]

/-- The datum that a node represents is found for it, within nodes that come earlier. -/
theorem Stock.finds_of_represents (sound : s.Sound nodes []) (drafts : stock.drafts = s.made)
    (marks : ∀ id, stock.mark? root id = none) (represented : nodes.Represents level id d) (begun : s.Begun id)
    (later : ∀ around ∈ within, around < id) (enough : level ≤ fuel) : stock.Finds nodes root fuel within id d := by
  induction level generalizing id d within fuel with
  | zero => exact represented.elim
  | succ level inductionHypothesis =>
    obtain ⟨fewer, rfl⟩ : ∃ fewer, fuel = fewer + 1 := ⟨fuel - 1, by omega⟩
    refine Stock.finds_of_parts sound drafts marks represented begun later fun each all after => ?_
    have both := (List.forall₂_and_left _ _).mpr ⟨fun part member => And.intro (all part member) (after part member), each⟩
    refine both.imp fun part value own => ?_
    obtain ⟨⟨begun, after⟩, represented⟩ := own
    refine inductionHypothesis represented begun (fun around member => ?_) (Nat.le_of_succ_le_succ enough)
    rcases List.mem_cons.mp member with rfl | outer
    · exact after
    · exact Nat.lt_trans (later around outer) after

end

/-- A document whose root represents a datum stands for it, if every node is a part at most once and the root is none. -/
theorem Document.value_eq (represented : nodes.Represents level root d) (enough : level ≤ nodes.size + 1)
    (once : (nodes.toList.flatMap Node.parts).Nodup) (outermost : root ∉ nodes.toList.flatMap Node.parts) :
    Document.value ⟨nodes, root⟩ = .ok d := by
  obtain ⟨s, drafts, sound, begun⟩ := Document.drafts_eq represented enough
  have fewer := sound.parts_sublist
  have marks := Stock.mark?_ofDrafts (fewer.nodup once) fun member => outermost (fewer.subset member)
  have right : KnownRight nodes (Array.replicate (Stock.ofDrafts s.made).drafts.size none) := by
    intro id v found
    rw [Array.getElem?_replicate] at found
    split_ifs at found <;> cases found
  have size : (Stock.ofDrafts s.made).drafts.size = nodes.size := sound.size
  have room : level ≤ (Stock.ofDrafts s.made).drafts.size + 1 := size ▸ enough
  obtain ⟨known, found, _⟩ :=
    Stock.finds_of_represents sound rfl marks represented begun (List.forall_mem_nil (· < root)) room _ right
  rw [Document.value, drafts]
  simp only [bind, Except.bind, found]
  rfl

end MusicScore.Yaml
