import MusicScore.Datum.Records
import MusicScore.Proofs.Outcome
import MusicScore.Yaml.Reading

/-!
# The values of nodes

A node represents a datum when it is a scalar with this value, or a collection whose parts, all of which come later,
represent the parts of the datum. The drafts of such a document are made from the outside in. What every step keeps is
that a value without parts is right, and that a collection has all its parts, and these have been begun, unless it still
waits for them; so all is right when nothing waits any more.
-/
namespace MusicScore.Yaml

namespace Nodes

variable {nodes : Nodes} {id : NodeId} {d e : Datum} {level : Nat} {fields : List (NodeId × NodeId)}

/-! ## What nodes represent -/

/-- The node is a scalar that has the value. -/
def IsWhole (nodes : Nodes) (id : NodeId) (d : Datum) : Prop :=
  ∃ kind text, nodes[id]? = some ⟨some kind, .scalar text⟩ ∧ nodes.value kind id = .ok d

/-- The node has the value when its parts have theirs. -/
inductive Holds (nodes : Nodes) (inner : NodeId → Datum → Prop) (id : NodeId) : Datum → Prop where
  | whole {d : Datum} (own : nodes.IsWhole id d) : Holds nodes inner id d
  | list {items : List NodeId} {values : List Datum} (node : nodes[id]? = some ⟨some .sequence, .sequence items⟩)
      (later : ∀ item ∈ items, id < item) (each : List.Forall₂ inner items values) :
      Holds nodes inner id (.ofList values)
  | record {fields : List (NodeId × NodeId)} {parts : List (String × Datum)}
      (node : nodes[id]? = some ⟨some .mapping, .mapping fields⟩)
      (later : ∀ field ∈ fields, id < field.1 ∧ id < field.2) (distinct : (parts.map Prod.fst).Nodup)
      (keys : List.Forall₂ (fun field part => nodes.IsWhole field.1 (.text part.1)) fields parts)
      (values : List.Forall₂ (fun field part => inner field.2 part.2) fields parts) :
      Holds nodes inner id (.ofParts parts)

/-- The node represents the datum, in which lists and records stand within one another less often than that. -/
def Represents (nodes : Nodes) : Nat → NodeId → Datum → Prop
  | 0, _, _ => False
  | level + 1, id, d => nodes.Holds (nodes.Represents level) id d

/-- What is represented is also represented with more room. -/
theorem Represents.mono {more : Nat} (represents : nodes.Represents level id d) (less : level ≤ more) :
    nodes.Represents more id d := by
  induction level generalizing more id d with
  | zero => exact represents.elim
  | succ level inductionHypothesis =>
    obtain ⟨more, rfl⟩ : ∃ more', more = more' + 1 := ⟨more - 1, by omega⟩
    have fewer : level ≤ more := Nat.le_of_succ_le_succ less
    cases represents with
    | whole own => exact .whole own
    | list node later each => exact .list node later (each.imp fun item value own => inductionHypothesis own fewer)
    | record node later distinct keys values =>
      exact .record node later distinct keys (values.imp fun field part own => inductionHypothesis own fewer)

/-- A scalar has one value. -/
theorem IsWhole.unique (first : nodes.IsWhole id d) (second : nodes.IsWhole id e) : d = e := by
  obtain ⟨kind, text, node, value⟩ := first
  obtain ⟨kind', text', node', value'⟩ := second
  obtain ⟨rfl⟩ : kind = kind' := by
    have same := node.symm.trans node'
    simp only [Option.some.injEq, Node.mk.injEq] at same
    exact same.1
  exact Except.ok.inj (value.symm.trans value')

/-- A scalar has no items and no fields. -/
theorem IsWhole.apart (whole : nodes.IsWhole id d) : nodes.items? id = none ∧ nodes.fields? id = none := by
  obtain ⟨kind, text, node, _⟩ := whole
  simp [items?, fields?, node]

/-! ## Keys without a meaning of their own -/

/-- The value of a scalar is that of none of the signs. -/
theorem IsWhole.unsigned (whole : nodes.IsWhole id d) :
    nodes.kind? id ≠ some .merge ∧ nodes.kind? id ≠ some .standard := by
  obtain ⟨kind, text, node, value⟩ := whole
  have same : nodes.kind? id = some kind := by simp [kind?, node]
  rw [same]
  constructor <;> rintro ⟨rfl⟩ <;> cases value

/-- Nodes stay as they are when a mapping is given its own fields. -/
theorem setFields_self (node : nodes[id]? = some ⟨some .mapping, .mapping fields⟩) : nodes.setFields id fields = nodes := by
  obtain ⟨inside, same⟩ := Array.getElem?_eq_some_iff.mp node
  unfold setFields
  refine Array.ext (by simp) fun i _ here => ?_
  rw [Array.getElem_modify]
  split_ifs with own
  · subst own
    rw [same]
  · rfl

/-- A mapping whose keys have values takes over no other fields. -/
theorem mergeFrom_eq {limit : Nat} (node : nodes[id]? = some ⟨some .mapping, .mapping fields⟩)
    (plain : ∀ field ∈ fields, ∃ v, nodes.IsWhole field.1 v) : mergeFrom (limit + 1) [] nodes id = .ok nodes := by
  have own : (nodes.fields? id).getD [] = fields := by simp [fields?, node]
  have unmarked : fields.find? nodes.isMerge = none := by
    rw [List.find?_eq_none]
    intro field member
    obtain ⟨v, whole⟩ := plain field member
    simpa [isMerge] using whole.unsigned.1
  have kept : (fields.map (·.1)).foldl asText nodes = nodes := by
    have each : ∀ key ∈ fields.map (·.1), nodes.asText key = nodes := by
      intro key member
      obtain ⟨field, inside, rfl⟩ := List.mem_map.mp member
      obtain ⟨v, whole⟩ := plain field inside
      rw [asText, if_neg whole.unsigned.2]
    generalize fields.map (·.1) = keys at each
    induction keys with
    | nil => rfl
    | cons key keys inductionHypothesis =>
      obtain ⟨first, others⟩ := List.forall_mem_cons.mp each
      rw [List.foldl_cons, first, inductionHypothesis others]
  rw [mergeFrom]
  simp only [own, unmarked, List.nil_append, setFields_self node, kept]

end Nodes

namespace Drafts

open Nodes

variable {nodes : Nodes} {id : NodeId} {d : Datum} {level limit fuel : Nat} {s s' : Drafts} {waiting pending : List NodeId}
  {draft : Draft}

/-! ## What every step keeps -/

/-- The draft of a node is right: a value without parts, or the parts of the node, all of which have been begun, or it
is empty and the node still waits. -/
inductive IsRight (nodes : Nodes) (begun : NodeId → Prop) (waits : Prop) (id : NodeId) : Draft → Prop where
  | whole {d : Datum} (own : nodes.IsWhole id d) : IsRight nodes begun waits id (.whole d)
  | list {items : List NodeId} (own : nodes.items? id = some items) (all : ∀ item ∈ items, begun item) :
      IsRight nodes begun waits id (.list items)
  | record {fields : List (NodeId × NodeId)} (own : nodes.fields? id = some fields)
      (all : ∀ field ∈ fields, begun field.1 ∧ begun field.2) : IsRight nodes begun waits id (.record fields)
  | emptyList (open' : waits) (own : (nodes.items? id).isSome) : IsRight nodes begun waits id (.list [])
  | emptyRecord (open' : waits) (own : (nodes.fields? id).isSome) : IsRight nodes begun waits id (.record [])

/-- The value of a node has been begun. -/
def Begun (s : Drafts) (id : NodeId) : Prop := (s.draft? id).isSome = true

/-- All drafts are right, where these nodes wait for their parts. -/
structure Sound (nodes : Nodes) (waiting : List NodeId) (s : Drafts) : Prop where
  same : s.nodes = nodes
  size : s.made.size = nodes.size
  right : ∀ id draft, s.draft? id = some draft → IsRight nodes s.Begun (id ∈ waiting) id draft

/-- What has been begun stays begun, and what waits anew has been begun and represents something. -/
structure Extends (nodes : Nodes) (level : Nat) (s s' : Drafts) : Prop where
  begun : ∀ id, s.Begun id → s'.Begun id
  waiting : ∃ more, s'.waiting = more ++ s.waiting ∧ ∀ id ∈ more, s'.Begun id ∧ ∃ d, nodes.Represents level id d

/-- A right draft stays right when more has been begun. -/
theorem IsRight.mono {begun begun' : NodeId → Prop} {waits waits' : Prop} (right : IsRight nodes begun waits id draft)
    (more : ∀ id, begun id → begun' id) (still : waits → waits') : IsRight nodes begun' waits' id draft := by
  cases right with
  | whole own => exact .whole own
  | list own all => exact .list own fun item member => more item (all item member)
  | record own all =>
    exact .record own fun field member => ⟨more field.1 (all field member).1, more field.2 (all field member).2⟩
  | emptyList open' own => exact .emptyList (still open') own
  | emptyRecord open' own => exact .emptyRecord (still open') own

/-- The draft of a scalar is its value. -/
theorem Sound.draft_eq (sound : Sound nodes waiting s) (begun : s.Begun id) (whole : nodes.IsWhole id d) :
    s.draft? id = some (.whole d) := by
  obtain ⟨draft, found⟩ := Option.isSome_iff_exists.mp begun
  obtain ⟨noItems, noFields⟩ := whole.apart
  cases sound.right id draft found with
  | whole own => rw [found, own.unique whole]
  | list own _ => cases noItems.symm.trans own
  | record own _ => cases noFields.symm.trans own
  | emptyList _ own => simp [noItems] at own
  | emptyRecord _ own => simp [noFields] at own

theorem extends_refl (nodes : Nodes) (level : Nat) (s : Drafts) : Extends nodes level s s :=
  ⟨fun _ begun => begun, [], rfl, by simp⟩

/-- One step after another keeps what both keep. -/
theorem Extends.trans {s'' : Drafts} (first : Extends nodes level s s') (second : Extends nodes level s' s'') :
    Extends nodes level s s'' := by
  obtain ⟨more, waiting, each⟩ := first.waiting
  obtain ⟨more', waiting', each'⟩ := second.waiting
  refine ⟨fun id begun => second.begun id (first.begun id begun), more' ++ more, ?_, ?_⟩
  · rw [waiting', waiting, List.append_assoc]
  · refine List.forall_mem_append.mpr ⟨each', fun id member => ?_⟩
    obtain ⟨begun, represented⟩ := each id member
    exact ⟨second.begun id begun, represented⟩

/-! ## Single values -/

/-- The draft that is set is found, and the others are as before. -/
theorem draft?_put (inside : id < s.made.size) (draft : Draft) (other : NodeId) :
    (s.put id draft).draft? other = if other = id then some draft else s.draft? other := by
  unfold draft? put
  rw [Array.getElem?_setIfInBounds]
  by_cases same : id = other
  · subst same
    simp [inside]
  · rw [if_neg same, if_neg fun equal => same equal.symm]

/-- Setting a right draft leaves all drafts right. -/
theorem Sound.put (sound : Sound nodes waiting s) (inside : id < nodes.size)
    (right : IsRight nodes (fun part => s.Begun part ∨ part = id) (id ∈ pending) id draft)
    (still : ∀ other ∈ waiting, other ≠ id → other ∈ pending) :
    Sound nodes pending (s.put id draft) ∧ (∀ other, s.Begun other → (s.put id draft).Begun other) ∧
      (s.put id draft).Begun id := by
  have fits : id < s.made.size := sound.size ▸ inside
  have found := draft?_put fits draft
  have begun (other : NodeId) (own : s.Begun other ∨ other = id) : (s.put id draft).Begun other := by
    rw [Begun, found]
    split_ifs with same
    · rfl
    · exact own.resolve_right same
  refine ⟨⟨sound.same, ?_, fun other own present => ?_⟩, fun other own => begun other (.inl own), begun id (.inr rfl)⟩
  · rw [Drafts.put, Array.size_setIfInBounds, sound.size]
  · rw [found] at present
    split_ifs at present with same
    · subst same
      obtain rfl := Option.some.inj present
      exact right.mono begun id
    · exact (sound.right other own present).mono (fun part earlier => begun part (.inl earlier)) fun waits =>
        still other waits same

/-- A node that waits is told by nothing else. -/
theorem Sound.await (sound : Sound nodes waiting s) (id : NodeId) : Sound nodes waiting (s.await id) :=
  ⟨sound.same, sound.size, sound.right⟩

/-- The node of a kind whose values have parts begins empty, and waits. -/
theorem Sound.start_empty {kind : Kind} (sound : Sound nodes (pending ++ s.waiting) s) (fresh : ¬ s.Begun id)
    (inside : id < nodes.size) (own : nodes.kind? id = some kind) (empty : Draft.empty? kind = some draft)
    (right : ∀ begun, IsRight nodes begun True id draft) (represented : nodes.Represents level id d) :
    ∃ s', s.start id = .ok s' ∧ Sound nodes (pending ++ s'.waiting) s' ∧ Extends nodes level s s' ∧ s'.Begun id := by
  have started : s.start id = .ok ((s.put id draft).await id) := by
    have unknown : (s.draft? id).isSome = false := Bool.eq_false_iff.mpr fresh
    rw [start, unknown, sound.same, own]
    simp only [Bool.false_eq_true, if_false, empty]
  have waits : id ∈ pending ++ ((s.put id draft).await id).waiting := List.mem_append_right _ List.mem_cons_self
  have still : ∀ other ∈ pending ++ s.waiting, other ≠ id →
      other ∈ pending ++ ((s.put id draft).await id).waiting := by
    intro other waits _
    rcases List.mem_append.mp waits with early | late
    · exact List.mem_append_left _ early
    · exact List.mem_append_right _ (List.mem_cons_of_mem _ late)
  obtain ⟨kept, more, begun⟩ := sound.put inside ((right _).mono (fun _ earlier => earlier) fun _ => waits) still
  refine ⟨_, started, kept.await id, ⟨more, [id], rfl, ?_⟩, begun⟩
  exact List.forall_mem_singleton.mpr ⟨begun, d, represented⟩

/-- The value of a node that represents a datum is begun. -/
theorem Sound.start (sound : Sound nodes (pending ++ s.waiting) s) (represented : nodes.Represents level id d) :
    ∃ s', s.start id = .ok s' ∧ Sound nodes (pending ++ s'.waiting) s' ∧ Extends nodes level s s' ∧ s'.Begun id := by
  by_cases begun : s.Begun id
  · refine ⟨s, ?_, sound, extends_refl nodes level s, begun⟩
    rw [Drafts.start]
    exact if_pos begun
  have whole := represented
  cases level with
  | zero => exact represented.elim
  | succ level =>
    cases represented with
    | whole own =>
      obtain ⟨kind, text, node, value⟩ := own
      have inside : id < nodes.size := (Array.getElem?_eq_some_iff.mp node).1
      have known : nodes.kind? id = some kind := by simp [kind?, node]
      have bare : Draft.empty? kind = none := by
        cases kind <;> first | rfl | cases value
      have started : s.start id = .ok (s.put id (.whole d)) := by
        have unknown : (s.draft? id).isSome = false := Bool.eq_false_iff.mpr begun
        rw [Drafts.start, unknown, sound.same, known]
        simp only [Bool.false_eq_true, if_false, bare, value, bind, Except.bind]
        rfl
      have right : IsRight nodes (fun part => s.Begun part ∨ part = id) (id ∈ pending ++ s.waiting) id (.whole d) :=
        .whole ⟨kind, text, node, value⟩
      obtain ⟨kept, more, now⟩ := sound.put inside right fun _ waits _ => waits
      exact ⟨_, started, kept, ⟨more, [], rfl, by simp⟩, now⟩
    | list node later each =>
      have inside : id < nodes.size := (Array.getElem?_eq_some_iff.mp node).1
      have own : nodes.kind? id = some .sequence := by simp [kind?, node]
      exact sound.start_empty begun inside own rfl
        (fun _ => .emptyList trivial (by simp [items?, node])) whole
    | record node later distinct keys values =>
      have inside : id < nodes.size := (Array.getElem?_eq_some_iff.mp node).1
      have own : nodes.kind? id = some .mapping := by simp [kind?, node]
      exact sound.start_empty begun inside own rfl
        (fun _ => .emptyRecord trivial (by simp [fields?, node])) whole

/-- All items that represent data are begun. -/
theorem Sound.startAll {items : List NodeId} {values : List Datum} (each : List.Forall₂ (nodes.Represents level) items values)
    (sound : Sound nodes (pending ++ s.waiting) s) :
    ∃ s', items.foldlM Drafts.start s = .ok s' ∧ Sound nodes (pending ++ s'.waiting) s' ∧ Extends nodes level s s' ∧
      ∀ item ∈ items, s'.Begun item := by
  induction each generalizing s with
  | nil => exact ⟨s, rfl, sound, extends_refl nodes level s, by simp⟩
  | cons first _ inductionHypothesis =>
    obtain ⟨between, started, sound, grown, begun⟩ := sound.start first
    obtain ⟨s', others, sound, further, all⟩ := inductionHypothesis sound
    refine ⟨s', ?_, sound, grown.trans further, List.forall_mem_cons.mpr ⟨further.begun _ begun, all⟩⟩
    rw [List.foldlM_cons, started]
    exact others

/-! ## Fields -/

/-- Texts that differ are different keys. -/
theorem alike_text {x y : String} (different : x ≠ y) : (Datum.text x).alike (.text y) = false := by
  simp [Datum.alike, Datum.same, Datum.sameNan, different]

/-- A field with a new key comes last. -/
theorem setField_new {name value : NodeId} {key : Datum} {found : List (NodeId × Datum × NodeId)}
    (new : ∀ f ∈ found, f.2.1.alike key = false) : setField name key value found = found ++ [(name, key, value)] := by
  induction found with
  | nil => rfl
  | cons f found inductionHypothesis =>
    obtain ⟨first, others⟩ := List.forall_mem_cons.mp new
    rw [setField, first, inductionHypothesis others]
    rfl

/-- Fields whose keys are different texts are begun one after the other, and found in their order. -/
theorem Sound.startFields {fields : List (NodeId × NodeId)} {parts : List (String × Datum)}
    {step : List (NodeId × Datum × NodeId) × Drafts → NodeId × NodeId →
      Except Fault (List (NodeId × Datum × NodeId) × Drafts)}
    (steps : ∀ found s field, step (found, s) field = (do
      let s ← s.start field.1
      let key ← s.key field.1
      let s ← s.start field.2
      return (setField field.1 key field.2 found, s)))
    (keys : List.Forall₂ (fun field part => nodes.IsWhole field.1 (.text part.1)) fields parts)
    (values : List.Forall₂ (fun field part => nodes.Represents level field.2 part.2) fields parts)
    (distinct : (parts.map Prod.fst).Nodup) {found : List (NodeId × Datum × NodeId)}
    (new : ∀ f ∈ found, ∀ part ∈ parts, f.2.1.alike (.text part.1) = false)
    (sound : Sound nodes (pending ++ s.waiting) s) :
    ∃ more s', fields.foldlM step (found, s) = .ok (found ++ more, s') ∧ more.map (fun f => (f.1, f.2.2)) = fields ∧
      Sound nodes (pending ++ s'.waiting) s' ∧ Extends nodes level s s' ∧
        ∀ field ∈ fields, s'.Begun field.1 ∧ s'.Begun field.2 := by
  induction values generalizing found s with
  | nil => exact ⟨[], s, by simp [pure, Except.pure], rfl, sound, extends_refl nodes level s, by simp⟩
  | @cons field part fields parts value _ inductionHypothesis =>
    obtain ⟨key, keys⟩ := List.forall₂_cons.mp keys
    obtain ⟨other, distinct⟩ := List.nodup_cons.mp distinct
    obtain ⟨room, rfl⟩ : ∃ room, level = room + 1 := by
      cases level with
      | zero => exact value.elim
      | succ room => exact ⟨room, rfl⟩
    have named : nodes.Represents (room + 1) field.1 (.text part.1) := .whole key
    obtain ⟨s₁, startedKey, sound, grown, begunKey⟩ := sound.start named
    obtain ⟨s₂, startedValue, sound', grown', begunValue⟩ := sound.start value
    have known : s₁.key field.1 = .ok (.text part.1) := by
      rw [Drafts.key, sound.draft_eq begunKey key]
    have first : setField field.1 (.text part.1) field.2 found = found ++ [(field.1, .text part.1, field.2)] :=
      setField_new fun f member => new f member part List.mem_cons_self
    have newer : ∀ f ∈ found ++ [(field.1, .text part.1, field.2)], ∀ part ∈ parts,
        f.2.1.alike (.text part.1) = false := by
      intro f member later inside
      rcases List.mem_append.mp member with early | own
      · exact new f early later (List.mem_cons_of_mem _ inside)
      · rw [List.mem_singleton.mp own]
        refine alike_text fun same => other ?_
        rw [same]
        exact List.mem_map_of_mem inside
    obtain ⟨more, s', folded, same, sound'', grown'', all⟩ := inductionHypothesis keys distinct newer sound'
    refine ⟨(field.1, .text part.1, field.2) :: more, s', ?_, ?_, sound'', (grown.trans grown').trans grown'', ?_⟩
    · rw [List.foldlM_cons, steps]
      simp only [startedKey, known, startedValue, first, bind, Except.bind, pure, Except.pure]
      rw [folded, List.append_assoc, List.singleton_append]
    · rw [List.map_cons, same]
    · exact List.forall_mem_cons.mpr
        ⟨⟨(grown'.trans grown'').begun _ begunKey, grown''.begun _ begunValue⟩, all⟩

/-- The fields of a mapping are begun. -/
theorem Sound.fields {fields : List (NodeId × NodeId)} {parts : List (String × Datum)}
    (node : nodes[id]? = some ⟨some .mapping, .mapping fields⟩)
    (keys : List.Forall₂ (fun field part => nodes.IsWhole field.1 (.text part.1)) fields parts)
    (values : List.Forall₂ (fun field part => nodes.Represents level field.2 part.2) fields parts)
    (distinct : (parts.map Prod.fst).Nodup) (sound : Sound nodes (pending ++ s.waiting) s) :
    ∃ s', s.fields (limit + 1) id = .ok (fields, s') ∧ Sound nodes (pending ++ s'.waiting) s' ∧
      Extends nodes level s s' ∧ ∀ field ∈ fields, s'.Begun field.1 ∧ s'.Begun field.2 := by
  have known : nodes.fields? id = some fields := by simp [fields?, node]
  have plain : ∀ field ∈ fields, ∃ v, nodes.IsWhole field.1 v :=
    ((List.forall₂_and_left _ _).mp (keys.imp fun field part whole => ⟨⟨_, whole⟩, whole⟩)).1
  have merged : s.nodes.mergeFrom (limit + 1) [] id = .ok nodes := by rw [sound.same, mergeFrom_eq node plain]
  have kept : { s with nodes := nodes } = s := by rw [← sound.same]
  -- the step of the fold is named here, and known by what it does
  obtain ⟨step, whole, steps⟩ : ∃ step : List (NodeId × Datum × NodeId) × Drafts → NodeId × NodeId →
      Except Fault (List (NodeId × Datum × NodeId) × Drafts),
      s.fields (limit + 1) id = (do
        if (s.nodes.fields? id).isNone then .error .yaml
        let nodes ← s.nodes.mergeFrom (limit + 1) [] id
        let out ← ((nodes.fields? id).getD []).foldlM step (([] : List (NodeId × Datum × NodeId)), { s with nodes := nodes })
        return (out.1.map fun f => (f.1, f.2.2), out.2)) ∧
      ∀ found s field, step (found, s) field = (do
        let s ← s.start field.1
        let key ← s.key field.1
        let s ← s.start field.2
        return (setField field.1 key field.2 found, s)) := ⟨_, rfl, fun _ _ _ => rfl⟩
  obtain ⟨found, s', folded, same, sound', grown, all⟩ :=
    sound.startFields steps keys values distinct (List.forall_mem_nil _)
  refine ⟨s', ?_, sound', grown, all⟩
  have present : (s.nodes.fields? id).isNone = false := by rw [sound.same, known]; rfl
  rw [whole, present]
  simp only [Bool.false_eq_true, if_false, merged, bind, Except.bind, kept, known, Option.getD_some]
  rw [folded]
  simp only [List.nil_append, same, pure, Except.pure]

/-! ## All values -/

/-- A node that is no scalar without parts has a list or a record as its draft, if that is begun. -/
theorem Sound.exists_list {items : List NodeId} (sound : Sound nodes waiting s) (begun : s.Begun id)
    (node : nodes[id]? = some ⟨some .sequence, .sequence items⟩) : ∃ parts, s.draft? id = some (.list parts) := by
  obtain ⟨draft, found⟩ := Option.isSome_iff_exists.mp begun
  have noFields : nodes.fields? id = none := by simp [fields?, node]
  cases sound.right id draft found with
  | whole own =>
    have none := own.apart.1
    simp [items?, node] at none
  | list own all => exact ⟨_, found⟩
  | record own all => cases noFields.symm.trans own
  | emptyList open' own => exact ⟨_, found⟩
  | emptyRecord open' own => simp [noFields] at own

/-- A mapping has a record as its draft, if that is begun. -/
theorem Sound.exists_record {fields : List (NodeId × NodeId)} (sound : Sound nodes waiting s) (begun : s.Begun id)
    (node : nodes[id]? = some ⟨some .mapping, .mapping fields⟩) : ∃ parts, s.draft? id = some (.record parts) := by
  obtain ⟨draft, found⟩ := Option.isSome_iff_exists.mp begun
  have noItems : nodes.items? id = none := by simp [items?, node]
  cases sound.right id draft found with
  | whole own =>
    have none := own.apart.2
    simp [fields?, node] at none
  | list own all => cases noItems.symm.trans own
  | record own all => exact ⟨_, found⟩
  | emptyList open' own => simp [noItems] at own
  | emptyRecord open' own => exact ⟨_, found⟩

/-- A node whose draft is whole need not wait. -/
theorem Sound.settled (sound : Sound nodes (id :: waiting) s) (draft : s.draft? id = some (.whole d))
    (own : nodes.IsWhole id d) : Sound nodes waiting s := by
  refine ⟨sound.same, sound.size, fun other draft' found => ?_⟩
  by_cases same : other = id
  · subst same
    obtain rfl := Option.some.inj (draft.symm.trans found)
    exact .whole own
  · exact (sound.right other draft' found).mono (fun _ earlier => earlier) fun waits =>
      (List.mem_cons.mp waits).resolve_left same

/-- A node that has its parts, all begun since, no longer waits. -/
theorem Sound.settle {n : Node} (sound : Sound nodes ((id :: pending) ++ s'.waiting) s')
    (grown : Extends nodes level s s') (node : nodes[id]? = some n) (right : ∀ waits, IsRight nodes s'.Begun waits id draft) :
    Sound nodes (pending ++ (s'.put id draft).waiting) (s'.put id draft) ∧ Extends nodes level s (s'.put id draft) := by
  have inside : id < nodes.size := (Array.getElem?_eq_some_iff.mp node).1
  have still (other : NodeId) (waits : other ∈ id :: pending ++ s'.waiting) (different : other ≠ id) :
      other ∈ pending ++ (s'.put id draft).waiting := (List.mem_cons.mp waits).resolve_left different
  obtain ⟨kept, more, _⟩ := sound.put inside ((right _).mono (fun _ begun => .inl begun) fun waits => waits) still
  obtain ⟨new, waiting, each⟩ := grown.waiting
  exact ⟨kept, fun other earlier => more other (grown.begun other earlier), new, waiting, fun other member =>
    ⟨more other (each other member).1, (each other member).2⟩⟩

/-- A node that waits is given its parts, and no longer waits. -/
theorem Sound.fill (sound : Sound nodes (id :: (pending ++ s.waiting)) s) (begun : s.Begun id)
    (represented : nodes.Represents (level + 1) id d) :
    ∃ s', s.fill (limit + 1) id = .ok s' ∧ Sound nodes (pending ++ s'.waiting) s' ∧ Extends nodes level s s' := by
  have ahead : Sound nodes ((id :: pending) ++ s.waiting) s := sound
  cases represented with
  | whole own =>
    have draft := sound.draft_eq begun own
    refine ⟨s, ?_, sound.settled draft own, extends_refl nodes level s⟩
    rw [Drafts.fill, draft]
    rfl
  | @list items values node later each =>
    obtain ⟨_, draft⟩ := sound.exists_list begun node
    obtain ⟨s', started, sound', grown, all⟩ := Sound.startAll each ahead
    have own : nodes.items? id = some items := by simp [items?, node]
    obtain ⟨kept, grown⟩ := sound'.settle grown node fun _ => .list own all
    refine ⟨_, ?_, kept, grown⟩
    rw [Drafts.fill, draft]
    simp only [sound.same, own, started, bind, Except.bind]
    rfl
  | @record fields parts node later distinct keys values =>
    obtain ⟨_, draft⟩ := sound.exists_record begun node
    obtain ⟨s', started, sound', grown, all⟩ : ∃ s', s.fields (limit + 1) id = .ok (fields, s') ∧
        Sound nodes ((id :: pending) ++ s'.waiting) s' ∧ Extends nodes level s s' ∧
          ∀ field ∈ fields, s'.Begun field.1 ∧ s'.Begun field.2 := Sound.fields node keys values distinct ahead
    have own : nodes.fields? id = some fields := by simp [fields?, node]
    obtain ⟨kept, grown⟩ := sound'.settle grown node fun _ => .record own all
    refine ⟨_, ?_, kept, grown⟩
    rw [Drafts.fill, draft]
    simp only [started, bind, Except.bind]
    rfl

/-- All nodes that wait are given their parts. -/
theorem Sound.fillEach {ids : List NodeId} (sound : Sound nodes (ids ++ s.waiting) s)
    (each : ∀ id ∈ ids, s.Begun id ∧ ∃ d, nodes.Represents (level + 1) id d) :
    ∃ s', ids.foldlM (Drafts.fill (limit + 1)) s = .ok s' ∧ Sound nodes s'.waiting s' ∧ Extends nodes level s s' := by
  induction ids generalizing s with
  | nil => exact ⟨s, rfl, sound, extends_refl nodes level s⟩
  | cons id ids inductionHypothesis =>
    obtain ⟨⟨begun, d, represented⟩, others⟩ := List.forall_mem_cons.mp each
    obtain ⟨between, filled, sound, grown⟩ : ∃ s', s.fill (limit + 1) id = .ok s' ∧
        Sound nodes (ids ++ s'.waiting) s' ∧ Extends nodes level s s' := sound.fill begun represented
    obtain ⟨s', folded, sound, further⟩ := inductionHypothesis sound fun other member =>
      ⟨grown.begun other (others other member).1, (others other member).2⟩
    refine ⟨s', ?_, sound, grown.trans further⟩
    rw [List.foldlM_cons, filled]
    exact folded

/-- Where nothing waits, nothing is left to do. -/
theorem fillAll_done (done : s.waiting = []) (limit fuel : Nat) : Drafts.fillAll limit fuel s = .ok s := by
  cases fuel with
  | zero => rfl
  | succ fuel =>
    rw [Drafts.fillAll, done]
    rfl

/-- When nothing waits any more, all values have their parts. -/
theorem Sound.fillAll (sound : Sound nodes s.waiting s)
    (each : ∀ id ∈ s.waiting, s.Begun id ∧ ∃ d, nodes.Represents level id d) (enough : level ≤ fuel) :
    ∃ s', Drafts.fillAll (limit + 1) fuel s = .ok s' ∧ Sound nodes [] s' ∧ ∀ id, s.Begun id → s'.Begun id := by
  induction level generalizing s fuel with
  | zero =>
    have done : s.waiting = [] := List.eq_nil_iff_forall_not_mem.mpr fun id member => by
      obtain ⟨_, _, never⟩ := each id member
      exact never
    exact ⟨s, fillAll_done done _ fuel, done ▸ sound, fun _ begun => begun⟩
  | succ level inductionHypothesis =>
    by_cases done : s.waiting = []
    · exact ⟨s, fillAll_done done _ fuel, done ▸ sound, fun _ begun => begun⟩
    obtain ⟨fewer, rfl⟩ : ∃ fewer, fuel = fewer + 1 := ⟨fuel - 1, by omega⟩
    let ahead : Drafts := { s with waiting := [] }
    have all : Sound nodes (s.waiting.reverse ++ ahead.waiting) ahead :=
      ⟨sound.same, sound.size, fun id draft found => (sound.right id draft found).mono (fun _ begun => begun) fun waits =>
        List.mem_append_left _ (List.mem_reverse.mpr waits)⟩
    obtain ⟨between, folded, sound', grown⟩ : ∃ s', s.waiting.reverse.foldlM (Drafts.fill (limit + 1)) ahead = .ok s' ∧
        Sound nodes s'.waiting s' ∧ Extends nodes level ahead s' :=
      all.fillEach fun id member => each id (List.mem_reverse.mp member)
    obtain ⟨more, waiting, new⟩ := grown.waiting
    have waiting : between.waiting = more := by rw [waiting]; exact List.append_nil more
    obtain ⟨s', filled, sound'', further⟩ := inductionHypothesis sound' (fun id member => new id (waiting ▸ member))
      (Nat.le_of_succ_le_succ enough)
    refine ⟨s', ?_, sound'', fun id begun => further id (grown.begun id begun)⟩
    have left : s.waiting.isEmpty = false := by simpa using done
    rw [Drafts.fillAll, left]
    exact Outcome.bind_eq_ok.mpr ⟨between, folded, filled⟩

end Drafts

/-- The drafts of a document whose root represents a datum are right, and nothing waits. -/
theorem Document.drafts_eq {nodes : Nodes} {root : NodeId} {d : Datum} {level : Nat}
    (represented : nodes.Represents level root d) (enough : level ≤ nodes.size + 1) :
    ∃ s : Drafts, Document.drafts ⟨nodes, root⟩ = .ok s.made ∧ s.Sound nodes [] ∧ s.Begun root := by
  let s : Drafts := ⟨nodes, Array.replicate nodes.size none, []⟩
  have fresh (id : NodeId) : s.draft? id = none := by
    simp only [s, Drafts.draft?, Array.getElem?_replicate]
    split_ifs <;> rfl
  have sound : Drafts.Sound nodes ([] ++ s.waiting) s :=
    ⟨rfl, by simp [s], fun id draft found => by rw [fresh id] at found; cases found⟩
  obtain ⟨begun, started, sound, grown, now⟩ := sound.start represented
  obtain ⟨more, waiting, new⟩ := grown.waiting
  have waiting : begun.waiting = more := by rw [waiting]; exact List.append_nil more
  obtain ⟨s', filled, sound, further⟩ : ∃ s', Drafts.fillAll (nodes.fieldCount + 1) (nodes.size + 1) begun = .ok s' ∧
      s'.Sound nodes [] ∧ ∀ id, begun.Begun id → s'.Begun id :=
    sound.fillAll (fun id member => new id (waiting ▸ member)) enough
  refine ⟨s', ?_, sound, further root now⟩
  exact Outcome.bind_eq_ok.mpr ⟨begun, started, Outcome.bind_eq_ok.mpr ⟨s', filled, rfl⟩⟩

end MusicScore.Yaml
