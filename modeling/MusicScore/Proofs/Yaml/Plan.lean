import MusicScore.Proofs.Yaml.Node
import MusicScore.Proofs.Yaml.Value

/-!
# What plans represent

The nodes of a plan represent a datum wherever they stand among others, and every one of them but the first is a part of
exactly one of them. Both are kept when lists and records are made of plans, so that the document of a plan stands for
the datum of the plan.
-/
namespace MusicScore.Yaml.Node

variable {nodes : Nodes} {base : NodeId} {plan : Plan} {d : Datum} {own more : List Node}

/-! ## Nodes among others -/

/-- The nodes stand among others, from a number on. -/
def Contains (nodes : Nodes) (base : NodeId) (own : List Node) : Prop :=
  ∀ i node, own[i]? = some node → nodes[base + i]? = some node

/-- The first of the nodes has the number, and the others come after it. -/
theorem Contains.cons {node : Node} (contains : Contains nodes base (node :: more)) :
    nodes[base]? = some node ∧ Contains nodes (base + 1) more := by
  refine ⟨contains 0 node rfl, fun i other found => ?_⟩
  rw [Nat.add_assoc, Nat.add_comm 1]
  exact contains (i + 1) other found

/-- Some of the nodes come first, and the others after them. -/
theorem Contains.append (contains : Contains nodes base (own ++ more)) :
    Contains nodes base own ∧ Contains nodes (base + own.length) more := by
  constructor
  · intro i node found
    refine contains i node ?_
    rw [List.getElem?_append_left (List.getElem?_eq_some_iff.mp found).1, found]
  · intro i node found
    rw [Nat.add_assoc]
    refine contains (own.length + i) node ?_
    rw [List.getElem?_append_right (Nat.le_add_right _ _), Nat.add_sub_cancel_left, found]

/-! ## Plans of data -/

/-- The number is one of those from `first` on, before `last`. -/
def Between (first last part : Nat) : Prop := first ≤ part ∧ part < last

/-- Fewer numbers stand between nearer ends. -/
theorem Between.mono {first last first' last' part : Nat} (between : Between first last part) (low : first' ≤ first)
    (high : last ≤ last') : Between first' last' part :=
  ⟨Nat.le_trans low between.1, Nat.lt_of_lt_of_le between.2 high⟩

/-- Numbers between different ends are different. -/
theorem Between.ne {first middle last part other : Nat} (left : Between first middle part)
    (right : Between middle last other) : part ≠ other :=
  Nat.ne_of_lt (Nat.lt_of_lt_of_le left.2 right.1)

/-- The nodes of the plan represent the datum, and each of them but the first is a part exactly once. -/
structure IsPlanOf (plan : Plan) (d : Datum) : Prop where
  some : ∀ base, 0 < (plan base).length
  represents : ∀ {nodes : Nodes} {base : NodeId}, Contains nodes base (plan base) →
    nodes.Represents (plan base).length base d
  once : ∀ base, ((plan base).flatMap Node.parts).Nodup
  within : ∀ base, ∀ part ∈ (plan base).flatMap Node.parts, Between (base + 1) (base + (plan base).length) part

/-- A scalar is planned as a node of its value. -/
theorem isPlanOf_scalar {text : List Char} {isPlain : Bool}
    (value : ∀ {nodes : Nodes} {id : NodeId}, nodes[id]? = some (ofScalar none isPlain text) → nodes.IsWhole id d) :
    IsPlanOf (scalarPlan text isPlain) d :=
  ⟨fun _ => Nat.one_pos, fun contains => .whole (value contains.cons.1), fun _ => List.nodup_nil,
    fun _ _ member => by cases member⟩

section

variable {plans : List Plan} {values : List Datum}

/-- Where pieces follow one another, each represents its datum. -/
theorem represents_placesOf (each : List.Forall₂ IsPlanOf plans values) {level : Nat}
    (contains : Contains nodes base (nodesOf plans base)) (enough : (nodesOf plans base).length ≤ level) :
    List.Forall₂ (nodes.Represents level) (placesOf plans base) values := by
  induction each generalizing base with
  | nil => exact .nil
  | @cons plan _ plans _ first _ inductionHypothesis =>
    have both : Contains nodes base (plan base ++ nodesOf plans (base + (plan base).length)) := contains
    obtain ⟨own, others⟩ := both.append
    simp only [nodesOf, List.length_append] at enough
    exact .cons ((first.represents own).mono (by omega)) (inductionHypothesis others (by omega))

/-- Where pieces follow one another, no node is a part twice, and their first nodes are parts of none of them. -/
theorem once_placesOf (each : List.Forall₂ IsPlanOf plans values) (base : Nat) :
    (placesOf plans base ++ (nodesOf plans base).flatMap Node.parts).Nodup ∧
      ∀ part ∈ placesOf plans base ++ (nodesOf plans base).flatMap Node.parts,
        Between base (base + (nodesOf plans base).length) part := by
  induction each generalizing base with
  | nil => exact ⟨List.nodup_nil, by simp [placesOf, nodesOf]⟩
  | @cons plan _ plans _ first _ inductionHypothesis =>
    have some : 0 < (plan base).length := first.some base
    have own := first.within base
    have length : (nodesOf (plan :: plans) base).length =
        (plan base).length + (nodesOf plans (base + (plan base).length)).length := List.length_append
    -- the number of the first piece, the parts in it, and all that belongs to the others
    obtain ⟨once, within⟩ := inductionHypothesis (base + (plan base).length)
    have whole : (placesOf (plan :: plans) base ++ (nodesOf (plan :: plans) base).flatMap Node.parts).Perm
        (base :: ((plan base).flatMap Node.parts ++ (placesOf plans (base + (plan base).length) ++
          (nodesOf plans (base + (plan base).length)).flatMap Node.parts))) := by
      rw [placesOf, nodesOf, List.cons_append, List.flatMap_append]
      refine List.Perm.cons base ?_
      rw [← List.append_assoc, ← List.append_assoc]
      exact List.perm_append_comm.append_right _
    have here : Between base (base + 1) base := ⟨Nat.le_refl base, Nat.lt_succ_self base⟩
    rw [length]
    constructor
    · refine whole.nodup_iff.mpr (List.nodup_cons.mpr ⟨fun member => ?_, List.nodup_append.mpr ⟨first.once base, once, ?_⟩⟩)
      · rcases List.mem_append.mp member with early | late
        · exact (here.ne (own base early)) rfl
        · exact (here.mono (Nat.le_refl _) (Nat.add_le_add_left some base)).ne (within base late) rfl
      · exact fun part early other late => (own part early).ne (within other late)
    · intro part member
      rcases List.mem_cons.mp (whole.mem_iff.mp member) with rfl | inside
      · exact here.mono (Nat.le_refl _) (by omega)
      · rcases List.mem_append.mp inside with early | late
        · exact (own part early).mono (Nat.le_succ base) (by omega)
        · exact (within part late).mono (Nat.le_add_right base _) (by omega)

/-- A list of plans is a plan of the list. -/
theorem isPlanOf_list (each : List.Forall₂ IsPlanOf plans values) : IsPlanOf (listPlan plans) (.ofList values) := by
  refine ⟨fun _ => Nat.succ_pos _, fun {nodes base} contains => ?_, fun base => ?_, fun base part member => ?_⟩
  · obtain ⟨node, inner⟩ := contains.cons
    have later : ∀ item ∈ placesOf plans (base + 1), base < item := fun item member =>
      ((once_placesOf each (base + 1)).2 item (List.mem_append_left _ member)).1
    exact .list node later (represents_placesOf each inner (Nat.le_refl _))
  · exact (once_placesOf each (base + 1)).1
  · refine ((once_placesOf each (base + 1)).2 part member).mono (Nat.le_refl _) ?_
    simp only [listPlan, List.length_cons]
    omega

end

section

variable {fields : List (List Char × Plan)} {parts : List (String × Datum)}

/-- The text is read as the key, and the plan is one of the value. -/
structure IsFieldOf (field : List Char × Plan) (part : String × Datum) : Prop where
  key : ∀ {nodes : Nodes} {id : NodeId}, nodes[id]? = some (ofScalar none true field.1) →
    nodes.IsWhole id (.text part.1)
  value : IsPlanOf field.2 part.2

/-- The keys and values of fields are plans of their data. -/
theorem isPlanOf_parts (each : List.Forall₂ IsFieldOf fields parts) :
    List.Forall₂ IsPlanOf (partPlans fields) (parts.flatMap fun part => [.text part.1, part.2]) := by
  induction each with
  | nil => exact .nil
  | cons first _ inductionHypothesis => exact .cons (isPlanOf_scalar first.key) (.cons first.value inductionHypothesis)

/-- The numbers of keys and values are those of the pieces. -/
theorem flatMap_fieldsOf (fields : List (List Char × Plan)) (base : NodeId) :
    (fieldsOf fields base).flatMap (fun field => [field.1, field.2]) = placesOf (partPlans fields) base := by
  induction fields generalizing base with
  | nil => rfl
  | cons field fields inductionHypothesis =>
    rw [fieldsOf, List.flatMap_cons, inductionHypothesis]
    rfl

/-- The keys and the values represent their data. -/
theorem represents_fieldsOf (each : List.Forall₂ IsFieldOf fields parts) {level : Nat}
    (contains : Contains nodes base (nodesOf (partPlans fields) base))
    (enough : (nodesOf (partPlans fields) base).length ≤ level) :
    List.Forall₂ (fun field part => nodes.IsWhole field.1 (.text part.1)) (fieldsOf fields base) parts ∧
      List.Forall₂ (fun field part => nodes.Represents level field.2 part.2) (fieldsOf fields base) parts := by
  induction each generalizing base with
  | nil => exact ⟨.nil, .nil⟩
  | @cons field _ fields _ first _ inductionHypothesis =>
    have written : nodesOf (partPlans (field :: fields)) base = ofScalar none true field.1 ::
        (field.2 (base + 1) ++ nodesOf (partPlans fields) (base + 1 + (field.2 (base + 1)).length)) := rfl
    rw [written] at contains enough
    simp only [List.length_cons, List.length_append] at enough
    obtain ⟨key, others⟩ := contains.cons
    obtain ⟨value, further⟩ := others.append
    obtain ⟨keys, values⟩ := inductionHypothesis further (by omega)
    exact ⟨.cons (first.key key) keys, .cons ((first.value.represents value).mono (by omega)) values⟩

/-- A record of plans is a plan of the record. -/
theorem isPlanOf_record (distinct : (parts.map Prod.fst).Nodup) (each : List.Forall₂ IsFieldOf fields parts) :
    IsPlanOf (recordPlan fields) (.ofParts parts) := by
  have once (base : Nat) := once_placesOf (isPlanOf_parts each) (base + 1)
  have own (base : Nat) : (recordPlan fields base).flatMap Node.parts =
      placesOf (partPlans fields) (base + 1) ++ (nodesOf (partPlans fields) (base + 1)).flatMap Node.parts := by
    rw [recordPlan, List.flatMap_cons, ← flatMap_fieldsOf]
    rfl
  refine ⟨fun _ => Nat.succ_pos _, fun {nodes base} contains => ?_, fun base => ?_, fun base part member => ?_⟩
  · obtain ⟨node, inner⟩ := contains.cons
    obtain ⟨keys, values⟩ := represents_fieldsOf each inner (Nat.le_refl _)
    have later : ∀ field ∈ fieldsOf fields (base + 1), base < field.1 ∧ base < field.2 := by
      intro field member
      have part {number : NodeId} (side : number ∈ [field.1, field.2]) : base < number := by
        have place : number ∈ placesOf (partPlans fields) (base + 1) :=
          flatMap_fieldsOf fields (base + 1) ▸ List.mem_flatMap.mpr ⟨field, member, side⟩
        exact ((once base).2 number (List.mem_append_left _ place)).1
      exact ⟨part List.mem_cons_self, part (by simp)⟩
    exact .record node later distinct keys values
  · rw [own]
    exact (once base).1
  · rw [own] at member
    refine ((once base).2 part member).mono (Nat.le_refl _) ?_
    simp only [recordPlan, List.length_cons]
    omega

end

/-- The document of a plan stands for the datum of the plan. -/
theorem value_of_isPlanOf (isPlan : IsPlanOf plan d) : Document.value ⟨(plan 0).toArray, 0⟩ = .ok d := by
  have contains : Contains (plan 0).toArray 0 (plan 0) := fun i node found => by
    rw [Nat.zero_add, List.getElem?_toArray, found]
  refine Document.value_eq (isPlan.represents contains) (by simp) ?_ fun member => ?_
  · simpa using isPlan.once 0
  · have after := (isPlan.within 0 0 (by simpa using member)).1
    cases after

end MusicScore.Yaml.Node
