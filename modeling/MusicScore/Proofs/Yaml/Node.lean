import MusicScore.Proofs.Yaml.Lines
import MusicScore.Yaml.Reading

/-!
# The nodes of what was written

The nodes of a document are numbered as they begin, so a collection comes before its parts. What is written has neither
anchors nor tags, and every node of it is a part at most once: its nodes are told by the number of the first one alone.
Such a plan is given for scalars, lists and records, and the tokens of each of them are read as the nodes of its plan.
-/
namespace MusicScore.Yaml.Node

variable {fuel levels : Nat} {position : Position} {s : Source} {tokens rest : List Token} {nodes inner : List Node}
  {t : Token} {base : NodeId}

/-! ## Plans -/

/-- The nodes of a piece of a document, given the number of the first one. -/
abbrev Plan := NodeId → List Node

/-- The numbers of pieces that follow one another. -/
def placesOf : List Plan → NodeId → List NodeId
  | [], _ => []
  | plan :: plans, base => base :: placesOf plans (base + (plan base).length)

/-- The nodes of pieces that follow one another. -/
def nodesOf : List Plan → Plan
  | [], _ => []
  | plan :: plans, base => plan base ++ nodesOf plans (base + (plan base).length)

/-- The numbers of keys and values that follow one another. -/
def fieldsOf : List (List Char × Plan) → NodeId → List (NodeId × NodeId)
  | [], _ => []
  | (_, plan) :: fields, base => (base, base + 1) :: fieldsOf fields (base + 1 + (plan (base + 1)).length)

/-- A scalar. -/
def scalarPlan (text : List Char) (isPlain : Bool) : Plan := fun _ => [ofScalar none isPlain text]

/-- A list of pieces. -/
def listPlan (plans : List Plan) : Plan := fun base =>
  ofItems none (placesOf plans (base + 1)) :: nodesOf plans (base + 1)

/-- The keys and values of a record. -/
def partPlans (fields : List (List Char × Plan)) : List Plan :=
  fields.flatMap fun field => [scalarPlan field.1 true, field.2]

/-- A record of pieces with keys. -/
def recordPlan (fields : List (List Char × Plan)) : Plan := fun base =>
  ofFields none (fieldsOf fields (base + 1)) :: nodesOf (partPlans fields) (base + 1)

/-! ## Nodes without anchors and tags -/

/-- A token at which a node begins that has neither an anchor nor a tag. -/
def isBare : Token → Bool
  | .alias _ => false
  | .anchor _ => false
  | .tag _ => false
  | _ => true

/-- The source after some tokens of which these nodes were made. -/
def Source.after (s : Source) (rest : List Token) (made : List Node) : Source :=
  { s with tokens := rest, nodes := s.nodes ++ made.toArray }

@[simp] theorem Source.after_tokens (s : Source) (rest : List Token) (made : List Node) :
    (s.after rest made).tokens = rest := rfl

@[simp] theorem Source.after_depth (s : Source) (rest : List Token) (made : List Node) :
    (s.after rest made).depth = s.depth := rfl

@[simp] theorem Source.after_size (s : Source) (rest : List Token) (made : List Node) :
    (s.after rest made).nodes.size = s.nodes.size + made.length := by simp [Source.after]

/-- After one piece comes the next. -/
@[simp] theorem Source.after_after (s : Source) (rest rest' : List Token) (made more : List Node) :
    (s.after rest made).after rest' more = s.after rest' (made ++ more) := by simp [Source.after]

/-- The source inside of a node that begins. -/
def Source.inside (s : Source) : Source := { s with nodes := s.nodes.push missing, depth := s.depth + 1 }

/-- A node comes before the nodes in it. -/
theorem read_of_body {node : Node} (begins : s.tokens.head?.any isBare = true) (room : s.depth ≤ deepest)
    (found : body fuel position false none s.inside = .ok (node, s.inside.after rest inner)) :
    read (fuel + 1) position s = .ok (s.nodes.size, s.after rest (node :: inner)) := by
  obtain ⟨tokens, nodes, anchors, handles, depth⟩ := s
  cases tokens with
  | nil => cases begins
  | cons t tokens =>
    have near : ¬ deepest < depth := Nat.not_lt.mpr room
    have own : (Source.properties ⟨t :: tokens, nodes, anchors, handles, depth⟩) =
        .ok (none, none, ⟨t :: tokens, nodes, anchors, handles, depth⟩) := by
      cases t <;> first | rfl | cases begins
    have deeper : body fuel position false none ⟨t :: tokens, nodes.push missing, anchors, handles, depth + 1⟩ =
        .ok (node, ⟨rest, nodes.push missing ++ inner.toArray, anchors, handles, depth + 1⟩) := found
    cases t <;> first
      | cases begins
        done
      | simp [read, near, own, bind, Except.bind, Source.push, Source.setAnchor, Source.deeper, deeper, Source.put,
          Source.shallower, Source.after, pure, Except.pure]

/-! ## What the tokens are read as -/

/-- The tokens before others are read as planned, where nodes may stand in the node so deep. -/
def ReadsAs (position : Position) (levels : Nat) (tokens rest : List Token) (plan : Plan) : Prop :=
  ∀ {fuel : Nat} {s : Source}, s.tokens = tokens ++ rest → 4 * tokens.length ≤ fuel → s.depth + levels ≤ deepest →
    read fuel position s = .ok (s.nodes.size, s.after rest (plan s.nodes.size))

/-- A scalar is read anywhere. -/
theorem readsAs_scalar (position : Position) (levels : Nat) (text : List Char) (isPlain : Bool) (rest : List Token) :
    ReadsAs position levels [.scalar text isPlain] rest (scalarPlan text isPlain) := by
  intro fuel s ahead enough room
  obtain ⟨less, rfl⟩ : ∃ less, fuel = less + 1 + 1 := ⟨fuel - 2, by simp at enough; omega⟩
  refine read_of_body (by rw [ahead]; rfl) (by omega) ?_
  have inside : s.inside.tokens = .scalar text isPlain :: rest := ahead
  simp only [body, inside]
  simp [Source.after, Source.rest, inside]

/-- A value ends before the next key and at the end of its record. -/
def Ends (rest : List Token) : Prop := ∀ t ∈ rest.head?, endsField t = true

/-- The tokens are those of the value of a field, which is read as planned. -/
structure IsValueNode (levels : Nat) (tokens : List Token) (plan : Plan) : Prop where
  begins : ∃ t more, tokens = t :: more ∧ endsField t = false
  reads : ∀ rest, Ends rest → ReadsAs .field levels tokens rest plan

/-- Where a node begins it is read. -/
theorem optional_eq {isEnd : Token → Bool} (begins : s.tokens.head?.any isEnd = false) :
    optional (fuel + 1) isEnd position s = read fuel position s := by
  rw [optional, begins]
  rfl

/-- The tokens of fields. -/
def fieldTokens (fields : List (List Char × List Token × Plan)) : List Token :=
  fields.flatMap fun field => .key :: .scalar field.1 true :: .value :: field.2.1

@[simp] theorem fieldTokens_cons (field : List Char × List Token × Plan)
    (fields : List (List Char × List Token × Plan)) :
    fieldTokens (field :: fields) = .key :: .scalar field.1 true :: .value :: (field.2.1 ++ fieldTokens fields) := rfl

/-- What comes before fields and the end of their record ends there. -/
theorem ends_fieldTokens (fields : List (List Char × List Token × Plan)) (rest : List Token) :
    Ends (fieldTokens fields ++ .blockEnd :: rest) := by
  cases fields with
  | nil => exact fun t first => Option.some.inj first ▸ rfl
  | cons field fields => exact fun t first => Option.some.inj first ▸ rfl

/-- The key of a field is read. -/
theorem optional_key {name : List Char} (ahead : s.tokens = .scalar name true :: rest) (enough : 4 ≤ fuel)
    (room : s.depth ≤ deepest) :
    optional (fuel + 1) endsField .field s = .ok (s.nodes.size, s.after rest [ofScalar none true name]) := by
  have key : read fuel .field s = .ok (s.nodes.size, s.after rest [ofScalar none true name]) :=
    readsAs_scalar .field 0 name true rest ahead enough room
  rw [optional_eq (by rw [ahead]; rfl), key]

/-- The value of a field is read behind its mark. -/
theorem fieldValue_eq {plan : Plan} (value : IsValueNode levels tokens plan) (ends : Ends rest)
    (ahead : s.tokens = .value :: (tokens ++ rest)) (enough : 4 * tokens.length ≤ fuel)
    (room : s.depth + levels ≤ deepest) :
    fieldValue (fuel + 2) endsField .field s = .ok (s.nodes.size, s.after rest (plan s.nodes.size)) := by
  obtain ⟨t, more, first, goesOn⟩ := value.begins
  have within : s.rest.tokens = tokens ++ rest := by
    rw [Source.rest, ahead]
    rfl
  have found : read fuel .field s.rest = .ok (s.nodes.size, s.after rest (plan s.nodes.size)) :=
    value.reads rest ends within enough room
  rw [fieldValue, ahead]
  dsimp only
  rw [optional_eq (by simp [within, first, goesOn]), found]

/-- Fields are read up to the end of their record. -/
theorem blockFields_eq {fields : List (List Char × List Token × Plan)}
    (each : ∀ field ∈ fields, IsValueNode levels field.2.1 field.2.2)
    (ahead : s.tokens = fieldTokens fields ++ .blockEnd :: rest) (enough : 4 * (fieldTokens fields).length + 4 ≤ fuel)
    (room : s.depth + levels ≤ deepest) :
    blockFields fuel s = .ok (fieldsOf (fields.map fun field => (field.1, field.2.2)) s.nodes.size,
      s.after rest (nodesOf (partPlans (fields.map fun field => (field.1, field.2.2))) s.nodes.size)) := by
  induction fields generalizing s fuel with
  | nil =>
    obtain ⟨less, rfl⟩ : ∃ less, fuel = less + 1 := ⟨fuel - 1, by omega⟩
    have closed : s.tokens = .blockEnd :: rest := ahead
    rw [blockFields, closed]
    simp [fieldsOf, nodesOf, partPlans, Source.after, Source.rest, closed]
  | cons field fields inductionHypothesis =>
    obtain ⟨name, tokens, plan⟩ := field
    obtain ⟨less, rfl⟩ : ∃ less, fuel = less + 3 := ⟨fuel - 3, by omega⟩
    simp only [fieldTokens_cons, List.cons_append, List.append_assoc, List.length_cons, List.length_append]
      at ahead enough
    have own : IsValueNode levels tokens plan := each _ List.mem_cons_self
    let others := fieldTokens fields ++ .blockEnd :: rest
    let named := s.after (.value :: (tokens ++ others)) [ofScalar none true name]
    let valued := named.after others (plan named.nodes.size)
    have keyAhead : s.rest.tokens = .scalar name true :: .value :: (tokens ++ others) := by
      rw [Source.rest, ahead]
      rfl
    have key : optional (less + 2) endsField .field s.rest = .ok (s.nodes.size, named) :=
      optional_key keyAhead (by omega) (Nat.le_of_add_right_le room)
    have value : fieldValue (less + 2) endsField .field named = .ok (named.nodes.size, valued) :=
      fieldValue_eq own (ends_fieldTokens fields rest) rfl (by omega) room
    have further : blockFields (less + 2) valued =
        .ok (fieldsOf (fields.map fun field => (field.1, field.2.2)) valued.nodes.size,
          valued.after rest (nodesOf (partPlans (fields.map fun field => (field.1, field.2.2))) valued.nodes.size)) :=
      inductionHypothesis (fun field member => each field (List.mem_cons_of_mem _ member)) rfl (by omega) room
    rw [blockFields, ahead]
    simp only [bind, Except.bind, key, value, further]
    simp [valued, named, fieldsOf, nodesOf, partPlans, scalarPlan, pure, Except.pure, Nat.add_assoc, Nat.add_comm 1]

/-- A record is read wherever collections may be in block form. -/
theorem readsAs_record {fields : List (List Char × List Token × Plan)} (block : position.inBlock = true)
    (each : ∀ field ∈ fields, IsValueNode levels field.2.1 field.2.2) (rest : List Token) :
    ReadsAs position (levels + 1) (recordTokens (fieldTokens fields)) rest
      (recordPlan (fields.map fun field => (field.1, field.2.2))) := by
  intro fuel s ahead enough room
  simp only [recordTokens, List.cons_append, List.length_cons, List.length_append, List.length_nil] at enough
  obtain ⟨less, rfl⟩ : ∃ less, fuel = less + 1 + 1 := ⟨fuel - 2, by omega⟩
  refine read_of_body (by rw [ahead]; rfl) (by omega) ?_
  have inside : s.inside.tokens = .mappingStart :: (fieldTokens fields ++ .blockEnd :: rest) := by
    rw [Source.inside, ahead]
    simp [recordTokens]
  have within : s.inside.rest.tokens = fieldTokens fields ++ .blockEnd :: rest := by
    rw [Source.rest, inside]
    rfl
  have deeper : s.inside.rest.depth + levels ≤ deepest := by
    have further : s.inside.rest.depth = s.depth + 1 := rfl
    omega
  have found : blockFields less s.inside.rest = _ := blockFields_eq each within (by omega) deeper
  have size : s.inside.rest.nodes.size = s.nodes.size + 1 := by simp [Source.inside, Source.rest]
  rw [size] at found
  simp only [body, inside, block, if_true, found, bind, Except.bind]
  rfl

/-! ## Lists -/

/-- The tokens of items. -/
def itemTokens (items : List (List Token × Plan)) : List Token := items.flatMap fun item => .entry :: item.1

@[simp] theorem itemTokens_cons (item : List Token × Plan) (items : List (List Token × Plan)) :
    itemTokens (item :: items) = .entry :: (item.1 ++ itemTokens items) := rfl

/-- Items are read up to the next key or the end of the record around their list. -/
theorem marginItems_eq {items : List (List Token × Plan)}
    (each : ∀ item ∈ items, (∃ more, item.1 = .mappingStart :: more) ∧
      ∀ rest, ReadsAs .block levels item.1 rest item.2)
    (ahead : s.tokens = itemTokens items ++ rest) (ends : Ends rest)
    (enough : 4 * (itemTokens items).length + 1 ≤ fuel + 3 ∧ 0 < fuel) (room : s.depth + levels ≤ deepest) :
    marginItems fuel s = .ok (placesOf (items.map Prod.snd) s.nodes.size,
      s.after rest (nodesOf (items.map Prod.snd) s.nodes.size)) := by
  induction items generalizing s fuel with
  | nil =>
    obtain ⟨less, rfl⟩ : ∃ less, fuel = less + 1 := ⟨fuel - 1, by omega⟩
    have last : s.tokens = rest := ahead
    have stop : ∀ more, s.tokens ≠ .entry :: more := by
      rintro more same
      have ended := ends .entry (by rw [← last, same]; rfl)
      cases ended
    rw [marginItems]
    split
    · next more same => exact absurd same (stop _)
    · simp [placesOf, nodesOf, Source.after, ← last]
  | cons item items inductionHypothesis =>
    obtain ⟨tokens, plan⟩ := item
    obtain ⟨less, rfl⟩ : ∃ less, fuel = less + 2 := ⟨fuel - 2, by simp at enough; omega⟩
    obtain ⟨⟨more, record⟩, own⟩ := each _ List.mem_cons_self
    dsimp only at record own
    simp only [itemTokens_cons, List.cons_append, List.append_assoc, List.length_cons, List.length_append]
      at ahead enough
    have itemAhead : s.rest.tokens = tokens ++ (itemTokens items ++ rest) := by
      rw [Source.rest, ahead]
      rfl
    let s' := s.after (itemTokens items ++ rest) (plan s.nodes.size)
    have item : read less .block s.rest = .ok (s.nodes.size, s') := own _ itemAhead (by omega) room
    have read : optional (less + 1) endsMarginEntry .block s.rest = .ok (s.nodes.size, s') := by
      rw [optional_eq (by rw [itemAhead, record]; rfl), item]
    have others : marginItems (less + 1) s' = .ok (placesOf (items.map Prod.snd) s'.nodes.size,
        s'.after rest (nodesOf (items.map Prod.snd) s'.nodes.size)) :=
      inductionHypothesis (fun item member => each item (List.mem_cons_of_mem _ member)) rfl (by omega) room
    rw [marginItems, ahead]
    simp only [bind, Except.bind, read, others]
    simp [s', placesOf, nodesOf, pure, Except.pure]

/-- A list with items is the value of a field. -/
theorem isValueNode_list {items : List (List Token × Plan)} (nonempty : items ≠ [])
    (each : ∀ item ∈ items, (∃ more, item.1 = .mappingStart :: more) ∧
      ∀ rest, ReadsAs .block levels item.1 rest item.2) :
    IsValueNode (levels + 1) (itemTokens items) (listPlan (items.map Prod.snd)) := by
  obtain ⟨first, others, rfl⟩ := List.exists_cons_of_ne_nil nonempty
  refine ⟨⟨.entry, _, rfl, rfl⟩, fun rest ends fuel s ahead enough room => ?_⟩
  have some : 0 < (itemTokens (first :: others)).length := by simp
  obtain ⟨less, rfl⟩ : ∃ less, fuel = less + 1 + 1 := ⟨fuel - 2, by omega⟩
  have start : s.tokens = .entry :: (first.1 ++ itemTokens others ++ rest) := by
    rw [ahead]
    simp
  refine read_of_body (by rw [start]; rfl) (by omega) ?_
  have inside : s.inside.tokens = .entry :: (first.1 ++ itemTokens others ++ rest) := start
  have deeper : s.inside.depth + levels ≤ deepest := by
    have further : s.inside.depth = s.depth + 1 := rfl
    omega
  have found : marginItems less s.inside = _ := marginItems_eq each ahead ends (by omega) deeper
  have size : s.inside.nodes.size = s.nodes.size + 1 := by simp [Source.inside]
  rw [size] at found
  simp only [body, inside, Position.field, if_true, found, bind, Except.bind]
  rfl

/-- A list without items is the value of a field. -/
theorem isValueNode_brackets (levels : Nat) : IsValueNode levels [.bracketOpen, .bracketClose] (listPlan []) := by
  refine ⟨⟨.bracketOpen, _, rfl, rfl⟩, fun rest ends fuel s ahead enough room => ?_⟩
  simp only [List.length_cons, List.length_nil] at enough
  obtain ⟨less, rfl⟩ : ∃ less, fuel = less + 1 + 1 + 1 := ⟨fuel - 3, by omega⟩
  refine read_of_body (by rw [ahead]; rfl) (by omega) ?_
  have inside : s.inside.tokens = .bracketOpen :: .bracketClose :: rest := ahead
  have within : s.inside.rest.tokens = .bracketClose :: rest := by
    rw [Source.rest, inside]
    rfl
  simp only [body, inside, bracketItems, within, bind, Except.bind]
  simp [Source.after, Source.rest, inside, placesOf, nodesOf, pure, Except.pure]

/-- A scalar is the value of a field. -/
theorem isValueNode_scalar (levels : Nat) (text : List Char) (isPlain : Bool) :
    IsValueNode levels [.scalar text isPlain] (scalarPlan text isPlain) :=
  ⟨⟨_, _, rfl, rfl⟩, fun rest _ => readsAs_scalar .field levels text isPlain rest⟩

/-- A record that is the whole of a document is read as planned. -/
theorem ofTokens_record {fields : List (List Char × List Token × Plan)} (room : levels + 1 ≤ deepest)
    (each : ∀ field ∈ fields, IsValueNode levels field.2.1 field.2.2) :
    Document.ofTokens (recordTokens (fieldTokens fields) ++ [.streamEnd]) =
      .ok (some ⟨(recordPlan (fields.map fun field => (field.1, field.2.2)) 0).toArray, 0⟩) := by
  let s : Source := ⟨recordTokens (fieldTokens fields) ++ [.streamEnd], #[], [], Source.standardHandles, 0⟩
  have found : read (8 * s.tokens.length + 8) .block s = _ :=
    readsAs_record rfl each [.streamEnd] rfl (by simp [s]; omega) (by simpa [s] using room)
  have whole : Document.ofSource s =
      .ok ⟨(recordPlan (fields.map fun field => (field.1, field.2.2)) 0).toArray, 0⟩ := by
    rw [Document.ofSource, found]
    simp [bind, Except.bind, Document.onlyOne, Source.after, s]
  have other : Document.ofTokens s.tokens = (do return some (← Document.ofSource s)) := rfl
  have same : recordTokens (fieldTokens fields) ++ [.streamEnd] = s.tokens := rfl
  rw [same, other, whole]
  rfl

end MusicScore.Yaml.Node
