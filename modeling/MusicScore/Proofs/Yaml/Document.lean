import MusicScore.Proofs.Yaml.Number
import MusicScore.Proofs.Yaml.Plan

/-!
# Documents of tables

A table is a record whose values are without parts, or lists of tables; its keys are plain words. The document of a table
is read as the table: the texts of its parts are put together to lines, their tokens to those of the document, and their
plans to its nodes. Any text may stand in it. Whole numbers must not be longer than can be read, and binary64 numbers must
be in the format.
-/
namespace MusicScore.Yaml

open Node Lexer

/-! ## Values without parts -/

/-- A value without parts that is written so that it can be read. -/
inductive IsSimple : Datum → Prop where
  | nothing : IsSimple .nothing
  | truth (b : Bool) : IsSimple (.ofBool b)
  | whole {n : Int} (few : n.natAbs < Text.digitLimit) : IsSimple (.ofInt n)
  | float {x : Double} (format : x.InFormat) : IsSimple (.number (.float x))
  | text (s : String) : IsSimple (.text s)

/-- A scalar that is read as the datum. -/
def Scalar.Means (s : Scalar) (d : Datum) : Prop :=
  ∀ {nodes : Nodes} {id : NodeId}, nodes[id]? = some (ofScalar none (s.style = .plain) s.text) → nodes.IsWhole id d

/-- A plain scalar is read as the value of its text. -/
theorem means_plain {kind : Kind} {text : String} {tagLength : Nat} {d : Datum} (own : Kind.ofPlain text.toList = kind)
    (value : ∀ {nodes : Nodes} {id : NodeId}, nodes.text (nodes.size + 1) id = .ok text.toList →
      nodes.value kind id = .ok d) : (Scalar.untagged .plain text tagLength).Means d := by
  intro nodes id node
  subst own
  exact ⟨Kind.ofPlain text.toList, text.toList, node, value (by simp [Nodes.text, node, ofScalar, Scalar.untagged])⟩

/-- A text has a style that it admits. -/
theorem ofText_spec (s : List Char) :
    (Style.ofText s = .plain ∧ Kind.ofPlain s = .text ∧ Style.admitsPlain s = true) ∨
      (Style.ofText s = .single ∧ Style.admitsSingle s = true) ∨ Style.ofText s = .double := by
  unfold Style.ofText
  split_ifs with bare admitted
  · rw [Bool.and_eq_true, decide_eq_true_eq] at bare
    exact .inl ⟨rfl, bare⟩
  · exact .inr (.inl ⟨rfl, admitted⟩)
  · exact .inr (.inr rfl)

/-- A text is written so that it can be read as a text. -/
theorem legible_ofText (s : String) :
    (Scalar.untagged (.ofText s.toList) s 5).IsLegible ∧ (Scalar.untagged (.ofText s.toList) s 5).Means (.text s) := by
  have value {kind : Kind} {nodes : Nodes} {id : NodeId} (own : kind = .text)
      (node : nodes[id]? = some ⟨some kind, .scalar s.toList⟩) : nodes.IsWhole id (.text s) := by
    subst own
    refine ⟨.text, s.toList, node, ?_⟩
    simp [Nodes.value, Nodes.text, node, bind, Except.bind, pure, Except.pure]
  have nonempty (own : Kind.ofPlain s.toList = .text) : s.toList ≠ [] := by
    intro empty
    rw [empty] at own
    exact absurd own (by decide)
  rcases ofText_spec s.toList with ⟨style, own, admitted⟩ | ⟨style, admitted⟩ | style <;> rw [style]
  · exact ⟨⟨rfl, fun _ => ⟨nonempty own, admitted⟩, by rintro ⟨⟩, by rintro ⟨⟩⟩, fun node => value own node⟩
  · exact ⟨⟨rfl, by rintro ⟨⟩, fun _ => admitted, by rintro ⟨⟩⟩, fun node => value rfl node⟩
  · exact ⟨⟨rfl, by rintro ⟨⟩, by rintro ⟨⟩, by rintro ⟨⟩⟩, fun node => value rfl node⟩

/-- A value without parts has a scalar that is read as the value. -/
theorem IsSimple.exists_scalar {d : Datum} (simple : IsSimple d) :
    ∃ s, Scalar.ofDatum d = .ok s ∧ s.IsLegible ∧ s.Means d := by
  have plain {text : String} {tagLength : Nat} (nonempty : text.toList ≠ [])
      (admitted : Style.admitsPlain text.toList = true) :
      (Scalar.untagged .plain text tagLength).IsLegible :=
    ⟨rfl, fun _ => ⟨nonempty, admitted⟩, by rintro ⟨⟩, by rintro ⟨⟩⟩
  cases simple with
  | nothing =>
    refine ⟨_, rfl, plain (by decide) (by decide), @means_plain .nothing _ _ _ (by decide) fun text => ?_⟩
    simp [Nodes.value, text, bind, Except.bind, pure, Except.pure]
  | truth b =>
    have truth : truthOf (if b then "true" else "false").toList = .ok b := by cases b <;> decide
    refine ⟨_, rfl, plain (by cases b <;> decide) (by cases b <;> decide),
      @means_plain .truth _ _ _ (by cases b <;> decide) fun text => ?_⟩
    simp [Nodes.value, text, truth, bind, Except.bind, pure, Except.pure]
  | @whole n few =>
    have amount := isAmount_write n
    refine ⟨.untagged .plain (String.ofList (IntegerText.write n)) 5, ?_, plain ?_ ?_,
      @means_plain .whole _ _ _ ?_ fun text => ?_⟩
    · simp [Scalar.ofDatum, Datum.ofInt, Number.ofInt, wholeText, few, Shown.read, bind, Except.bind, pure, Except.pure]
    · simpa using amount.nonempty
    · simpa using amount.admitsPlain
    · simpa using ofPlain_write n
    · simp [Nodes.value, text, whole_write few, bind, Except.bind, pure, Except.pure]
  | @float x format =>
    obtain ⟨w, negative, proper, written, _⟩ := Double.exists_text Scalar.doubleStyle format
    have amount := isAmount_written proper negative
    rw [← written] at amount
    refine ⟨.untagged .plain (String.ofList (x.text Scalar.doubleStyle)) 7, rfl, plain ?_ ?_,
      @means_plain .float _ _ _ ?_ fun text => ?_⟩
    · simpa using amount.nonempty
    · simpa using amount.admitsPlain
    · simpa using ofPlain_text format
    · simp [Nodes.value, text, float_text format, bind, Except.bind, pure, Except.pure]
  | text s => exact ⟨_, rfl, legible_ofText s⟩

/-! ## Values behind keys -/

/-- What is written for a datum behind a key, with other data in it at most so deep, is read as planned. -/
structure IsTold (room : Nat) (d : Datum) (w : Written) (tokens : List Token) (plan : Plan) : Prop where
  written : ∀ depth p, depth + room ≤ Written.deepest → Written.ofDatumAt depth p d = .ok (w, p)
  value : ∀ margin column, margin + room + step < Folding.width → IsValue margin (w.valueText margin column) tokens
  node : IsValueNode room tokens plan
  isPlan : IsPlanOf plan d

/-- A scalar without a tag is written as it is. -/
theorem Scalar.IsLegible.scalarText {s : Scalar} (legible : s.IsLegible) (place : Place) :
    Written.scalarText none s place = s.style.write place s.text := by
  simp [Written.scalarText, properties, legible.untagged]

/-- A value without parts is read behind a key. -/
theorem IsSimple.exists_told {d : Datum} (simple : IsSimple d) (room : Nat) :
    ∃ w tokens plan, IsTold room d w tokens plan := by
  obtain ⟨s, found, legible, means⟩ := simple.exists_scalar
  refine ⟨.scalar none s, _, _, fun depth p _ => ?_, fun margin column narrow => ?_, isValueNode_scalar room _ _,
    isPlanOf_scalar means⟩
  · have other : Written.ofDatumAt depth p d = (do return (Written.scalar none (← Scalar.ofDatum d), p)) := by
      cases simple <;> rfl
    rw [other, found]
    rfl
  · rw [Written.valueText, legible.scalarText]
    exact legible.isValue (Nat.lt_add_of_pos_right (by decide)) (by dsimp only; omega)

/-! ## Records -/

/-- The text is a plain word that can be a key on its line. -/
structure IsKeyName (name : String) : Prop where
  isKey : IsKey name.toList
  plain : Style.ofText name.toList = .plain
  short : 5 + name.toList.length < Written.keyLimit

/-- The record has fields, with different keys that are plain words, and values of some sort. -/
structure IsRow (sort : Datum → Prop) (parts : List (String × Datum)) : Prop where
  some : parts ≠ []
  names : ∀ part ∈ parts, IsKeyName part.1
  distinct : (parts.map Prod.fst).Nodup
  values : ∀ part ∈ parts, sort part.2

/-- The scalar of a key. -/
def keyScalar (name : String) : Scalar := .untagged .plain name 5

section

variable {sort : Datum → Prop} {room margin : Nat} {w : Datum → Written} {tokens : Datum → List Token} {plan : Datum → Plan}
  {parts : List (String × Datum)}

/-- A plain word is a key on its line. -/
theorem IsKeyName.isSimpleKey {name : String} (isName : IsKeyName name) :
    (Written.scalar none (keyScalar name)).isSimpleKey = true := by
  have oneLine : Style.isMultiline name.toList = false := by
    refine List.any_eq_false.mpr fun ch member broken => ?_
    have noBreak := isLineBreak_of_isTyped (isName.isKey.isWord.solid ch member).1
    rw [isLineBreak, broken, Bool.or_true] at noBreak
    cases noBreak
  have some : name.toList.isEmpty = false := by simpa using isName.isKey.nonempty
  have short : decide (0 + 5 + name.toList.length < Written.keyLimit) = true := by simpa using isName.short
  simp [Written.isSimpleKey, keyScalar, Scalar.untagged, oneLine, some, short]

/-- A plain word is written as it is. -/
theorem IsKeyName.keyText {name : String} (isName : IsKeyName name) (place : Place) :
    (Written.scalar none (keyScalar name)).keyText place = name.toList := by
  have solid (ch : Char) (member : ch ∈ name.toList) : ch ≠ ' ' := (isName.isKey.isWord.solid ch member).2
  simp [Written.keyText, keyScalar, Scalar.untagged, Written.scalarText, properties, Style.write,
    Plain.plainFrom_last solid (Nat.lt_succ_self _)]

/-- The fields of a record are written one by one. -/
theorem ofFields_eq (told : ∀ d, sort d → IsTold room d (w d) (tokens d) (plan d)) (names : ∀ part ∈ parts, IsKeyName part.1)
    (values : ∀ part ∈ parts, sort part.2) {depth : Nat} (shallow : depth + room ≤ Written.deepest) (p : Written.Progress) :
    Written.ofFields depth p (parts.map fun part => (.text part.1, part.2)) =
      .ok (parts.map fun part => (.scalar none (keyScalar part.1), w part.2), p) := by
  induction parts with
  | nil => rfl
  | cons part parts inductionHypothesis =>
    obtain ⟨name, names⟩ := List.forall_mem_cons.mp names
    obtain ⟨value, values⟩ := List.forall_mem_cons.mp values
    have key : Written.ofDatumAt depth p (.text part.1) = .ok (.scalar none (keyScalar part.1), p) := by
      rw [keyScalar, ← name.plain]
      rfl
    rw [List.map_cons, Written.ofFields]
    simp only [key, (told part.2 value).written depth p shallow, inductionHypothesis names values, bind, Except.bind]
    rfl

/-- The line of a field. -/
def lineOf (margin : Nat) (w : Datum → Written) (part : String × Datum) : List Char :=
  part.1.toList ++ ':' :: (w part.2).valueText margin (margin + part.1.toList.length + 1)

/-- Every field has a line of its own. -/
theorem fieldTexts_eq (names : ∀ part ∈ parts, IsKeyName part.1) :
    Written.fieldTexts margin (parts.map fun part => (.scalar none (keyScalar part.1), w part.2)) =
      parts.map (lineOf margin w) := by
  induction parts with
  | nil => rfl
  | cons part parts inductionHypothesis =>
    obtain ⟨name, names⟩ := List.forall_mem_cons.mp names
    rw [List.map_cons, Written.fieldTexts, inductionHypothesis names]
    simp only [name.keyText]
    rw [if_pos name.isSimpleKey]
    rfl

/-- What is written for a row. -/
def rowWritten (w : Datum → Written) (parts : List (String × Datum)) : Written :=
  .record none none (parts.map fun part => (.scalar none (keyScalar part.1), w part.2))

/-- The lines of a row. -/
def rowText (margin : Nat) (w : Datum → Written) (parts : List (String × Datum)) : List Char :=
  lines margin (parts.map (lineOf margin w))

/-- The fields of a row, with the tokens and plans of their values. -/
def fieldOf (tokens : Datum → List Token) (plan : Datum → Plan) (part : String × Datum) : List Char × List Token × Plan :=
  (part.1.toList, tokens part.2, plan part.2)

/-- The tokens of the fields of a row. -/
def rowTokens (tokens : Datum → List Token) (plan : Datum → Plan) (parts : List (String × Datum)) : List Token :=
  fieldTokens (parts.map (fieldOf tokens plan))

/-- The plan of a row. -/
def rowPlan (plan : Datum → Plan) (parts : List (String × Datum)) : Plan :=
  recordPlan (parts.map fun part => (part.1.toList, plan part.2))

/-- The record of a row is written field by field. -/
theorem IsRow.ofDatumAt_eq (row : IsRow sort parts) (told : ∀ d, sort d → IsTold room d (w d) (tokens d) (plan d))
    {depth : Nat} (shallow : depth + (room + 1) ≤ Written.deepest) (p : Written.Progress) :
    Written.ofDatumAt depth p (.ofParts parts) = .ok (rowWritten w parts, p) := by
  have near : ¬ Written.deepest < depth := by omega
  have fields := ofFields_eq told row.names row.values (show depth + 1 + room ≤ Written.deepest by omega) p
  have record : Datum.ofParts parts = .record none (parts.map fun part => (.text part.1, part.2)) := rfl
  rw [record, Written.ofDatumAt, if_neg near]
  simp only [Written.Progress.present, bind, Except.bind, fields]
  rfl

/-- The lines of a row are read as its fields. -/
theorem IsRow.isField (row : IsRow sort parts) (told : ∀ d, sort d → IsTold room d (w d) (tokens d) (plan d))
    (narrow : margin + room + step < Folding.width) :
    IsField margin (rowText margin w parts) (rowTokens tokens plan parts) := by
  let entry (part : String × Datum) : List Char × List Token :=
    (lineOf margin w part, .key :: .scalar part.1.toList true :: .value :: tokens part.2)
  have each : ∀ part ∈ parts, IsField margin (entry part).1 (entry part).2 := fun part member =>
    ((told part.2 (row.values part member)).value margin _ narrow).isField (row.names part member).isKey
  obtain ⟨first, others, rfl⟩ := List.exists_cons_of_ne_nil row.some
  have inside : ∀ f ∈ entry first :: others.map entry, IsField margin f.1 f.2 := fun f member => by
    obtain ⟨part, inside, rfl⟩ := List.mem_map.mp (List.map_cons ▸ member : f ∈ (first :: others).map entry)
    exact each part inside
  have fields := IsField.lines inside
  rw [← List.map_cons, List.map_map, List.flatMap_map] at fields
  rw [rowTokens, fieldTokens, List.flatMap_map]
  exact fields

/-- The values of a row are read as planned. -/
theorem IsRow.nodes (row : IsRow sort parts) (told : ∀ d, sort d → IsTold room d (w d) (tokens d) (plan d)) :
    ∀ field ∈ parts.map (fieldOf tokens plan), IsValueNode room field.2.1 field.2.2 := by
  intro field member
  obtain ⟨part, inside, rfl⟩ := List.mem_map.mp member
  exact (told part.2 (row.values part inside)).node

/-- The record of a row is read as planned. -/
theorem IsRow.readsAs_record {position : Position} (row : IsRow sort parts)
    (told : ∀ d, sort d → IsTold room d (w d) (tokens d) (plan d)) (block : position.inBlock = true) (rest : List Token) :
    ReadsAs position (room + 1) (recordTokens (rowTokens tokens plan parts)) rest (rowPlan plan parts) := by
  have whole : ReadsAs position (room + 1) (recordTokens (rowTokens tokens plan parts)) rest
      (recordPlan ((parts.map (fieldOf tokens plan)).map fun field => (field.1, field.2.2))) :=
    Node.readsAs_record block (row.nodes told) rest
  intro fuel source
  rw [List.map_map] at whole
  exact whole

/-- The plan of a row is one of its record. -/
theorem IsRow.isPlanOf (row : IsRow sort parts) (told : ∀ d, sort d → IsTold room d (w d) (tokens d) (plan d)) :
    IsPlanOf (rowPlan plan parts) (.ofParts parts) := by
  refine isPlanOf_record row.distinct ?_
  rw [List.forall₂_map_left_iff, List.forall₂_same]
  intro part member
  refine ⟨fun {nodes id} node => ?_, (told part.2 (row.values part member)).isPlan⟩
  have means : (Scalar.untagged (.ofText part.1.toList) part.1 5).Means (.text part.1) := (legible_ofText part.1).2
  rw [(row.names part member).plain] at means
  exact means node

/-! ## Tables -/

variable {rows : List (List (String × Datum))}

/-- The rows of a table are written one by one. -/
theorem ofItems_eq (told : ∀ d, sort d → IsTold room d (w d) (tokens d) (plan d)) (each : ∀ row ∈ rows, IsRow sort row)
    {depth : Nat} (shallow : depth + (room + 1) ≤ Written.deepest) (p : Written.Progress) :
    Written.ofItems depth p (rows.map .ofParts) = .ok (rows.map (rowWritten w), p) := by
  induction rows with
  | nil => rfl
  | cons row rows inductionHypothesis =>
    obtain ⟨own, others⟩ := List.forall_mem_cons.mp each
    rw [List.map_cons, Written.ofItems, own.ofDatumAt_eq told shallow p]
    simp only [inductionHypothesis others, bind, Except.bind]
    rfl

/-- Every row stands behind a dash. -/
theorem itemTexts_eq (each : ∀ row ∈ rows, IsRow sort row) :
    Written.itemTexts margin (rows.map (rowWritten w)) = rows.map fun row => '-' :: ' ' :: rowText (margin + step) w row := by
  induction rows with
  | nil => rfl
  | cons row rows inductionHypothesis =>
    obtain ⟨own, others⟩ := List.forall_mem_cons.mp each
    obtain ⟨first, more, rfl⟩ := List.exists_cons_of_ne_nil own.some
    have fields : Written.fieldTexts (margin + step)
        ((first :: more).map fun part => (.scalar none (keyScalar part.1), w part.2)) =
          (first :: more).map (lineOf (margin + step) w) := fieldTexts_eq own.names
    rw [List.map_cons, Written.itemTexts, inductionHypothesis others]
    rw [List.map_cons] at fields
    simp [rowWritten, Written.nodeText, properties, fields, rowText]

/-- The lines of a table are read as its rows. -/
theorem isEntry_rows {row : List (String × Datum)} (told : ∀ d, sort d → IsTold room d (w d) (tokens d) (plan d))
    (each : ∀ row' ∈ row :: rows, IsRow sort row') (narrow : margin + (room + 2) + step < Folding.width) :
    IsEntry margin (lines margin (Written.itemTexts margin ((row :: rows).map (rowWritten w))))
      (itemTokens ((row :: rows).map fun row' => (recordTokens (rowTokens tokens plan row'), rowPlan plan row'))) := by
  let entry (row' : List (String × Datum)) : List Char × List Token :=
    ('-' :: ' ' :: rowText (margin + step) w row', .entry :: recordTokens (rowTokens tokens plan row'))
  have inner : margin + step + room + step < Folding.width := by
    rw [step] at narrow ⊢
    omega
  have inside : ∀ e ∈ entry row :: rows.map entry, IsEntry margin e.1 e.2 := fun e member => by
    obtain ⟨own, inside, rfl⟩ := List.mem_map.mp (List.map_cons ▸ member : e ∈ (row :: rows).map entry)
    exact ((each own inside).isField told inner).isItem
  have items := IsEntry.lines inside
  rw [← List.map_cons, List.map_map, List.flatMap_map] at items
  rw [itemTexts_eq each, itemTokens, List.flatMap_map]
  exact items

/-- A table is read behind a key. -/
theorem exists_told_table (told : ∀ d, sort d → IsTold room d (w d) (tokens d) (plan d))
    (each : ∀ row ∈ rows, IsRow sort row) :
    ∃ w' tokens' plan', IsTold (room + 2) (.ofList (rows.map .ofParts)) w' tokens' plan' := by
  let read (row : List (String × Datum)) : List Token × Plan := (recordTokens (rowTokens tokens plan row), rowPlan plan row)
  have written (depth : Nat) (p : Written.Progress) (shallow : depth + (room + 2) ≤ Written.deepest) :
      Written.ofDatumAt depth p (.ofList (rows.map .ofParts)) = .ok (.list none (rows.map (rowWritten w)), p) := by
    have near : ¬ Written.deepest < depth := by omega
    have items := ofItems_eq told each (show depth + 1 + (room + 1) ≤ Written.deepest by omega) p
    rw [Datum.ofList, Written.ofDatumAt, if_neg near]
    simp only [Written.Progress.present, bind, Except.bind, items]
    rfl
  have plans : IsPlanOf (listPlan ((rows.map read).map Prod.snd)) (.ofList (rows.map .ofParts)) := by
    refine isPlanOf_list ?_
    rw [List.map_map, List.forall₂_map_left_iff, List.forall₂_map_right_iff, List.forall₂_same]
    exact fun row member => (each row member).isPlanOf told
  cases rows with
  | nil =>
    exact ⟨_, _, _, written, fun margin column _ => isValue_brackets, isValueNode_brackets _, plans⟩
  | cons row rows =>
    have some : (row :: rows).map read ≠ [] := by simp
    refine ⟨_, _, _, written, fun margin column narrow => ?_, isValueNode_list some ?_, plans⟩
    · exact (isEntry_rows told each narrow).isValue
    · intro item member
      obtain ⟨own, inside, rfl⟩ := List.mem_map.mp member
      exact ⟨⟨_, rfl⟩, (each own inside).readsAs_record told rfl⟩

/-- A value is without parts or a table, with tables in it nested at most so deep. -/
def IsCell : Nat → Datum → Prop
  | 0, d => IsSimple d
  | level + 1, d => IsSimple d ∨ ∃ rows : List (List (String × Datum)),
      d = .ofList (rows.map .ofParts) ∧ ∀ row ∈ rows, IsRow (IsCell level) row

end

instance : Inhabited Written := ⟨.named 0⟩

/-- A value is read behind a key. -/
theorem IsCell.exists_told (level : Nat) : ∀ d, IsCell level d → ∃ w tokens plan, IsTold (2 * level) d w tokens plan := by
  induction level with
  | zero => exact fun d simple => IsSimple.exists_told simple 0
  | succ level inductionHypothesis =>
    rintro d (simple | ⟨rows, rfl, each⟩)
    · exact simple.exists_told _
    · choose! w tokens plan told using inductionHypothesis
      exact exists_told_table told each

/-- The record of a table is read as it was written. -/
theorem read_write {level : Nat} {parts : List (String × Datum)} (row : IsRow (IsCell level) parts)
    (shallow : 2 * level + 1 ≤ Written.deepest) (narrow : 2 * level + step < Folding.width) :
    ∃ text, write (.ofParts parts) = .ok text ∧ read text = .ok (.ofParts parts) := by
  choose! w tokens plan told using IsCell.exists_told level
  have field := row.isField told (show 0 + 2 * level + step < Folding.width by omega)
  have document : (rowWritten w parts).document = rowText 0 w parts ++ ['\n'] := by
    have some : (parts.map fun part => (Written.scalar none (keyScalar part.1), w part.2)).isEmpty = false := by
      simpa using row.some
    have fields : Written.fieldTexts 0 (parts.map fun part => (.scalar none (keyScalar part.1), w part.2)) =
        parts.map (lineOf 0 w) := fieldTexts_eq row.names
    have last := field.printed.breakAfter 0
    rw [rowText] at last ⊢
    simp [rowWritten, Written.document, some, properties, fields, last, Folding.nextLine]
  refine ⟨rowText 0 w parts ++ ['\n'], ?_, ?_⟩
  · have written := row.ofDatumAt_eq told (show 0 + (2 * level + 1) ≤ Written.deepest by omega)
    rw [write, Written.ofDatum]
    simp only [written, bind, Except.bind, pure, Except.pure, document]
  · have levels : 2 * level + 1 ≤ deepest := Nat.le_trans shallow (by decide)
    have nodes := ofTokens_record levels (row.nodes told)
    rw [List.map_map] at nodes
    rw [read, field.tokens_eq]
    simp only [bind, Except.bind, rowTokens, nodes]
    exact value_of_isPlanOf (row.isPlanOf told)

/-! ## What is refused -/

/-- The datum is written somewhere. -/
def Takes (d : Datum) : Prop := ∃ depth p result, Written.ofDatumAt depth p d = .ok result

/-- Where items are written, each of them is. -/
theorem takes_of_ofItems {items : List Datum} {depth : Nat} {p : Written.Progress} {result : List Written × Written.Progress}
    (written : Written.ofItems depth p items = .ok result) : ∀ item ∈ items, Takes item := by
  induction items generalizing p result with
  | nil => exact fun item member => nomatch member
  | cons first items inductionHypothesis =>
    obtain ⟨_, own, written⟩ := Outcome.bind_eq_ok.mp written
    obtain ⟨_, others, _⟩ := Outcome.bind_eq_ok.mp written
    exact List.forall_mem_cons.mpr ⟨⟨depth, p, _, own⟩, inductionHypothesis others⟩

/-- Where fields are written, their values are. -/
theorem takes_of_ofFields {fields : List (Datum × Datum)} {depth : Nat} {p : Written.Progress}
    {result : List (Written × Written) × Written.Progress} (written : Written.ofFields depth p fields = .ok result) :
    ∀ field ∈ fields, Takes field.2 := by
  induction fields generalizing p result with
  | nil => exact fun field member => nomatch member
  | cons first fields inductionHypothesis =>
    obtain ⟨_, _, written⟩ := Outcome.bind_eq_ok.mp written
    obtain ⟨_, own, written⟩ := Outcome.bind_eq_ok.mp written
    obtain ⟨_, others, _⟩ := Outcome.bind_eq_ok.mp written
    exact List.forall_mem_cons.mpr ⟨⟨depth, _, _, own⟩, inductionHypothesis others⟩

/-- A list that is written has items that are. -/
theorem Takes.items {items : List Datum} (takes : Takes (.ofList items)) : ∀ item ∈ items, Takes item := by
  obtain ⟨depth, p, result, written⟩ := takes
  rw [Datum.ofList, Written.ofDatumAt] at written
  split_ifs at written
  obtain ⟨_, items, _⟩ := Outcome.bind_eq_ok.mp written
  exact takes_of_ofItems items

/-- A record that is written has values that are. -/
theorem Takes.values {parts : List (String × Datum)} (takes : Takes (.ofParts parts)) : ∀ part ∈ parts, Takes part.2 := by
  obtain ⟨depth, p, result, written⟩ := takes
  rw [Datum.ofParts, Datum.ofFields, Written.ofDatumAt] at written
  split_ifs at written
  obtain ⟨_, fields, _⟩ := Outcome.bind_eq_ok.mp written
  exact fun part member => takes_of_ofFields fields _ (List.mem_map_of_mem member)

/-- A datum of which there is a document is written. -/
theorem takes_of_write {d : Datum} {text : List Char} (wrote : write d = .ok text) : Takes d := by
  obtain ⟨_, whole, _⟩ := Outcome.bind_eq_ok.mp wrote
  obtain ⟨_, written, _⟩ := Outcome.bind_eq_ok.mp whole
  exact ⟨_, _, _, written⟩

/-- A whole number is written only if it was given as such and can be read back. -/
theorem isSimple_of_takes {n : Numeral} (takes : Takes (.number (.whole n))) : IsSimple (.number (.whole n)) := by
  obtain ⟨depth, p, result, written⟩ := takes
  obtain ⟨_, scalar, _⟩ := Outcome.bind_eq_ok.mp written
  cases n with
  | marking level => cases scalar
  | plain n =>
    obtain ⟨_, shown, _⟩ := Outcome.bind_eq_ok.mp scalar
    refine .whole ?_
    by_contra long
    rw [wholeText, if_neg long] at shown
    cases shown

end MusicScore.Yaml
