import MusicScore.Proofs.Json.Number
import MusicScore.Proofs.Json.Text

/-!
# What JSON keeps

Data that JSON has a form for are written in any layout whose margin is blank, and what is read from the text is
what was written, as far as JSON tells values apart: marks are gone, pairs have become lists, and a whole number is
a plain one however it was given. The keys of records are texts that differ, numbers are not too long, and lists and
records do not stand within one another too often.
-/
namespace MusicScore

open Text

/-! ## Data that JSON keeps -/

namespace Json

mutual

/-- What is read of a datum that was written. -/
def kept : Datum → Datum
  | .number (.whole n) => .ofInt n.value
  | .list _ items => .ofList (keptItems items)
  | .record _ fields => .ofFields (keptFields fields)
  | .pair first second => .ofList [kept first, kept second]
  | value => value

/-- What is read of the items of a list. -/
def keptItems : List Datum → List Datum
  | [] => []
  | item :: rest => kept item :: keptItems rest

/-- What is read of the fields of a record. -/
def keptFields : List (Datum × Datum) → List (Datum × Datum)
  | [] => []
  | (key, value) :: rest => (key, kept value) :: keptFields rest

end

theorem keptItems_eq_map (items : List Datum) : keptItems items = items.map kept := by
  induction items with
  | nil => rfl
  | cons item rest inductionHypothesis => rw [keptItems, inductionHypothesis, List.map_cons]

theorem keptFields_eq_map (fields : List (Datum × Datum)) :
    keptFields fields = fields.map fun field => (field.1, kept field.2) := by
  induction fields with
  | nil => rfl
  | cons field rest inductionHypothesis => rw [keptFields, inductionHypothesis, List.map_cons]

/-- The fields of a record whose keys are texts. -/
def namedFields (parts : List (String × Datum)) : List (Datum × Datum) :=
  parts.map fun part => (.text part.1, part.2)

@[simp] theorem namedFields_cons (part : String × Datum) (rest : List (String × Datum)) :
    namedFields (part :: rest) = (.text part.1, part.2) :: namedFields rest := rfl

/-- JSON has a form for the datum, in which lists and records stand within one another at most so often. -/
inductive Writable : Nat → Datum → Prop where
  | nothing {room : Nat} : Writable room .nothing
  | truth {room : Nat} (b : Bool) : Writable room (.number (.truth b))
  | whole {room : Nat} {n : Numeral} (few : n.value.natAbs < digitLimit) : Writable room (.number (.whole n))
  | float {room : Nat} {x : Double} (format : x.InFormat) : Writable room (.number (.float x))
  | text {room : Nat} (s : String) : Writable room (.text s)
  | list {room : Nat} {mark : Option Nat} {items : List Datum} (each : ∀ item ∈ items, Writable room item) :
      Writable (room + 1) (.list mark items)
  | record {room : Nat} {mark : Option Nat} {parts : List (String × Datum)}
      (distinct : (parts.map Prod.fst).Nodup) (each : ∀ part ∈ parts, Writable room part.2) : Writable (room + 1) (.record mark (namedFields parts))
  | pair {room : Nat} {first second : Datum} (left : Writable room first) (right : Writable room second) :
      Writable (room + 1) (.pair first second)

variable {layout : Layout} {level fuel : Nat} {rest : List Char} {d : Datum}

/-- The margin of the layout is blank. -/
def Layout.IsBlank : Layout → Prop
  | oneLine => True
  | lines margin => ∀ c ∈ margin, isSpace c = true

/-- One line or a number of blanks is a blank margin. -/
theorem Layout.isBlank_ofDatum {indent : Datum} (asked : Layout.ofDatum indent = .ok layout)
    (noText : ∀ margin, indent ≠ .text margin) : layout.IsBlank := by
  unfold ofDatum at asked
  split at asked
  case h_1 => exact Except.ok.inj asked ▸ trivial
  case h_2 margin => exact absurd rfl (noText margin)
  case h_3 =>
    split at asked
    · split at asked
      · obtain rfl := Except.ok.inj asked
        exact fun c member => (List.eq_of_mem_replicate member) ▸ rfl
      · cases asked
    · cases asked
  case h_4 => cases asked

/-! ## A text that is read as a datum -/

/-- The text does not start with a blank, nor with the end of a list or record. -/
def Opens (text : List Char) : Prop := ∃ c more, text = c :: more ∧ isSpace c = false ∧ c ≠ ']' ∧ c ≠ '\x7d'

/-- The text is read as something by a reader, whatever comes after it, as long as that does not go on with a
number. -/
structure ReadBy {α : Type} (reader : Nat → List Char → Except Fault (α × List Char)) (text : List Char)
    (result : α) : Prop where
  opens : Opens text
  back : ∀ fuel rest, 2 * text.length ≤ fuel → EndsNumber rest → reader fuel (text ++ rest) = .ok (result, rest)

/-- The text is read as the datum at a level. -/
abbrev ReadsAs (level : Nat) : List Char → Datum → Prop := ReadBy (value · level)

/-- A blank does not go on with a number. -/
theorem endsNumber_append {gap : List Char} {c : Char} (blank : ∀ c ∈ gap, isSpace c = true)
    (ends : EndsNumber (c :: rest)) : EndsNumber (gap ++ c :: rest) := by
  cases gap with
  | nil => exact ends
  | cons space gap =>
    intro c member
    obtain rfl : space = c := by simpa using member
    have space := blank space List.mem_cons_self
    simp only [isSpace, Bool.or_eq_true, decide_eq_true_eq] at space
    rcases space with ((rfl | rfl) | rfl) | rfl <;> decide

/-- Blanks are left out. -/
theorem skipSpace_append {gap s : List Char} (blank : ∀ c ∈ gap, isSpace c = true) :
    skipSpace (gap ++ s) = skipSpace s :=
  List.dropWhile_append_of_pos blank

/-- What starts with no blank is left as it is. -/
theorem skipSpace_of_visible {c : Char} (visible : isSpace c = false) : skipSpace (c :: rest) = c :: rest := by
  simp [skipSpace, visible]

/-- What does not start with a blank is left as it is. -/
theorem Opens.skipSpace_append {text : List Char} (opens : Opens text) (rest : List Char) :
    skipSpace (text ++ rest) = text ++ rest := by
  obtain ⟨c, more, rfl, visible, _⟩ := opens
  exact skipSpace_of_visible visible

namespace Layout

/-- A line starts with blanks. -/
theorem isSpace_of_mem_lineStart (blank : layout.IsBlank) (level : Nat) :
    ∀ c ∈ layout.lineStart level, isSpace c = true := by
  intro c member
  cases layout with
  | oneLine => cases member
  | lines margin =>
    rcases List.mem_cons.mp member with rfl | inside
    · rfl
    · obtain ⟨copy, repeated, own⟩ := List.mem_flatten.mp inside
      exact blank c (List.eq_of_mem_replicate repeated ▸ own)

/-- Two items are separated by a comma and blanks. -/
theorem separator_eq (blank : layout.IsBlank) (level : Nat) :
    ∃ gap, layout.separator level = ',' :: gap ∧ ∀ c ∈ gap, isSpace c = true := by
  cases layout with
  | oneLine => exact ⟨[' '], rfl, by simp [isSpace]⟩
  | lines margin => exact ⟨_, rfl, isSpace_of_mem_lineStart blank level⟩

end Layout

/-! ## Values without parts -/

/-- What starts neither a text nor a list nor a record is a value without parts. -/
theorem value_of_atom {c : Char} (within : level ≤ deepest) (noText : c ≠ '"') (noList : c ≠ '[') (noRecord : c ≠ '\x7b')
    (s : List Char) : value (fuel + 1) level (c :: s) = atom (c :: s) := by
  have shallow : ¬ deepest < level := Nat.not_lt.mpr within
  rw [value.eq_def]
  simp only [shallow, if_false]
  split
  next same => exact absurd (List.cons.inj same).1 noText
  next same => exact absurd (List.cons.inj same).1 noList
  next same => exact absurd (List.cons.inj same).1 noRecord
  next => rfl

/-- A text that is read as a value without parts, whatever comes after it. -/
theorem readsAs_of_atom {text : List Char} {c : Char} {more : List Char} (within : level ≤ deepest)
    (begins : text = c :: more) (visible : isSpace c = false)
    (other : ∀ mark ∈ ['"', '[', ']', '\x7b', '\x7d'], c ≠ mark)
    (back : ∀ rest, EndsNumber rest → atom (text ++ rest) = .ok (d, rest)) : ReadsAs level text d := by
  have apart (mark : Char) (member : mark ∈ ['"', '[', ']', '\x7b', '\x7d']) := other mark member
  refine ⟨⟨c, more, begins, visible, apart _ (by simp), apart _ (by simp)⟩, ?_⟩
  intro fuel rest enough ends
  rw [begins, List.length_cons] at enough
  obtain ⟨less, rfl⟩ : ∃ less, fuel = less + 1 := ⟨fuel - 1, by omega⟩
  have found := back rest ends
  rw [begins, List.cons_append] at found ⊢
  rw [value_of_atom within (apart _ (by simp)) (apart _ (by simp)) (apart _ (by simp)), found]

/-- Nothing is read from its word. -/
theorem readsAs_nothing (within : level ≤ deepest) : ReadsAs level "null".toList .nothing :=
  readsAs_of_atom (c := 'n') within rfl rfl (by simp) fun _ _ => rfl

/-- A truth value is read from its word. -/
theorem readsAs_truth (within : level ≤ deepest) (b : Bool) :
    ReadsAs level (if b then "true".toList else "false".toList) (.ofBool b) := by
  cases b with
  | false => exact readsAs_of_atom (c := 'f') within rfl rfl (by simp) fun _ _ => rfl
  | true => exact readsAs_of_atom (c := 't') within rfl rfl (by simp) fun _ _ => rfl

/-- A number is read from a text that starts with a digit, or with a minus and a digit. -/
theorem readsAs_number {body : List Char} (within : level ≤ deepest) (first : StartsWithDigit body) (negative : Bool)
    (back : ∀ rest, EndsNumber rest → atom ((if negative then '-' :: body else body) ++ rest) = .ok (d, rest)) :
    ReadsAs level (if negative then '-' :: body else body) d := by
  cases negative with
  | true => exact readsAs_of_atom within rfl rfl (by simp) back
  | false =>
    obtain ⟨c, more, rfl, digit⟩ := first
    have other (mark : Char) (none : Double.isAsciiDigit mark = false) : c ≠ mark := by
      rintro rfl
      rw [digit] at none
      cases none
    refine readsAs_of_atom within rfl ?_ ?_ back
    · simp [isSpace, other ' ' rfl, other '\t' rfl, other '\n' rfl, other '\r' rfl]
    · simp [other '"' rfl, other '[' rfl, other ']' rfl, other '\x7b' rfl, other '\x7d' rfl]

/-- A whole number is read from its digits. -/
theorem readsAs_whole {n : Int} (within : level ≤ deepest) (few : n.natAbs < digitLimit) :
    ReadsAs level (IntegerText.write n) (.ofInt n) := by
  have first := startsWithDigit_append (fun c => isAsciiDigit_of_mem_digitsOf (n := n.natAbs)) Nat.toDigits_ne_nil []
  rw [List.append_nil] at first
  have signed := IntegerText.write_eq n
  rw [signed]
  exact readsAs_number within first _ fun rest ends => by rw [← signed]; exact atom_write few ends

/-- A number of the format is read from its text. -/
theorem readsAs_float {x : Double} (within : level ≤ deepest) (format : x.InFormat) :
    ReadsAs level (x.text doubleStyle) (.number (.float x)) := by
  obtain ⟨w, negative, proper, written, _⟩ := Double.exists_text doubleStyle format
  have first : StartsWithDigit w.text := by
    rw [Double.Written.text, List.append_assoc]
    exact startsWithDigit_append proper.whole proper.begun _
  rw [written]
  exact readsAs_number within first _ fun rest ends => by rw [← written]; exact atom_text format ends

/-- A text is read from its characters in quotation marks. -/
theorem readsAs_text (within : level ≤ deepest) (s : String) :
    ReadsAs level (quoted s.toList) (.text s) := by
  refine ⟨⟨'"', _, rfl, rfl, by decide, by decide⟩, ?_⟩
  intro fuel rest enough _
  have longer := length_le_flatMap_escape s.toList
  have shallow : ¬ deepest < level := Nat.not_lt.mpr within
  simp only [quoted, List.length_cons, List.length_append, List.length_nil] at enough
  obtain ⟨less, rfl⟩ : ∃ less, fuel = less + 1 := ⟨fuel - 1, by omega⟩
  have body : textBody less (s.toList.flatMap escape ++ '"' :: rest) = .ok (s.toList, rest) :=
    textBody_flatMap (by omega)
  have same : quoted s.toList ++ rest = '"' :: (s.toList.flatMap escape ++ '"' :: rest) := by simp [quoted]
  rw [same]
  simp [value, shallow, text, body, bind, Except.bind, pure, Except.pure]

/-! ## Lists and records -/

/-- Texts that are read open as such, and so does what begins with the first of them. -/
theorem Opens.intercalate {α : Type} {reader : Nat → List Char → Except Fault (α × List Char)}
    {separator : List Char} {texts : List (List Char)} {results : List α} (some : texts ≠ [])
    (each : List.Forall₂ (ReadBy reader) texts results) : Opens (separator.intercalate texts) := by
  cases each with
  | nil => exact absurd rfl some
  | @cons text result texts results first others =>
    obtain ⟨c, more, rfl, visible, apart⟩ := first.opens
    cases texts with
    | nil => exact ⟨c, more, List.intercalate_singleton, visible, apart⟩
    | cons next texts =>
      exact ⟨c, more ++ separator ++ separator.intercalate (next :: texts), by simp, visible, apart⟩

/-- Items are read from their texts up to a closing mark, by a reader that takes one item after the other. -/
theorem many_intercalate {α : Type} (one : Nat → List Char → Except Fault (α × List Char))
    (many : Nat → List Char → Except Fault (List α × List Char)) {close : Char} (visible : isSpace close = false)
    (ends : ∀ rest, EndsNumber (close :: rest))
    (last : ∀ {fuel s result rest after}, one fuel s = .ok (result, rest) → skipSpace rest = close :: after →
      many (fuel + 1) s = .ok ([result], after))
    (onward : ∀ {fuel s result rest after others final}, one fuel s = .ok (result, rest) →
      skipSpace rest = ',' :: after → many fuel (skipSpace after) = .ok (others, final) →
        many (fuel + 1) s = .ok (result :: others, final))
    (blank : layout.IsBlank) {gap : List Char} (blankGap : ∀ c ∈ gap, isSpace c = true)
    {texts : List (List Char)} {results : List α} (each : List.Forall₂ (ReadBy one) texts results)
    (some : texts ≠ []) (enough : 2 * ((layout.separator level).intercalate texts).length + 1 ≤ fuel) :
    many fuel ((layout.separator level).intercalate texts ++ (gap ++ close :: rest)) = .ok (results, rest) := by
  obtain ⟨between, separator, blankBetween⟩ := layout.separator_eq blank level
  induction each generalizing fuel with
  | nil => exact absurd rfl some
  | @cons text result texts results first others inductionHypothesis =>
    obtain ⟨less, rfl⟩ : ∃ less, fuel = less + 1 := ⟨fuel - 1, by omega⟩
    cases others with
    | nil =>
      rw [List.intercalate_singleton] at enough ⊢
      have stops : EndsNumber (gap ++ close :: rest) := endsNumber_append blankGap (ends rest)
      have closed : skipSpace (gap ++ close :: rest) = close :: rest :=
        (skipSpace_append blankGap).trans (skipSpace_of_visible visible)
      exact last (first.back less _ (by omega) stops) closed
    | @cons next other texts results second others =>
      have opens : Opens ((layout.separator level).intercalate (next :: texts)) :=
        Opens.intercalate (List.cons_ne_nil _ _) (.cons second others)
      rw [List.intercalate_cons_cons] at enough ⊢
      generalize (layout.separator level).intercalate (next :: texts) = joined at enough inductionHypothesis opens ⊢
      rw [separator] at enough ⊢
      simp only [List.length_append, List.length_cons] at enough
      simp only [List.append_assoc, List.cons_append]
      have stops : EndsNumber (',' :: (between ++ (joined ++ (gap ++ close :: rest)))) := by
        simp [EndsNumber, Double.isAsciiDigit]
      have skipped : skipSpace (between ++ (joined ++ (gap ++ close :: rest))) = joined ++ (gap ++ close :: rest) :=
        (skipSpace_append blankBetween).trans (opens.skipSpace_append _)
      have further := inductionHypothesis (List.cons_ne_nil _ _) (by omega : 2 * joined.length + 1 ≤ less)
      exact onward (first.back less _ (by omega) stops) (skipSpace_of_visible rfl) (by rw [skipped]; exact further)

/-- Items between marks, of which there are some. -/
theorem Layout.enclose_append (layout : Layout) (level : Nat) {texts : List (List Char)} (some : texts ≠ [])
    (first last : Char) (rest : List Char) :
    layout.enclose level first last texts ++ rest =
      first :: (layout.lineStart (level + 1) ++ ((layout.separator (level + 1)).intercalate texts ++
        (layout.lineStart level ++ last :: rest))) := by
  simp [Layout.enclose, some]

/-- What encloses the items of a list or the fields of a record is longer than they are. -/
theorem Layout.length_enclose (layout : Layout) (level : Nat) {texts : List (List Char)} (some : texts ≠ [])
    (first last : Char) :
    ((layout.separator (level + 1)).intercalate texts).length + 2 ≤ (layout.enclose level first last texts).length := by
  have whole := congrArg List.length (layout.enclose_append level some first last [])
  simp only [List.append_nil, List.length_cons, List.length_append] at whole
  omega

/-- The items of a list are read from their texts. -/
theorem items_intercalate (blank : layout.IsBlank) {gap : List Char} (blankGap : ∀ c ∈ gap, isSpace c = true)
    {texts : List (List Char)} {data : List Datum} (each : List.Forall₂ (ReadsAs level) texts data)
    (some : texts ≠ []) (enough : 2 * ((layout.separator level).intercalate texts).length + 1 ≤ fuel) :
    items fuel level ((layout.separator level).intercalate texts ++ (gap ++ ']' :: rest)) = .ok (data, rest) := by
  refine many_intercalate (value · level) (items · level) rfl (by simp [EndsNumber, Double.isAsciiDigit]) ?_ ?_ blank
    blankGap each some enough
  · intro fuel s item rest after found closed
    simp [items, found, closed, bind, Except.bind, pure, Except.pure]
  · intro fuel s item rest after others final found goesOn further
    simp [items, found, goesOn, further, bind, Except.bind, pure, Except.pure]

/-- A list is read from the texts of its items. -/
theorem readsAs_list (blank : layout.IsBlank) (within : level + 1 ≤ deepest) {texts : List (List Char)}
    {data : List Datum} (each : List.Forall₂ (ReadsAs (level + 1)) texts data) :
    ReadsAs level (layout.enclose level '[' ']' texts) (.ofList data) := by
  have shallow : ¬ deepest < level := by omega
  by_cases some : texts = []
  · subst some
    cases each
    refine ⟨⟨'[', [']'], rfl, rfl, by decide, by decide⟩, fun fuel rest enough _ => ?_⟩
    obtain ⟨less, rfl⟩ : ∃ less, fuel = less + 1 := ⟨fuel - 1, by simp [Layout.enclose] at enough; omega⟩
    simp [value, shallow, Layout.enclose, skipSpace_of_visible (c := ']') rfl]
  · refine ⟨⟨'[', _, (List.append_nil _).symm.trans (layout.enclose_append level some _ _ []), rfl, by decide, by decide⟩,
      fun fuel rest enough _ => ?_⟩
    have longer := layout.length_enclose level some '[' ']'
    obtain ⟨less, rfl⟩ : ∃ less, fuel = less + 1 := ⟨fuel - 1, by omega⟩
    have inner : items less (level + 1) ((layout.separator (level + 1)).intercalate texts ++
        (layout.lineStart level ++ ']' :: rest)) = .ok (data, rest) :=
      items_intercalate blank (layout.isSpace_of_mem_lineStart blank level) each some (by omega)
    have opens : Opens ((layout.separator (level + 1)).intercalate texts) := Opens.intercalate some each
    have skipped := (skipSpace_append (layout.isSpace_of_mem_lineStart blank (level + 1))).trans
      (opens.skipSpace_append (layout.lineStart level ++ ']' :: rest))
    obtain ⟨c, more, same, _, noEnd, _⟩ := opens
    rw [layout.enclose_append level some]
    rw [same, List.cons_append] at skipped inner
    simp only [value, shallow, if_false]
    rw [same, List.cons_append, skipped]
    simp [noEnd, inner, bind, Except.bind, pure, Except.pure]

/-- One field of a record. -/
def field (level fuel : Nat) (s : List Char) : Except Fault ((Datum × Datum) × List Char) :=
  match s with
  | '"' :: rest => do
    let (name, rest) ← text fuel rest
    match skipSpace rest with
    | ':' :: rest => do
      let (item, rest) ← value fuel level (skipSpace rest)
      return ((.text name, item), rest)
    | _ => .error .malformedJson
  | _ => .error .malformedJson

/-- A field that is read is its name in quotation marks, a colon and its value. -/
theorem field_eq_ok {s : List Char} {found : Datum × Datum} :
    field level fuel s = .ok (found, rest) ↔ ∃ begun name middle after item, s = '"' :: begun ∧
      text fuel begun = .ok (name, middle) ∧ skipSpace middle = ':' :: after ∧
        value fuel level (skipSpace after) = .ok (item, rest) ∧ found = (.text name, item) := by
  constructor
  · intro read
    unfold field at read
    split at read
    next begun =>
      obtain ⟨⟨name, middle⟩, named, read⟩ := Outcome.bind_eq_ok.mp read
      dsimp only at read
      split at read
      next after colon =>
        obtain ⟨⟨item, last⟩, valued, same⟩ := Outcome.bind_eq_ok.mp read
        cases same
        exact ⟨begun, name, middle, after, item, rfl, named, colon, valued, rfl⟩
      next => cases read
    next => cases read
  · rintro ⟨begun, name, middle, after, item, rfl, named, colon, valued, rfl⟩
    simp [field, named, colon, valued, bind, Except.bind, pure, Except.pure]

/-- A field is read from its name and the text of its value. -/
theorem readBy_field (name : String) {text : List Char} (valued : ReadsAs level text d) :
    ReadBy (field level) (quoted name.toList ++ ':' :: ' ' :: text) (.text name, d) := by
  refine ⟨⟨'"', _, rfl, rfl, by decide, by decide⟩, fun fuel rest enough ends => ?_⟩
  have longer := length_le_flatMap_escape name.toList
  simp only [quoted, List.length_cons, List.length_append, List.length_nil] at enough
  refine field_eq_ok.mpr ⟨name.toList.flatMap escape ++ '"' :: ':' :: ' ' :: (text ++ rest), name,
    ':' :: ' ' :: (text ++ rest), ' ' :: (text ++ rest), d, by simp [quoted], ?_, skipSpace_of_visible rfl, ?_, rfl⟩
  · simp [Json.text, textBody_flatMap (by omega : name.toList.length < fuel), bind, Except.bind, pure, Except.pure]
  · have skipped : skipSpace (' ' :: (text ++ rest)) = text ++ rest := valued.opens.skipSpace_append rest
    rw [skipped]
    exact valued.back fuel rest (by omega) ends

/-- The fields of a record are read from their texts. -/
theorem fields_intercalate (blank : layout.IsBlank) {gap : List Char} (blankGap : ∀ c ∈ gap, isSpace c = true)
    {texts : List (List Char)} {found : List (Datum × Datum)} (each : List.Forall₂ (ReadBy (field level)) texts found)
    (some : texts ≠ []) (enough : 2 * ((layout.separator level).intercalate texts).length + 1 ≤ fuel) :
    fields fuel level ((layout.separator level).intercalate texts ++ (gap ++ '\x7d' :: rest)) = .ok (found, rest) := by
  refine many_intercalate (field level) (fields · level) rfl (by simp [EndsNumber, Double.isAsciiDigit]) ?_ ?_ blank
    blankGap each some enough
  · intro fuel s item rest after read closed
    obtain ⟨begun, name, middle, next, item, rfl, named, colon, valued, rfl⟩ := field_eq_ok.mp read
    simp [fields, named, colon, valued, closed, bind, Except.bind, pure, Except.pure]
  · intro fuel s item rest after others final read goesOn further
    obtain ⟨begun, name, middle, next, item, rfl, named, colon, valued, rfl⟩ := field_eq_ok.mp read
    simp [fields, named, colon, valued, goesOn, further, bind, Except.bind, pure, Except.pure]

/-- A record is read from the texts of its fields. -/
theorem readsAs_record (blank : layout.IsBlank) (within : level + 1 ≤ deepest) {texts : List (List Char)}
    {found : List (Datum × Datum)} (each : List.Forall₂ (ReadBy (field (level + 1))) texts found)
    (distinct : Datum.distinctFields found = found) :
    ReadsAs level (layout.enclose level '\x7b' '\x7d' texts) (.ofFields found) := by
  have shallow : ¬ deepest < level := by omega
  by_cases some : texts = []
  · subst some
    cases each
    refine ⟨⟨'\x7b', ['\x7d'], rfl, rfl, by decide, by decide⟩, fun fuel rest enough _ => ?_⟩
    obtain ⟨less, rfl⟩ : ∃ less, fuel = less + 1 := ⟨fuel - 1, by simp [Layout.enclose] at enough; omega⟩
    simp [value, shallow, Layout.enclose, skipSpace_of_visible (c := '\x7d') rfl]
  · refine ⟨⟨'\x7b', _, (List.append_nil _).symm.trans (layout.enclose_append level some _ _ []), rfl, by decide, by decide⟩,
      fun fuel rest enough _ => ?_⟩
    have longer := layout.length_enclose level some '\x7b' '\x7d'
    obtain ⟨less, rfl⟩ : ∃ less, fuel = less + 1 := ⟨fuel - 1, by omega⟩
    have inner : fields less (level + 1) ((layout.separator (level + 1)).intercalate texts ++
        (layout.lineStart level ++ '\x7d' :: rest)) = .ok (found, rest) :=
      fields_intercalate blank (layout.isSpace_of_mem_lineStart blank level) each some (by omega)
    have opens : Opens ((layout.separator (level + 1)).intercalate texts) := Opens.intercalate some each
    have skipped := (skipSpace_append (layout.isSpace_of_mem_lineStart blank (level + 1))).trans
      (opens.skipSpace_append (layout.lineStart level ++ '\x7d' :: rest))
    obtain ⟨c, more, same, _, _, noEnd⟩ := opens
    rw [layout.enclose_append level some]
    rw [same, List.cons_append] at skipped inner
    simp only [value, shallow, if_false]
    rw [same, List.cons_append, skipped]
    simp [noEnd, inner, distinct, bind, Except.bind, pure, Except.pure]

/-! ## Whole data -/

/-- A field whose key is not there yet comes at the end. -/
theorem setField_namedFields {name : String} {value : Datum} {parts : List (String × Datum)}
    (fresh : name ∉ parts.map Prod.fst) :
    Datum.setField (.text name) value (namedFields parts) = namedFields (parts ++ [(name, value)]) := by
  induction parts with
  | nil => rfl
  | cons part rest inductionHypothesis =>
    simp only [List.map_cons, List.mem_cons, not_or] at fresh
    have other : Datum.alike (.text part.1) (.text name) = false := by
      simp [Datum.alike, Datum.same, Datum.sameNan, Ne.symm fresh.1]
    simp only [namedFields, List.map_cons, List.cons_append, Datum.setField, other, Bool.false_eq_true, if_false]
    exact congrArg _ (inductionHypothesis fresh.2)

/-- Fields whose keys differ are all kept. -/
theorem distinctFields_namedFields {parts : List (String × Datum)} (distinct : (parts.map Prod.fst).Nodup) :
    Datum.distinctFields (namedFields parts) = namedFields parts := by
  have onward (done : List (String × Datum)) (all : ((done ++ parts).map Prod.fst).Nodup) :
      (namedFields parts).foldl (fun done field => Datum.setField field.1 field.2 done) (namedFields done) =
        namedFields (done ++ parts) := by
    clear distinct
    induction parts generalizing done with
    | nil => rw [List.append_nil]; rfl
    | cons part rest inductionHypothesis =>
      have fresh : part.1 ∉ done.map Prod.fst := by
        rw [List.map_append, List.map_cons] at all
        exact fun member => (List.nodup_append.mp all).2.2 _ member _ List.mem_cons_self rfl
      have moved : done ++ part :: rest = (done ++ [part]) ++ rest := by simp
      rw [namedFields_cons, List.foldl_cons]
      dsimp only
      rw [setField_namedFields fresh, moved]
      exact inductionHypothesis _ (by rwa [← moved])
  exact onward [] distinct

/-- Where each item of a list is written and read, so are all. -/
theorem exists_writeItems {items : List Datum}
    (each : ∀ item ∈ items, ∃ text, writeAt layout level item = .ok text ∧ ReadsAs level text (kept item)) :
    ∃ texts, writeItems layout level items = .ok texts ∧ List.Forall₂ (ReadsAs level) texts (items.map kept) := by
  induction items with
  | nil => exact ⟨[], rfl, .nil⟩
  | cons item rest inductionHypothesis =>
    obtain ⟨⟨text, wrote, read⟩, others⟩ := List.forall_mem_cons.mp each
    obtain ⟨texts, wroteRest, readRest⟩ := inductionHypothesis others
    exact ⟨text :: texts, by simp [writeItems, wrote, wroteRest, bind, Except.bind, pure, Except.pure],
      .cons read readRest⟩

/-- Where the value of each field of a record is written and read, so are all fields. -/
theorem exists_writeFields {parts : List (String × Datum)}
    (each : ∀ part ∈ parts, ∃ text, writeAt layout level part.2 = .ok text ∧ ReadsAs level text (kept part.2)) :
    ∃ texts, writeFields layout level (namedFields parts) = .ok texts ∧
      List.Forall₂ (ReadBy (field level)) texts (namedFields (parts.map fun part => (part.1, kept part.2))) := by
  induction parts with
  | nil => exact ⟨[], rfl, .nil⟩
  | cons part rest inductionHypothesis =>
    obtain ⟨⟨text, wrote, read⟩, others⟩ := List.forall_mem_cons.mp each
    obtain ⟨texts, wroteRest, readRest⟩ := inductionHypothesis others
    exact ⟨(quoted part.1.toList ++ ':' :: ' ' :: text) :: texts,
      by simp [writeFields, key, wrote, wroteRest, bind, Except.bind, pure, Except.pure],
      .cons (readBy_field part.1 read) readRest⟩

/-- What JSON has a form for is written, and it is read as it was written. -/
theorem exists_readsAs (blank : layout.IsBlank) {room : Nat} (writable : Writable room d) (level : Nat)
    (within : level + room ≤ deepest) : ∃ text, writeAt layout level d = .ok text ∧ ReadsAs level text (kept d) := by
  induction writable generalizing level with
  | nothing => exact ⟨_, rfl, readsAs_nothing (by omega)⟩
  | truth b => exact ⟨_, rfl, readsAs_truth (by omega) b⟩
  | @whole room n few =>
    refine ⟨IntegerText.write n.value, ?_, readsAs_whole (by omega) few⟩
    simp [writeAt, number, wholeText, few, Shown.read, bind, Except.bind, pure, Except.pure]
  | float format => exact ⟨_, rfl, readsAs_float (by omega) format⟩
  | text s => exact ⟨_, rfl, readsAs_text (by omega) s⟩
  | @list room mark items _ inductionHypothesis =>
    have each (item : Datum) (member : item ∈ items) := inductionHypothesis item member (level + 1) (by omega)
    obtain ⟨texts, wrote, read⟩ := exists_writeItems each
    have shallow : ¬ deepest < level + 1 := by omega
    refine ⟨layout.enclose level '[' ']' texts, ?_, ?_⟩
    · simp [writeAt, checkLevel, shallow, wrote, bind, Except.bind, pure, Except.pure]
    · rw [kept, keptItems_eq_map]
      exact readsAs_list blank (by omega) read
  | @record room mark parts distinct _ inductionHypothesis =>
    have each (part : String × Datum) (member : part ∈ parts) :=
      inductionHypothesis part member (level + 1) (by omega)
    obtain ⟨texts, wrote, read⟩ := exists_writeFields each
    have shallow : ¬ deepest < level + 1 := by omega
    have fields : keptFields (namedFields parts) = namedFields (parts.map fun part => (part.1, kept part.2)) := by
      simp [keptFields_eq_map, namedFields]
    refine ⟨layout.enclose level '\x7b' '\x7d' texts, ?_, ?_⟩
    · simp [writeAt, checkLevel, shallow, wrote, bind, Except.bind, pure, Except.pure]
    · rw [kept, fields]
      refine readsAs_record blank (by omega) read (distinctFields_namedFields ?_)
      simpa [Function.comp_def] using distinct
  | @pair room first second _ _ left right =>
    obtain ⟨firstText, wroteFirst, readFirst⟩ := left (level + 1) (by omega)
    obtain ⟨secondText, wroteSecond, readSecond⟩ := right (level + 1) (by omega)
    have shallow : ¬ deepest < level + 1 := by omega
    refine ⟨layout.enclose level '[' ']' [firstText, secondText], ?_, ?_⟩
    · simp [writeAt, checkLevel, shallow, wroteFirst, wroteSecond, bind, Except.bind, pure, Except.pure]
    · exact readsAs_list blank (by omega) (.cons readFirst (.cons readSecond .nil))

/-- A document that is written is read as what was written. -/
theorem read_write (blank : layout.IsBlank) {room : Nat} (writable : Writable room d) (within : room ≤ deepest) :
    ∃ text, write layout d = .ok text ∧ read text = .ok (kept d) := by
  obtain ⟨text, wrote, readBack⟩ := exists_readsAs blank writable 0 (by omega)
  have opened := readBack.opens.skipSpace_append []
  have found := readBack.back (2 * text.length + 2) [] (by omega) (by simp [EndsNumber])
  rw [List.append_nil] at opened found
  refine ⟨text, wrote, ?_⟩
  simp only [read, opened, found, bind, Except.bind]
  rfl

end Json

end MusicScore
