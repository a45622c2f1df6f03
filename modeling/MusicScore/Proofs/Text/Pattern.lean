import Mathlib.Computability.Language
import MusicScore.Text.Pattern

/-!
# The language of a pattern

A text matches a pattern when it belongs to the language of the pattern: what is taken character by character is what
may follow, and what is left in the end has to admit the empty text.
-/
namespace MusicScore.Text.Pattern

open scoped Computability

variable {p a b : Pattern} {c : Char} {s : List Char} {ranges : List (Char × Char)}

/-- The character lies in one of the ranges. -/
def holds (ranges : List (Char × Char)) (c : Char) : Bool := ranges.any fun range => range.1 ≤ c && c ≤ range.2

/-- The texts that a pattern stands for. -/
def language : Pattern → Language Char
  | nothing => 0
  | empty => 1
  | oneOf ranges => Set.range (fun c : {c : Char // holds ranges c = true} => [c.1])
  | followed a b => a.language * b.language
  | either a b => a.language + b.language
  | repeated a => a.language∗

/-- A single character belongs to its ranges. -/
theorem mem_oneOf : s ∈ (oneOf ranges).language ↔ ∃ c, holds ranges c = true ∧ s = [c] := by
  change (∃ c : {c : Char // holds ranges c = true}, [c.1] = s) ↔ _
  constructor
  · rintro ⟨⟨c, held⟩, rfl⟩
    exact ⟨c, held, rfl⟩
  · rintro ⟨c, held, rfl⟩
    exact ⟨⟨c, held⟩, rfl⟩

/-- Either pattern admits the texts of both. -/
theorem mem_either : s ∈ (either a b).language ↔ s ∈ a.language ∨ s ∈ b.language := Iff.rfl

/-- One pattern after another admits a text of the first before one of the second. -/
@[simp] theorem language_join (a b : Pattern) : (join a b).language = a.language * b.language := by
  unfold join
  split_ifs with none first second
  · rcases none with rfl | rfl <;> simp [language]
  · simp [first, language]
  · simp [second, language]
  · rfl

/-- Either pattern admits the texts of both, however simply it is put. -/
@[simp] theorem language_choose (a b : Pattern) : (choose a b).language = a.language + b.language := by
  unfold choose
  split_ifs with first second
  · simp [first, language]
  · rcases second with rfl | rfl
    · simp [language]
    · rw [Language.add_self]
  · rfl

/-- A pattern admits the empty text when its language has it. -/
theorem admitsEmpty_iff : p.admitsEmpty = true ↔ [] ∈ p.language := by
  induction p with
  | nothing => simp [admitsEmpty, language]
  | empty => simp [admitsEmpty, language]
  | oneOf ranges => simp [admitsEmpty, mem_oneOf]
  | followed a b first second => simp [admitsEmpty, language, first, second, Language.mem_mul]
  | either a b first second => rw [admitsEmpty, Bool.or_eq_true, first, second, mem_either]
  | repeated a _ => simp [admitsEmpty, language, Language.nil_mem_kstar]

/-- A text goes on after a character within a repeated language when it finishes one text that starts with the
character and goes on with further ones. -/
theorem cons_mem_kstar {l : Language Char} : c :: s ∈ l∗ ↔ ∃ x y, s = x ++ y ∧ c :: x ∈ l ∧ y ∈ l∗ := by
  constructor
  · intro member
    obtain ⟨texts, whole, each⟩ := Language.mem_kstar_iff_exists_nonempty.mp member
    cases texts with
    | nil => cases whole
    | cons text texts =>
      obtain ⟨own, nonempty⟩ := each text List.mem_cons_self
      obtain ⟨d, x, rfl⟩ := List.exists_cons_of_ne_nil nonempty
      rw [List.flatten_cons, List.cons_append] at whole
      obtain ⟨rfl, rfl⟩ := List.cons.inj whole
      exact ⟨x, _, rfl, own, Language.join_mem_kstar fun y inside => (each y (List.mem_cons_of_mem _ inside)).1⟩
  · rintro ⟨x, y, rfl, first, further⟩
    obtain ⟨texts, rfl, each⟩ := Language.mem_kstar.mp further
    have all : ∀ text ∈ (c :: x) :: texts, text ∈ l := List.forall_mem_cons.mpr ⟨first, each⟩
    simpa using Language.join_mem_kstar all

/-- A text goes on after a character within the first of two patterns, or starts the second where the first may be
empty. -/
theorem cons_mem_followed : c :: s ∈ (followed a b).language ↔
    (∃ x y, s = x ++ y ∧ c :: x ∈ a.language ∧ y ∈ b.language) ∨ [] ∈ a.language ∧ c :: s ∈ b.language := by
  constructor
  · intro member
    obtain ⟨x, inside, y, further, whole⟩ := Language.mem_mul.mp member
    cases x with
    | nil => exact .inr ⟨inside, whole ▸ further⟩
    | cons d x =>
      obtain ⟨rfl, rfl⟩ := List.cons.inj whole
      exact .inl ⟨x, y, rfl, inside, further⟩
  · rintro (⟨x, y, rfl, inside, further⟩ | ⟨inside, further⟩)
    · exact Language.mem_mul.mpr ⟨c :: x, inside, y, further, rfl⟩
    · exact Language.mem_mul.mpr ⟨[], inside, c :: s, further, rfl⟩

/-- What follows a character in a pattern, and another pattern behind it. -/
theorem mem_join_after (own : ∀ {x}, x ∈ (a.after c).language ↔ c :: x ∈ a.language) :
    s ∈ (join (a.after c) b).language ↔ ∃ x y, s = x ++ y ∧ c :: x ∈ a.language ∧ y ∈ b.language := by
  rw [language_join, Language.mem_mul]
  constructor
  · rintro ⟨x, inside, y, further, rfl⟩
    exact ⟨x, y, rfl, own.mp inside, further⟩
  · rintro ⟨x, y, rfl, inside, further⟩
    exact ⟨x, own.mpr inside, y, further, rfl⟩

/-- What may follow a character is what the pattern admits after it. -/
theorem mem_language_after : s ∈ (p.after c).language ↔ c :: s ∈ p.language := by
  induction p generalizing s with
  | nothing => simp [after, language]
  | empty => simp [after, language]
  | oneOf ranges =>
    rw [mem_oneOf]
    change s ∈ (if holds ranges c = true then Pattern.empty else Pattern.nothing).language ↔ _
    by_cases held : holds ranges c = true
    · simp [held, language]
    · simp [held, language]
  | followed a b first second =>
    rw [after, cons_mem_followed]
    by_cases vanishes : a.admitsEmpty = true
    · rw [if_pos vanishes, language_choose, Language.mem_add, mem_join_after first, second]
      simp [admitsEmpty_iff.mp vanishes]
    · rw [if_neg vanishes, mem_join_after first]
      exact ⟨.inl, fun either => either.resolve_right fun both => vanishes (admitsEmpty_iff.mpr both.1)⟩
  | either a b first second => rw [after, language_choose, Language.mem_add, first, second, mem_either]
  | repeated a inductionHypothesis => rw [after, mem_join_after inductionHypothesis, language, cons_mem_kstar]

/-- A pattern admits the texts of its language. -/
theorem admits_iff : p.admits s = true ↔ s ∈ p.language := by
  induction s generalizing p with
  | nil => exact admitsEmpty_iff
  | cons c s inductionHypothesis => exact inductionHypothesis.trans mem_language_after

/-! ## Patterns that are put together -/

/-- A single character of a choice. -/
theorem mem_chars {choices : List Char} (member : c ∈ choices) : [c] ∈ (chars choices).language := by
  refine mem_oneOf.mpr ⟨c, List.any_eq_true.mpr ⟨(c, c), List.mem_map_of_mem member, ?_⟩, rfl⟩
  simp

/-- Patterns one after the other admit their texts one after the other. -/
theorem append_mem_all {items : List Pattern} {t : List Char} (first : s ∈ p.language)
    (further : t ∈ (all items).language) : s ++ t ∈ (all (p :: items)).language := by
  rw [all, List.foldr_cons, language_join]
  exact Language.append_mem_mul first further

/-- No pattern at all admits the empty text. -/
theorem nil_mem_all : [] ∈ (all []).language := rfl

/-- A text of patterns one after the other holds a text of each of them. -/
theorem exists_infix_of_mem_all {items : List Pattern} (member : s ∈ (all items).language) (inside : p ∈ items) :
    ∃ t ∈ p.language, t <:+: s := by
  induction items generalizing s with
  | nil => cases inside
  | cons first items inductionHypothesis =>
    rw [all, List.foldr_cons, language_join] at member
    obtain ⟨x, own, y, further, rfl⟩ := Language.mem_mul.mp member
    rcases List.mem_cons.mp inside with rfl | later
    · exact ⟨x, own, (List.prefix_append x y).isInfix⟩
    · obtain ⟨t, found, part⟩ := inductionHypothesis further later
      exact ⟨t, found, part.trans (List.suffix_append x y).isInfix⟩

/-- A text of one of several patterns. -/
theorem mem_any {choices : List Pattern} : s ∈ (any choices).language ↔ ∃ p ∈ choices, s ∈ p.language := by
  induction choices with
  | nil => simp [any, language]
  | cons first choices inductionHypothesis =>
    rw [any, List.foldr_cons, language_choose, Language.mem_add, ← any, inductionHypothesis]
    simp

/-- What may be missing may be there. -/
theorem mem_optional : s ∈ (optional p).language ↔ s = [] ∨ s ∈ p.language := by
  rw [optional, language_choose, Language.mem_add]
  rfl

/-- Characters of the ranges, as many as there are. -/
theorem mem_repeated_oneOf (each : ∀ c ∈ s, holds ranges c = true) : s ∈ (repeated (oneOf ranges)).language := by
  have texts : ∀ text ∈ s.map fun c => [c], text ∈ (oneOf ranges).language := by
    intro text member
    obtain ⟨c, inside, rfl⟩ := List.mem_map.mp member
    exact mem_oneOf.mpr ⟨c, each c inside, rfl⟩
  have whole := Language.join_mem_kstar texts
  rwa [← List.flatMap_def, List.flatMap_singleton'] at whole

/-- Characters of the ranges, at least one. -/
theorem mem_atLeastOnce_oneOf (each : ∀ c ∈ s, holds ranges c = true) (some : s ≠ []) :
    s ∈ (atLeastOnce (oneOf ranges)).language := by
  obtain ⟨c, more, rfl⟩ := List.exists_cons_of_ne_nil some
  obtain ⟨first, further⟩ := List.forall_mem_cons.mp each
  rw [atLeastOnce, language_join]
  exact Language.append_mem_mul (mem_oneOf.mpr ⟨c, first, rfl⟩) (mem_repeated_oneOf further)

end MusicScore.Text.Pattern
