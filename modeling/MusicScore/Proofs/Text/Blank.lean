import Mathlib.Data.List.TakeWhile
import MusicScore.Text.CharClass
import MusicScore.Text.Digit

/-!
# Texts without the blanks around them

What is left of a text without the blanks at its ends is the one part of it that neither begins nor ends with a blank
and has nothing but blanks before it and after it. Digits, of whatever script, are no blanks.
-/
namespace MusicScore.Text

variable {s body : List Char} {c : Char}

/-- The text consists of blanks. -/
def IsBlanks (s : List Char) : Prop := ∀ c ∈ s, isBlank c = true

/-- The text neither begins nor ends with a blank. -/
def HasSolidEnds (s : List Char) : Prop :=
  (∀ c ∈ s.head?, isBlank c = false) ∧ ∀ c ∈ s.getLast?, isBlank c = false

/-- A text without any blank has none at its ends. -/
theorem hasSolidEnds_of_forall (solid : ∀ c ∈ s, isBlank c = false) : HasSolidEnds s :=
  ⟨fun c first => solid c (List.mem_of_head? first), fun c last => solid c (List.mem_of_getLast? last)⟩

/-- Nothing is dropped from a text that begins with none of what is dropped. -/
theorem dropWhile_of_head? {p : Char → Bool} (first : ∀ c ∈ s.head?, p c = false) : s.dropWhile p = s := by
  cases s with
  | nil => rfl
  | cons c rest => exact List.dropWhile_cons_of_neg (by simp [first c rfl])

/-- What is dropped from the front of a text is all there is before the first other character. -/
theorem dropWhile_append_of_head? {p : Char → Bool} {front : List Char} (all : ∀ c ∈ front, p c = true)
    (first : ∀ c ∈ s.head?, p c = false) : (front ++ s).dropWhile p = s := by
  rw [List.dropWhile_append_of_pos all, dropWhile_of_head? first]

/-- A text is what is dropped from its front, and the rest that begins with something else. -/
theorem exists_dropWhile (p : Char → Bool) (s : List Char) :
    ∃ front, s = front ++ s.dropWhile p ∧ (∀ c ∈ front, p c = true) ∧ ∀ c ∈ (s.dropWhile p).head?, p c = false := by
  refine ⟨s.takeWhile p, List.takeWhile_append_dropWhile.symm, fun c member => List.mem_takeWhile_imp member, ?_⟩
  intro c first
  have other := List.head?_dropWhile_not p s
  rw [Option.mem_def.mp first] at other
  exact other

/-- The text without the blanks at its ends is the part with solid ends that has blanks around it. -/
theorem trim_eq_iff : trim s = body ↔
    HasSolidEnds body ∧ ∃ before after, IsBlanks before ∧ IsBlanks after ∧ s = before ++ body ++ after := by
  constructor
  · rintro rfl
    obtain ⟨before, whole, leading, first⟩ := exists_dropWhile isBlank s
    obtain ⟨after, reversed, trailing, last⟩ := exists_dropWhile isBlank (trimStart s).reverse
    have split : trimStart s = trim s ++ after.reverse := by
      rw [← List.reverse_inj, reversed, trim, trimEnd, List.reverse_append, List.reverse_reverse, List.reverse_reverse]
    refine ⟨⟨fun c member => ?_, fun c member => ?_⟩, before, after.reverse, leading, ?_, ?_⟩
    · refine first c ?_
      rw [← trimStart, split, List.head?_append, Option.mem_def.mp member]
      rfl
    · refine last c ?_
      rwa [trim, trimEnd, List.getLast?_reverse] at member
    · exact fun c member => trailing c (List.mem_reverse.mp member)
    · rw [List.append_assoc, ← split]
      exact whole
  · rintro ⟨⟨first, last⟩, before, after, leading, trailing, rfl⟩
    by_cases empty : body = []
    · have all : IsBlanks (before ++ body ++ after) := by
        intro c member
        simp only [empty, List.append_nil, List.mem_append] at member
        exact member.elim (leading c) (trailing c)
      rw [empty, trim, trimStart, List.dropWhile_eq_nil_iff.mpr (empty ▸ all)]
      rfl
    · have start : trimStart (before ++ body ++ after) = body ++ after := by
        rw [trimStart, List.append_assoc]
        refine dropWhile_append_of_head? leading fun c member => first c ?_
        rwa [List.head?_append, Option.or_of_isSome (List.isSome_head?.mpr empty)] at member
      have back : (after.reverse ++ body.reverse).dropWhile isBlank = body.reverse := by
        refine dropWhile_append_of_head? (fun c member => trailing c (List.mem_reverse.mp member)) ?_
        rwa [List.head?_reverse]
      rw [trim, start, trimEnd, List.reverse_append, back, List.reverse_reverse]

/-- A text with solid ends is found again among blanks. -/
theorem trim_append {before after : List Char} (solid : HasSolidEnds body) (leading : IsBlanks before)
    (trailing : IsBlanks after) : trim (before ++ body ++ after) = body :=
  trim_eq_iff.mpr ⟨solid, before, after, leading, trailing, rfl⟩

/-- There are no blanks left at the ends of a text. -/
@[simp] theorem trim_trim (s : List Char) : trim (trim s) = trim s :=
  trim_eq_iff.mpr ⟨(trim_eq_iff.mp rfl).1, [], [], by simp [IsBlanks], by simp [IsBlanks], by simp⟩

/-- A digit is no blank: the ranges of blanks and the runs of digits lie apart. -/
theorem isBlank_of_digitValue? {d : Nat} (digit : digitValue? c = some d) : isBlank c = false := by
  have apart : ∀ start ∈ digitZeros, ∀ range ∈ blankRanges, range.last < start ∨ start + 10 ≤ range.first := by
    decide +kernel
  obtain ⟨start, found, _⟩ := Option.map_eq_some_iff.mp digit
  have within := List.find?_some found
  simp only [Bool.and_eq_true, decide_eq_true_eq] at within
  rw [isBlank, inRanges, List.any_eq_false]
  intro range member held
  simp only [CodeRange.holds, Bool.and_eq_true, decide_eq_true_eq] at held
  rcases apart start (List.mem_of_find?_eq_some found) range member with below | above <;> omega

end MusicScore.Text
