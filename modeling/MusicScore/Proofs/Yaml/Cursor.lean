import Mathlib.Data.List.TakeWhile
import MusicScore.Yaml.Token.Lexer

/-!
# Places in documents that were written

What is written consists of characters that can be typed and of line feeds. Over typed characters the cursor stays
in its line, and a line feed takes it to the start of the next one.
-/
namespace MusicScore.Yaml

/-- A character of ASCII that can be seen, or the blank. -/
def isTyped (c : Char) : Bool := ' ' ≤ c && c ≤ '~'

variable {c : Char} {s rest : List Char} {column : Nat}

/-- A typed character is no character with a number beyond. -/
theorem ne_of_isTyped {d : Char} (typed : isTyped c = true) (other : isTyped d = false) : c ≠ d := by
  rintro rfl
  rw [typed] at other
  cases other

/-- A character that is shown is a line feed or a typed one. -/
theorem isShown_iff : Style.isShown c = true ↔ c = '\n' ∨ isTyped c = true := by
  simp [Style.isShown, isTyped]

/-- A typed character breaks no line. -/
theorem isLineBreak_of_isTyped (typed : isTyped c = true) : isLineBreak c = false := by
  have other {d : Char} (none : isTyped d = false) := ne_of_isTyped typed none
  simp [isLineBreak, Style.isBreak, other (d := '\r') (by decide), other (d := '\n') (by decide),
    other (d := '\x85') (by decide), other (d := '\u2028') (by decide), other (d := '\u2029') (by decide)]

/-- Of the typed characters only the blank ends a word. -/
theorem isBlankOrBreak_iff (typed : isTyped c = true) : isBlankOrBreak c = true ↔ c = ' ' := by
  have tab : c ≠ '\t' := ne_of_isTyped typed (by decide)
  simp [isBlankOrBreak, isLineBreak_of_isTyped typed, tab]

namespace Cursor

variable {c : Cursor} {ch : Char}

/-- The cursor stands before a text, at a column. -/
structure Stands (c : Cursor) (ahead : List Char) (column : Nat) : Prop where
  rest : c.rest = ahead
  left : c.left = ahead.length
  column : c.column = column

/-- A document is read from its start. -/
theorem stands_start (s : List Char) : (start s).Stands s 0 := ⟨rfl, rfl, rfl⟩

/-- The next character is the first of what is left. -/
theorem Stands.peek? (stands : c.Stands (ch :: rest) column) : c.peek? = some ch := by
  rw [Cursor.peek?, stands.rest]
  rfl

/-- The next character passes a test when it does. -/
theorem Stands.isAt (stands : c.Stands (ch :: rest) column) (test : Char → Bool) : c.isAt test = test ch := by
  rw [Cursor.isAt, stands.peek?, Option.any_some]

/-- Nothing passes a test at the end. -/
theorem Stands.isAt_nil (stands : c.Stands [] column) (test : Char → Bool) : c.isAt test = false := by
  rw [Cursor.isAt, Cursor.peek?, stands.rest]
  rfl

/-- A typed character is followed by the next one of the line. -/
theorem Stands.next (stands : c.Stands (ch :: rest) column) (typed : isTyped ch = true) :
    c.next.Stands rest (column + 1) ∧ c.next.line = c.line ∧ c.next.index = c.index + 1 := by
  have stays : endsLine ch rest.head? = false := by
    have noReturn : ch ≠ '\r' := ne_of_isTyped typed (by decide)
    have noBreak := isLineBreak_of_isTyped typed
    simp only [isLineBreak, Bool.or_eq_false_iff] at noBreak
    simp [endsLine, noReturn, noBreak.2]
  have noMark : ch ≠ '\ufeff' := ne_of_isTyped typed (by decide)
  have moved : c.next = ⟨rest, c.left - 1, c.index + 1, c.line, c.column + 1⟩ := by
    simp [Cursor.next, stands.rest, stays, noMark]
  rw [moved]
  refine ⟨⟨rfl, ?_, by rw [stands.column]⟩, rfl, rfl⟩
  rw [stands.left]
  rfl

/-- After typed characters the cursor stands in the same line, as much further. -/
theorem Stands.skip (stands : c.Stands (s ++ rest) column) (typed : ∀ ch ∈ s, isTyped ch = true) :
    (c.skip s.length).Stands rest (column + s.length) ∧ (c.skip s.length).line = c.line ∧
      (c.skip s.length).index = c.index + s.length := by
  induction s generalizing c column with
  | nil => exact ⟨stands, rfl, rfl⟩
  | cons ch s inductionHypothesis =>
    obtain ⟨first, others⟩ := List.forall_mem_cons.mp typed
    obtain ⟨moved, line, index⟩ := stands.next first
    obtain ⟨further, sameLine, sum⟩ := inductionHypothesis moved others
    have columns : column + (ch :: s).length = column + 1 + s.length := by rw [List.length_cons]; omega
    have indices : c.index + (ch :: s).length = c.next.index + s.length := by rw [List.length_cons, index]; omega
    rw [columns, indices]
    exact ⟨further, sameLine.trans line, sum⟩

/-- A line feed is followed by the start of the next line, and counts as one break. -/
theorem Stands.lineBreak (stands : c.Stands ('\n' :: rest) column) :
    c.lineBreak = (['\n'], c.next) ∧ c.next.Stands rest 0 ∧ c.next.line = c.line + 1 := by
  have moved : c.next = ⟨rest, c.left - 1, c.index + 1, c.line + 1, 0⟩ := by
    simp [Cursor.next, stands.rest, endsLine, Style.isBreak]
  refine ⟨?_, ?_, ?_⟩
  · unfold Cursor.lineBreak
    split
    next again => simp [stands.rest] at again
    next ch more same =>
      obtain ⟨rfl, rfl⟩ := List.cons.inj (stands.rest.symm.trans same)
      simp [isLineBreak, Style.isBreak]
    next none => simp [stands.rest] at none
  · rw [moved]
    refine ⟨rfl, ?_, rfl⟩
    rw [stands.left]
    rfl
  · rw [moved]

/-- The characters up to the first that fails a test are taken. -/
theorem Stands.takeWhile {test : Char → Bool} (stands : c.Stands (s ++ rest) column)
    (pass : ∀ ch ∈ s, test ch = true) (fail : ∀ ch ∈ rest.head?, test ch = false) :
    c.takeWhile test = (s, c.skip s.length) := by
  have stop : rest.takeWhile test = [] := by
    cases rest with
    | nil => rfl
    | cons ch rest => simp [fail ch rfl]
  rw [Cursor.takeWhile, stands.rest, List.takeWhile_append_of_pos pass, stop, List.append_nil]

/-- Where the next character fails a test, nothing is taken. -/
theorem Stands.takeWhile_none {test : Char → Bool} (stands : c.Stands (ch :: rest) column) (fail : test ch = false) :
    c.takeWhile test = ([], c) := by
  have all : c.Stands ([] ++ ch :: rest) column := stands
  exact all.takeWhile (by simp) (by simpa using fail)

/-- The blanks ahead are passed. -/
theorem Stands.skipBlanks {count : Nat} {test : Char → Bool} (stands : c.Stands (List.replicate count ' ' ++ rest) column)
    (pass : test ' ' = true) (fail : ∀ ch ∈ rest.head?, test ch = false) :
    (c.skipWhile test).Stands rest (column + count) := by
  have blank (ch : Char) (member : ch ∈ List.replicate count ' ') : ch = ' ' := List.eq_of_mem_replicate member
  have all : ∀ ch ∈ List.replicate count ' ', test ch = true := fun ch member => blank ch member ▸ pass
  rw [skipWhile, stands.takeWhile all fail]
  have moved := (stands.skip fun ch member => blank ch member ▸ rfl).1
  rwa [List.length_replicate] at moved ⊢

end Cursor

end MusicScore.Yaml
