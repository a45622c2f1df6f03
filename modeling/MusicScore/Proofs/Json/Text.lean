import MusicScore.Json.Basic
import MusicScore.Proofs.Outcome
import MusicScore.Proofs.Text.Digits

/-!
# Texts in JSON

A text is read as it was written. Every character is written in ASCII, by itself, by a letter or by number, and
each of these forms is read as that character. What is written by number is never half of a character by itself.
-/
namespace MusicScore.Json

open MusicScore.Text

variable {c : Char} {rest : List Char} {fuel unit : Nat}

/-! ## Characters by number -/

/-- A character is written as one code unit, its number, or as two that together make up its number. -/
theorem numberEscape_cases (c : Char) :
    (c.toNat < 0x10000 ∧ numberEscape c = unitEscape c.toNat) ∨
      ∃ offset < 0x100000, 0x10000 + offset = c.toNat ∧
        numberEscape c = unitEscape (0xd800 + offset / 0x400) ++ unitEscape (0xdc00 + offset % 0x400) := by
  have valid := toNat_valid c
  unfold numberEscape
  -- the number is kept a variable, since its distance from a bound is not to be computed
  generalize c.toNat = n at valid ⊢
  by_cases first : n < 0x10000
  · exact .inl ⟨first, if_pos first⟩
  · obtain ⟨offset, above⟩ : ∃ offset, n - 0x10000 = offset := ⟨_, rfl⟩
    refine .inr ⟨offset, by omega, by omega, ?_⟩
    simp only [first, if_false, above]

/-- A code unit is read from its four digits. -/
theorem codeUnit?_hex (fits : unit < 0x10000) (rest : List Char) :
    codeUnit? (hex 4 unit ++ rest) = some (unit, rest) := by
  have spelled := ofHex?_hex 4 unit
  have counted : (hex 4 unit).length = 4 := length_hex (by decide) fits
  match digits : hex 4 unit, counted with
  | [a, b, c, d], _ =>
    rw [digits] at spelled
    simp [codeUnit?, spelled]

/-- A character of the first plane is read from its number. -/
theorem numbered_hex (first : c.toNat < 0x10000) (rest : List Char) :
    numbered (hex 4 c.toNat ++ rest) = .ok (c, rest) := by
  have valid := toNat_valid c
  have high : isHighUnit c.toNat = false := by
    simp only [isHighUnit, Bool.and_eq_false_iff, decide_eq_false_iff_not]
    omega
  have low : isLowUnit c.toNat = false := by
    simp only [isLowUnit, Bool.and_eq_false_iff, decide_eq_false_iff_not]
    omega
  simp only [numbered, codeUnit?_hex first, high, low, Char.ofNat_toNat]
  rfl

/-- Two code units stand for a character beyond the first plane. -/
theorem numbered_pair {offset : Nat} (beyond : offset < 0x100000) (rest : List Char) :
    numbered (hex 4 (0xd800 + offset / 0x400) ++ (unitEscape (0xdc00 + offset % 0x400) ++ rest)) =
      .ok (Char.ofNat (0x10000 + offset), rest) := by
  have first : isHighUnit (0xd800 + offset / 0x400) = true := by
    simp only [isHighUnit, Bool.and_eq_true, decide_eq_true_eq]
    omega
  have second : isLowUnit (0xdc00 + offset % 0x400) = true := by
    simp only [isLowUnit, Bool.and_eq_true, decide_eq_true_eq]
    omega
  have whole : 0x10000 + (0xd800 + offset / 0x400 - 0xd800) * 0x400 + (0xdc00 + offset % 0x400 - 0xdc00) =
      0x10000 + offset := by omega
  have joined : joinUnits (0xd800 + offset / 0x400) (0xdc00 + offset % 0x400) = Char.ofNat (0x10000 + offset) := by
    rw [joinUnits, whole]
  rw [numbered, codeUnit?_hex (by omega)]
  simp only [first, if_true, unitEscape, List.cons_append]
  rw [codeUnit?_hex (by omega)]
  simp only [second, if_true, joined]

/-- A character that is written by number is read as it is. -/
theorem exists_numberEscape (c : Char) (rest : List Char) :
    ∃ digits, numberEscape c = '\\' :: 'u' :: digits ∧ numbered (digits ++ rest) = .ok (c, rest) := by
  rcases numberEscape_cases c with ⟨first, written⟩ | ⟨offset, beyond, whole, written⟩
  · exact ⟨hex 4 c.toNat, written, numbered_hex first rest⟩
  · refine ⟨hex 4 (0xd800 + offset / 0x400) ++ unitEscape (0xdc00 + offset % 0x400), written, ?_⟩
    rw [List.append_assoc, numbered_pair beyond, whole, Char.ofNat_toNat]

/-! ## Texts -/

/-- A character is read as it is. -/
theorem textBody_escape (c : Char) (rest : List Char) :
    textBody (fuel + 1) (escape c ++ rest) = do
      let (chars, last) ← textBody fuel rest
      return (c :: chars, last) := by
  unfold escape
  split_ifs with marked newline tab return' page back printed
  · simp only [Bool.or_eq_true, decide_eq_true_eq] at marked
    rcases marked with rfl | rfl <;> rfl
  iterate 5 subst c; rfl
  · simp only [Bool.or_eq_true, decide_eq_true_eq, not_or] at marked
    have above : ¬ c.toNat < 0x20 := by omega
    simp only [List.singleton_append, textBody, marked.1, marked.2, above, if_false]
  · obtain ⟨digits, written, found⟩ := exists_numberEscape c rest
    rw [written]
    simp [textBody, escaped, found, bind, Except.bind]

/-- Every character is written by one at least. -/
theorem length_le_flatMap_escape (s : List Char) : s.length ≤ (s.flatMap escape).length := by
  induction s with
  | nil => exact Nat.le_refl _
  | cons c s inductionHypothesis =>
    have some : 0 < (escape c).length := by
      unfold escape
      split_ifs
      iterate 7 exact Nat.succ_pos _
      obtain ⟨digits, written, _⟩ := exists_numberEscape c []
      rw [written]
      exact Nat.succ_pos _
    rw [List.flatMap_cons, List.length_append, List.length_cons]
    omega

/-- A text is read up to its closing mark. -/
theorem textBody_flatMap {s : List Char} (enough : s.length < fuel) :
    textBody fuel (s.flatMap escape ++ '"' :: rest) = .ok (s, rest) := by
  induction s generalizing fuel with
  | nil =>
    obtain ⟨fuel, rfl⟩ : ∃ less, fuel = less + 1 := ⟨fuel - 1, by simp at enough; omega⟩
    rfl
  | cons c s inductionHypothesis =>
    obtain ⟨fuel, rfl⟩ : ∃ less, fuel = less + 1 := ⟨fuel - 1, by simp at enough; omega⟩
    rw [List.flatMap_cons, List.append_assoc, textBody_escape, inductionHypothesis (by simpa using enough)]
    rfl

end MusicScore.Json
