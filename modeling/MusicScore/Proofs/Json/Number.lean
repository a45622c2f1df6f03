import MusicScore.Json.Reading
import MusicScore.Json.Writing
import MusicScore.Proofs.Number.DecimalText

/-!
# Numbers in JSON

A number is read as it was written, up to what does not go on with it: a whole number exactly, if it has no more
digits than may be read, and a binary64 number as itself.
-/
namespace MusicScore.Json

open MusicScore.Text MusicScore.Double

variable {ds rest : List Char} {w : Written} {negative : Bool} {x : Double} {n : Int}

/-- What follows a number does not go on with it. -/
def EndsNumber (rest : List Char) : Prop :=
  ∀ c ∈ rest.head?, isAsciiDigit c = false ∧ c ≠ '.' ∧ c ≠ 'e' ∧ c ≠ 'E'

/-- What does not go on with a number is neither a fractional part nor an exponent. -/
theorem EndsNumber.absent (ends : EndsNumber rest) : fraction? rest = none ∧ exponent? rest = none := by
  cases rest with
  | nil => exact ⟨rfl, rfl⟩
  | cons c rest =>
    obtain ⟨_, point, small, capital⟩ := ends c rfl
    simp [fraction?, exponent?, point, small, capital]

/-- The digits of a whole number are read, unless further ones follow. -/
theorem wholeDigits_append (digit : ∀ c ∈ ds, isAsciiDigit c = true) (begun : ds ≠ [])
    (first : ds = ['0'] ∨ ds.head? ≠ some '0') (ends : ∀ c ∈ rest.head?, isAsciiDigit c = false) :
    wholeDigits (ds ++ rest) = (valuesOf ds, rest) := by
  rcases first with rfl | first
  · rfl
  · rw [← asciiDigits_append digit ends]
    cases ds with
    | nil => exact absurd rfl begun
    | cons c ds =>
      have other : c ≠ '0' := fun same => first (congrArg some same)
      rw [wholeDigits.eq_def]
      split
      next same => exact absurd (List.cons.inj same).1 other
      next => rfl

/-- The digits of a number are not a lone zero, unless the number is zero. -/
theorem digitsOf_first (n : Nat) : digitsOf n = ['0'] ∨ (digitsOf n).head? ≠ some '0' := by
  rcases Nat.eq_zero_or_pos n with rfl | positive
  · exact .inl rfl
  · exact .inr (head?_digitsOf positive)

/-- A whole number after its sign is read from its digits. -/
theorem unsignedNumber_digitsOf {n : Nat} (few : n < digitLimit) (ends : EndsNumber rest) :
    unsignedNumber negative (digitsOf n ++ rest) = .ok (.ofInt (IntegerText.signed negative n), rest) := by
  have digits := wholeDigits_append (fun c => isAsciiDigit_of_mem_digitsOf) Nat.toDigits_ne_nil (digitsOf_first n)
    fun c member => (ends c member).1
  have short : (valuesOf (digitsOf n)).length ≤ maxDigits := by
    rw [valuesOf, List.length_map]
    exact length_digitsOf_le_maxDigits.mpr few
  have spelled := ofDigits_digitsOf n
  obtain ⟨d, more, values⟩ := List.exists_cons_of_ne_nil (valuesOf_ne_nil Nat.toDigits_ne_nil : valuesOf (digitsOf n) ≠ [])
  rw [values] at digits short spelled
  simp only [unsignedNumber, digits, ends.absent, Option.getD_none, Option.isNone_none, Bool.and_self, if_true, short,
    spelled]

/-- The fractional part is read, if there is one. -/
theorem fraction?_append (digit : ∀ c ∈ ds, isAsciiDigit c = true) (noPoint : fraction? rest = none)
    (noDigit : ∀ c ∈ rest.head?, isAsciiDigit c = false) :
    fraction? ((if ds = [] then [] else '.' :: ds) ++ rest) = if ds = [] then none else some (valuesOf ds, rest) := by
  split_ifs with absent
  · exact noPoint
  · obtain ⟨d, more, values⟩ := List.exists_cons_of_ne_nil (valuesOf_ne_nil absent)
    simp only [fraction?, List.cons_append, asciiDigits_append digit noDigit, values]

/-- The power of ten is read, if there is one. -/
theorem exponent?_append (exponent : Option Int) (ends : EndsNumber rest) :
    exponent? ((exponent.elim [] fun exponent => 'e' :: Written.powerText exponent) ++ rest) =
      exponent.map (·, rest) := by
  cases exponent with
  | none => exact ends.absent.2
  | some exponent =>
    simp only [exponent?, Option.elim_some, Option.map_some, List.cons_append, decide_true, Bool.true_or, if_true,
      exponentAfterMark?_powerText exponent fun c member => (ends c member).1]

/-- A binary64 number after its sign is read from its parts. -/
theorem unsignedNumber_text (proper : w.IsProper) (ends : EndsNumber rest) :
    unsignedNumber negative (w.text ++ rest) = .ok (.float (ofDecimal negative w.digits w.scale), rest) := by
  obtain ⟨whole, fractional, exponent⟩ := w
  have power := exponent?_append exponent ends
  obtain ⟨after, known⟩ :
      ∃ after, (exponent.elim [] fun exponent => 'e' :: Written.powerText exponent) ++ rest = after := ⟨_, rfl⟩
  have stops : fraction? after = none ∧ ∀ c ∈ after.head?, isAsciiDigit c = false := by
    subst after
    cases exponent with
    | none => exact ⟨ends.absent.1, fun c member => (ends c member).1⟩
    | some exponent => exact ⟨rfl, by simp [isAsciiDigit]⟩
  have part := fraction?_append proper.fractional stops.1 stops.2
  have digits : wholeDigits (whole ++ ((if fractional = [] then [] else '.' :: fractional) ++ after)) =
      (valuesOf whole, (if fractional = [] then [] else '.' :: fractional) ++ after) := by
    refine wholeDigits_append proper.whole proper.begun proper.first ?_
    split_ifs
    · exact stops.2
    · simp [isAsciiDigit]
  obtain ⟨d, more, values⟩ := List.exists_cons_of_ne_nil (valuesOf_ne_nil proper.begun)
  have marked := proper.marked
  rw [known] at power
  rw [values] at digits
  rw [Written.text, List.append_assoc, List.append_assoc, known, unsignedNumber, digits]
  dsimp only
  rw [part]
  have spelled : d :: more ++ valuesOf fractional = valuesOf (whole ++ fractional) := by
    rw [← values]
    exact List.map_append.symm
  simp only [Written.digits, Written.scale, ← spelled]
  -- what is missing is nothing: no digits after the point, and the power zero
  by_cases absent : fractional = []
  · obtain ⟨exponent, rfl⟩ := Option.isSome_iff_exists.mp (marked.resolve_left (not_not_intro absent))
    subst absent
    simp [power, valuesOf]
  · cases exponent with
    | none =>
      obtain rfl : rest = after := known
      simp [absent, power, valuesOf]
    | some exponent => simp [absent, power, valuesOf]

/-! ## Values without parts -/

/-- A word is found only where a letter or a minus with a letter stands at the front. -/
theorem word?_eq_none {c : Char} (digit : isAsciiDigit c = true) (rest : List Char) :
    word? (c :: rest) = none ∧ word? ('-' :: c :: rest) = none := by
  have other (letter : Char) (none : isAsciiDigit letter = false) : ¬ letter = c := by
    rintro rfl
    rw [digit] at none
    cases none
  constructor <;>
    simp [word?, words, List.isPrefixOf, other 'n' rfl, other 't' rfl, other 'f' rfl, other 'N' rfl,
      other 'I' rfl, other '-' rfl]

/-- A text that starts with a digit. -/
def StartsWithDigit (s : List Char) : Prop := ∃ c more, s = c :: more ∧ isAsciiDigit c = true

/-- Digits that are there start with a digit, whatever follows. -/
theorem startsWithDigit_append (digit : ∀ c ∈ ds, isAsciiDigit c = true) (begun : ds ≠ []) (rest : List Char) :
    StartsWithDigit (ds ++ rest) := by
  obtain ⟨c, more, rfl⟩ := List.exists_cons_of_ne_nil begun
  exact ⟨c, more ++ rest, rfl, digit c List.mem_cons_self⟩

/-- A digit, or a minus with a digit, opens a number. -/
theorem atom_signed {body : List Char} (first : StartsWithDigit body) (negative : Bool) :
    atom (if negative then '-' :: body else body) = do
      let (n, rest) ← unsignedNumber negative body
      return (.number n, rest) := by
  obtain ⟨c, more, rfl, digit⟩ := first
  obtain ⟨plain, minus⟩ := word?_eq_none digit more
  cases negative with
  | true =>
    simp only [if_true, atom, minus]
  | false =>
    have other : c ≠ '-' := by
      rintro rfl
      cases digit
    simp only [Bool.false_eq_true, if_false, atom, plain]
    split
    next same => exact absurd (List.cons.inj same).1 other
    next => rfl

/-- A whole number is read as it was written. -/
theorem atom_write (few : n.natAbs < digitLimit) (ends : EndsNumber rest) :
    atom (IntegerText.write n ++ rest) = .ok (.ofInt n, rest) := by
  have first := startsWithDigit_append (fun c => isAsciiDigit_of_mem_digitsOf (n := n.natAbs)) Nat.toDigits_ne_nil rest
  have written : IntegerText.write n ++ rest =
      if decide (n < 0) then '-' :: (digitsOf n.natAbs ++ rest) else digitsOf n.natAbs ++ rest := by
    rw [IntegerText.write_eq]
    split <;> rfl
  rw [written, atom_signed first, unsignedNumber_digitsOf few ends, IntegerText.signed_natAbs]
  rfl

/-- A number of the format is read as it was written. -/
theorem atom_text (format : x.InFormat) (ends : EndsNumber rest) :
    atom (x.text doubleStyle ++ rest) = .ok (.number (.float x), rest) := by
  obtain ⟨w, negative, proper, written, back⟩ := exists_text doubleStyle format
  have first : StartsWithDigit (w.text ++ rest) := by
    rw [Written.text, List.append_assoc, List.append_assoc]
    exact startsWithDigit_append proper.whole proper.begun _
  have signed : x.text doubleStyle ++ rest = if negative then '-' :: (w.text ++ rest) else w.text ++ rest := by
    rw [written]
    cases negative <;> rfl
  rw [signed, atom_signed first, unsignedNumber_text proper ends, back]
  rfl

end MusicScore.Json
