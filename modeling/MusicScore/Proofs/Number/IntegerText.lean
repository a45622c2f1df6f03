import MusicScore.Number.IntegerText
import MusicScore.Proofs.Text.Blank
import MusicScore.Proofs.Text.Digits

/-!
# The grammar of whole numbers

A group of digits begins with a digit and goes on with digits that may have an underscore before them. It is found at
the front of a text as far as it goes. A whole number is a sign and a group of digits among blanks, and reading accepts
just the texts of this form whose group is short enough. What is written is of this form.
-/
namespace MusicScore.IntegerText

open MusicScore.Text

variable {c : Char} {d : Nat} {s rest : List Char} {ds : List Nat} {negative : Bool} {n : Int}

/-! ## Groups of digits -/

/-- The text goes on a group of digits: digits of any script, each with at most one underscore before it. -/
inductive GoesOn : List Char → List Nat → Prop where
  | nil : GoesOn [] []
  | digit {c : Char} {d : Nat} {s : List Char} {ds : List Nat} (value : digitValue? c = some d) (further : GoesOn s ds) :
      GoesOn (c :: s) (d :: ds)
  | underscore {c : Char} {d : Nat} {s : List Char} {ds : List Nat} (value : digitValue? c = some d)
      (further : GoesOn s ds) : GoesOn ('_' :: c :: s) (d :: ds)

/-- The text is a group of digits with these values: it begins with a digit, and goes on. -/
inductive IsGroup : List Char → List Nat → Prop where
  | intro {c : Char} {d : Nat} {s : List Char} {ds : List Nat} (value : digitValue? c = some d)
      (further : GoesOn s ds) : IsGroup (c :: s) (d :: ds)

/-- No group of digits goes on with the text. -/
def Stops (rest : List Char) : Prop := ∀ c ∈ rest.head?, digitValue? c = none ∧ c ≠ '_'

/-- Nothing goes on at the end. -/
@[simp] theorem stops_nil : Stops [] := by
  simp [Stops]

/-- The first character decides whether digits go on. -/
@[simp] theorem stops_cons : Stops (c :: rest) ↔ digitValue? c = none ∧ c ≠ '_' := by
  simp [Stops]

/-- An underscore is no digit. -/
theorem ne_underscore (value : digitValue? c = some d) : c ≠ '_' := by
  rintro rfl
  cases value

/-- A digit is taken, and then what goes on after it. -/
theorem moreDigits_digit (value : digitValue? c = some d) :
    moreDigits (c :: s) = (d :: (moreDigits s).1, (moreDigits s).2) := by
  rw [moreDigits.eq_def]
  split
  next same => cases same
  next same =>
    obtain ⟨rfl, rfl⟩ := List.cons.inj same
    exact absurd rfl (ne_underscore value)
  next same =>
    obtain ⟨rfl, rfl⟩ := List.cons.inj same
    simp only [value]

/-- What goes on a group is taken up to where nothing goes on. -/
theorem moreDigits_append (further : GoesOn s ds) (stops : Stops rest) : moreDigits (s ++ rest) = (ds, rest) := by
  induction further with
  | nil =>
    cases rest with
    | nil => rfl
    | cons c rest =>
      obtain ⟨other, noUnderscore⟩ := stops_cons.mp stops
      rw [List.nil_append, moreDigits.eq_def]
      split <;> simp_all
  | digit value _ inductionHypothesis => rw [List.cons_append, moreDigits_digit value, inductionHypothesis]
  | underscore value _ inductionHypothesis =>
    simp only [List.cons_append, moreDigits, value, inductionHypothesis]

/-- What is taken goes on a group. -/
theorem goesOn_moreDigits (s : List Char) : ∃ front, s = front ++ (moreDigits s).2 ∧ GoesOn front (moreDigits s).1 := by
  fun_induction moreDigits s with
  | case1 => exact ⟨[], rfl, .nil⟩
  | case2 c rest d value more inductionHypothesis =>
    obtain ⟨front, split, further⟩ := inductionHypothesis
    exact ⟨'_' :: c :: front, by simpa using split, .underscore value further⟩
  | case3 c rest other => exact ⟨[], rfl, .nil⟩
  | case4 c rest _ d value more inductionHypothesis =>
    obtain ⟨front, split, further⟩ := inductionHypothesis
    exact ⟨c :: front, by simpa using split, .digit value further⟩
  | case5 c rest _ other => exact ⟨[], rfl, .nil⟩

/-- A group at the front of a text is found. -/
theorem digitGroup?_append (group : IsGroup s ds) (stops : Stops rest) : digitGroup? (s ++ rest) = some (ds, rest) := by
  cases group with
  | intro value further => simp [digitGroup?, value, moreDigits_append further stops]

/-- What is found at the front of a text is a group. -/
theorem exists_of_digitGroup? (found : digitGroup? s = some (ds, rest)) : ∃ front, s = front ++ rest ∧ IsGroup front ds := by
  cases s with
  | nil => cases found
  | cons c s =>
    obtain ⟨d, value, same⟩ := Option.map_eq_some_iff.mp found
    obtain ⟨front, split, further⟩ := goesOn_moreDigits s
    cases same
    exact ⟨c :: front, congrArg (c :: ·) split, .intro value further⟩

/-- A group consists of digits and underscores. -/
theorem IsGroup.forall_mem (group : IsGroup s ds) : ∀ c ∈ s, c = '_' ∨ ∃ d, digitValue? c = some d := by
  have all {s : List Char} {ds : List Nat} (further : GoesOn s ds) : ∀ c ∈ s, c = '_' ∨ ∃ d, digitValue? c = some d := by
    induction further with
    | nil => simp
    | digit value _ inductionHypothesis => exact List.forall_mem_cons.mpr ⟨.inr ⟨_, value⟩, inductionHypothesis⟩
    | underscore value _ inductionHypothesis =>
      exact List.forall_mem_cons.mpr ⟨.inl rfl, List.forall_mem_cons.mpr ⟨.inr ⟨_, value⟩, inductionHypothesis⟩⟩
  cases group with
  | intro value further => exact List.forall_mem_cons.mpr ⟨.inr ⟨_, value⟩, all further⟩

/-- There is no blank in a group. -/
theorem IsGroup.isBlank (group : IsGroup s ds) : ∀ c ∈ s, isBlank c = false := by
  intro c member
  obtain rfl | ⟨d, value⟩ := group.forall_mem c member
  · decide
  · exact isBlank_of_digitValue? value

/-- The values of a group are those of digits. -/
theorem IsGroup.lt_ten (group : IsGroup s ds) : ∀ d ∈ ds, d < 10 := by
  have all {s : List Char} {ds : List Nat} (further : GoesOn s ds) : ∀ d ∈ ds, d < 10 := by
    induction further with
    | nil => simp
    | digit value _ inductionHypothesis =>
      exact List.forall_mem_cons.mpr ⟨digitValue?_lt_ten value, inductionHypothesis⟩
    | underscore value _ inductionHypothesis =>
      exact List.forall_mem_cons.mpr ⟨digitValue?_lt_ten value, inductionHypothesis⟩
  cases group with
  | intro value further => exact List.forall_mem_cons.mpr ⟨digitValue?_lt_ten value, all further⟩

/-- A group begins with a digit. -/
theorem IsGroup.head? (group : IsGroup s ds) : ∃ c d, s.head? = some c ∧ digitValue? c = some d := by
  cases group with
  | intro value _ => exact ⟨_, _, rfl, value⟩

/-! ## Signs -/

/-- The text is a sign, or nothing; a minus makes a number negative. -/
inductive IsSign : List Char → Bool → Prop where
  | none : IsSign [] false
  | plus : IsSign ['+'] false
  | minus : IsSign ['-'] true

/-- A sign is taken from the front of a text that goes on without one. -/
theorem takeSign_append (sign : IsSign s negative) (bare : ∀ c ∈ rest.head?, c ≠ '+' ∧ c ≠ '-') :
    takeSign (s ++ rest) = (negative, rest) := by
  cases sign with
  | none =>
    rw [List.nil_append, takeSign.eq_def]
    split <;> simp_all
  | plus => rfl
  | minus => rfl

/-- What is taken is a sign. -/
theorem exists_of_takeSign (taken : takeSign s = (negative, rest)) : ∃ sign, s = sign ++ rest ∧ IsSign sign negative := by
  rw [takeSign.eq_def] at taken
  split at taken <;> cases taken
  · exact ⟨['-'], rfl, .minus⟩
  · exact ⟨['+'], rfl, .plus⟩
  · exact ⟨[], rfl, .none⟩

/-- There is no blank in a sign. -/
theorem IsSign.isBlank (sign : IsSign s negative) : ∀ c ∈ s, isBlank c = false := by
  have plus : Text.isBlank '+' = false := by decide
  have minus : Text.isBlank '-' = false := by decide
  cases sign <;> simp [plus, minus]

/-- A digit is no sign. -/
theorem ne_sign (value : digitValue? c = some d) : c ≠ '+' ∧ c ≠ '-' := by
  constructor <;> (rintro rfl; cases value)

/-! ## Whole numbers -/

/-- The text spells the whole number: a sign and a group of not too many digits, with blanks around them. -/
inductive Spells : List Char → Int → Prop where
  | intro {before sign group after : List Char} {negative : Bool} {digits : List Nat}
      (leading : ∀ c ∈ before, isMargin c = true) (signed : IsSign sign negative) (grouped : IsGroup group digits)
      (short : digits.length ≤ maxDigits) (trailing : ∀ c ∈ after, isMargin c = true) :
      Spells (before ++ sign ++ group ++ after) (IntegerText.signed negative (ofDigits digits))

/-- A blank beside a number is none of its characters. -/
theorem not_isMargin (value : digitValue? c = some d) : isMargin c = false := by
  rw [isMargin, isBlank_of_digitValue? value, Bool.false_and]

/-- Digits stop at a blank. -/
theorem stops_of_margin (margin : ∀ c ∈ rest, isMargin c = true) : Stops rest := by
  intro c first
  have blank := margin c (List.mem_of_head? first)
  constructor
  · cases value : digitValue? c with
    | none => rfl
    | some d => rw [not_isMargin value] at blank; cases blank
  · rintro rfl
    exact absurd blank (by decide)

/-- A sign and a group of digits begin with what is no blank. -/
theorem isMargin_head? {sign group after : List Char} (signed : IsSign sign negative) (grouped : IsGroup group ds) :
    ∀ c ∈ (sign ++ (group ++ after)).head?, isMargin c = false := by
  have solid : ∀ c ∈ sign ++ group, isBlank c = false := fun c member =>
    (List.mem_append.mp member).elim (signed.isBlank c) (grouped.isBlank c)
  have some : sign ++ group ≠ [] := by
    cases grouped
    simp
  intro c first
  rw [← List.append_assoc, List.head?_append, Option.or_of_isSome (List.isSome_head?.mpr some)] at first
  rw [isMargin, solid c (List.mem_of_head? first), Bool.false_and]

/-- Reading accepts just the texts that spell whole numbers. -/
theorem read?_eq_some_iff : read? s = some n ↔ Spells s n := by
  constructor
  · intro done
    obtain ⟨before, whole, leading, _⟩ := exists_dropWhile isMargin s
    rw [read?] at done
    rcases taken : takeSign (s.dropWhile isMargin) with ⟨negative, body⟩
    obtain ⟨sign, signSplit, signed⟩ := exists_of_takeSign taken
    simp only [taken] at done
    split at done
    next digits rest found =>
      obtain ⟨group, split, grouped⟩ := exists_of_digitGroup? found
      split at done
      next accepted =>
        cases done
        simp only [Bool.and_eq_true, decide_eq_true_eq, List.all_eq_true] at accepted
        have form : s = before ++ sign ++ group ++ rest := by
          rw [List.append_assoc, List.append_assoc, ← split, ← signSplit, ← whole]
        exact form ▸ .intro leading signed grouped accepted.1 accepted.2
      next => cases done
    next => cases done
  · rintro ⟨leading, signed, grouped, short, trailing⟩
    rename_i before sign group after negative digits
    have start : (before ++ sign ++ group ++ after).dropWhile isMargin = sign ++ (group ++ after) := by
      rw [List.append_assoc, List.append_assoc]
      exact dropWhile_append_of_head? leading (isMargin_head? signed grouped)
    have taken : takeSign (sign ++ (group ++ after)) = (negative, group ++ after) := by
      refine takeSign_append signed fun c first => ?_
      obtain ⟨c', d, own, value⟩ := grouped.head?
      rw [List.head?_append, own] at first
      cases first
      exact ne_sign value
    have found := digitGroup?_append grouped (stops_of_margin trailing)
    have accepted : (decide (digits.length ≤ maxDigits) && after.all isMargin) = true := by
      simpa [short] using trailing
    simp only [read?, start, taken, found, accepted, if_true]

/-- A whole number that is spelled has not too many digits. -/
theorem Spells.natAbs_lt (spelled : Spells s n) : n.natAbs < digitLimit := by
  obtain ⟨_, _, grouped, short, _⟩ := spelled
  rename_i negative digits
  have small := ofDigits_lt_digitLimit grouped.lt_ten short
  cases negative <;> simpa [IntegerText.signed] using small

/-- There is nothing in the text of a whole number but blanks, signs, underscores and digits. -/
theorem Spells.forall_mem (spelled : Spells s n) :
    ∀ c ∈ s, isBlank c = true ∨ c = '+' ∨ c = '-' ∨ c = '_' ∨ ∃ d, digitValue? c = some d := by
  have blank {margin : List Char} (all : ∀ c ∈ margin, isMargin c = true) : ∀ c ∈ margin, isBlank c = true :=
    fun c member => (Bool.and_eq_true_iff.mp (all c member)).1
  obtain ⟨leading, signed, grouped, _, trailing⟩ := spelled
  simp only [List.forall_mem_append]
  refine ⟨⟨⟨fun c member => .inl (blank leading c member), fun c member => ?_⟩, fun c member => ?_⟩, fun c member =>
    .inl (blank trailing c member)⟩
  · cases signed <;> simp_all
  · exact .inr (.inr (.inr (grouped.forall_mem c member)))

/-! ## Whole numbers as they are written -/

/-- A digit of ASCII is worth its distance from zero. -/
theorem digitValue?_of_isAsciiDigit (digit : Double.isAsciiDigit c = true) : digitValue? c = some (c.toNat - 48) := by
  simp only [Double.isAsciiDigit, Bool.and_eq_true, decide_eq_true_eq] at digit
  have low : 48 ≤ c.toNat := digit.1
  have high : c.toNat < 48 + 10 := Nat.lt_succ_of_le digit.2
  simp [digitValue?, digitZeros, low, high]

/-- Digits of ASCII are a group. -/
theorem isGroup_valuesOf (digit : ∀ c ∈ s, Double.isAsciiDigit c = true) (some : s ≠ []) : IsGroup s (valuesOf s) := by
  have further {s : List Char} (digit : ∀ c ∈ s, Double.isAsciiDigit c = true) : GoesOn s (valuesOf s) := by
    induction s with
    | nil => exact .nil
    | cons c s inductionHypothesis =>
      obtain ⟨own, others⟩ := List.forall_mem_cons.mp digit
      exact .digit (digitValue?_of_isAsciiDigit own) (inductionHypothesis others)
  obtain ⟨c, rest, rfl⟩ := List.exists_cons_of_ne_nil some
  obtain ⟨own, others⟩ := List.forall_mem_cons.mp digit
  exact .intro (digitValue?_of_isAsciiDigit own) (further others)

/-- A whole number of not too many digits is spelled by what is written for it. -/
theorem spells_write (short : n.natAbs < digitLimit) : Spells (write n) n := by
  have group : IsGroup (digitsOf n.natAbs) (valuesOf (digitsOf n.natAbs)) :=
    isGroup_valuesOf (fun _ => isAsciiDigit_of_mem_digitsOf) Nat.toDigits_ne_nil
  have few : (valuesOf (digitsOf n.natAbs)).length ≤ maxDigits := by
    rw [length_valuesOf]
    exact length_digitsOf_le_maxDigits.mpr short
  have sign : IsSign (if n < 0 then ['-'] else []) (decide (n < 0)) := by
    by_cases negative : n < 0
    · simpa [negative] using IsSign.minus
    · simpa [negative] using IsSign.none
  have spelled : Spells ([] ++ (if n < 0 then ['-'] else []) ++ digitsOf n.natAbs ++ [])
      (IntegerText.signed (decide (n < 0)) (ofDigits (valuesOf (digitsOf n.natAbs)))) :=
    .intro (by simp) sign group few (by simp)
  have form : [] ++ (if n < 0 then ['-'] else []) ++ digitsOf n.natAbs ++ [] = write n := by
    unfold write
    split <;> simp
  rwa [form, ofDigits_digitsOf, signed_natAbs] at spelled

end MusicScore.IntegerText
