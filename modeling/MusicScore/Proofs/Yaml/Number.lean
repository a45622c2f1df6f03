import Mathlib.Data.Bool.AllAny
import Mathlib.Data.List.TakeWhile
import MusicScore.Proofs.Number.DecimalText
import MusicScore.Proofs.Text.Pattern
import MusicScore.Yaml.Amount
import MusicScore.Yaml.Written

/-!
# Numbers in YAML

The text of a number is found to be that of a number by its characters alone: a whole number has no point, and a
binary64 number has one. It is read as the number that was written, and it may stand without quotation marks.
-/
namespace MusicScore.Yaml

open MusicScore.Text MusicScore.Double

variable {c : Char} {s body : List Char} {n : Int} {x : Double} {w : Double.Written}

/-! ## The characters of numbers -/

/-- The characters that numbers are written with. -/
def amountChars : List Char := ['0', '1', '2', '3', '4', '5', '6', '7', '8', '9', '.', 'e', '+', '-']

/-- A digit of ASCII is one of the ten. -/
theorem mem_digits_of_isAsciiDigit (digit : isAsciiDigit c = true) : c ∈ amountChars.take 10 := by
  simp only [isAsciiDigit, Bool.and_eq_true, decide_eq_true_eq] at digit
  have low : 48 ≤ c.toNat := digit.1
  have high : c.toNat ≤ 57 := digit.2
  obtain ⟨d, small, same⟩ : ∃ d, d < 10 ∧ c.toNat = 48 + d := ⟨c.toNat - 48, by omega, by omega⟩
  have each : ∀ d < 10, Char.ofNat (48 + d) ∈ amountChars.take 10 := by decide
  rw [← Char.ofNat_toNat c, same]
  exact each d small

/-- What all ten digits have, every digit of ASCII has. -/
theorem forall_digit {motive : Char → Prop} (all : ∀ c ∈ amountChars.take 10, motive c)
    (digit : isAsciiDigit c = true) : motive c :=
  all c (mem_digits_of_isAsciiDigit digit)

/-- A character of a number is no letter of a word, mark or blank, and it can be shown. -/
theorem amountChars_spec : ∀ c ∈ amountChars, smallLetter c = [c] ∧ isBlank c = false ∧ c ≠ '_' ∧ c ≠ ':' ∧ c ≠ '#' ∧
    Style.isShown c = true ∧ Style.isGap c = false :=
  List.all_iff_forall_prop.mp (by decide +kernel)

/-- The text is that of a number: a digit and characters of numbers, behind a minus or not. -/
structure IsAmount (s : List Char) (negative : Bool) (body : List Char) : Prop where
  whole : s = if negative then '-' :: body else body
  begun : ∃ c more, body = c :: more ∧ isAsciiDigit c = true
  each : ∀ c ∈ body, c ∈ amountChars

namespace IsAmount

variable {negative : Bool}

/-- All characters of the text are characters of numbers. -/
theorem chars (amount : IsAmount s negative body) : ∀ c ∈ s, c ∈ amountChars := by
  rw [amount.whole]
  cases negative with
  | false => exact amount.each
  | true => exact List.forall_mem_cons.mpr ⟨by decide, amount.each⟩

/-- The text has characters. -/
theorem nonempty (amount : IsAmount s negative body) : s ≠ [] := by
  obtain ⟨c, more, rfl, _⟩ := amount.begun
  rw [amount.whole]
  cases negative <;> simp

/-- The text is none of some words that start with neither a digit nor a minus. -/
theorem not_mem_words (amount : IsAmount s negative body) {words : List String}
    (letters : words.all (fun word => word.toList.head?.all fun c => !isAsciiDigit c && c ≠ '-') = true) :
    words.contains (String.ofList s) = false := by
  rw [List.contains_eq_mem, decide_eq_false_iff_not]
  intro member
  have first := List.all_eq_true.mp letters _ member
  obtain ⟨c, more, rfl, digit⟩ := amount.begun
  rw [String.toList_ofList, amount.whole] at first
  cases negative with
  | false => simp [digit] at first
  | true => simp at first

/-- The sign is taken off. -/
theorem takeSign (amount : IsAmount s negative body) : IntegerText.takeSign s = (negative, body) := by
  obtain ⟨c, more, rfl, digit⟩ := amount.begun
  rw [amount.whole]
  cases negative with
  | true => rfl
  | false =>
    refine forall_digit (motive := fun c => IntegerText.takeSign (c :: more) = (false, c :: more)) ?_ digit
    simp [amountChars, IntegerText.takeSign]

/-- There are no underscores to leave out. -/
theorem signed (amount : IsAmount s negative body) : Amount.signed s = .ok (negative, body) := by
  have same : s.filter (· ≠ '_') = s := by
    refine List.filter_eq_self.mpr fun c member => ?_
    simpa using (amountChars_spec c (amount.chars c member)).2.2.1
  obtain ⟨c, more, cons⟩ := List.exists_cons_of_ne_nil amount.nonempty
  have sign := amount.takeSign
  rw [cons] at sign
  rw [Amount.signed, same, cons]
  exact congrArg Except.ok sign

/-- The text may stand without quotation marks. -/
theorem admitsPlain (amount : IsAmount s negative body) : Style.admitsPlain s = true := by
  have spec (c : Char) (member : c ∈ s) := amountChars_spec c (amount.chars c member)
  have noBreak (c : Char) (member : c ∈ s) : c ≠ ' ' ∧ Style.isBreak c = false := by
    have solid := (spec c member).2.2.2.2.2.2
    simp only [Style.isGap, Bool.or_eq_false_iff, decide_eq_false_iff_not] at solid
    exact ⟨solid.1.1.1.1, solid.2⟩
  have ends : Style.hasBlankEnds s = false := by
    simp only [Style.hasBlankEnds, List.any_cons, List.any_nil, Bool.or_false, Bool.or_eq_false_iff]
    constructor
    · cases first : s.head? with
      | none => rfl
      | some c => simp [noBreak c (List.mem_of_head? first)]
    · cases last : s.getLast? with
      | none => rfl
      | some c => simp [noBreak c (List.mem_of_getLast? last)]
  have lines : Style.isMultiline s = false := List.any_eq_false.mpr fun c member => by simp [noBreak c member]
  have shown : s.any (fun c => !Style.isShown c) = false :=
    List.any_eq_false.mpr fun c member => by simp [spec c member]
  have inside (previous : Char) (t : List Char) (all : ∀ c ∈ t, c ∈ s) : Style.holdsStructure previous t = false := by
    induction t generalizing previous with
    | nil => rfl
    | cons c t inductionHypothesis =>
      obtain ⟨first, further⟩ := List.forall_mem_cons.mp all
      have own := spec c first
      simp [Style.holdsStructure, own, inductionHypothesis c further]
  have start : Style.beginsAsStructure s = false := by
    obtain ⟨c, more, rfl, digit⟩ := amount.begun
    rw [amount.whole]
    cases negative with
    | false =>
      refine forall_digit (motive := fun c => Style.beginsAsStructure (c :: more) = false) ?_ digit
      simp [amountChars, Style.beginsAsStructure, Style.isLeadingIndicator]
    | true =>
      refine forall_digit (motive := fun c => Style.beginsAsStructure ('-' :: c :: more) = false) ?_ digit
      simp [amountChars, Style.beginsAsStructure, Style.isLeadingIndicator, Style.gapFollows, Style.isGap, Style.isBreak]
  have structured : Style.looksLikeStructure s = false := by
    obtain ⟨c, more, rfl⟩ := List.exists_cons_of_ne_nil amount.nonempty
    simp [Style.looksLikeStructure, start, inside c more fun d member => List.mem_cons_of_mem c member]
  simp [Style.admitsPlain, ends, lines, shown, structured]

end IsAmount

/-! ## Kinds -/

/-- A number with a point has one. -/
theorem point_mem_of_floatPattern (member : s ∈ Kind.floatPattern.language) : '.' ∈ s := by
  obtain ⟨p, listed, own⟩ := Pattern.mem_any.mp member
  have pointed : ∃ items, p = .all items ∧ Pattern.chars ['.'] ∈ items := by
    simp only [List.mem_cons, List.not_mem_nil, or_false] at listed
    rcases listed with rfl | rfl | rfl | rfl | rfl <;> exact ⟨_, rfl, by simp⟩
  obtain ⟨items, rfl, inside⟩ := pointed
  obtain ⟨t, point, part⟩ := Pattern.exists_infix_of_mem_all own inside
  obtain ⟨c, held, rfl⟩ := Pattern.mem_oneOf.mp point
  have same : c = '.' := by
    simp only [Pattern.holds, List.map_cons, List.map_nil, List.any_cons, List.any_nil, Bool.or_false, Bool.and_eq_true,
      decide_eq_true_eq] at held
    exact Char.le_antisymm held.2 held.1
  exact same ▸ part.subset (List.mem_singleton_self c)

/-- The sign of a number, or none. -/
theorem sign_mem (negative : Bool) : (if negative then ['-'] else []) ∈ Kind.sign.language := by
  cases negative with
  | false => exact Pattern.mem_optional.mpr (.inl rfl)
  | true => exact Pattern.mem_optional.mpr (.inr (Pattern.mem_chars (by simp)))

/-- Digits are digits or underscores. -/
theorem digits_mem {ds : List Char} (digit : ∀ c ∈ ds, isAsciiDigit c = true) : ds ∈ Kind.digitsOrMarks.language := by
  refine Pattern.mem_repeated_oneOf fun c member => ?_
  have own := digit c member
  rw [isAsciiDigit] at own
  simp [Pattern.holds, own]

/-- The text of a whole number is that of an amount. -/
theorem isAmount_write (n : Int) : IsAmount (IntegerText.write n) (decide (n < 0)) (digitsOf n.natAbs) := by
  refine ⟨IntegerText.write_eq n, ?_, fun c member => ?_⟩
  · obtain ⟨c, more, same⟩ := List.exists_cons_of_ne_nil (Nat.toDigits_ne_nil : digitsOf n.natAbs ≠ [])
    exact ⟨c, more, same, isAsciiDigit_of_mem_digitsOf (same ▸ List.mem_cons_self)⟩
  · exact List.mem_of_mem_take (mem_digits_of_isAsciiDigit (isAsciiDigit_of_mem_digitsOf member))

/-- The digits of a number, behind its sign, are a whole number. -/
theorem write_mem_wholePattern (n : Int) : IntegerText.write n ∈ Kind.wholePattern.language := by
  have magnitude : digitsOf n.natAbs ∈
      (Pattern.any [.chars ['0'], .all [.oneOf [('1', '9')], Kind.digitsOrMarks]]).language := by
    rcases Nat.eq_zero_or_pos n.natAbs with zero | positive
    · rw [zero]
      exact Pattern.mem_any.mpr ⟨_, List.mem_cons_self, Pattern.mem_chars List.mem_cons_self⟩
    · have digit (c : Char) (member : c ∈ digitsOf n.natAbs) := isAsciiDigit_of_mem_digitsOf member
      have first := head?_digitsOf positive
      have begun : digitsOf n.natAbs ≠ [] := Nat.toDigits_ne_nil
      obtain ⟨c, more, same⟩ := List.exists_cons_of_ne_nil begun
      rw [same] at digit first ⊢
      obtain ⟨own, further⟩ := List.forall_mem_cons.mp digit
      have leading : Pattern.holds [('1', '9')] c = true := by
        refine forall_digit (motive := fun c => (c :: more).head? ≠ some '0' → Pattern.holds [('1', '9')] c = true) ?_
          own first
        simp [amountChars, Pattern.holds]
      refine Pattern.mem_any.mpr ⟨_, List.mem_cons_of_mem _ List.mem_cons_self, ?_⟩
      refine Pattern.append_mem_all (s := [c]) (Pattern.mem_oneOf.mpr ⟨c, leading, rfl⟩) ?_
      rw [← List.append_nil more]
      exact Pattern.append_mem_all (digits_mem further) Pattern.nil_mem_all
  refine Pattern.mem_any.mpr ⟨.all [Kind.sign, .any [.chars ['0'], .all [.oneOf [('1', '9')], Kind.digitsOrMarks]]],
    by simp, ?_⟩
  rw [IntegerText.write_eq]
  generalize decide (n < 0) = negative
  have whole := Pattern.append_mem_all (sign_mem negative) (Pattern.append_mem_all magnitude Pattern.nil_mem_all)
  rw [List.append_nil] at whole
  cases negative with
  | false => exact whole
  | true => exact whole

/-- The text of a whole number is found to be one. -/
theorem ofPlain_write (n : Int) : Kind.ofPlain (IntegerText.write n) = .whole := by
  have amount := isAmount_write n
  have pointless : Kind.floatPattern.admits (IntegerText.write n) = false := by
    rw [Bool.eq_false_iff]
    intro admitted
    have point := point_mem_of_floatPattern (Pattern.admits_iff.mp admitted)
    rw [IntegerText.write_eq] at point
    have digit : '.' ∈ digitsOf n.natAbs := by
      cases negative : decide (n < 0) <;> simpa [negative] using point
    exact absurd (isAsciiDigit_of_mem_digitsOf digit) (by decide)
  unfold Kind.ofPlain
  simp only [amount.not_mem_words (by decide +kernel : Kind.yesWords.all _ = true),
    amount.not_mem_words (by decide +kernel : Kind.noWords.all _ = true), pointless,
    Pattern.admits_iff.mpr (write_mem_wholePattern n), Bool.or_false, Bool.false_eq_true, if_false, if_true]

/-! ## Whole numbers -/

/-- A digit of ASCII is worth its distance from the zero, and no blank. -/
theorem digit_spec (digit : isAsciiDigit c = true) :
    Amount.digitIn? 10 c = some (c.toNat - 48) ∧ IntegerText.isMargin c = false ∧ c ≠ ':' := by
  refine forall_digit (motive := fun c => Amount.digitIn? 10 c = some (c.toNat - 48) ∧
    IntegerText.isMargin c = false ∧ c ≠ ':') ?_ digit
  exact List.all_iff_forall_prop.mp (by decide +kernel)

/-- Digits are read as the number that they spell, if they are not too many. -/
theorem wholeIn_digits {ds : List Char} (digit : ∀ c ∈ ds, isAsciiDigit c = true) (begun : ds ≠ [])
    (few : ds.length ≤ maxDigits) : Amount.wholeIn 10 ds = .ok (ofDigits (valuesOf ds)) := by
  have spec (c : Char) (member : c ∈ ds) := digit_spec (digit c member)
  obtain ⟨c, more, cons⟩ := List.exists_cons_of_ne_nil begun
  have margin : ds.dropWhile IntegerText.isMargin = ds := by
    rw [cons]
    exact List.dropWhile_cons_of_neg (by simp [(spec c (cons ▸ List.mem_cons_self)).2.1])
  have sign : IntegerText.takeSign ds = (false, ds) := by
    rw [cons]
    refine forall_digit (motive := fun c => IntegerText.takeSign (c :: more) = (false, c :: more)) ?_
      (digit c (cons ▸ List.mem_cons_self))
    simp [amountChars, IntegerText.takeSign]
  have base : Amount.dropBase 10 ds = ds := by
    unfold Amount.dropBase
    split
    · simp [Amount.baseLetters]
    · rfl
  have all : ds.takeWhile (fun c => (Amount.digitIn? 10 c).isSome) = ds :=
    List.takeWhile_eq_self_iff.mpr fun c member => by simp [(spec c member).1]
  have values : ds.filterMap (Amount.digitIn? 10) = valuesOf ds := by
    rw [valuesOf, ← List.filterMap_eq_map]
    exact List.filterMap_congr fun c member => (spec c member).1
  have length : (valuesOf ds).length = ds.length := List.length_map ..
  have within : ¬ maxDigits < (valuesOf ds).length := by rw [length]; omega
  have some : (valuesOf ds).isEmpty = false := by simp [valuesOf, cons]
  unfold Amount.wholeIn
  simp only [margin, sign, base, all, values, length, List.drop_length, some, List.all_nil, Bool.not_true,
    Bool.or_false, Bool.false_eq_true, if_false]
  rw [length] at within
  simp only [decide_eq_false within, Bool.and_false, Bool.false_eq_true, if_false]
  rfl

/-- A whole number is read from its text, if it is not too long. -/
theorem whole_write (few : n.natAbs < digitLimit) : Amount.whole (IntegerText.write n) = .ok n := by
  have digit (c : Char) (member : c ∈ digitsOf n.natAbs) := isAsciiDigit_of_mem_digitsOf member
  have begun : digitsOf n.natAbs ≠ [] := Nat.toDigits_ne_nil
  have read := wholeIn_digits digit begun (length_digitsOf_le_maxDigits.mpr few)
  rw [ofDigits_digitsOf] at read
  have colonless : (digitsOf n.natAbs).contains ':' = false := by
    rw [List.contains_eq_mem, decide_eq_false_iff_not]
    exact fun member => (digit_spec (digit _ member)).2.2 rfl
  -- a number that does not start with a zero is read in decimal places
  have magnitude : Amount.magnitude (digitsOf n.natAbs) = .ok n.natAbs := by
    rcases Nat.eq_zero_or_pos n.natAbs with zero | positive
    · rw [zero]
      rfl
    · have first := head?_digitsOf positive
      generalize digitsOf n.natAbs = ds at *
      unfold Amount.magnitude
      split
      · exact absurd rfl begun
      iterate 4 exact absurd rfl first
      · rw [colonless]
        exact read
  have signed : (if decide (n < 0) then -(n.natAbs : Int) else n.natAbs) = n := IntegerText.signed_natAbs n
  simp only [Amount.whole, (isAmount_write n).signed, magnitude, bind, Except.bind, pure, Except.pure, signed]

/-! ## Binary64 numbers -/

/-- The style of YAML leaves no number without a point. -/
theorem point_mem_layOut {ds : List Char} (begun : ds ≠ []) (point : Int) :
    '.' ∈ layOut Scalar.doubleStyle ds point := by
  by_cases positional : -4 < point ∧ point ≤ positionalLimit
  · rw [layOut.eq_def, if_pos positional]
    split_ifs <;> simp
  · rw [layOut.eq_def, if_neg positional]
    match ds, begun with
    | [d], _ => simp [Scalar.doubleStyle]
    | d :: e :: more, _ => simp

/-- The text of a number of the format has a point. -/
theorem point_mem_text (format : x.InFormat) : '.' ∈ x.text Scalar.doubleStyle := by
  have positive (q : Rat) : '.' ∈ positiveText Scalar.doubleStyle q := point_mem_layOut Nat.toDigits_ne_nil _
  cases x with
  | negativeZero => simp [text]
  | infinite negative => exact format.elim
  | nan mark => exact format.elim
  | finite q =>
    simp only [text]
    split_ifs
    · simp
    · exact List.mem_cons_of_mem _ (positive (-q))
    · exact positive q

/-- The text of a power of ten is a sign and digits. -/
theorem powerText_cons (exponent : Int) : ∃ sign ds, Written.powerText exponent = sign :: ds ∧ sign ∈ ['-', '+'] ∧
    ds ≠ [] ∧ ∀ c ∈ ds, isAsciiDigit c = true := by
  have begun : digitsOf exponent.natAbs ≠ [] := Nat.toDigits_ne_nil
  refine ⟨_, _, rfl, by split_ifs <;> simp, by simp [begun], fun c member => ?_⟩
  exact (List.mem_append.mp member).elim isAsciiDigit_of_mem_zeros isAsciiDigit_of_mem_digitsOf

/-- A decimal number starts with a digit, and its characters are those of numbers. -/
theorem isAmount_written (proper : w.IsProper) (negative : Bool) :
    IsAmount (if negative then '-' :: w.text else w.text) negative w.text := by
  have digits {ds : List Char} (digit : ∀ c ∈ ds, isAsciiDigit c = true) (c : Char) (member : c ∈ ds) :
      c ∈ amountChars := List.mem_of_mem_take (mem_digits_of_isAsciiDigit (digit c member))
  refine ⟨rfl, ?_, fun c member => ?_⟩
  · obtain ⟨c, more, cons⟩ := List.exists_cons_of_ne_nil proper.begun
    exact ⟨c, _, by rw [Written.text, cons]; rfl, proper.whole c (cons ▸ List.mem_cons_self)⟩
  · rcases List.mem_append.mp member with before | power
    · rcases List.mem_append.mp before with whole | fractional
      · exact digits proper.whole c whole
      · split_ifs at fractional with absent
        · cases fractional
        · rcases List.mem_cons.mp fractional with rfl | inside
          · simp [amountChars]
          · exact digits proper.fractional c inside
    · cases exponent : w.exponent with
      | none => simp [exponent] at power
      | some n =>
        obtain ⟨sign, ds, cons, signs, _, digit⟩ := powerText_cons n
        rw [exponent, Option.elim_some, cons] at power
        rcases List.mem_cons.mp power with rfl | inside
        · simp [amountChars]
        · rcases List.mem_cons.mp inside with rfl | further
          · simp only [List.mem_cons, List.not_mem_nil, or_false] at signs
            rcases signs with rfl | rfl <;> simp [amountChars]
          · exact digits digit c further

/-- A decimal number with a point is found to be a number with a point. -/
theorem written_mem_floatPattern (proper : w.IsProper) (pointed : w.fractional ≠ []) (negative : Bool) :
    (if negative then '-' :: w.text else w.text) ∈ Kind.floatPattern.language := by
  obtain ⟨whole, fractional, exponent⟩ := w
  obtain ⟨c, more, rfl⟩ := List.exists_cons_of_ne_nil proper.begun
  obtain ⟨first, further⟩ := List.forall_mem_cons.mp proper.whole
  have digit : [c] ∈ Kind.digit.language :=
    Pattern.mem_oneOf.mpr ⟨c, by rw [isAsciiDigit] at first; simp [Pattern.holds, first], rfl⟩
  have power : (exponent.elim [] fun exponent => 'e' :: Written.powerText exponent) ∈ Kind.exponent.language := by
    cases exponent with
    | none => exact Pattern.mem_optional.mpr (.inl rfl)
    | some n =>
      obtain ⟨sign, ds, cons, signs, begun, all⟩ := powerText_cons n
      rw [Option.elim_some, cons]
      have digits : ds ∈ (Pattern.atLeastOnce Kind.digit).language := by
        refine Pattern.mem_atLeastOnce_oneOf (fun d member => ?_) begun
        have own := all d member
        rw [isAsciiDigit] at own
        simp [Pattern.holds, own]
      refine Pattern.mem_optional.mpr (.inr ?_)
      have parts := Pattern.append_mem_all (Pattern.mem_chars (by simp : 'e' ∈ ['e', 'E']))
        (Pattern.append_mem_all (Pattern.mem_chars signs) (Pattern.append_mem_all digits Pattern.nil_mem_all))
      simpa using parts
  have parts := Pattern.append_mem_all (sign_mem negative) (Pattern.append_mem_all digit
    (Pattern.append_mem_all (digits_mem further) (Pattern.append_mem_all (Pattern.mem_chars (by simp : '.' ∈ ['.']))
      (Pattern.append_mem_all (digits_mem proper.fractional) (Pattern.append_mem_all power Pattern.nil_mem_all)))))
  refine Pattern.mem_any.mpr ⟨_, List.mem_cons_self, ?_⟩
  cases negative with
  | false => simpa [Written.text, pointed] using parts
  | true => simpa [Written.text, pointed] using parts

/-- The text of a binary64 number is found to be one. -/
theorem ofPlain_text (format : x.InFormat) : Kind.ofPlain (x.text Scalar.doubleStyle) = .float := by
  obtain ⟨w, negative, proper, written, _⟩ := exists_text Scalar.doubleStyle format
  have point := point_mem_text format
  have amount := isAmount_written proper negative
  have pointed : w.fractional ≠ [] := by
    intro absent
    have away : '.' ∉ w.text := by
      intro member
      rcases List.mem_append.mp member with before | power
      · rw [if_pos absent, List.append_nil] at before
        exact absurd (proper.whole _ before) (by decide)
      · cases exponent : w.exponent with
        | none => simp [exponent] at power
        | some n =>
          obtain ⟨sign, ds, cons, signs, _, digit⟩ := powerText_cons n
          simp only [exponent, Option.elim_some, cons, List.mem_cons] at power
          rcases power with letter | same | inside
          · exact absurd letter (by decide)
          · rw [← same] at signs
            simp at signs
          · exact absurd (digit _ inside) (by decide)
    rw [written] at point
    cases negative with
    | false => exact away point
    | true => exact away (by simpa using point)
  unfold Kind.ofPlain
  rw [written]
  simp only [amount.not_mem_words (by decide +kernel : Kind.yesWords.all _ = true),
    amount.not_mem_words (by decide +kernel : Kind.noWords.all _ = true),
    Pattern.admits_iff.mpr (written_mem_floatPattern proper pointed negative), Bool.or_false, Bool.false_eq_true,
    if_false, if_true]

/-- A decimal number is read from its parts. -/
theorem unsigned?_text (proper : w.IsProper) (negative : Bool) :
    unsigned? negative w.text = some (ofDecimal negative w.digits w.scale, []) := by
  obtain ⟨whole, fractional, exponent⟩ := w
  obtain ⟨d, more, values⟩ := List.exists_cons_of_ne_nil (valuesOf_ne_nil proper.begun)
  have spelled : d :: more ++ valuesOf fractional = valuesOf (whole ++ fractional) := by
    rw [← values]
    exact List.map_append.symm
  have front {rest : List Char} (ends : ∀ c ∈ rest.head?, isAsciiDigit c = false) :
      asciiDigits (whole ++ rest) = (d :: more, rest) := values ▸ asciiDigits_append proper.whole ends
  have part {rest : List Char} (ends : ∀ c ∈ rest.head?, isAsciiDigit c = false) :
      asciiDigits (fractional ++ rest) = (valuesOf fractional, rest) := asciiDigits_append proper.fractional ends
  have power (n : Int) : exponentAfterMark? (Written.powerText n) = some (n, []) := by
    have ends : ∀ c ∈ ([] : List Char).head?, isAsciiDigit c = false := by simp
    have read := exponentAfterMark?_powerText n ends
    rwa [List.append_nil] at read
  have marked := proper.marked
  -- the parts that are missing stand for no digits and for the power zero
  by_cases absent : fractional = []
  · obtain ⟨n, rfl⟩ := Option.isSome_iff_exists.mp (marked.resolve_left (not_not_intro absent))
    subst absent
    have known : valuesOf whole = d :: more := values
    simp only [Written.text, Written.digits, Written.scale, if_true, List.append_nil, Option.elim_some, unsigned?]
    rw [front (by simp [isAsciiDigit])]
    simp [power, known]
  · simp only [Written.text, Written.digits, Written.scale, ← spelled, absent, if_false, unsigned?, List.append_assoc,
      List.cons_append]
    rw [front (by simp [isAsciiDigit])]
    cases exponent with
    | none =>
      have last : asciiDigits (fractional ++ []) = (valuesOf fractional, []) := part (by simp)
      rw [List.append_nil] at last
      simp [last]
    | some n =>
      have last : asciiDigits (fractional ++ 'e' :: Written.powerText n) =
          (valuesOf fractional, 'e' :: Written.powerText n) :=
        part (by simp [isAsciiDigit])
      simp [last, power, sub_eq_add_neg, add_comm]

/-- A binary64 number is read from its text. -/
theorem float_text (format : x.InFormat) : Amount.float (x.text Scalar.doubleStyle) = .ok x := by
  obtain ⟨w, negative, proper, written, back⟩ := exists_text Scalar.doubleStyle format
  have amount := isAmount_written proper negative
  have spec (c : Char) (member : c ∈ w.text) := amountChars_spec c (amount.each c member)
  obtain ⟨c, more, cons, digit⟩ := amount.begun
  have small : small (if negative then '-' :: w.text else w.text) = if negative then '-' :: w.text else w.text := by
    have letters : ∀ c ∈ if negative then '-' :: w.text else w.text, smallLetter c = [c] := fun c member =>
      (amountChars_spec c (amount.chars c member)).1
    rw [Text.small, List.flatMap_congr letters, List.flatMap_singleton']
  have word (first : Char) (rest : List Char) (letter : isAsciiDigit first = false) : w.text ≠ first :: rest := by
    intro same
    rw [cons] at same
    rw [(List.cons.inj same).1, letter] at digit
    cases digit
  have infinite : w.text ≠ ".inf".toList := word '.' _ rfl
  have nan : w.text ≠ ".nan".toList := word '.' _ rfl
  have colonless : w.text.contains ':' = false := by
    rw [List.contains_eq_mem, decide_eq_false_iff_not]
    exact fun member => (spec _ member).2.2.2.1 rfl
  have blankless (t : List Char) (all : ∀ c ∈ t, c ∈ w.text) : t.dropWhile isBlank = t := by
    cases t with
    | nil => rfl
    | cons c t => exact List.dropWhile_cons_of_neg (by simp [(spec c (all c List.mem_cons_self)).2.1])
  have trimmed : trim w.text = w.text := by
    rw [trim, trimStart, blankless _ fun _ => id, trimEnd, blankless _ fun _ => List.mem_reverse.mp, List.reverse_reverse]
  have read : Double.read? w.text = some (ofDecimal false w.digits w.scale) := by
    have bare : IntegerText.takeSign w.text = (false, w.text) := (isAmount_written proper false).takeSign
    have noNan : w.text ≠ ['n', 'a', 'n'] := word _ _ rfl
    have noInf : w.text ≠ ['i', 'n', 'f'] := word _ _ rfl
    have noInfinity : w.text ≠ ['i', 'n', 'f', 'i', 'n', 'i', 't', 'y'] := word _ _ rfl
    simp [Double.read?, bare, noNan, noInf, noInfinity, unsigned?_text proper]
  have decimal : Amount.decimal w.text = .ok (ofDecimal false w.digits w.scale) := by
    rw [Amount.decimal, trimmed, read]
  have signed : (if negative then (ofDecimal false w.digits w.scale).neg else ofDecimal false w.digits w.scale) = x := by
    rw [← back]
    cases negative <;> rfl
  rw [written]
  simp only [Amount.float, small, amount.signed, infinite, nan, colonless, if_false, Bool.false_eq_true, decimal, bind,
    Except.bind, pure, Except.pure, signed]

end MusicScore.Yaml
