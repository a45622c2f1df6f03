import Mathlib.Data.List.Induction
import Mathlib.Tactic.Ring
import MusicScore.Number.Double.Reading
import MusicScore.Text.Digit

/-!
# Digits that were written

The decimal digits of a number are read as that number, and so are its hexadecimal digits, filled with zeros or
not, in letters of either case. A number that is not zero does not start with a zero, and it has few digits exactly
when it is small. A character is the one that its number stands for, even if it is kept for a half.
-/
namespace MusicScore.Text

variable {n base : Nat}

/-- What holds of single digits, and of a number with one more digit when it holds of the number, holds of the
digits of every number. -/
theorem toDigits_induction (wide : 1 < base) {motive : Nat → List Char → Prop}
    (single : ∀ d < base, motive d [Nat.digitChar d])
    (further : ∀ n d, 0 < n → d < base → motive n (Nat.toDigits base n) →
      motive (base * n + d) (Nat.toDigits base n ++ [Nat.digitChar d])) (n : Nat) :
    motive n (Nat.toDigits base n) := by
  induction n using Nat.strongRecOn with
  | ind n inductionHypothesis =>
    by_cases small : n < base
    · rw [Nat.toDigits_of_lt_base small]
      exact single n small
    · have large : base ≤ n := Nat.not_lt.mp small
      have shorter : n / base < n := Nat.div_lt_self (by omega) wide
      have onward := further (n / base) (n % base) (Nat.div_pos large (by omega)) (Nat.mod_lt n (by omega))
        (inductionHypothesis _ shorter)
      rw [Nat.div_add_mod] at onward
      rwa [Nat.toDigits_of_base_le wide large]

/-! ## Decimal digits -/

/-- The digits of a number are digits of ASCII. -/
theorem isAsciiDigit_of_mem_digitsOf {c : Char} (member : c ∈ digitsOf n) : Double.isAsciiDigit c = true := by
  have digit := Nat.isDigit_of_mem_toDigits (by decide) (by decide) member
  simp only [Char.isDigit, Bool.and_eq_true, decide_eq_true_eq] at digit
  simp only [Double.isAsciiDigit, Bool.and_eq_true, decide_eq_true_eq]
  exact digit

/-- The values of digits of ASCII. -/
def valuesOf (digits : List Char) : List Nat := digits.map (·.toNat - 48)

/-- There are as many values as digits. -/
@[simp] theorem length_valuesOf (digits : List Char) : (valuesOf digits).length = digits.length := List.length_map ..

/-- Where there are digits, there are values. -/
theorem valuesOf_ne_nil {digits : List Char} (some : digits ≠ []) : valuesOf digits ≠ [] := by
  simpa [valuesOf] using some

/-- The digits of a number spell it. -/
theorem ofDigits_digitsOf (n : Nat) : ofDigits (valuesOf (digitsOf n)) = n := by
  have value : ∀ d < 10, (Nat.digitChar d).toNat - 48 = d := by decide
  refine toDigits_induction (motive := fun n digits => ofDigits (valuesOf digits) = n) (by decide) ?_ ?_ n
  · intro d small
    simp [valuesOf, ofDigits, value d small]
  · intro n d _ small spelled
    rw [valuesOf, List.map_append, List.map_singleton, ofDigits_append_single, ← valuesOf, spelled, value d small]

/-- Digits after others are worth what they spell, and move the others by as many places. -/
theorem ofDigits_append (digits more : List Nat) :
    ofDigits (digits ++ more) = ofDigits digits * 10 ^ more.length + ofDigits more := by
  induction more using List.reverseRecOn with
  | nil => simp
  | append_singleton more d inductionHypothesis =>
    rw [← List.append_assoc, ofDigits_append_single, inductionHypothesis, ofDigits_append_single,
      List.length_append, List.length_singleton, Nat.pow_succ]
    ring

/-- A number has at most as many digits as it is spelled with. -/
theorem ofDigits_lt {digits : List Nat} (each : ∀ d ∈ digits, d < 10) : ofDigits digits < 10 ^ digits.length := by
  induction digits using List.reverseRecOn with
  | nil => simp
  | append_singleton digits d inductionHypothesis =>
    obtain ⟨others, own⟩ := List.forall_mem_append.mp each
    have small : d < 10 := own d (List.mem_singleton_self d)
    have before := inductionHypothesis others
    rw [ofDigits_append_single, List.length_append, List.length_singleton, Nat.pow_succ]
    omega

/-- Zeros are worth nothing. -/
theorem ofDigits_zeros (count : Nat) : ofDigits (valuesOf (List.replicate count '0')) = 0 := by
  induction count with
  | zero => rfl
  | succ count inductionHypothesis =>
    rw [List.replicate_succ', valuesOf, List.map_append, ← valuesOf, List.map_singleton, ofDigits_append_single,
      inductionHypothesis]
    rfl

/-- A number that is not zero does not start with a zero. -/
theorem head?_digitsOf (positive : 0 < n) : (digitsOf n).head? ≠ some '0' := by
  have nonzero : ∀ d < 10, 0 < d → Nat.digitChar d ≠ '0' := by decide
  refine toDigits_induction (motive := fun n digits => 0 < n → digits.head? ≠ some '0') (by decide) ?_ ?_ n positive
  · intro d small positive same
    exact nonzero d small positive (Option.some.inj same)
  · intro n d positive _ first _ same
    rw [List.head?_append, Option.or_of_isSome (List.isSome_head?.mpr Nat.toDigits_ne_nil)] at same
    exact first positive same

/-- A number has so many digits at most exactly when it is below that power of ten. -/
theorem length_digitsOf_le {count : Nat} (some : 0 < count) : (digitsOf n).length ≤ count ↔ n < 10 ^ count :=
  Nat.length_toDigits_le_iff (by decide) some

/-- A number below the limit has no more digits than may be read. -/
theorem length_digitsOf_le_maxDigits : (digitsOf n).length ≤ maxDigits ↔ n < digitLimit := by
  have some : 0 < maxDigits := by decide
  unfold digitLimit
  -- the limit is kept a variable, since the power is never to be computed
  generalize maxDigits = most at some ⊢
  exact length_digitsOf_le some

/-- The least number without a text has more digits than any number that has one. -/
theorem pow_le_digitLimit {count : Nat} (few : count ≤ maxDigits) : 10 ^ count ≤ digitLimit := by
  unfold digitLimit
  -- the limit is kept a variable, since the power is never to be computed
  generalize maxDigits = most at few ⊢
  exact Nat.pow_le_pow_right (by decide) few

theorem digitLimit_pos : 0 < digitLimit := pow_le_digitLimit (Nat.zero_le _)

/-- Digits that are few enough to be read spell a number below the limit. -/
theorem ofDigits_lt_digitLimit {digits : List Nat} (each : ∀ d ∈ digits, d < 10) (short : digits.length ≤ maxDigits) :
    ofDigits digits < digitLimit := by
  unfold digitLimit
  generalize maxDigits = most at short ⊢
  exact Nat.lt_of_lt_of_le (ofDigits_lt each) (Nat.pow_le_pow_right (by decide) short)

/-- Digits at the front of a text are taken up to what is no digit. -/
theorem asciiDigits_append {digits rest : List Char} (all : ∀ c ∈ digits, Double.isAsciiDigit c = true)
    (ends : ∀ c ∈ rest.head?, Double.isAsciiDigit c = false) :
    Double.asciiDigits (digits ++ rest) = (valuesOf digits, rest) := by
  have stop : rest.takeWhile Double.isAsciiDigit = [] ∧ rest.dropWhile Double.isAsciiDigit = rest := by
    cases rest with
    | nil => exact ⟨rfl, rfl⟩
    | cons c rest => simp [ends c rfl]
  rw [Double.asciiDigits, List.takeWhile_append_of_pos all, List.dropWhile_append_of_pos all, stop.1, stop.2,
    List.append_nil, valuesOf]

/-! ## Hexadecimal digits -/

/-- Hexadecimal digits after others go on the number. -/
theorem ofHex?_append_single {digits : List Char} {c : Char} {total d : Nat} (before : ofHex? digits = some total)
    (last : hexValue? c = some d) : ofHex? (digits ++ [c]) = some (16 * total + d) := by
  rw [ofHex?, List.foldlM_append, ← ofHex?, before]
  simp [last]

/-- The hexadecimal digits of a number spell it, whatever they are filled to. -/
theorem ofHex?_hex (width n : Nat) : ofHex? (hex width n) = some n := by
  have value : ∀ d < 16, hexValue? (Nat.digitChar d) = some d := by decide
  have zeros (count : Nat) : ofHex? (List.replicate count '0') = some 0 := by
    induction count with
    | zero => rfl
    | succ count inductionHypothesis =>
      rw [List.replicate_succ']
      exact ofHex?_append_single inductionHypothesis (value 0 (by decide))
  refine toDigits_induction
    (motive := fun n digits => ∀ count, ofHex? (List.replicate count '0' ++ digits) = some n) (by decide) ?_ ?_ n _
  · intro d small count
    simpa using ofHex?_append_single (zeros count) (value d small)
  · intro n d _ small spelled count
    rw [← List.append_assoc]
    exact ofHex?_append_single (spelled count) (value d small)

/-- A number that fits in so many hexadecimal digits is filled to so many. -/
theorem length_hex {width : Nat} (some : 0 < width) (fits : n < 16 ^ width) : (hex width n).length = width := by
  have short := (Nat.length_toDigits_le_iff (b := 16) (by decide) some).mpr fits
  simp only [hex, List.length_append, List.length_replicate]
  omega

/-- What all digits below a base have, every digit of a number filled with zeros has. -/
theorem forall_mem_hex {motive : Char → Prop} (each : ∀ d < 16, motive (Nat.digitChar d)) (width n : Nat) :
    ∀ c ∈ hex width n, motive c := by
  have digits : ∀ c ∈ Nat.toDigits 16 n, motive c := by
    refine toDigits_induction (motive := fun _ digits => ∀ c ∈ digits, motive c) (by decide) ?_ ?_ n
    · intro d small
      simpa using each d small
    · intro n d _ small further c member
      rcases List.mem_append.mp member with early | last
      · exact further c early
      · rw [List.mem_singleton.mp last]
        exact each d small
  intro c member
  rcases List.mem_append.mp member with zero | own
  · rw [List.eq_of_mem_replicate zero]
    exact each 0 (by decide)
  · exact digits c own

/-- Capital letters are worth as much as small ones. -/
theorem ofHex?_map_toUpper {digits : List Char} (same : ∀ c ∈ digits, hexValue? c.toUpper = hexValue? c) :
    ofHex? (digits.map Char.toUpper) = ofHex? digits := by
  induction digits using List.reverseRecOn with
  | nil => rfl
  | append_singleton digits c inductionHypothesis =>
    have before := inductionHypothesis fun c' member => same c' (List.mem_append_left _ member)
    unfold ofHex? at before ⊢
    rw [List.map_append, List.foldlM_append, List.foldlM_append, before]
    simp [same c (by simp)]

/-- The capital hexadecimal digits of a number spell it. -/
theorem ofHex?_hexCapital (width n : Nat) : ofHex? (hexCapital width n) = some n := by
  rw [hexCapital, ofHex?_map_toUpper (forall_mem_hex (by decide) width n), ofHex?_hex]

/-- A number that fits in so many hexadecimal digits is filled to so many capital ones. -/
theorem length_hexCapital {width : Nat} (some : 0 < width) (fits : n < 16 ^ width) :
    (hexCapital width n).length = width := by
  rw [hexCapital, List.length_map]
  exact length_hex some fits

/-! ## Numbers of characters -/

/-- The number of a character is not that of a half. -/
theorem toNat_valid (c : Char) : c.toNat < 0xd800 ∨ 0xdfff < c.toNat ∧ c.toNat < 0x110000 := c.valid

/-- The number of a character is below 0x110000. -/
theorem toNat_lt (c : Char) : c.toNat < 0x110000 := by
  have valid := toNat_valid c
  omega

end MusicScore.Text

namespace MusicScore.IntegerText

/-- A whole number is its magnitude with its sign. -/
theorem signed_natAbs (n : Int) : IntegerText.signed (decide (n < 0)) n.natAbs = n := by
  by_cases negative : n < 0
  · rw [decide_eq_true negative, IntegerText.signed, if_pos rfl]
    omega
  · rw [decide_eq_false negative, IntegerText.signed, if_neg Bool.false_ne_true]
    omega

/-- A whole number is written as the digits of its magnitude, behind a minus if it is negative. -/
theorem write_eq (n : Int) :
    write n = if decide (n < 0) then '-' :: Text.digitsOf n.natAbs else Text.digitsOf n.natAbs := by
  simp only [write, decide_eq_true_eq]

end MusicScore.IntegerText
