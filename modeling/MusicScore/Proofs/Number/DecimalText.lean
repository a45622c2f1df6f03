import MusicScore.Proofs.Number.Shortest

/-!
# The text of a binary64 number

The text of a finite number is a decimal number, with a minus for a negative one: digits, of which the first is no
zero unless it is the only one, a point with further digits, and a power of ten. The point or the power is there in
any case. To read these parts gives the number.
-/
namespace MusicScore.Double

open Text

variable {x : Double} {q : Rat} {style : Style}

/-- The decimal digits and the power of ten of a number, in the way they are written. -/
structure Written where
  whole : List Char
  fractional : List Char
  exponent : Option Int

namespace Written

/-- A power of ten after its mark: a sign and two digits at least. -/
def powerText (exponent : Int) : List Char :=
  (if exponent < 0 then '-' else '+') :: zeros (2 - (digitsOf exponent.natAbs).length) ++ digitsOf exponent.natAbs

/-- The text of a decimal number. -/
def text (w : Written) : List Char :=
  w.whole ++ (if w.fractional = [] then [] else '.' :: w.fractional) ++
    w.exponent.elim [] fun exponent => 'e' :: powerText exponent

/-- All digits of a decimal number as one number. -/
def digits (w : Written) : Nat := ofDigits (valuesOf (w.whole ++ w.fractional))

/-- The power of ten that belongs to all digits as one number. -/
def scale (w : Written) : Int := w.exponent.getD 0 - w.fractional.length

/-- The text is that of a number in decimal, and of no whole number. -/
structure IsProper (w : Written) : Prop where
  whole : ∀ c ∈ w.whole, isAsciiDigit c = true
  fractional : ∀ c ∈ w.fractional, isAsciiDigit c = true
  begun : w.whole ≠ []
  first : w.whole = ['0'] ∨ w.whole.head? ≠ some '0'
  marked : w.fractional ≠ [] ∨ w.exponent.isSome = true

end Written

/-- A decimal number stands for digits times a power of ten. Further zeros may be written with the digits. -/
def Written.StandsFor (w : Written) (digits : Nat) (scale : Int) : Prop :=
  ∃ more : Nat, w.digits = digits * 10 ^ more ∧ w.scale = scale - more

/-- Zeros are digits of ASCII. -/
theorem isAsciiDigit_of_mem_zeros {n : Int} {c : Char} (member : c ∈ zeros n) : isAsciiDigit c = true := by
  obtain rfl := List.eq_of_mem_replicate member
  rfl

/-- A single zero is a digit of ASCII. -/
theorem isAsciiDigit_of_mem_zero {c : Char} (member : c ∈ ['0']) : isAsciiDigit c = true := by
  obtain rfl := List.mem_singleton.mp member
  rfl

/-- Digits one after the other spell the first, moved by as many places as the second has, and the second. -/
theorem ofDigits_valuesOf_append (ds more : List Char) :
    ofDigits (valuesOf (ds ++ more)) = ofDigits (valuesOf ds) * 10 ^ more.length + ofDigits (valuesOf more) := by
  rw [valuesOf, List.map_append, ofDigits_append, List.length_map, ← valuesOf, ← valuesOf]

/-- A power of ten is read from its text, up to what is no digit. -/
theorem exponentAfterMark?_powerText (exponent : Int) {rest : List Char}
    (ends : ∀ c ∈ rest.head?, isAsciiDigit c = false) :
    exponentAfterMark? (Written.powerText exponent ++ rest) = some (exponent, rest) := by
  have all : ∀ c ∈ zeros (2 - (digitsOf exponent.natAbs).length) ++ digitsOf exponent.natAbs, isAsciiDigit c = true := by
    intro c member
    exact (List.mem_append.mp member).elim isAsciiDigit_of_mem_zeros isAsciiDigit_of_mem_digitsOf
  have spelled : ofDigits (valuesOf (zeros (2 - (digitsOf exponent.natAbs).length) ++ digitsOf exponent.natAbs)) =
      exponent.natAbs := by
    rw [ofDigits_valuesOf_append, zeros, ofDigits_zeros, ofDigits_digitsOf]
    omega
  have some : valuesOf (zeros (2 - (digitsOf exponent.natAbs).length) ++ digitsOf exponent.natAbs) ≠ [] := by
    have begun : digitsOf exponent.natAbs ≠ [] := Nat.toDigits_ne_nil
    simp [valuesOf, begun]
  have read := asciiDigits_append all ends
  unfold Written.powerText
  rw [List.cons_append, List.cons_append]
  generalize zeros (2 - (digitsOf exponent.natAbs).length) ++ digitsOf exponent.natAbs = ds at spelled some read ⊢
  have signed : IntegerText.takeSign ((if exponent < 0 then '-' else '+') :: (ds ++ rest)) =
      (decide (exponent < 0), ds ++ rest) := by
    by_cases negative : exponent < 0 <;> simp [negative, IntegerText.takeSign]
  simp only [exponentAfterMark?, signed, read, spelled, IntegerText.signed_natAbs]

section

variable {ds : List Char} {digits : Nat} {point : Int} (digit : ∀ c ∈ ds, isAsciiDigit c = true)
  (spelled : ofDigits (valuesOf ds) = digits) (begun : ds ≠ []) (first : ds.head? ≠ some '0')

include digit spelled begun

/-- Digits that all stand after the point. -/
theorem written_after (low : point ≤ 0) :
    ∃ w : Written, w.IsProper ∧ '0' :: '.' :: zeros (-point) ++ ds = w.text ∧ w.StandsFor digits (point - ds.length) := by
  refine ⟨⟨['0'], zeros (-point) ++ ds, none⟩, ?_, by simp [Written.text, begun], 0, ?_, ?_⟩
  · refine ⟨fun c => isAsciiDigit_of_mem_zero, ?_, List.cons_ne_nil _ _, .inl rfl, .inl (by simp [begun])⟩
    intro c member
    exact (List.mem_append.mp member).elim isAsciiDigit_of_mem_zeros (digit c)
  · have zeroed : ofDigits (valuesOf (['0'] ++ zeros (-point))) = 0 := ofDigits_zeros ((-point).toNat + 1)
    rw [Written.digits, ← List.append_assoc, ofDigits_valuesOf_append, zeroed, spelled]
    omega
  · simp only [Written.scale, Option.getD_none, List.length_append, zeros, List.length_replicate]
    omega

include first

/-- Digits that all stand before the point. -/
theorem written_before (high : (ds.length : Int) ≤ point) :
    ∃ w : Written, w.IsProper ∧ ds ++ zeros (point - ds.length) ++ ['.', '0'] = w.text ∧
      w.StandsFor digits (point - ds.length) := by
  obtain ⟨more, room⟩ : ∃ more, (point - ds.length).toNat = more := ⟨_, rfl⟩
  refine ⟨⟨ds ++ zeros (point - ds.length), ['0'], none⟩, ?_, by simp [Written.text], more + 1, ?_, ?_⟩
  · refine ⟨?_, fun c => isAsciiDigit_of_mem_zero, by simp [begun], .inr ?_, .inl (List.cons_ne_nil _ _)⟩
    · intro c member
      exact (List.mem_append.mp member).elim (digit c) isAsciiDigit_of_mem_zeros
    · rwa [List.head?_append, Option.or_of_isSome (List.isSome_head?.mpr begun)]
  · have zeroed : ofDigits (valuesOf (zeros (point - ds.length) ++ ['0'])) = 0 := by
      rw [zeros, ← List.replicate_succ']
      exact ofDigits_zeros _
    rw [Written.digits, List.append_assoc, ofDigits_valuesOf_append, zeroed, spelled]
    simp [zeros, room]
  · simp only [Written.scale, Option.getD_none, List.length_singleton]
    push_cast
    omega

/-- Digits with the point among them. -/
theorem written_among (low : 0 < point) (high : point < ds.length) :
    ∃ w : Written, w.IsProper ∧ ds.take point.toNat ++ '.' :: ds.drop point.toNat = w.text ∧
      w.StandsFor digits (point - ds.length) := by
  obtain ⟨count, same⟩ : ∃ count, point.toNat = count + 1 := ⟨point.toNat - 1, by omega⟩
  have short : count + 1 < ds.length := by omega
  have after : ds.drop (count + 1) ≠ [] := by simpa using short
  rw [same]
  refine ⟨⟨ds.take (count + 1), ds.drop (count + 1), none⟩, ?_, by simp [Written.text, after], 0, ?_, ?_⟩
  · refine ⟨fun c member => digit c (List.mem_of_mem_take member),
      fun c member => digit c (List.mem_of_mem_drop member), by simpa using begun, .inr ?_, .inl after⟩
    cases ds with
    | nil => exact absurd rfl begun
    | cons d more => exact first
  · rw [Written.digits, List.take_append_drop, spelled]
    omega
  · simp only [Written.scale, Option.getD_none, List.length_drop]
    omega

/-- Digits before a power of ten, with a point after the first. -/
theorem written_power (style : Style) (far : ¬ (-4 < point ∧ point ≤ positionalLimit)) :
    ∃ w : Written, w.IsProper ∧ layOut style ds point = w.text ∧ w.StandsFor digits (point - ds.length) := by
  unfold layOut
  rw [if_neg far]
  match ds, begun with
  | [d], _ =>
    by_cases pointed : style.pointBeforeExponent = true
    · refine ⟨⟨[d], ['0'], some (point - 1)⟩, ?_, by simp [Written.text, Written.powerText, pointed], 1, ?_, ?_⟩
      · exact ⟨digit, fun c => isAsciiDigit_of_mem_zero, by simp, .inr first, .inr rfl⟩
      · rw [Written.digits, ofDigits_valuesOf_append, spelled]
        rfl
      · simp only [Written.scale, Option.getD_some, List.length_singleton]
        omega
    · refine ⟨⟨[d], [], some (point - 1)⟩, ?_, by simp [Written.text, Written.powerText, pointed], 0, ?_, ?_⟩
      · exact ⟨digit, by simp, by simp, .inr first, .inr rfl⟩
      · rw [Written.digits, List.append_nil, spelled]
        omega
      · simp [Written.scale]
  | d :: e :: more, _ =>
    refine ⟨⟨[d], e :: more, some (point - 1)⟩, ?_, by simp [Written.text, Written.powerText], 0, ?_, ?_⟩
    · exact ⟨fun c member => digit c (List.mem_singleton.mp member ▸ List.mem_cons_self),
        fun c member => digit c (List.mem_cons_of_mem d member), by simp, .inr first, .inr rfl⟩
    · rw [Written.digits, List.singleton_append, spelled]
      omega
    · simp only [Written.scale, Option.getD_some, List.length_cons]
      omega

end

/-- However digits are laid out, what is written is a decimal number, and it is worth the digits at that point. -/
theorem exists_written (style : Style) {digits : Nat} (nonzero : digits ≠ 0) (point : Int) :
    ∃ w : Written, w.IsProper ∧ layOut style (digitsOf digits) point = w.text ∧
      w.StandsFor digits (point - (digitsOf digits).length) := by
  have digit (c : Char) (member : c ∈ digitsOf digits) := isAsciiDigit_of_mem_digitsOf member
  have first := head?_digitsOf (Nat.pos_of_ne_zero nonzero)
  have spelled := ofDigits_digitsOf digits
  have begun : digitsOf digits ≠ [] := Nat.toDigits_ne_nil
  by_cases positional : -4 < point ∧ point ≤ positionalLimit
  · unfold layOut
    rw [if_pos positional]
    by_cases low : point ≤ 0
    · rw [if_pos low]
      exact written_after digit spelled begun low
    · rw [if_neg low]
      by_cases high : ((digitsOf digits).length : Int) ≤ point
      · rw [if_pos high]
        exact written_before digit spelled begun first high
      · rw [if_neg high]
        exact written_among digit spelled begun first (not_le.mp low) (not_le.mp high)
  · exact written_power digit spelled begun first style positional

/-! ## The text of a number -/

/-- The number is one of the format: a zero, or on the grid and below the limit, whatever its sign. -/
def InFormat : Double → Prop
  | finite q => q = 0 ∨ OnGrid |q| ∧ |q| < limit
  | negativeZero => True
  | _ => False

/-- A positive rational number is rounded to one of the format, unless that is too large. -/
theorem inFormat_roundPositive (positive : 0 < q) :
    (∃ r, roundPositive q = finite r ∧ (r = 0 ∨ 0 < r ∧ OnGrid r ∧ r < limit)) ∨
      roundPositive q = infinite false := by
  unfold roundPositive
  dsimp only
  split
  case isTrue => exact .inr rfl
  case isFalse inside =>
    refine .inl ⟨nearest q, rfl, ?_⟩
    by_cases some : 0 < nearest q
    · exact .inr ⟨some, onGrid_nearest positive some, not_le.mp inside⟩
    · left
      have first := roundHalfEven_mono (div_pos positive (two_zpow_pos (lastPlace q))).le
      rw [← Int.cast_zero, roundHalfEven_intCast] at first
      have nonneg : 0 ≤ nearest q := mul_nonneg (by exact_mod_cast first) (two_zpow_pos _).le
      exact le_antisymm (not_lt.mp some) nonneg

/-- What a rational number is in binary64 is a number of the format. -/
theorem inFormat_of_ofRat? (found : ofRat? q = some x) : x.InFormat := by
  unfold ofRat? at found
  split at found
  case h_1 => cases found
  case h_2 finite =>
    obtain rfl := Option.some.inj found
    unfold round at finite ⊢
    split_ifs at finite ⊢ with zero negative
    · exact .inl rfl
    · rcases inFormat_roundPositive (neg_pos.mpr negative) with ⟨r, same, worth⟩ | far
      · rw [same, neg]
        split_ifs with none
        · trivial
        · obtain ⟨some, grid, inside⟩ := worth.resolve_left none
          right
          rw [abs_neg, abs_of_pos some]
          exact ⟨grid, inside⟩
      · exact absurd (by rw [far]; rfl) (finite true)
    · have positive : 0 < q := lt_of_le_of_ne (not_lt.mp negative) (Ne.symm zero)
      rcases inFormat_roundPositive positive with ⟨r, same, worth⟩ | far
      · rw [same]
        rcases worth with none | ⟨some, grid, inside⟩
        · exact .inl none
        · right
          rw [abs_of_pos some]
          exact ⟨grid, inside⟩
      · exact absurd far (finite false)

/-- The text of a positive number of the format reads back. -/
theorem exists_positiveText (style : Style) (positive : 0 < q) (grid : OnGrid q) (inside : q < limit) :
    ∃ w : Written, w.IsProper ∧ positiveText style q = w.text ∧
      ∀ negative, ofDecimal negative w.digits w.scale = if negative then neg (finite q) else finite q := by
  have rounded := round_shortest positive grid inside
  have nonzero : (shortest q).digits ≠ 0 := by
    intro none
    rw [Decimal.value_eq, none, Nat.cast_zero, zero_mul] at rounded
    exact positive.ne (finite.inj rounded)
  obtain ⟨w, proper, written, more, digits, scale⟩ := exists_written style nonzero
    ((shortest q).exponent + (digitsOf (shortest q).digits).length)
  refine ⟨w, proper, written, fun negative => ?_⟩
  have worth : FractionText.scaled w.digits w.scale = (shortest q).value := by
    rw [digits, scale, add_sub_cancel_right, scaled_shift]
    rfl
  refine ofDecimal_of_round negative ?_ positive (by rw [worth]; exact rounded)
  rw [digits]
  exact Nat.mul_ne_zero nonzero (pow_ne_zero _ (by decide))

/-- The text of a number of the format is a decimal number that reads back, behind a minus if it is negative. -/
theorem exists_text (style : Style) (format : x.InFormat) :
    ∃ (w : Written) (negative : Bool), w.IsProper ∧
      x.text style = (if negative then '-' :: w.text else w.text) ∧ ofDecimal negative w.digits w.scale = x := by
  have zero : Written.IsProper ⟨['0'], ['0'], none⟩ :=
    ⟨fun c => isAsciiDigit_of_mem_zero, fun c => isAsciiDigit_of_mem_zero, List.cons_ne_nil _ _, .inl rfl,
      .inl (List.cons_ne_nil _ _)⟩
  cases x with
  | negativeZero => exact ⟨⟨['0'], ['0'], none⟩, true, zero, rfl, rfl⟩
  | infinite negative => exact format.elim
  | nan mark => exact format.elim
  | finite q =>
    rcases format with rfl | ⟨grid, inside⟩
    · exact ⟨⟨['0'], ['0'], none⟩, false, zero, rfl, rfl⟩
    · rcases lt_trichotomy q 0 with negative | rfl | positive
      · rw [abs_of_neg negative] at grid inside
        obtain ⟨w, proper, written, back⟩ := exists_positiveText style (neg_pos.mpr negative) grid inside
        refine ⟨w, true, proper, ?_, ?_⟩
        · simp only [text, negative.ne, negative, if_true, if_false, written]
        · have nonzero : -q ≠ 0 := (neg_pos.mpr negative).ne'
          simp only [back, if_true, neg, nonzero, if_false, InvolutiveNeg.neg_neg]
      · exact ⟨⟨['0'], ['0'], none⟩, false, zero, rfl, rfl⟩
      · rw [abs_of_pos positive] at grid inside
        obtain ⟨w, proper, written, back⟩ := exists_positiveText style positive grid inside
        refine ⟨w, false, proper, ?_, by rw [back]; rfl⟩
        simp [text, positive.ne', not_lt.mpr positive.le, written]

end MusicScore.Double
