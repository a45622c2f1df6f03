import MusicScore.Event.Given
import MusicScore.Proofs.Fault
import MusicScore.Proofs.Number.IntegerText

/-!
# Time signatures and their texts

Two whole numbers are those of a time signature when the first is from 1 to 255 and the second is a power of two, and
then they determine it. A text is read as a time signature when it is two texts with a stroke between them that spell
such numbers, with all the freedom that whole numbers have in a text. What is written for a time signature is one of
the texts that are read as it. Everything else is refused as a time signature, and a text never in another way.
-/
namespace MusicScore.TimeSignature

variable {n d : Int} {k : Nat} {t : TimeSignature} {shown : Shown} {text : String} {fault : Fault}

/-- The numbers are those of the time signature. -/
def HasNumbers (t : TimeSignature) (n d : Int) : Prop := (t.numerator : Int) = n ∧ (t.denominator : Int) = d

/-- The text spells two whole numbers with a stroke between them. -/
inductive SpellsPair : List Char → Int → Int → Prop where
  | intro {front back : List Char} {n d : Int} (above : IntegerText.Spells front n)
      (below : IntegerText.Spells back d) : SpellsPair (front ++ '/' :: back) n d

/-- The numbers that a text spells have not too many digits. -/
theorem SpellsPair.natAbs_lt {s : List Char} (spelled : SpellsPair s n d) :
    n.natAbs < Text.digitLimit ∧ d.natAbs < Text.digitLimit := by
  obtain ⟨above, below⟩ := spelled
  exact ⟨above.natAbs_lt, below.natAbs_lt⟩

/-! ## The numbers -/

/-- A power of two is the same among the natural numbers. -/
theorem toNat_two_pow (k : Nat) : ((2 : Int) ^ k).toNat = 2 ^ k := by
  have same : (2 : Int) ^ k = ((2 ^ k : Nat) : Int) := (Int.natCast_pow 2 k).symm
  rw [same, Int.toNat_natCast]

/-- The exponent of a power of two is found. -/
theorem exponentOf?_eq_some_iff : exponentOf? d = some k ↔ d = 2 ^ k := by
  simp only [exponentOf?]
  constructor
  · intro found
    split at found <;> cases found
    next power => exact power.symm.trans (Int.natCast_pow 2 _)
  · rintro rfl
    have same : ((Nat.pow 2 k : Nat) : Int) = 2 ^ k := Int.natCast_pow 2 k
    rw [toNat_two_pow, Nat.log2_two_pow, if_pos same]

/-- A number is a power of two when it is positive and has no bit in common with the number before it. -/
theorem exists_pow_iff_bits : (∃ k : Nat, d = 2 ^ k) ↔ 0 < d ∧ d.toNat &&& (d.toNat - 1) = 0 := by
  have bits : d.toNat ≠ 0 ∧ d.toNat &&& (d.toNat - 1) = 0 ↔ ∃ k, d.toNat = 2 ^ k :=
    Nat.ne_zero_and_sub_one_eq_zero_iff_isPowerOfTwo
  constructor
  · rintro ⟨k, rfl⟩
    exact ⟨Int.pow_pos (by decide), (bits.mpr ⟨k, toNat_two_pow k⟩).2⟩
  · rintro ⟨positive, apart⟩
    obtain ⟨k, power⟩ := bits.mp ⟨by omega, apart⟩
    refine ⟨k, ?_⟩
    rw [← Int.toNat_of_nonneg positive.le, power, Int.natCast_pow]
    rfl

/-- The time signature of two numbers is the one that has them. -/
theorem ofInts_eq_ok_iff : ofInts n d shown = .ok t ↔ t.HasNumbers n d := by
  unfold ofInts HasNumbers
  constructor
  · intro done
    split at done
    next bounds =>
      split at done <;> cases done
      next power =>
        refine ⟨Int.toNat_of_nonneg (by omega), ?_⟩
        rw [exponentOf?_eq_some_iff.mp power]
        exact Int.natCast_pow 2 _
    next => cases done
  · rintro ⟨rfl, rfl⟩
    have power : exponentOf? t.denominator = some t.exponent :=
      exponentOf?_eq_some_iff.mpr (Int.natCast_pow 2 t.exponent)
    have bounds : 1 ≤ (t.numerator : Int) ∧ (t.numerator : Int) ≤ 255 := by exact_mod_cast t.numeratorBounds
    rw [dif_pos bounds, power]
    rfl

/-- Two numbers are refused as a time signature. -/
theorem ofInts_eq_error (refused : ofInts n d shown = .error fault) : fault = .value (.timeSignature shown) := by
  unfold ofInts at refused
  split at refused
  · split at refused <;> cases refused
    rfl
  · cases refused
    rfl

/-- Two numbers are those of some time signature just when the first is in its bounds and the second is a power. -/
theorem exists_hasNumbers_iff : (∃ t : TimeSignature, t.HasNumbers n d) ↔ (1 ≤ n ∧ n ≤ 255) ∧ ∃ k : Nat, d = 2 ^ k := by
  constructor
  · rintro ⟨t, rfl, rfl⟩
    exact ⟨by exact_mod_cast t.numeratorBounds, t.exponent, Int.natCast_pow 2 t.exponent⟩
  · rintro ⟨bounds, k, rfl⟩
    exact ⟨⟨n.toNat, k, toNat_bounds bounds⟩, Int.toNat_of_nonneg (by omega), Int.natCast_pow 2 k⟩

/-- A refused time signature is reported as one when it is shown. -/
theorem isOwn_iff : (Fault.value (.timeSignature shown)).IsOwn ↔ shown ≠ .lost := by
  simp [Fault.isOwn_value, ValueFault.message]

/-- Two numbers are shown when neither has too many digits. -/
theorem pair_ne_lost_iff :
    wholeText n ++ "/" ++ wholeText d ≠ .lost ↔ n.natAbs < Text.digitLimit ∧ d.natAbs < Text.digitLimit := by
  simp [wholeText_eq_lost_iff]

/-! ## The texts -/

/-- There is no stroke in a whole number. -/
theorem stroke_not_mem {s : List Char} (spelled : IntegerText.Spells s n) : '/' ∉ s := by
  intro member
  rcases spelled.forall_mem '/' member with blank | plus | minus | underscore | ⟨d, value⟩
  · exact absurd blank (by decide)
  · exact absurd plus (by decide)
  · exact absurd minus (by decide)
  · exact absurd underscore (by decide)
  · cases value

/-- A text that spells two numbers with a stroke between them is read as these. -/
theorem parse_of_spellsPair (spelled : SpellsPair text.toList n d) :
    parse text = ofInts n d (wholeText n ++ "/" ++ wholeText d) := by
  generalize whole : text.toList = s at spelled
  obtain ⟨above, below⟩ := spelled
  rename_i front back
  have others : ∀ c ∈ front, decide (c ≠ '/') = true := fun c member =>
    decide_eq_true fun same => stroke_not_mem above (same ▸ member)
  have taken : text.toList.takeWhile (fun c => decide (c ≠ '/')) = front := by
    rw [whole, List.takeWhile_append_of_pos others, List.takeWhile_cons_of_neg (by decide), List.append_nil]
  have dropped : text.toList.dropWhile (fun c => decide (c ≠ '/')) = '/' :: back := by
    rw [whole, List.dropWhile_append_of_pos others, List.dropWhile_cons_of_neg (by decide)]
  have single : back.contains '/' = false := by simpa using stroke_not_mem below
  have first := IntegerText.read?_eq_some_iff.mpr above
  have second := IntegerText.read?_eq_some_iff.mpr below
  simp only [parse, taken, dropped, single, first, second]
  rfl

/-- A text that spells no two numbers is refused. -/
theorem parse_of_no_pair (never : ∀ n d, ¬ SpellsPair text.toList n d) :
    parse text = .error (.value (.timeSignature (.text text))) := by
  have whole := List.takeWhile_append_dropWhile (p := fun c => decide (c ≠ '/')) (l := text.toList)
  have stops := List.head?_dropWhile_not (fun c => decide (c ≠ '/')) text.toList
  simp only [parse]
  split
  next c back rest =>
    rw [rest] at whole stops
    obtain rfl : c = '/' := by simpa using stops
    split
    next => rfl
    next =>
      split
      next n d first second =>
        have above := IntegerText.read?_eq_some_iff.mp first
        have below := IntegerText.read?_eq_some_iff.mp second
        exact absurd (whole ▸ SpellsPair.intro above below) (never n d)
      next => rfl
  next => rfl

/-- A text is read as the time signature that has the two numbers it spells. -/
theorem parse_eq_ok_iff : parse text = .ok t ↔ SpellsPair text.toList t.numerator t.denominator := by
  constructor
  · intro done
    by_cases some : ∃ n d, SpellsPair text.toList n d
    · obtain ⟨n, d, spelled⟩ := some
      rw [parse_of_spellsPair spelled] at done
      obtain ⟨rfl, rfl⟩ := ofInts_eq_ok_iff.mp done
      exact spelled
    · rw [parse_of_no_pair fun n d spelled => some ⟨n, d, spelled⟩] at done
      cases done
  · intro spelled
    rw [parse_of_spellsPair spelled]
    exact ofInts_eq_ok_iff.mpr ⟨rfl, rfl⟩

/-- A text is refused as a time signature, and this is reported. -/
theorem parse_eq_error (refused : parse text = .error fault) :
    ∃ shown : String, fault = .value (.timeSignature (.text shown)) := by
  by_cases some : ∃ n d, SpellsPair text.toList n d
  · obtain ⟨n, d, spelled⟩ := some
    rw [parse_of_spellsPair spelled] at refused
    have short := spelled.natAbs_lt
    have visible := pair_ne_lost_iff.mpr short
    cases shown : wholeText n ++ "/" ++ wholeText d with
    | text s => exact ⟨s, shown ▸ ofInts_eq_error refused⟩
    | lost => exact absurd shown visible
  · rw [parse_of_no_pair fun n d spelled => some ⟨n, d, spelled⟩] at refused
    cases refused
    exact ⟨text, rfl⟩

/-- A time signature is read back from what is written for it, unless it has too many digits. -/
theorem parse_name_iff : (∃ text, t.name = .text text ∧ parse text = .ok t) ↔ t.denominator < Text.digitLimit := by
  have few : (t.numerator : Int).natAbs < Text.digitLimit :=
    Nat.lt_of_le_of_lt t.numeratorBounds.2 (Text.length_digitsOf_le_maxDigits.mp (by decide))
  constructor
  · rintro ⟨text, shown, _⟩
    have visible : wholeText t.numerator ++ "/" ++ wholeText t.denominator ≠ .lost := by
      rw [← name, shown]
      exact Shown.noConfusion
    exact (pair_ne_lost_iff.mp visible).2
  · intro below
    have short : (t.denominator : Int).natAbs < Text.digitLimit := below
    have written : t.name = .text (String.ofList (IntegerText.write t.numerator) ++ "/" ++
        String.ofList (IntegerText.write t.denominator)) := by
      rw [name, wholeText_of_short few, wholeText_of_short short]
      rfl
    refine ⟨_, written, parse_eq_ok_iff.mpr ?_⟩
    simpa using SpellsPair.intro (IntegerText.spells_write few) (IntegerText.spells_write short)

/-! ## What is given for a time signature -/

/-- What comes of two whole numbers where a time signature is asked for. -/
structure GivenAsNumbers (n d : Numeral) : Prop where
  /-- They are taken for just the time signature that has them. -/
  taken : ∀ t, ofData (.number (.whole n)) (.number (.whole d)) = .ok t ↔ t.HasNumbers n.value d.value
  /-- There is one when the first is in its bounds and the second is a power of two. -/
  domain : (∃ t, ofData (.number (.whole n)) (.number (.whole d)) = .ok t) ↔
    (1 ≤ n.value ∧ n.value ≤ 255) ∧ ∃ k : Nat, d.value = 2 ^ k
  /-- The power of two is recognised by its bits. -/
  bits : (∃ k : Nat, d.value = 2 ^ k) ↔ 0 < d.value ∧ d.value.toNat &&& (d.value.toNat - 1) = 0
  /-- All others are refused as a time signature. -/
  refused : ∀ fault, ofData (.number (.whole n)) (.number (.whole d)) = .error fault →
    fault = .value (.timeSignature (wholeText n.value ++ "/" ++ wholeText d.value))
  /-- This is reported, unless one of the numbers has too many digits. -/
  reported : (Fault.value (.timeSignature (wholeText n.value ++ "/" ++ wholeText d.value))).IsOwn ↔
    n.value.natAbs < Text.digitLimit ∧ d.value.natAbs < Text.digitLimit

/-- What comes of a text where that of a time signature is asked for. -/
structure GivenAsText (text : String) : Prop where
  /-- It is read as just the time signature that has the two numbers it spells. -/
  taken : ∀ t, parse text = .ok t ↔ SpellsPair text.toList t.numerator t.denominator
  /-- All others are refused as a time signature, and this is reported. -/
  refused : ∀ fault, parse text = .error fault →
    ∃ shown : String, fault = .value (.timeSignature (.text shown)) ∧ fault.IsOwn

/-- A time signature is taken from its numbers and from the texts that spell them, and it is read back from what is
written for it unless it has too many digits. -/
theorem given_as_numbers_and_texts :
    (∀ n d, GivenAsNumbers n d) ∧ (∀ text, GivenAsText text) ∧
      ∀ t : TimeSignature, (∃ text, t.name = .text text ∧ parse text = .ok t) ↔ t.denominator < Text.digitLimit := by
  refine ⟨fun n d => ⟨fun t => ofInts_eq_ok_iff, ?_, exists_pow_iff_bits, fun fault => ofInts_eq_error, ?_⟩,
    fun text => ⟨fun t => parse_eq_ok_iff, fun fault refused => ?_⟩, fun t => parse_name_iff⟩
  · rw [← exists_hasNumbers_iff]
    exact exists_congr fun t => ofInts_eq_ok_iff
  · rw [isOwn_iff, pair_ne_lost_iff]
  · obtain ⟨shown, rfl⟩ := parse_eq_error refused
    exact ⟨shown, rfl, isOwn_iff.mpr Shown.noConfusion⟩

end MusicScore.TimeSignature
