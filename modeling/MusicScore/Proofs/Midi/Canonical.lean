import Mathlib.Data.List.Induction
import MusicScore.Proofs.Fault
import MusicScore.Proofs.Midi.Quantity
import MusicScore.Proofs.Text.Digits

/-!
# The one form of a quantity

A quantity is written in one to four bytes, with the high bit on all of them but the last. No empty group stands in
front, so that every quantity has one form only, and every byte sequence of this form is what is written for the number
that is read from it. A number that is no quantity is refused. The refusal tells the number, so that it is a failure
of the encoding only if the number has a text.
-/
namespace MusicScore.Midi.Quantity

variable {n : Nat} {b : UInt8} {front rest written : List UInt8}

/-! ## The groups above the lowest -/

/-- The bytes are groups above the lowest: each has the high bit, and the first is not empty. -/
structure IsHigher (front : List UInt8) : Prop where
  high : ∀ b ∈ front, 128 ≤ b.toNat
  first : front.head? ≠ some 0x80

/-- The groups of a number are those of the number without its lowest group, and then this one. -/
theorem higherGroups_concat (positive : 0 < n) :
    higherGroups n [] = higherGroups (n / 128) [] ++ [UInt8.ofNat (n % 128 + 128)] := by
  rw [higherGroups_of_pos positive, higherGroups_append, List.nil_append]

/-- There are as many bytes as there are groups. -/
theorem length_higherGroups (n : Nat) : (higherGroups n []).length = groups n := by
  induction n using Nat.strongRecOn with
  | ind n inductionHypothesis =>
    rcases Nat.eq_zero_or_pos n with rfl | positive
    · simp
    · rw [higherGroups_concat positive, groups_of_pos positive, List.length_append,
        inductionHypothesis _ (Nat.div_lt_self positive (by decide)), List.length_singleton]

/-- The byte of the lowest group above others is the group with the high bit. -/
theorem toNat_highByte (n : Nat) : (UInt8.ofNat (n % 128 + 128)).toNat = n % 128 + 128 := by
  rw [UInt8.toNat_ofNat']
  omega

/-- A further byte after groups is one more of them if it has the high bit, and if it is not empty where it is the
first. -/
theorem isHigher_concat_iff :
    IsHigher (front ++ [b]) ↔ IsHigher front ∧ 128 ≤ b.toNat ∧ (front = [] → b ≠ 0x80) := by
  constructor
  · intro higher
    refine ⟨⟨fun c member => higher.high c (List.mem_append_left _ member), fun empty => ?_⟩,
      higher.high b (by simp), ?_⟩
    · exact higher.first (by simp [empty])
    · rintro rfl rfl
      exact higher.first rfl
  · rintro ⟨higher, high, first⟩
    refine ⟨fun c member => ?_, ?_⟩
    · rcases List.mem_append.mp member with before | last
      · exact higher.high c before
      · exact List.mem_singleton.mp last ▸ high
    · cases front with
      | nil => simpa using first rfl
      | cons c others => simpa using higher.first

/-- The groups above the lowest one of a number are such groups. -/
theorem isHigher_higherGroups (n : Nat) : IsHigher (higherGroups n []) := by
  induction n using Nat.strongRecOn with
  | ind n inductionHypothesis =>
    rcases Nat.eq_zero_or_pos n with rfl | positive
    · exact ⟨by simp, by simp⟩
    · rw [higherGroups_concat positive, isHigher_concat_iff, toNat_highByte]
      refine ⟨inductionHypothesis _ (Nat.div_lt_self positive (by decide)), by omega, ?_⟩
      intro alone empty
      -- where nothing stands in front, the group is the whole number
      have none : groups (n / 128) = 0 := by rw [← length_higherGroups, alone, List.length_nil]
      have small : n / 128 < 128 ^ 0 := groups_le_iff.mp none.le
      have byte := toNat_highByte n
      rw [empty] at byte
      change 128 = n % 128 + 128 at byte
      omega

/-- Such groups are those of some number. -/
theorem IsHigher.exists_number (higher : IsHigher front) : ∃ n, front = higherGroups n [] := by
  induction front using List.reverseRecOn with
  | nil => exact ⟨0, by simp⟩
  | append_singleton front b inductionHypothesis =>
    obtain ⟨before, high, first⟩ := isHigher_concat_iff.mp higher
    obtain ⟨n, same⟩ := inductionHypothesis before
    have below : b.toNat < 256 := b.toNat_lt
    have positive : 0 < 128 * n + (b.toNat - 128) := by
      rcases Nat.eq_zero_or_pos n with rfl | positive
      · have other : b.toNat ≠ 128 := fun empty => first (by simpa using same) (UInt8.toNat_inj.mp empty)
        omega
      · omega
    refine ⟨128 * n + (b.toNat - 128), ?_⟩
    have above : (128 * n + (b.toNat - 128)) / 128 = n := by omega
    have lowest : (128 * n + (b.toNat - 128)) % 128 + 128 = b.toNat := by omega
    rw [higherGroups_concat positive, above, lowest, UInt8.ofNat_toNat, ← same]

/-! ## The form -/

/-- The bytes have the form of a quantity: there are one to four of them, the high bit is on all of them but the last,
and no empty group stands in front. -/
structure IsCanonical (bytes : List UInt8) : Prop where
  nonempty : 1 ≤ bytes.length
  few : bytes.length ≤ 4
  high : ∀ b ∈ bytes.dropLast, 128 ≤ b.toNat
  last : ∀ b ∈ bytes.getLast?, b.toNat < 128
  first : bytes.head? ≠ some 0x80

/-- The form of a quantity in parts: the groups above the lowest, at most three, and the lowest. -/
theorem isCanonical_concat_iff :
    IsCanonical (front ++ [b]) ↔ front.length ≤ 3 ∧ IsHigher front ∧ b.toNat < 128 := by
  constructor
  · rintro ⟨_, few, high, last, first⟩
    rw [List.length_append] at few
    refine ⟨Nat.le_of_succ_le_succ few, ⟨by simpa using high, fun empty => ?_⟩, by simpa using last⟩
    exact first (by simp [empty])
  · rintro ⟨few, ⟨high, first⟩, low⟩
    refine ⟨by simp, ?_, by simpa using high, by simpa using low, ?_⟩
    · rw [List.length_append]
      exact Nat.succ_le_succ few
    · cases front with
      | nil =>
        rintro ⟨⟩
        exact absurd low (by decide)
      | cons c others => simpa using first

/-- What is written for a quantity in parts. -/
theorem bytes_eq (n : Nat) : bytes n = higherGroups (n / 128) [] ++ [UInt8.ofNat (n % 128)] := by
  rw [higherGroups_append, List.nil_append, bytes]

/-- The form of a quantity is that of what is written for the numbers that four bytes can hold. -/
theorem isCanonical_iff : IsCanonical written ↔ ∃ n < 128 ^ 4, written = bytes n := by
  constructor
  · intro canonical
    obtain ⟨front, b, rfl⟩ : ∃ front b, written = front ++ [b] := by
      rcases List.eq_nil_or_concat written with rfl | parts
      · exact absurd canonical.nonempty (by simp)
      · simpa using parts
    obtain ⟨few, higher, low⟩ := isCanonical_concat_iff.mp canonical
    obtain ⟨n, rfl⟩ := higher.exists_number
    rw [length_higherGroups, groups_le_iff] at few
    have above : (128 * n + b.toNat) / 128 = n := by omega
    have lowest : (128 * n + b.toNat) % 128 = b.toNat := by omega
    refine ⟨128 * n + b.toNat, by omega, ?_⟩
    rw [bytes_eq, above, lowest, UInt8.ofNat_toNat]
  · rintro ⟨n, small, rfl⟩
    rw [bytes_eq, isCanonical_concat_iff, length_higherGroups, groups_le_iff, UInt8.toNat_ofNat']
    exact ⟨Nat.div_lt_of_lt_mul small, isHigher_higherGroups _, by omega⟩

/-! ## Numbers as quantities -/

/-- The number is a quantity. -/
def IsQuantity (n : Int) : Prop := 0 ≤ n ∧ n ≤ greatest

instance (n : Int) : Decidable (IsQuantity n) := inferInstanceAs (Decidable (_ ∧ _))

/-- A quantity is written. -/
theorem encode_of_isQuantity {n : Int} (inRange : IsQuantity n) : encode n = .ok (bytes n.toNat) :=
  if_pos inRange

/-- Every other number is refused, and the refusal tells it. -/
theorem encode_of_not_isQuantity {n : Int} (outside : ¬ IsQuantity n) :
    encode n = .error (.encoding (.quantity (wholeText n))) :=
  if_neg outside

/-- Four bytes hold just the quantities. -/
theorem isQuantity_natCast : IsQuantity n ↔ n < 128 ^ 4 := by
  unfold IsQuantity greatest
  omega

/-- A quantity has a text. -/
theorem IsQuantity.natAbs_lt {n : Int} (inRange : IsQuantity n) : n.natAbs < Text.digitLimit := by
  have small : n.natAbs < 10 ^ 9 := by
    unfold IsQuantity greatest at inRange
    omega
  exact small.trans_le (Text.pow_le_digitLimit (by decide))

/-- The refusal of a number is a failure of the encoding exactly when the number has a text. -/
theorem isEncoding_quantity_iff {n : Int} :
    (Fault.encoding (.quantity (wholeText n))).IsEncoding ↔ n.natAbs < Text.digitLimit := by
  rw [Fault.isEncoding_iff]
  simp [EncodingFault.message, wholeText_eq_lost_iff]

/-- What the writing of a number is to come to. A quantity gets bytes of its form, from which it is read whatever comes
after them, and any other number a failure of the encoding. -/
inductive Writes (n : Int) : Except Fault (List UInt8) → Prop where
  | written {bytes : List UInt8} (inRange : IsQuantity n) (canonical : IsCanonical bytes)
      (read_back : ∀ rest, read (bytes ++ rest) = some (n.toNat, rest)) : Writes n (.ok bytes)
  | refused {fault : Fault} (outside : ¬ IsQuantity n) (encoding : fault.IsEncoding) : Writes n (.error fault)

/-- The writing of a number comes to that exactly when the number has a text. -/
theorem writes_encode_iff {n : Int} : Writes n (encode n) ↔ n.natAbs < Text.digitLimit := by
  by_cases inRange : IsQuantity n
  · obtain ⟨small, rfl⟩ := Int.eq_ofNat_of_zero_le inRange.1
    have fits := isQuantity_natCast.mp inRange
    rw [encode_of_isQuantity inRange]
    exact iff_of_true (.written inRange (isCanonical_iff.mpr ⟨_, fits, rfl⟩) (read_bytes fits)) inRange.natAbs_lt
  · rw [encode_of_not_isQuantity inRange, ← isEncoding_quantity_iff]
    constructor
    · rintro ⟨⟩
      assumption
    · exact .refused inRange

/-- A whole number is written as a quantity, or refused with a failure of the encoding, exactly when it has a text, and
only a number that is no quantity has none. Bytes of the form of a quantity are what is written for the number that is
read from them, whatever comes after them. A truth value is refused. -/
theorem given_as_quantity (n : Numeral) :
    (Writes n.value (encodeDatum (.number (.whole n))) ↔ n.value.natAbs < Text.digitLimit) ∧
      (¬ IsQuantity n.value →
        encodeDatum (.number (.whole n)) = .error (.encoding (.quantity (wholeText n.value)))) ∧
      (∀ bytes, IsCanonical bytes → ∃ m : Nat, IsQuantity m ∧ (∀ rest, read (bytes ++ rest) = some (m, rest)) ∧
        encodeDatum (.ofInt m) = .ok bytes) ∧
      ∀ truth, ∃ fault, encodeDatum (.number (.truth truth)) = .error fault ∧ fault.IsEncoding := by
  refine ⟨writes_encode_iff, encode_of_not_isQuantity, ?_, ?_⟩
  · intro bytes canonical
    obtain ⟨m, small, rfl⟩ := isCanonical_iff.mp canonical
    have inRange := isQuantity_natCast.mpr small
    exact ⟨m, inRange, read_bytes small, encode_of_isQuantity inRange⟩
  · intro truth
    refine ⟨_, rfl, Fault.isEncoding_iff.mpr ⟨_, rfl, ?_⟩⟩
    cases truth <;> decide

/-- The least whole number without a text is refused with another fault. -/
theorem endless_not_written :
    ¬ Writes Text.digitLimit (encodeDatum (.number (.whole (.plain Text.digitLimit)))) := by
  have writes_iff := (given_as_quantity (.plain Text.digitLimit)).1
  rw [Numeral.value_plain, Int.natAbs_natCast] at writes_iff
  rw [writes_iff]
  exact Nat.lt_irrefl _

end MusicScore.Midi.Quantity
