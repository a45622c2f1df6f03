import Mathlib.Data.Nat.Digits.Lemmas
import MusicScore.Midi.Quantity

/-!
# Reading quantities

A quantity is read group by group, the most significant first, up to the first byte without the high bit,
which must be among the first four. Reading undoes writing, whatever comes after the quantity: the groups
that have been written stand for the part of the number that has been read.
-/
namespace MusicScore.Midi.Quantity

/-- Read the groups of a quantity, at most `count`, after groups that stand for `total`. -/
def readGroups : (count total : Nat) → List UInt8 → Option (Nat × List UInt8)
  | 0, _, _ => none
  | _ + 1, _, [] => none
  | count + 1, total, b :: rest =>
    if b.toNat < 128 then some (128 * total + b.toNat, rest)
    else readGroups count (128 * total + (b.toNat - 128)) rest

/-- Read a quantity of at most four bytes, and what comes after it. -/
def read (bytes : List UInt8) : Option (Nat × List UInt8) := readGroups 4 0 bytes

/-- A quantity that is read has at least one byte. -/
theorem readGroups_shorter {count total n : Nat} {bytes rest : List UInt8}
    (done : readGroups count total bytes = some (n, rest)) : rest.length < bytes.length := by
  induction count generalizing total bytes with
  | zero => cases done
  | succ count inductionHypothesis =>
    cases bytes with
    | nil => cases done
    | cons b others =>
      rw [readGroups] at done
      split at done
      · cases done
        exact Nat.lt_succ_self _
      · have shorter := inductionHypothesis done
        exact Nat.lt_succ_of_lt shorter

/-- A byte with the high bit is followed by another group. -/
theorem readGroups_higher {count total group : Nat} (small : group < 128) (rest : List UInt8) :
    readGroups (count + 1) total (UInt8.ofNat (group + 128) :: rest) =
      readGroups count (128 * total + group) rest := by
  have byte : (UInt8.ofNat (group + 128)).toNat = group + 128 := by
    rw [UInt8.toNat_ofNat']
    omega
  have high : ¬ group + 128 < 128 := by omega
  rw [readGroups, byte, if_neg high, Nat.add_sub_cancel]

/-- A byte without the high bit is the last. -/
theorem readGroups_lowest {count total group : Nat} (small : group < 128) (rest : List UInt8) :
    readGroups (count + 1) total (UInt8.ofNat group :: rest) = some (128 * total + group, rest) := by
  have byte : (UInt8.ofNat group).toNat = group := by
    rw [UInt8.toNat_ofNat']
    omega
  rw [readGroups, byte, if_pos small]

/-! ## The groups of a number -/

@[simp] theorem higherGroups_zero (rest : List UInt8) : higherGroups 0 rest = rest := by
  rw [higherGroups, if_pos rfl]

/-- The lowest of the groups stands right before what comes after them. -/
theorem higherGroups_of_pos {n : Nat} (positive : 0 < n) (rest : List UInt8) :
    higherGroups n rest = higherGroups (n / 128) (UInt8.ofNat (n % 128 + 128) :: rest) := by
  rw [higherGroups, if_neg (Nat.ne_of_gt positive)]

/-- Groups are written in front of whatever comes after them. -/
theorem higherGroups_append (n : Nat) (front rest : List UInt8) :
    higherGroups n front ++ rest = higherGroups n (front ++ rest) := by
  induction n using Nat.strongRecOn generalizing front with
  | ind n inductionHypothesis =>
    rcases Nat.eq_zero_or_pos n with rfl | positive
    · rw [higherGroups_zero, higherGroups_zero]
    · have smaller : n / 128 < n := Nat.div_lt_self positive (by decide)
      rw [higherGroups_of_pos positive, higherGroups_of_pos positive, inductionHypothesis _ smaller,
        List.cons_append]

/-- The number of groups of a number; zero has none. -/
def groups (n : Nat) : Nat := (Nat.digits 128 n).length

@[simp] theorem groups_zero : groups 0 = 0 := by simp [groups]

/-- A number has one group more than what is above its lowest group. -/
theorem groups_of_pos {n : Nat} (positive : 0 < n) : groups n = groups (n / 128) + 1 := by
  unfold groups
  rw [Nat.digits_def' (by decide) positive, List.length_cons]

/-- The number of groups is bounded by the size of the number. -/
theorem groups_le_iff {n count : Nat} : groups n ≤ count ↔ n < 128 ^ count :=
  Nat.digits_length_le_iff (by decide) n

/-- Reading the groups above the lowest comes to the number they stand for. -/
theorem readGroups_higherGroups {n count : Nat} (rest : List UInt8) (few : groups n ≤ count) :
    readGroups count 0 (higherGroups n rest) = readGroups (count - groups n) n rest := by
  induction n using Nat.strongRecOn generalizing rest with
  | ind n inductionHypothesis =>
    rcases Nat.eq_zero_or_pos n with rfl | positive
    · simp
    · have one := groups_of_pos positive
      have smaller : n / 128 < n := Nat.div_lt_self positive (by decide)
      have left : count - groups (n / 128) = count - groups n + 1 := by omega
      rw [higherGroups_of_pos positive, inductionHypothesis _ smaller _ (by omega), left,
        readGroups_higher (Nat.mod_lt n (by decide)), Nat.div_add_mod]

/-- Reading undoes writing, for every quantity that four bytes can hold. -/
theorem read_bytes {n : Nat} (small : n < 128 ^ 4) (rest : List UInt8) :
    read (bytes n ++ rest) = some (n, rest) := by
  have few : groups (n / 128) ≤ 3 := groups_le_iff.mpr (Nat.div_lt_of_lt_mul small)
  have left : 4 - groups (n / 128) = 3 - groups (n / 128) + 1 := by omega
  unfold read bytes
  rw [higherGroups_append, readGroups_higherGroups _ (Nat.le_succ_of_le few), left, List.singleton_append,
    readGroups_lowest (Nat.mod_lt n (by decide)), Nat.div_add_mod]

/-- A number that is written as a quantity is read back. -/
theorem read_encode {n : Int} {bytes : List UInt8} (written : encode n = .ok bytes) (rest : List UInt8) :
    0 ≤ n ∧ read (bytes ++ rest) = some (n.toNat, rest) := by
  unfold encode greatest at written
  by_cases fits : 0 ≤ n ∧ n ≤ 0x0fffffff
  · rw [if_pos fits] at written
    cases written
    exact ⟨fits.1, read_bytes (by omega) rest⟩
  · rw [if_neg fits] at written
    cases written

end MusicScore.Midi.Quantity
