import MusicScore.Datum.Basic

/-!
# Numbers in bytes

A whole number is written in a fixed number of bytes, the most significant byte first, or as a quantity of
variable length. A quantity is written in groups of seven bits, the most significant group first, one group
to a byte; the high bit is set on every byte but the last. The file format admits quantities of at most
four bytes.
-/
namespace MusicScore.Midi

/-! ## A fixed number of bytes -/

/-- The lowest `width` bytes of a number, the most significant first. -/
def bigEndian : (width n : Nat) → List UInt8
  | 0, _ => []
  | width + 1, n => bigEndian width (n / 256) ++ [UInt8.ofNat n]

/-- The number that bytes stand for, the most significant first. -/
def ofBigEndian (bytes : List UInt8) : Nat := bytes.foldl (fun total b => 256 * total + b.toNat) 0

@[simp] theorem length_bigEndian (width n : Nat) : (bigEndian width n).length = width := by
  induction width generalizing n with
  | zero => rfl
  | succ width ih => simp [bigEndian, ih]

theorem ofBigEndian_append_single (bytes : List UInt8) (b : UInt8) :
    ofBigEndian (bytes ++ [b]) = 256 * ofBigEndian bytes + b.toNat := by
  simp [ofBigEndian, List.foldl_append]

/-- A number that fits in the bytes is read back from them. -/
theorem ofBigEndian_bigEndian (width n : Nat) (fits : n < Nat.pow 256 width) :
    ofBigEndian (bigEndian width n) = n := by
  induction width generalizing n with
  | zero =>
    have : n = 0 := by simpa using fits
    subst this
    rfl
  | succ width ih =>
    have high : n / 256 < Nat.pow 256 width := by
      exact (Nat.div_lt_iff_lt_mul (by decide)).2 fits
    rw [bigEndian, ofBigEndian_append_single, ih _ high, UInt8.toNat_ofNat']
    omega

/-! ## Variable length -/

namespace Quantity

/-- The largest quantity of four bytes. -/
def greatest : Int := 0x0fffffff

/-- The bytes of the groups above the lowest one, in front of the bytes that follow. -/
def higherGroups (n : Nat) (rest : List UInt8) : List UInt8 :=
  if n = 0 then rest else higherGroups (n / 128) (UInt8.ofNat (n % 128 + 128) :: rest)
  termination_by n

/-- The bytes of a quantity of any size. -/
def bytes (n : Nat) : List UInt8 := higherGroups (n / 128) [UInt8.ofNat (n % 128)]

/-- The bytes of a quantity that the file format admits. -/
def encode (n : Int) : Except Fault (List UInt8) :=
  if 0 ≤ n ∧ n ≤ greatest then .ok (bytes n.toNat)
  else .error (.encoding (.quantity (wholeText n)))

/-- The bytes of a datum as a quantity; only whole numbers are quantities. -/
def encodeDatum : Datum → Except Fault (List UInt8)
  | .number (.whole n) => encode n.value
  | value => .error (.encoding (.quantity value.plain))

end Quantity

end MusicScore.Midi
