/-!
# Digits

A decimal digit is a character of the Unicode class for decimal numbers. The class consists of runs
of ten characters that stand for zero to nine in order, so a digit is worth its distance from the
zero of its run. Numbers may be written with the digits of any script, and may mix them. In
hexadecimal numbers are filled with zeros to a least width, in small or capital letters of ASCII.
-/
namespace MusicScore.Text

/-- The characters for zero, one for each run of ten decimal digits. -/
def digitZeros : List Nat :=
  [0x30, 0x660, 0x6f0, 0x7c0, 0x966, 0x9e6, 0xa66, 0xae6, 0xb66, 0xbe6, 0xc66, 0xce6, 0xd66,
   0xde6, 0xe50, 0xed0, 0xf20, 0x1040, 0x1090, 0x17e0, 0x1810, 0x1946, 0x19d0, 0x1a80, 0x1a90,
   0x1b50, 0x1bb0, 0x1c40, 0x1c50, 0xa620, 0xa8d0, 0xa900, 0xa9d0, 0xa9f0, 0xaa50, 0xabf0,
   0xff10, 0x104a0, 0x10d30, 0x11066, 0x110f0, 0x11136, 0x111d0, 0x112f0, 0x11450, 0x114d0,
   0x11650, 0x116c0, 0x11730, 0x118e0, 0x11950, 0x11c50, 0x11d50, 0x11da0, 0x16a60, 0x16ac0,
   0x16b50, 0x1d7ce, 0x1d7d8, 0x1d7e2, 0x1d7ec, 0x1d7f6, 0x1e140, 0x1e2f0, 0x1e950, 0x1fbf0]

/-- The value of a decimal digit. -/
def digitValue? (c : Char) : Option Nat :=
  (digitZeros.find? fun start => start ≤ c.toNat && c.toNat < start + 10).map (c.toNat - ·)

/-- The character is a decimal digit of some script. -/
def isDigit (c : Char) : Bool := (digitValue? c).isSome

/-- The number that digit values spell, most significant first. -/
def ofDigits (digits : List Nat) : Nat := digits.foldl (fun total d => 10 * total + d) 0

/-- The most digits that a whole number may be written with. -/
def maxDigits : Nat := 4300

/-- The least number that has more digits than that. -/
def digitLimit : Nat := Nat.pow 10 maxDigits

/-- The digits of a number in ASCII, most significant first. -/
def digitsOf (n : Nat) : List Char := Nat.toDigits 10 n

theorem digitValue?_lt_ten {c : Char} {d : Nat} (h : digitValue? c = some d) : d < 10 := by
  obtain ⟨start, found, rfl⟩ := Option.map_eq_some_iff.1 h
  have within := List.find?_some found
  simp only [Bool.and_eq_true, decide_eq_true_eq] at within
  omega

@[simp] theorem ofDigits_nil : ofDigits [] = 0 := rfl

theorem ofDigits_append_single (digits : List Nat) (d : Nat) :
    ofDigits (digits ++ [d]) = 10 * ofDigits digits + d := by
  simp [ofDigits, List.foldl_append]

/-! ## Hexadecimal digits -/

/-- The number in hexadecimal with small letters, at least `width` digits. -/
def hex (width n : Nat) : List Char :=
  let digits := Nat.toDigits 16 n
  List.replicate (width - digits.length) '0' ++ digits

/-- The number in hexadecimal with capital letters, at least `width` digits. -/
def hexCapital (width n : Nat) : List Char := (hex width n).map Char.toUpper

/-- The value of a hexadecimal digit in ASCII, of either case. -/
def hexValue? (c : Char) : Option Nat :=
  if '0' ≤ c ∧ c ≤ '9' then some (c.toNat - 48)
  else if 'a' ≤ c ∧ c ≤ 'f' then some (c.toNat - 87)
  else if 'A' ≤ c ∧ c ≤ 'F' then some (c.toNat - 55)
  else none

/-- The number that hexadecimal digits spell; nothing when a character is no such digit. -/
def ofHex? (digits : List Char) : Option Nat :=
  digits.foldlM (fun total c => (hexValue? c).map (16 * total + ·)) 0

/-- Two hexadecimal digits for each byte. -/
def hexBytes (bytes : List UInt8) : List Char := bytes.flatMap fun b => hex 2 b.toNat

end MusicScore.Text
