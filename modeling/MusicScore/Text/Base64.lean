/-!
# Bytes in Base64

Three bytes are written as four characters of six bits each. Where bytes are missing at the end, the
characters without bits are equals signs. The reader passes over every other character, and over equals
signs that come too early; it stops at the signs that complete a group, and refuses a text whose last
group is not complete.
-/
namespace MusicScore.Text.Base64

/-- The characters for the numbers of six bits. -/
def alphabet : List Char := "ABCDEFGHIJKLMNOPQRSTUVWXYZabcdefghijklmnopqrstuvwxyz0123456789+/".toList

/-- The character for a number of six bits. -/
def digit (n : Nat) : Char := (alphabet[n % 64]?).getD '='

/-- The number that a character stands for. -/
def value? (c : Char) : Option Nat := alphabet.idxOf? c

/-- Bytes in groups of three. -/
def encode : List UInt8 → List Char
  | [] => []
  | [a] =>
    let n := a.toNat * 16
    [digit (n / 64), digit n, '=', '=']
  | [a, b] =>
    let n := (a.toNat * 256 + b.toNat) * 4
    [digit (n / 4096), digit (n / 64), digit n, '=']
  | a :: b :: c :: rest =>
    let n := (a.toNat * 256 + b.toNat) * 256 + c.toNat
    digit (n / 262144) :: digit (n / 4096) :: digit (n / 64) :: digit n :: encode rest

/-- The bytes after some digits of a group, given the number of these digits, the bits of them that are no
byte yet, and the number of equals signs among the last characters. -/
def decodeFrom (digits bits signs : Nat) : List Char → Option (List UInt8)
  | [] => if digits = 0 then some [] else none
  | c :: rest =>
    if c = '=' then
      if 2 ≤ digits && 4 ≤ digits + signs + 1 then some []
      else decodeFrom digits bits (if 2 ≤ digits then signs + 1 else signs) rest
    else
      match value? c, digits with
      | none, _ => decodeFrom digits bits signs rest
      | some v, 0 => decodeFrom 1 v 0 rest
      | some v, 1 => (decodeFrom 2 (v % 16) 0 rest).map (UInt8.ofNat (bits * 4 + v / 16) :: ·)
      | some v, 2 => (decodeFrom 3 (v % 4) 0 rest).map (UInt8.ofNat (bits * 16 + v / 4) :: ·)
      | some v, _ => (decodeFrom 0 0 0 rest).map (UInt8.ofNat (bits * 64 + v) :: ·)

/-- The bytes of a text. -/
def decode (s : List Char) : Option (List UInt8) := decodeFrom 0 0 0 s

/-- The number of bytes in a line. -/
def lineBytes : Nat := 57

/-- The lines of bytes, each but the last with as many as fit. -/
def lines (bytes : List UInt8) : List (List Char) :=
  if bytes.isEmpty then []
  else if lineBytes < bytes.length then
    encode (bytes.take lineBytes) :: lines (bytes.drop lineBytes)
  else [encode bytes]
  termination_by bytes.length
  decreasing_by
    simp only [List.length_drop, lineBytes] at *
    omega

end MusicScore.Text.Base64
