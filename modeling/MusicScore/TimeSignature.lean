import MusicScore.Duration

/-!
# Time signatures

A time signature is a number of beats in a bar, from 1 to 255, over a note value that is a power of
two. The power is kept instead of the note value, as the file format does.
-/
namespace MusicScore

/-- Beats in a bar over a note value. -/
structure TimeSignature where
  numerator : Nat
  exponent : Nat
  numeratorBounds : 1 ≤ numerator ∧ numerator ≤ 255
  deriving DecidableEq

namespace TimeSignature

/-- The note value that counts as one beat, as a part of a whole note. -/
def denominator (t : TimeSignature) : Nat := Nat.pow 2 t.exponent

/-- The text of a time signature. -/
def name (t : TimeSignature) : Shown := wholeText t.numerator ++ "/" ++ wholeText t.denominator

/-- The exponent of a power of two. -/
def exponentOf? (d : Int) : Option Nat :=
  let k := Nat.log2 d.toNat
  if (Nat.pow 2 k : Int) = d then some k else none

/-- A whole number from 1 to 255 keeps its bounds as a natural number. -/
theorem toNat_bounds {n : Int} (h : 1 ≤ n ∧ n ≤ 255) : 1 ≤ n.toNat ∧ n.toNat ≤ 255 := by
  obtain ⟨low, high⟩ := h
  omega

/-- The time signature with these two numbers; `shown` is how a refused pair is shown. -/
def ofInts (n d : Int) (shown : Shown) : Except Fault TimeSignature :=
  if h : 1 ≤ n ∧ n ≤ 255 then
    match exponentOf? d with
    | some k => .ok ⟨n.toNat, k, toNat_bounds h⟩
    | none => .error (.value (.timeSignature shown))
  else .error (.value (.timeSignature shown))

/-- Four quarters. -/
def common : TimeSignature := ⟨4, 2, by decide⟩

/-- Read a time signature: two whole numbers with a stroke between them. -/
def parse (text : String) : Except Fault TimeSignature :=
  let refused := Except.error (.value (.timeSignature (.text text)))
  let front := text.toList.takeWhile (· ≠ '/')
  match text.toList.dropWhile (· ≠ '/') with
  | _ :: back =>
    if back.contains '/' then refused
    else
      match IntegerText.read? front, IntegerText.read? back with
      | some n, some d => ofInts n d (wholeText n ++ "/" ++ wholeText d)
      | _, _ => refused
  | [] => refused

/-- The note value of one beat. -/
def beatUnit (t : TimeSignature) : Duration :=
  ⟨4 / (t.denominator : Rat), by
    have h : 0 < t.denominator := Nat.two_pow_pos t.exponent
    rw [Rat.div_def]
    exact Rat.mul_pos (by decide +kernel) (Rat.inv_pos.2 (by exact_mod_cast h))⟩

/-- The length of one bar. -/
def barDuration (t : TimeSignature) : Duration :=
  t.beatUnit.scale t.numerator (by have := t.numeratorBounds.1; exact_mod_cast this)

end TimeSignature

end MusicScore
