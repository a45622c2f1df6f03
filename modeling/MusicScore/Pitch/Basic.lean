import MusicScore.Fault
import MusicScore.Number.Basic

/-!
# Pitches

A pitch is one of the 128 note numbers, counted in semitones from the C below the lowest octave: C4 is
60. Its class is its place in the octave. A class has two names, which differ on the black keys.
-/
namespace MusicScore

/-- One of the twelve places in the octave, counted from C. -/
structure PitchClass where
  index : Fin 12
  deriving DecidableEq, Repr

namespace PitchClass

/-- The class of a note number. -/
def ofInt (n : Int) : PitchClass := ⟨Fin.ofNat 12 (n % 12).toNat⟩

/-- The name with a sharp on the black keys. -/
def sharpName (c : PitchClass) : String :=
  #v["C", "C#", "D", "D#", "E", "F", "F#", "G", "G#", "A", "A#", "B"][c.index]

/-- The name with a flat on the black keys. -/
def flatName (c : PitchClass) : String :=
  #v["C", "Db", "D", "Eb", "E", "F", "Gb", "G", "Ab", "A", "Bb", "B"][c.index]

/-- The name in letters only, with an `s` for the sharp. -/
def letterName (c : PitchClass) : String :=
  #v["C", "Cs", "D", "Ds", "E", "F", "Fs", "G", "Gs", "A", "As", "B"][c.index]

end PitchClass

/-- A pitch by its note number. -/
structure Pitch where
  numeral : Numeral
  inRange : 0 ≤ numeral.value ∧ numeral.value ≤ 127
  deriving DecidableEq

namespace Pitch

/-- The highest note number. -/
def highest : Int := 127

/-- The note number. -/
def number (p : Pitch) : Int := p.numeral.value

/-- The place in the octave. -/
def pitchClass (p : Pitch) : PitchClass := .ofInt p.number

/-- The octave, which starts at each C; C4 is 60. -/
def octave (p : Pitch) : Int := p.number / 12 - 1

/-- The name with the octave, black keys with sharps. -/
def name (p : Pitch) : String := p.pitchClass.sharpName ++ IntegerText.text p.octave

/-- The name with the octave, black keys with flats. -/
def flatName (p : Pitch) : String := p.pitchClass.flatName ++ IntegerText.text p.octave

/-- The pitch with a given note number. -/
def ofNumeral (n : Numeral) : Except Fault Pitch :=
  if h : 0 ≤ n.value ∧ n.value ≤ 127 then .ok ⟨n, h⟩
  else .error (.value (.pitch (wholeText n.value)))

/-- The pitch with a given plain note number. -/
def ofInt (n : Int) : Except Fault Pitch := ofNumeral (.plain n)

/-- The pitch with a number of any kind for note number; only whole numbers are note numbers. -/
def ofNumber : Number → Except Fault Pitch
  | .whole n => ofNumeral n
  | n => .error (.value (.pitch n.text))

/-- The pitch so many semitones higher. -/
def transpose (p : Pitch) (semitones : Number) : Except Fault Pitch :=
  match Number.add? (.whole p.numeral) semitones with
  | some n => ofNumber n
  | none => .error .overflow

theorem number_nonneg (p : Pitch) : 0 ≤ p.number := p.inRange.1

/-- A whole number is accepted as a note number exactly in the range. -/
theorem ofInt_eq_ok_iff (n : Int) (p : Pitch) :
    ofInt n = .ok p ↔ p.numeral = .plain n := by
  unfold ofInt ofNumeral
  split
  · rename_i h
    constructor
    · intro e
      cases e
      rfl
    · intro e
      cases p
      simp_all
  · rename_i h
    constructor
    · intro e
      cases e
    · intro e
      have := p.inRange
      rw [e] at this
      exact absurd this h

/-- A whole number outside of the range is refused as a note number. -/
theorem ofInt_eq_error_iff {n : Int} {fault : Fault} :
    ofInt n = .error fault ↔ (n < 0 ∨ highest < n) ∧ fault = .value (.pitch (wholeText n)) := by
  unfold ofInt ofNumeral
  split
  next inside =>
    rw [Numeral.value_plain] at inside
    constructor
    · intro done
      cases done
    · rintro ⟨outside, _⟩
      rw [highest] at outside
      omega
  next outside =>
    rw [Numeral.value_plain] at outside
    have side : n < 0 ∨ highest < n := by
      rw [highest]
      omega
    simp only [Numeral.value_plain, Except.error.injEq, side, true_and, eq_comm]

theorem number_of_ofInt {n : Int} {p : Pitch} (h : ofInt n = .ok p) : p.number = n := by
  rw [ofInt_eq_ok_iff] at h
  simp [number, h]

end Pitch

end MusicScore
