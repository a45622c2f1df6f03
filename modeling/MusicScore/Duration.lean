import MusicScore.Fault

/-!
# Durations

A duration is a positive rational number of beats; a quarter note is one beat. Arithmetic on it is
exact, so that no piece drifts however long it is.
-/
namespace MusicScore

/-- A length of time in beats. -/
structure Duration where
  beats : Rat
  positive : 0 < beats
  deriving DecidableEq

namespace Duration

/-- The duration of so many beats, which have to be positive; `shown` is how the refused value is
shown. -/
def ofBeats (beats : Rat) (shown : Shown) : Except Fault Duration :=
  if h : 0 < beats then .ok ⟨beats, h⟩ else .error (.value (.duration shown))

/-- The names of note values and their beats. -/
def named : List (Rat × String) :=
  [(8, "breve"), (4, "whole"), (2, "half"), (1, "quarter"), (1 / 2, "eighth"),
    (1 / 4, "sixteenth"), (1 / 8, "32nd"), (3, "dotted half"), (3 / 2, "dotted quarter"),
    (3 / 4, "dotted eighth"), (3 / 8, "dotted sixteenth"), (2 / 3, "quarter triplet"),
    (1 / 3, "eighth triplet"), (1 / 6, "sixteenth triplet")]

/-- The name of the note value, or the number of beats. -/
def name (d : Duration) : Shown :=
  match named.lookup d.beats with
  | some word => word
  | none => fractionText d.beats ++ " beats"

/-- The duration times a positive factor. -/
def scale (d : Duration) (factor : Rat) (h : 0 < factor) : Duration :=
  ⟨d.beats * factor, Rat.mul_pos d.positive h⟩

/-- Half as long again. -/
def dotted (d : Duration) : Duration := d.scale (3 / 2) (by decide +kernel)

/-- Three quarters as long again. -/
def doubleDotted (d : Duration) : Duration := d.scale (7 / 4) (by decide +kernel)

/-- Two thirds as long. -/
def triplet (d : Duration) : Duration := d.scale (2 / 3) (by decide +kernel)

/-- Two durations one after the other. -/
def add (d e : Duration) : Duration :=
  ⟨d.beats + e.beats, by
    have := d.positive
    have := e.positive
    grind⟩

end Duration

end MusicScore
