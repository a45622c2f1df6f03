import MusicScore.Fault
import MusicScore.Number.Numeral

/-!
# Tempo

A tempo is a positive whole number of beats in a minute. A file holds the length of one beat in
microseconds, rounded down.
-/
namespace MusicScore

/-- Beats in a minute. -/
structure Tempo where
  numeral : Numeral
  positive : 0 < numeral.value
  deriving DecidableEq

namespace Tempo

/-- The number of beats in a minute. -/
def bpm (t : Tempo) : Int := t.numeral.value

/-- Microseconds in a minute. -/
def microsecondsPerMinute : Int := 60000000

/-- Microseconds in a beat, rounded down. -/
def microsecondsPerBeat (t : Tempo) : Int := microsecondsPerMinute / t.bpm

/-- The text of a tempo. -/
def name (t : Tempo) : Shown := wholeText t.bpm ++ " BPM"

/-- The tempo of so many beats in a minute. -/
def ofNumeral (n : Numeral) : Except Fault Tempo :=
  if h : 0 < n.value then .ok ⟨n, h⟩ else .error (.value (.tempo (wholeText n.value)))

/-- A hundred and twenty beats in a minute. -/
def moderate : Tempo := ⟨.plain 120, by decide⟩

end Tempo

end MusicScore
