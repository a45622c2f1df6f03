import MusicScore.Fault
import MusicScore.Dynamic.Level
import MusicScore.Number.Numeral
import MusicScore.Text.CharClass
import MusicScore.Text.Case

/-!
# Dynamics

A dynamic is a velocity from 0 to 127, which may be that of a named marking.
-/
namespace MusicScore

/-- The loudness of an event. -/
structure Dynamic where
  velocity : Nat
  inRange : velocity ≤ 127
  deriving DecidableEq

namespace Dynamic

/-- The dynamic of a marking. -/
def ofLevel (level : Level) : Dynamic := ⟨level.velocity, level.velocity_le⟩

/-- The dynamic of events for which none is given. -/
def standard : Dynamic := ofLevel .mf

/-- The marking with exactly this velocity, if there is one. -/
def level? (d : Dynamic) : Option Level := Level.ofVelocity? d.velocity

/-- The name of the marking, or the velocity. -/
def name (d : Dynamic) : String :=
  match d.level? with
  | some level => level.name
  | none => IntegerText.text d.velocity

/-- The dynamic with a given velocity. -/
def ofInt (velocity : Int) : Except Fault Dynamic :=
  if h : 0 ≤ velocity ∧ velocity ≤ 127 then .ok ⟨velocity.toNat, by omega⟩
  else .error (.value (.dynamic (wholeText velocity)))

/-- The dynamic of a marking by its name, in any case and with blanks around it. -/
def ofName (name : String) : Except Fault Dynamic :=
  match Level.ofCapitalName? (String.ofList (Text.capitalize (Text.trim name.toList))) with
  | some level => .ok (ofLevel level)
  | none => .error (.value (.dynamic name))

end Dynamic

end MusicScore
