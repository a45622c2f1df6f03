/-!
# Dynamic levels

The nine named dynamic markings and the velocity each of them stands for.
-/
namespace MusicScore

/-- A named dynamic marking. -/
inductive Level where
  | silent
  | ppp
  | pp
  | p
  | mp
  | mf
  | f
  | ff
  | fff
  deriving DecidableEq, Repr

namespace Level

/-- All markings, from the softest to the loudest. -/
def all : List Level := [silent, ppp, pp, p, mp, mf, f, ff, fff]

/-- The velocity that a marking stands for. -/
def velocity : Level → Nat
  | silent => 0
  | ppp => 10
  | pp => 25
  | p => 50
  | mp => 60
  | mf => 70
  | f => 85
  | ff => 100
  | fff => 120

/-- The name of a marking in capitals, as it is looked up. -/
def capitalName : Level → String
  | silent => "SILENT"
  | ppp => "PPP"
  | pp => "PP"
  | p => "P"
  | mp => "MP"
  | mf => "MF"
  | f => "F"
  | ff => "FF"
  | fff => "FFF"

/-- The name of a marking as it is shown. -/
def name : Level → String
  | silent => "silent"
  | ppp => "ppp"
  | pp => "pp"
  | p => "p"
  | mp => "mp"
  | mf => "mf"
  | f => "f"
  | ff => "ff"
  | fff => "fff"

/-- The marking with the given capital name. -/
def ofCapitalName? (name : String) : Option Level := all.find? (·.capitalName = name)

/-- The marking that stands for exactly this velocity. -/
def ofVelocity? (velocity : Nat) : Option Level := all.find? (·.velocity = velocity)

theorem ofCapitalName?_capitalName (level : Level) :
    ofCapitalName? level.capitalName = some level := by
  cases level <;> decide

theorem ofVelocity?_velocity (level : Level) : ofVelocity? level.velocity = some level := by
  cases level <;> decide

theorem velocity_le (level : Level) : level.velocity ≤ 127 := by
  cases level <;> decide

end Level

end MusicScore
