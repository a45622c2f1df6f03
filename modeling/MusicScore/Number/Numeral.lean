import MusicScore.Dynamic.Level

/-!
# Whole numbers as they are given

A whole number may be given as such, or by a dynamic marking that stands for its velocity. Both count
the same wherever a number is asked for. The way it was given is kept, since a document that has no
form for a marking cannot hold it.
-/
namespace MusicScore

/-- A whole number, given as such or by a dynamic marking. -/
inductive Numeral where
  | plain (n : Int)
  | marking (level : Level)
  deriving DecidableEq, Repr

namespace Numeral

/-- The number that is meant. -/
def value : Numeral → Int
  | plain n => n
  | marking level => level.velocity

@[simp] theorem value_plain (n : Int) : (plain n).value = n := rfl

@[simp] theorem value_marking (level : Level) : (marking level).value = level.velocity := rfl

end Numeral

/-- The whole number fits in sixty-four bits with a sign. -/
def fitsWord (n : Int) : Bool := -(Nat.pow 2 63 : Int) ≤ n && n < (Nat.pow 2 63 : Int)

end MusicScore
