/-!
# Rounding to the nearest whole number

A rational number goes to the nearest whole number; one that lies half-way between two goes to the
even one of them.
-/
namespace MusicScore

/-- The nearest whole number; of two equally near, the even one. -/
def roundHalfEven (q : Rat) : Int :=
  let below := q.floor
  let excess := q - below
  if excess < 1 / 2 then below
  else if 1 / 2 < excess then below + 1
  else if below % 2 = 0 then below
  else below + 1

/-- The nearest whole number towards zero. -/
def truncate (q : Rat) : Int := Int.tdiv q.num q.den

theorem roundHalfEven_eq_floor_or (q : Rat) :
    roundHalfEven q = q.floor ∨ roundHalfEven q = q.floor + 1 := by
  unfold roundHalfEven
  dsimp only
  split
  · exact .inl rfl
  · split
    · exact .inr rfl
    · split
      · exact .inl rfl
      · exact .inr rfl

end MusicScore
