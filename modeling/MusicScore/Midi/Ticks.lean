import MusicScore.Beats
import MusicScore.Number.Rounding

/-!
# Ticks

A position in beats becomes a position in ticks: the exact product with the ticks in a quarter note,
rounded to the nearest whole number, half-way to the even one.
-/
namespace MusicScore.Midi

/-- The ticks in a quarter note where nothing else is said. -/
def standardResolution : Nat := 960

/-- The tick of a position in beats. -/
def ticks (beats : Rat) (ticksPerQuarter : Int) : Int := roundHalfEven (beats * ticksPerQuarter)

/-- The exact fraction that a datum stands for: a binary64 number is taken as it is. -/
def exactFraction : Datum → Except Fault Rat
  | .text s =>
    match FractionText.read s.toList with
    | .value q => .ok q
    | .zeroDenominator => .error .zeroDenominator
    | .malformed => .error (.range (.fraction (Text.quote s)))
    | .tooManyDigits count => .error (.range (.digits count))
    | .misplaced letters => .error (.range (.wholeLiteral 10 (Text.quote (String.ofList letters))))
  | .number (.float (.nan _)) => .error (.range .noRatio)
  | .number (.float (.infinite _)) => .error .overflow
  | .number (.float x) => .ok (x.toRat?.getD 0)
  | .number n =>
    match n.toRat? with
    | some q => .ok q
    | none => .error .wrongKind
  | _ => .error .wrongKind

/-- The nearest whole number to a number of any kind. -/
def nearestWhole : Number → Except Fault Int
  | .float (.nan _) => .error (.range .noInteger)
  | .float (.infinite _) => .error .overflow
  | .float x => .ok (roundHalfEven (x.toRat?.getD 0))
  | n => .ok (roundHalfEven (n.toRat?.getD 0))

/-- The tick of a position with a resolution, each a number of any kind. A duration can be multiplied by the
position, but is not rounded. -/
def ticksOfData (beats ticksPerQuarter : Datum) : Except Fault Int := do
  let beats ← exactFraction beats
  match ticksPerQuarter with
  | .number resolution =>
    match Number.mul? (.ratio beats) resolution with
    | some product => nearestWhole product
    | none => .error .overflow
  | .duration d => do
    let _ ← d.times (.ofRat beats)
    .error .wrongKind
  | _ => .error .wrongKind

end MusicScore.Midi
