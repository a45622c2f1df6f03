import MusicScore.Event.Given

/-!
# Scales

A scale type is a list of steps from one degree to the next that add up to an octave of twelve
semitones. A scale starts on a tonic and goes on through the octaves; it stops without a fault before
the first pitch beyond the highest. The degree number `index` lies `index / n` octaves above the offset
of the degree `index % n`, for `n` degrees.
-/
namespace MusicScore

/-- The steps of a scale, which add up to an octave, and a name that may be empty. -/
structure ScaleType where
  steps : List Number
  name : Datum

namespace ScaleType

/-- The sum of data from `total` on, and the numbers that were added; only numbers can be added to a
number. -/
def addUp (total : Number) : List Datum → Except Fault (Number × List Number)
  | [] => .ok (total, [])
  | .number n :: rest =>
    match total.add? n with
    | some next => do
      let (sum, numbers) ← addUp next rest
      return (sum, n :: numbers)
    | none => .error .overflow
  | _ :: _ => .error .wrongKind

/-- The scale type with these steps, which have to add up to twelve semitones. -/
def ofData (steps : List Datum) (name : Datum) : Except Fault ScaleType := do
  let (total, steps) ← addUp (.ofInt 0) steps
  if total.same (.ofInt 12) then return ⟨steps, name⟩
  else .error (.value (.scaleTotal total.text))

/-- The offsets of the degrees after one at `offset`. -/
def offsetsAfter (offset : Number) : List Number → Option (List Number)
  | [] => some []
  | step :: rest => do
    let next ← offset.add? step
    return next :: (← offsetsAfter next rest)

/-- Semitones from the tonic to each degree, the tonic first and the octave left out. -/
def offsets? (type : ScaleType) : Option (List Number) := do
  return .ofInt 0 :: (← offsetsAfter (.ofInt 0) type.steps.dropLast)

/-- The name of a scale type; one without a name is described by its steps. -/
def text (type : ScaleType) : Except Fault Shown :=
  match type.name.isTruthy, type.name with
  | true, .text name => .ok name
  | true, _ => .error .wrongKind
  | false, _ =>
    let steps := type.steps.map fun step => (Datum.interval (.number step)).detail
    .ok ("ScaleType(" ++ tupleText steps ++ ")")

/-- The scale types with names of their own. -/
def constants : List (String × ScaleType) :=
  let ofInts := fun (steps : List Int) name => ScaleType.mk (steps.map .ofInt) (.text name)
  [("MAJOR", ofInts [2, 2, 1, 2, 2, 2, 1] "major"),
    ("NATURAL_MINOR", ofInts [2, 1, 2, 2, 1, 2, 2] "natural minor"),
    ("HARMONIC_MINOR", ofInts [2, 1, 2, 2, 1, 3, 1] "harmonic minor"),
    ("MELODIC_MINOR", ofInts [2, 1, 2, 2, 2, 2, 1] "melodic minor"),
    ("DORIAN", ofInts [2, 1, 2, 2, 2, 1, 2] "dorian"),
    ("PHRYGIAN", ofInts [1, 2, 2, 2, 1, 2, 2] "phrygian"),
    ("LYDIAN", ofInts [2, 2, 2, 1, 2, 2, 1] "lydian"),
    ("MIXOLYDIAN", ofInts [2, 2, 1, 2, 2, 1, 2] "mixolydian"),
    ("LOCRIAN", ofInts [1, 2, 2, 1, 2, 2, 2] "locrian")]

end ScaleType

/-- A scale type on a tonic. -/
structure Scale where
  tonic : Pitch
  type : ScaleType

namespace Scale

/-- The note number of the degree with a given index. -/
def numberAt? (tonic : Pitch) (offsets : List Number) (index : Nat) : Option Number :=
  let base := tonic.number + (index / offsets.length : Nat) * 12
  (Number.ofInt base).add? (offsets[index % offsets.length]?.getD (.ofInt 0))

/-- At most `count` pitches from the degree `index` on, up to the highest pitch. -/
def walk (tonic : Pitch) (offsets : List Number) : (count index : Nat) → Except Fault (List Pitch)
  | 0, _ => .ok []
  | count + 1, index =>
    match numberAt? tonic offsets index with
    | none => .error .overflow
    | some number =>
      if (Number.ofInt Pitch.highest).lt number then .ok []
      else do
        let pitch ← Pitch.ofNumber number
        return pitch :: (← walk tonic offsets count (index + 1))

/-- The first `count` pitches of the scale, fewer when the next would be beyond the highest. -/
def take (scale : Scale) (count : Nat) : Except Fault (List Pitch) :=
  match scale.type.offsets? with
  | none => .error .overflow
  | some offsets => walk scale.tonic offsets count 0

/-- The first pitches of the scale, as many as a datum says; none for a negative number. -/
def takeDatum (scale : Scale) : Datum → Except Fault (List Pitch)
  | .number n =>
    match n.toInt? with
    | some count => scale.take count.toNat
    | none => .error .wrongKind
  | _ => .error .wrongKind

/-- One octave, the tonic at both ends. -/
def octave (scale : Scale) : Except Fault (List Pitch) := scale.take (scale.type.steps.length + 1)

end Scale

end MusicScore
