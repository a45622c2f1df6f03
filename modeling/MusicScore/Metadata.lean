import MusicScore.Datum.Order
import MusicScore.Instrument

/-!
# Key and meter

A key is a number of sharps, or of flats when negative, from seven flats to seven sharps, in a major or
minor mode. The metadata of a score are a key and a meter. The meter is meant to be a time signature and may be
any datum; what it is has to be known only where it is written.
-/
namespace MusicScore

/-- The mode of a key. -/
inductive Mode where
  | major
  | minor
  deriving DecidableEq, Repr

/-- The name of a mode. -/
def Mode.name : Mode → String
  | .major => "major"
  | .minor => "minor"

/-- A key by its sharps, negative for flats, and its mode. -/
structure Key where
  sharps : Int
  mode : Mode
  inRange : -7 ≤ sharps ∧ sharps ≤ 7
  deriving DecidableEq

namespace Key

/-- The names of the major keys, from seven flats to seven sharps. -/
def majorNames : List String :=
  ["Cb", "Gb", "Db", "Ab", "Eb", "Bb", "F", "C", "G", "D", "A", "E", "B", "F#", "C#"]

/-- The names of the minor keys, from seven flats to seven sharps. -/
def minorNames : List String :=
  ["Abm", "Ebm", "Bbm", "Fm", "Cm", "Gm", "Dm", "Am", "Em", "Bm", "F#m", "C#m", "G#m", "D#m", "A#m"]

/-- The name of a key. -/
def name (k : Key) : String :=
  let names := match k.mode with
    | .major => majorNames
    | .minor => minorNames
  (names[(k.sharps + 7).toNat]?).getD ""

end Key

/-- The key and the meter of a score. -/
structure Metadata where
  key : Key
  meter : Datum

namespace Metadata

/-- The fields that metadata are made from. -/
def fieldNames : List String := ["key_signature", "mode", "time_signature"]

/-- The number of sharps that a datum stands for. -/
def sharpsOf (value : Datum) : Except Fault { n : Int // -7 ≤ n ∧ n ≤ 7 } :=
  let refused := Except.error (.value (.keySignature value.plain))
  match value with
  | .number (.whole n) => if h : -7 ≤ n.value ∧ n.value ≤ 7 then .ok ⟨n.value, h⟩ else refused
  | _ => refused

/-- The mode that a datum names. -/
def modeOf (value : Datum) : Except Fault Mode :=
  let refused := Except.error (.value (.mode value.detail))
  match value with
  | .text name =>
    if name = Mode.major.name then .ok .major
    else if name = Mode.minor.name then .ok .minor
    else refused
  | _ => refused

/-- The metadata with these fields; C major and four quarters where a field is missing. -/
def ofFields (fields : List (String × Datum)) : Except Fault Metadata := do
  if fields.any fun field => !fieldNames.contains field.1 then .error .wrongKind
  let sharps ← sharpsOf ((fields.lookup "key_signature").getD (.ofInt 0))
  let mode ← modeOf ((fields.lookup "mode").getD (.text Mode.major.name))
  return ⟨⟨sharps.1, mode, sharps.2⟩,
    (fields.lookup "time_signature").getD (.timeSignature .common)⟩

/-- The two numbers of a meter: those of a time signature, or the numerator and denominator of a number
that has them. -/
def ratioOf : Datum → Except Fault (Int × Int)
  | .timeSignature t => .ok (t.numerator, t.denominator)
  | .number n =>
    match n.toRat? with
    | some q => .ok (q.num, q.den)
    | none => .error .noSuchMember
  | _ => .error .noSuchMember

end Metadata

end MusicScore
