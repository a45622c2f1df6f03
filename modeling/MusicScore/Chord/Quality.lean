import MusicScore.Event.Given

/-!
# Chord qualities

A quality is a set of intervals, all measured from the root. Intervals that are equal are one interval. The
pitches of a quality above a root are taken from the smallest interval to the largest, and the first that
is out of range decides the fault. An interval may hold any datum that can be a key, but only numbers lead
to pitches.
-/
namespace MusicScore

/-- What the intervals above a root hold, with a name that may be empty. -/
structure ChordQuality where
  intervals : List Datum
  name : Datum

namespace ChordQuality

/-- The list without the data that are equal to an earlier one. -/
def distinct (values : List Datum) : List Datum :=
  values.foldl (fun kept n => if kept.any (·.same n) then kept else kept ++ [n]) []

/-- The quality with these intervals, which have to be different from one another in a way that can be
seen. -/
def ofData (intervals : List Datum) (name : Datum) : Except Fault ChordQuality :=
  if intervals.all Datum.isKey then .ok ⟨distinct intervals, name⟩ else .error .wrongKind

/-- The quality with these whole numbers of semitones. -/
def ofInts (intervals : List Int) (name : String) : ChordQuality :=
  ⟨distinct (intervals.map .ofInt), .text name⟩

/-- The order in which the intervals are taken. -/
def notAfter (a b : Number) : Bool := !b.lt a

/-- The number that an interval holds. -/
def numberOf : Datum → Except Fault Number
  | .number n => .ok n
  | _ => .error .wrongKind

/-- The pitches above a root, from the smallest interval up. Data of which one is no number have no order,
or lead to no pitch. -/
def pitches (quality : ChordQuality) (root : Pitch) : Except Fault (List Pitch) := do
  let numbers ← quality.intervals.mapM numberOf
  (numbers.mergeSort notAfter).mapM root.transpose

/-- The name of a quality. A quality without a name and with at most one interval is described by it;
one with more has no text, since a set has no order to list them in. -/
def text? (quality : ChordQuality) : Except Fault (Option Shown) :=
  match quality.name.isTruthy, quality.name, quality.intervals with
  | true, .text name, _ => .ok (some name)
  | true, _, _ => .error .wrongKind
  | false, _, [] => .ok (some "ChordQuality(frozenset())")
  | false, _, [n] =>
    .ok (some ("ChordQuality(frozenset(\x7b" ++ (Datum.interval n).detail ++ "\x7d))"))
  | false, _, _ => .ok none

/-- The qualities with names of their own. -/
def constants : List (String × ChordQuality) :=
  [("MAJOR", ofInts [0, 4, 7] "major"), ("MINOR", ofInts [0, 3, 7] "minor"),
    ("DIMINISHED", ofInts [0, 3, 6] "diminished"), ("AUGMENTED", ofInts [0, 4, 8] "augmented"),
    ("MAJOR_7", ofInts [0, 4, 7, 11] "major 7"), ("MINOR_7", ofInts [0, 3, 7, 10] "minor 7"),
    ("DOMINANT_7", ofInts [0, 4, 7, 10] "dominant 7"),
    ("DIMINISHED_7", ofInts [0, 3, 6, 9] "diminished 7"),
    ("HALF_DIMINISHED_7", ofInts [0, 3, 6, 10] "half-diminished 7"),
    ("SUS2", ofInts [0, 2, 7] "sus2"), ("SUS4", ofInts [0, 5, 7] "sus4")]

end ChordQuality

namespace Chord

/-- The chord of a quality above a root, with the other parts given. -/
def ofQuality (root : Datum) (quality : ChordQuality) (duration dynamic : Datum) :
    Except Fault Chord := do
  ofPitches (← quality.pitches (← Pitch.given root)) duration dynamic

end Chord

end MusicScore
