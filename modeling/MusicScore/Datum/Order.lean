import MusicScore.Datum.Basic

/-!
# Comparing data

Any two data are equal or not: numbers by quantity, whatever their kind, values of the library by what
they stand for, lists item by item, records key by key, and data of different kinds never. Inside lists and
records, and as keys, two things that are not numbers count as equal when they are one and the same.

Only some kinds are ordered, each among itself; asking for the order of others is a fault. Lists are
compared by the first items that differ, or else by length, and sets by inclusion. Intervals are ordered by
the order of what they hold, and their other relations follow from *smaller* and *equal* by negation,
which matters only where *smaller* and *greater* do not exclude all but *equal*.
-/
namespace MusicScore

/-- A relation by which two data can be compared. -/
inductive Relation where
  | before
  | atMost
  | after
  | atLeast
  deriving DecidableEq, Repr

namespace Relation

/-- The relation holds of two things, given whether the first is smaller or greater than the second. -/
def admits (r : Relation) (smaller greater : Bool) : Bool :=
  match r with
  | before => smaller
  | atMost => !greater
  | after => greater
  | atLeast => !smaller

/-- The relation holds of two numbers; never where one of them is not a number. -/
def ofNumbers (r : Relation) (a b : Number) : Bool :=
  match r with
  | before => a.lt b
  | atMost => a.le b
  | after => b.lt a
  | atLeast => b.le a

end Relation

namespace Datum

/-- The two data are one and the same thing that is not a number. -/
def sameNan : Datum → Datum → Bool
  | number a, number b => a.alike b
  | _, _ => false

mutual

/-- The two data are equal. -/
def same : Datum → Datum → Bool
  | nothing, nothing => true
  | number a, number b => a.same b
  | text a, text b => a = b
  | bytes a, bytes b => a = b
  | moment _ a, moment _ b => a.same b
  | list _ a, list _ b => sameItems a b
  | record _ a, record _ b => a.length = b.length && sameFields a b
  | set _ a, set _ b => a.length = b.length && sameMembers a b
  | pair a b, pair c d => (same a c || sameNan a c) && (same b d || sameNan b d)
  | again a, again b => a = b
  | duration a, duration b => a.beats = b.beats
  | pitch a, pitch b => a.number = b.number
  | dynamic a, dynamic b => a.velocity = b.velocity
  | interval a, interval b => same a b
  | tempo a, tempo b => a.bpm = b.bpm
  | timeSignature a, timeSignature b => a = b
  | event (.note a), event (.note b) =>
    a.pitch.number = b.pitch.number && a.duration = b.duration && a.dynamic = b.dynamic
  | event (.chord a), event (.chord b) =>
    a.harmony.pitches.map (·.number) = b.harmony.pitches.map (·.number) &&
      a.duration = b.duration && a.dynamic = b.dynamic
  | event (.rest a), event (.rest b) => a.duration = b.duration
  | _, _ => false

/-- The two lists are equal item by item. -/
def sameItems : List Datum → List Datum → Bool
  | [], [] => true
  | a :: as, b :: bs => (same a b || sameNan a b) && sameItems as bs
  | _, _ => false

/-- Every member of the first set is in the second. -/
def sameMembers : List Datum → List Datum → Bool
  | [], _ => true
  | a :: as, others => others.any (fun b => same a b || sameNan a b) && sameMembers as others

/-- Every field of the first record is in the second, with an equal value. -/
def sameFields : List (Datum × Datum) → List (Datum × Datum) → Bool
  | [], _ => true
  | (key, value) :: rest, others =>
    others.any (fun field =>
      (same key field.1 || sameNan key field.1) && (same value field.2 || sameNan value field.2)) &&
      sameFields rest others

end

/-- The two data are equal, or one and the same thing that is not a number. -/
def alike (a b : Datum) : Bool := same a b || sameNan a b

/-- The first text comes before the second, by the numbers of the first characters that differ. -/
def textBefore : List Char → List Char → Bool
  | [], [] => false
  | [], _ :: _ => true
  | _ :: _, [] => false
  | a :: as, b :: bs => if a = b then textBefore as bs else a < b

/-- The first bytes come before the second, by the first byte that differs. -/
def bytesBefore : List UInt8 → List UInt8 → Bool
  | _, [] => false
  | [], _ :: _ => true
  | a :: as, b :: bs => if a = b then bytesBefore as bs else a < b

mutual

/-- The relation holds of two data; a fault for data without an order between them. -/
def holds (r : Relation) : Datum → Datum → Except Fault Bool
  | number a, number b => .ok (r.ofNumbers a b)
  | text a, text b =>
    .ok (r.admits (textBefore a.toList b.toList) (textBefore b.toList a.toList))
  | bytes a, bytes b => .ok (r.admits (bytesBefore a b) (bytesBefore b a))
  | moment _ a, moment _ b =>
    if a.rank = b.rank then .ok (r.admits (a.place < b.place) (b.place < a.place))
    else .error .wrongKind
  | list _ a, list _ b => itemsHold r a b
  | set _ a, set _ b =>
    let within := sameMembers a b
    let around := sameMembers b a
    .ok (match r with
      | .before => within && !around
      | .atMost => within
      | .after => around && !within
      | .atLeast => around)
  | duration a, duration b => .ok (r.admits (a.beats < b.beats) (b.beats < a.beats))
  | pitch a, pitch b => .ok (r.admits (a.number < b.number) (b.number < a.number))
  | dynamic a, dynamic b => .ok (r.admits (a.velocity < b.velocity) (b.velocity < a.velocity))
  | interval a, interval b => do
    let smaller ← holds .before a b
    match r with
    | .before => return smaller
    | .atMost => return smaller || same a b
    | .after => return !smaller && !same a b
    | .atLeast => return !smaller
  | _, _ => .error .wrongKind

/-- The relation holds of two lists: of the first items that differ, or else of the lengths. -/
def itemsHold (r : Relation) : List Datum → List Datum → Except Fault Bool
  | [], [] => .ok (r.admits false false)
  | [], _ :: _ => .ok (r.admits true false)
  | _ :: _, [] => .ok (r.admits false true)
  | a :: as, b :: bs => if alike a b then itemsHold r as bs else holds r a b

end

/-- The first datum is smaller. -/
def before (a b : Datum) : Except Fault Bool := holds .before a b

/-- The datum counts as true: it is not nothing, zero, or empty. -/
def isTruthy : Datum → Bool
  | nothing => false
  | number n => !n.isZero
  | text s => !s.isEmpty
  | bytes content => !content.isEmpty
  | list _ items => !items.isEmpty
  | record _ fields => !fields.isEmpty
  | set _ members => !members.isEmpty
  | _ => true

/-- The datum may be a key of a record: it is no list, record or set, nor holds one. -/
def isKey : Datum → Bool
  | list _ _ => false
  | record _ _ => false
  | set _ _ => false
  | again _ => false
  | pair first second => isKey first && isKey second
  | interval semitones => isKey semitones
  | _ => true

/-- The value of a field among others. -/
def field? (fields : List (Datum × Datum)) (name : String) : Option Datum :=
  (fields.find? fun field => same field.1 (.text name)).map (·.2)

/-- Set the field of a record, in the place of a field with the same key or at the end. -/
def setField (name : Datum) (value : Datum) : List (Datum × Datum) → List (Datum × Datum)
  | [] => [(name, value)]
  | (other, old) :: rest =>
    if other.alike name then (other, value) :: rest else (other, old) :: setField name value rest

/-- Fields as they were written, with each key once: the last value counts, in the place of the first. -/
def distinctFields (fields : List (Datum × Datum)) : List (Datum × Datum) :=
  fields.foldl (fun done (name, value) => setField name value done) []

end Datum

end MusicScore
