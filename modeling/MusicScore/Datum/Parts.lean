import MusicScore.Datum.Order

/-!
# The parts of data

Lists have items, records have fields, and both may stand inside themselves. A part that is taken out of a
value still has to hold what it held, so the value itself is put in the places where it is only named.
-/
namespace MusicScore.Datum

mutual

/-- The datum with a whole value in the places where it stands again. -/
def expand (mark : Nat) (whole : Datum) : Datum → Datum
  | again other => if other = mark then whole else again other
  | list m items => list m (expandItems mark whole items)
  | record m fields => record m (expandFields mark whole fields)
  | pair first second => pair (expand mark whole first) (expand mark whole second)
  | value => value

/-- The items of a list with a whole value in the places where it stands again. -/
def expandItems (mark : Nat) (whole : Datum) : List Datum → List Datum
  | [] => []
  | item :: rest => expand mark whole item :: expandItems mark whole rest

/-- The fields of a record with a whole value in the places where it stands again. -/
def expandFields (mark : Nat) (whole : Datum) : List (Datum × Datum) → List (Datum × Datum)
  | [] => []
  | (key, value) :: rest => (key, expand mark whole value) :: expandFields mark whole rest

end

/-- The fields of a record. -/
def fields? : Datum → Option (List (Datum × Datum))
  | record none fields => some fields
  | record (some mark) fields => some (expandFields mark (record (some mark) fields) fields)
  | _ => none

/-- The items that a datum is made of: those of a list or a pair, the members of a set, the characters of
a text, the numbers of bytes, the keys of a record. -/
def items : Datum → Except Fault (List Datum)
  | list none items => .ok items
  | list (some mark) items => .ok (expandItems mark (list (some mark) items) items)
  | set _ members => .ok members
  | pair first second => .ok [first, second]
  | text s => .ok (s.toList.map fun c => text (String.singleton c))
  | bytes content => .ok (content.map fun b => ofInt b.toNat)
  | record _ fields => .ok (fields.map (·.1))
  | _ => .error .wrongKind

end MusicScore.Datum
