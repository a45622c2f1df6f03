/-!
# Sorting by an order that may fail

Two values may have no order between them, and an order may contradict itself. It then matters which values
are compared. The values at the front that are in order, or each smaller than the one before, are taken as
they are or turned round; every further value is put after those that are not greater, at a place that is
found by halving. Equal values stay in the order in which they came.
-/
namespace MusicScore.Sorting

variable {α ε : Type}

/-- The values at the front of a list that go on from `previous`, each of them smaller or each of them not
smaller than the one before, and the values after them. -/
def run (less : α → α → Except ε Bool) (falling : Bool) (previous : α) :
    List α → Except ε (List α × List α)
  | [] => .ok ([], [])
  | next :: rest => do
    if (← less next previous) = falling then
      let (more, after) ← run less falling next rest
      return (next :: more, after)
    else return ([], next :: rest)

/-- The values at the front of a list that need no sorting, in order, and the values after them. -/
def front (less : α → α → Except ε Bool) : List α → Except ε (List α × List α)
  | first :: second :: rest => do
    let falling ← less second first
    let (more, after) ← run less falling second rest
    let taken := first :: second :: more
    return (if falling then taken.reverse else taken, after)
  | short => .ok (short, [])

/-- The place of a value among `count` of the sorted ones from `low` on: after those that are not
greater. -/
def place (less : α → α → Except ε Bool) (sorted : List α) (value : α) (low count : Nat) :
    Except ε Nat :=
  if _none : count = 0 then .ok low
  else
    let half := count / 2
    match sorted[low + half]? with
    | none => .ok low
    | some middle => do
      if ← less value middle then place less sorted value low half
      else place less sorted value (low + half + 1) (count - half - 1)
  termination_by count

/-- Put a value into sorted ones. -/
def insert (less : α → α → Except ε Bool) (sorted : List α) (value : α) : Except ε (List α) := do
  let index ← place less sorted value 0 sorted.length
  return sorted.take index ++ value :: sorted.drop index

/-- The values in order. -/
def sort (less : α → α → Except ε Bool) (values : List α) : Except ε (List α) := do
  let (sorted, rest) ← front less values
  rest.foldlM (insert less) sorted

end MusicScore.Sorting
