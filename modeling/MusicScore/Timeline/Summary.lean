import MusicScore.Timeline.Basic

/-!
# Summaries

A summary counts the notes of a timeline. The notes are counted by channel, and a count is shown under
the name of its track, or under that of the instrument where the track has no name. Labels that are equal
share one line, which stands where the first of them stood and shows the count of the last.

A comparison of two timelines counts notes without regard to repetition: notes that agree in all numbers
are one.
-/
namespace MusicScore.Timeline

/-- The number of notes. -/
def noteCount (t : Timeline) : Nat := t.notes.length

/-- Put a note with the others of its channel. -/
def addToChannel (note : Note) : List (Number × List Note) → List (Number × List Note)
  | [] => [(note.channel, [note])]
  | (channel, notes) :: rest =>
    if channel.same note.channel then (channel, notes ++ [note]) :: rest
    else (channel, notes) :: addToChannel note rest

/-- The notes by channel, in the order in which the channels are first used. -/
def byChannel (t : Timeline) : List (Number × List Note) :=
  t.notes.foldl (fun groups note => addToChannel note groups) []

/-- The label under which the notes of a track are counted. -/
def Track.label (t : Track) : Datum := if t.name.isTruthy then t.name else t.instrument

/-- Set the count of a label, in the place of an equal label or at the end. -/
def setCount (label : Datum) (count : Nat) : List (Datum × Nat) → List (Datum × Nat)
  | [] => [(label, count)]
  | (other, n) :: rest =>
    if other.alike label then (other, count) :: rest else (other, n) :: setCount label count rest

/-- The number of notes on the channel of a track; a fault when channel or label cannot be looked up. -/
def countOf (t : Timeline) (track : Track) : Except Fault Nat :=
  if track.label.isKey && track.channel.isKey then
    match t.byChannel.find? fun group => (Datum.number group.1).same track.channel with
    | some group => .ok group.2.length
    | none => .ok 0
  else .error .wrongKind

/-- The number of notes under each label. -/
def counts (t : Timeline) : Except Fault (List (Datum × Nat)) :=
  t.tracks.foldlM (fun lines track => do return setCount track.label (← t.countOf track) lines) []

/-- The smallest number; the first of several that are equal. -/
def least (first : Number) (rest : List Number) : Number :=
  rest.foldl (fun best n => if n.lt best then n else best) first

/-- The greatest number; the first of several that are equal. -/
def greatest (first : Number) (rest : List Number) : Number :=
  rest.foldl (fun best n => if best.lt n then n else best) first

/-- The smallest and the greatest of some numbers; zero and zero when there is none. -/
def extent : List Number → Number × Number
  | [] => (.ofInt 0, .ofInt 0)
  | first :: rest => (least first rest, greatest first rest)

/-- What is counted in a timeline. -/
structure Summary where
  title : Datum
  tempo : Datum
  totalTicks : Datum
  noteCount : Nat
  tracks : List (Datum × Nat)
  pitchRange : Number × Number
  velocityRange : Number × Number

/-- The summary of a timeline. -/
def summary (t : Timeline) : Except Fault Summary := do
  return {
    title := t.title
    tempo := t.tempo
    totalTicks := t.totalTicks
    noteCount := t.noteCount
    tracks := ← t.counts
    pitchRange := extent (t.notes.map (·.pitch))
    velocityRange := extent (t.notes.map (·.velocity)) }

/-- The notes without repetitions, the first of equal notes being kept. -/
def distinct (notes : List Note) : List Note :=
  (notes.foldl (fun seen n => if seen.any n.same then seen else n :: seen) []).reverse

/-- The notes that agree with none of the others. -/
def without (notes others : List Note) : List Note := notes.filter fun n => !others.any n.same

/-- What differs between two timelines. -/
structure Difference where
  added : Nat
  removed : Nat
  unchanged : Nat
  tempoChanged : Bool
  keyChanged : Bool
  lengthChanged : Bool

/-- What is different in another timeline. -/
def difference (t other : Timeline) : Difference :=
  let mine := distinct t.notes
  let others := distinct other.notes
  { added := (without others mine).length
    removed := (without mine others).length
    unchanged := (mine.filter fun n => others.any n.same).length
    tempoChanged := !t.tempo.same other.tempo
    keyChanged := !t.key.same other.key
    lengthChanged := !t.totalTicks.same other.totalTicks }

end MusicScore.Timeline
