import MusicScore.Datum.Basic
import MusicScore.Midi.Ticks
import MusicScore.Phrase.Basic

/-!
# Strokes

A stroke is the press or the release of one key at a tick. Every pitch of an event gives two of them, a
press at the tick of its start and a release at the tick of its end; a rest gives none. An event whose
end is not at a later tick than its start has no strokes and is refused.

Strokes are put in order by tick. At one tick releases come first, so that a key that is struck again is
free, and then the order of the events decides. The sort is stable, so that the pitches of a chord stay
in ascending order.
-/
namespace MusicScore.Midi

/-- What a stroke does with its key. -/
inductive Touch where
  | release
  | press
  deriving DecidableEq, Repr

namespace Touch

/-- The place of a touch among those at the same tick. -/
def rank : Touch → Nat
  | release => 0
  | press => 1

end Touch

/-- A press or a release of a key. The order is that of the event it belongs to. -/
structure Stroke where
  tick : Int
  touch : Touch
  pitch : Numeral
  velocity : Int
  order : Int

namespace Stroke

/-- The stroke comes no later than another in the order of a track. -/
def atMost (a b : Stroke) : Bool :=
  if a.tick ≠ b.tick then a.tick < b.tick
  else if a.touch ≠ b.touch then a.touch.rank < b.touch.rank
  else a.order ≤ b.order

/-- Strokes in the order of a track. -/
def sort (strokes : List Stroke) : List Stroke := strokes.mergeSort atMost

/-- The two strokes of a pitch. -/
def pair (on off : Int) (velocity : Nat) (order : Int) (pitch : Pitch) : List Stroke :=
  [⟨on, .press, pitch.numeral, velocity, order⟩, ⟨off, .release, pitch.numeral, 0, order⟩]

/-- The strokes of pitches that start and end together. -/
def ofPitches (r : Resolved) (dynamic : Dynamic) (ticksPerQuarter : Int) :
    Except Fault (List Stroke) :=
  let on := ticks r.start ticksPerQuarter
  let off := ticks r.finish ticksPerQuarter
  if off ≤ on then
    .error (.encoding (.belowOneTick r.event.text (fractionText r.start) (wholeText ticksPerQuarter)))
  else .ok (r.event.pitches.flatMap (pair on off dynamic.velocity r.order))

/-- The strokes of an event. -/
def ofResolved (ticksPerQuarter : Int) (r : Resolved) : Except Fault (List Stroke) :=
  match r.event.dynamic? with
  | some dynamic => ofPitches r dynamic ticksPerQuarter
  | none => .ok []

/-- The strokes of events, one event after the other. -/
def ofTimeline (ticksPerQuarter : Int) (timeline : List Resolved) : Except Fault (List Stroke) := do
  return (← timeline.mapM (ofResolved ticksPerQuarter)).flatten

end Stroke

end MusicScore.Midi
