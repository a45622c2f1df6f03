import MusicScore.Event.Given
import MusicScore.Phrase.Basic

/-!
# Phrases from data

An amount of beats may be given in any form that stands for one, and only an event can be placed. The
amount is looked at before the event, since an amount that the rule refuses is refused whatever was to
be placed; only the upper bound of an advance has to wait for the event.
-/
namespace MusicScore

namespace Event

/-- The event that a datum is. -/
def given : Datum → Except Fault Event
  | .event e => .ok e
  | value => .error (.unknownEvent value.kindName)

end Event

namespace Phrase

/-- Place a datum at the cursor. -/
def addGiven (p : Phrase) (event : Datum) : Except Fault (Resolved × Phrase) := do
  p.add (← Event.given event)

/-- Place a rest at the cursor. -/
def addRest (p : Phrase) (duration : Datum) : Except Fault (Resolved × Phrase) := do
  p.add (.rest (← Rest.ofDatum duration))

/-- Place a datum late. -/
def addLateGiven (p : Phrase) (event offset : Datum) : Except Fault (Resolved × Phrase) := do
  let offset ← offset.beats
  if 0 < offset then .error (.placement (.lateOffset offset))
  p.addLate (← Event.given event) offset

/-- Place a datum together with the event added last. -/
def addSimultaneousGiven (p : Phrase) (event : Datum) : Except Fault (Resolved × Phrase) := do
  p.addLateGiven event (.ofRat (p.lastStart - p.cursor))

/-- Place a datum with the cursor moved on by a part of its duration. -/
def addTrailingGiven (p : Phrase) (event advance : Datum) : Except Fault (Resolved × Phrase) := do
  let advance ← advance.beats
  p.addTrailing (← Event.given event) advance

/-- Place data one after the other, up to the first that is refused. -/
def extendData (p : Phrase) : List Datum → Phrase × Option Fault
  | [] => (p, none)
  | value :: rest =>
    match p.addGiven value with
    | .ok (_, next) => next.extendData rest
    | .error fault => (p, some fault)

/-- Place the items of a datum one after the other, up to the first that is refused. -/
def extendGiven (p : Phrase) (events : Datum) : Phrase × Option Fault :=
  match events.items with
  | .ok items => p.extendData items
  | .error fault => (p, some fault)

/-- The phrase of the items of a datum, one after the other. -/
def ofData (name : Datum) (events : Datum) : Except Fault Phrase :=
  match (empty name).extendGiven events with
  | (p, none) => .ok p
  | (_, some fault) => .error fault

/-- What can be placed on a phrase, and how. -/
inductive Addition where
  | event (value : Datum)
  | rest (duration : Datum)
  | late (value offset : Datum)
  | simultaneous (value : Datum)
  | trailing (value advance : Datum)
  | all (values : Datum)

/-- Place one datum: the phrase after it and what was placed, or the phrase as it was and the fault. -/
def attempt (p : Phrase) (placed : Except Fault (Resolved × Phrase)) :
    Phrase × Except Fault (Option Resolved) :=
  match placed with
  | .ok (r, next) => (next, .ok (some r))
  | .error fault => (p, .error fault)

/-- Place what is asked for: the phrase after it, and the event that was placed alone. Of several data
those before the first that is refused stay placed. -/
def grow (p : Phrase) : Addition → Phrase × Except Fault (Option Resolved)
  | .event value => p.attempt (p.addGiven value)
  | .rest duration => p.attempt (p.addRest duration)
  | .late value offset => p.attempt (p.addLateGiven value offset)
  | .simultaneous value => p.attempt (p.addSimultaneousGiven value)
  | .trailing value advance => p.attempt (p.addTrailingGiven value advance)
  | .all values =>
    match p.extendGiven values with
    | (next, none) => (next, .ok none)
    | (next, some fault) => (next, .error fault)

end Phrase

/-! ## Claims about events -/

/-- What is said to be an event with its times and its place in the order; all of it is data, and nothing is checked before
it is used. -/
structure Claim where
  start : Datum
  finish : Datum
  event : Datum
  order : Datum

namespace Claim

/-- What is known of an event with its times. -/
def ofResolved (r : Resolved) : Claim :=
  ⟨.ofRat r.start, .ofRat r.finish, .event r.event, .ofInt r.order⟩

/-- The same some beats later, at another place in the order where one is given. -/
def shifted (c : Claim) (offset order : Datum) : Except Fault Claim := do
  let start ← c.start.plus offset
  let finish ← c.finish.plus offset
  let order := match order with
    | .nothing => c.order
    | other => other
  return { c with start := start, finish := finish, order := order }

end Claim

end MusicScore
