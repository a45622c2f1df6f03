import MusicScore.Datum.Basic

/-!
# Phrases

A phrase is a line of events on its own clock, which starts at beat zero. It only grows: each event is
given a start and an end when it is added, and keeps them. The cursor is where the next event of the
line would start.

Three rules place an event. A *sequential* event starts at the cursor and moves it to its end. A *late*
event starts at the cursor or before it, and moves the cursor to the latest end of all. A *trailing*
event starts at the cursor, which moves on by less than the duration, so that the event still sounds
when the next one starts. No rule may place an event before the one that was added last, or before the
start of the phrase; a placement that is refused leaves the phrase as it was.
-/
namespace MusicScore

/-- The later of two beats. -/
def later (a b : Rat) : Rat := if a ≤ b then b else a

theorem le_later_left (a b : Rat) : a ≤ later a b := by
  unfold later
  split <;> grind

theorem le_later_right (a b : Rat) : b ≤ later a b := by
  unfold later
  split <;> grind

/-- The rule by which an event is placed, with the amount of beats that the rule takes. -/
inductive Placement where
  | sequential
  | late (offset : Rat)
  | trailing (advance : Rat)
  deriving DecidableEq

namespace Placement

/-- The name of the rule. -/
def name : Placement → String
  | sequential => "sequential"
  | late _ => "late"
  | trailing _ => "trailing"

/-- How far from the cursor the event starts; zero unless it is late. -/
def offset : Placement → Rat
  | late offset => offset
  | _ => 0

/-- How far the cursor moves, where this is not decided by the event. -/
def advance? : Placement → Option Rat
  | trailing advance => some advance
  | _ => none

end Placement

/-- An event as it was added. -/
structure Entry where
  event : Event
  placement : Placement

/-- An event with its start and its end. The order is its place among the events as they were added; it
decides between events at the same time. -/
structure Resolved where
  start : Rat
  finish : Rat
  event : Event
  order : Int

namespace Resolved

/-- The same event some beats later. -/
def shifted (r : Resolved) (offset : Rat) : Resolved :=
  { r with start := r.start + offset, finish := r.finish + offset }

/-- The same event with another place in the order. -/
def reordered (r : Resolved) (order : Int) : Resolved := { r with order := order }

end Resolved

/-- A line of events. The entries are the events as they were added, and the resolved events are the
same ones with their times, in the same order. The name may be any datum. -/
structure Phrase where
  name : Datum
  entries : List Entry
  resolved : List Resolved
  cursor : Rat
  lastStart : Rat
  length : Rat

namespace Phrase

/-- A phrase without events. -/
def empty (name : Datum) : Phrase := ⟨name, [], [], 0, 0, 0⟩

/-- The phrase has no events. -/
def isEmpty (p : Phrase) : Bool := p.entries.isEmpty

/-- The number of events. -/
def size (p : Phrase) : Nat := p.entries.length

/-- The description of a phrase. -/
def text (p : Phrase) : Shown :=
  "Phrase(" ++ p.name.detail ++ s!", events={p.size}, length=" ++ fractionText p.length ++ ")"

/-- The entry with its times when it starts at a given beat of the phrase. -/
def resolve (p : Phrase) (entry : Entry) (start : Rat) : Resolved :=
  ⟨start, start + entry.event.beats, entry.event, p.resolved.length⟩

/-- The phrase after an entry has been placed at a start, with the cursor moved to `cursor`. -/
def push (p : Phrase) (entry : Entry) (start cursor : Rat) : Phrase :=
  { p with
    entries := p.entries ++ [entry]
    resolved := p.resolved ++ [p.resolve entry start]
    cursor := cursor
    lastStart := start
    length := later p.length (start + entry.event.beats) }

/-- Place an entry at a start that is not before the phrase, nor before the event added last. -/
def place (p : Phrase) (entry : Entry) (start cursor : Rat) : Except Fault (Resolved × Phrase) :=
  if start < 0 then .error (.placement (.beforePhrase start))
  else if !p.resolved.isEmpty ∧ start < p.lastStart then
    .error (.placement (.beforePrevious start p.lastStart))
  else .ok (p.resolve entry start, p.push entry start cursor)

/-- Place an event at the cursor, which moves to its end. -/
def add (p : Phrase) (event : Event) : Except Fault (Resolved × Phrase) :=
  p.place ⟨event, .sequential⟩ p.cursor (p.cursor + event.beats)

/-- Place an event at the cursor or before it; the cursor moves to the latest end of all. -/
def addLate (p : Phrase) (event : Event) (offset : Rat) : Except Fault (Resolved × Phrase) :=
  if 0 < offset then .error (.placement (.lateOffset offset))
  else
    let start := p.cursor + offset
    p.place ⟨event, .late offset⟩ start (later (later p.cursor p.length) (start + event.beats))

/-- Place an event together with the one added last. -/
def addSimultaneous (p : Phrase) (event : Event) : Except Fault (Resolved × Phrase) :=
  p.addLate event (p.lastStart - p.cursor)

/-- Place an event at the cursor, which moves on by a part of its duration. -/
def addTrailing (p : Phrase) (event : Event) (advance : Rat) : Except Fault (Resolved × Phrase) :=
  if 0 < advance ∧ advance ≤ event.beats then
    p.place ⟨event, .trailing advance⟩ p.cursor (p.cursor + advance)
  else .error (.placement (.advance event.beats advance))

/-- Place events one after the other, up to the first that is refused. -/
def extend (p : Phrase) : List Event → Phrase × Option Fault
  | [] => (p, none)
  | event :: rest =>
    match p.add event with
    | .ok (_, next) => next.extend rest
    | .error fault => (p, some fault)

/-- Place an entry by its own rule. -/
def addEntry (p : Phrase) (entry : Entry) : Except Fault (Resolved × Phrase) :=
  match entry.placement with
  | .sequential => p.add entry.event
  | .late offset => p.addLate entry.event offset
  | .trailing advance => p.addTrailing entry.event advance

/-- The phrase that comes of entries placed one after the other by their own rules. -/
def replay (name : Datum) (entries : List Entry) : Except Fault Phrase :=
  entries.foldlM (fun p entry => do return (← p.addEntry entry).2) (empty name)

end Phrase

end MusicScore
