import MusicScore.Event.Given
import MusicScore.Instrument
import MusicScore.Phrase.Basic

/-!
# Parts

A part is what one instrument plays: phrases, each at a start on the clock of the part. Phrases may
overlap, and nothing is merged. The part keeps two beats of its own, the latest end of its phrases and
the end of the phrase that was added last; both are those of the moment when a phrase was added, and are
not looked up again when a phrase of the part grows later.

The timeline of a part lists the events of all its phrases on the clock of the part, ordered by start.
Events that start together keep the order in which they were written down: phrase by phrase, and event
by event in a phrase. Every event has its place in this order as its number. The instrument of a part may
be given by its program number, and the start of a phrase as an amount of beats.

What a part holds may be the phrases themselves or names of phrases that are kept elsewhere, so the type
leaves it open.
-/
namespace MusicScore

/-- Something that starts at a beat of a part. -/
structure Placed (α : Type) where
  content : α
  start : Rat

/-- A part that holds its phrases in the form `α`. -/
structure PartOf (α : Type) where
  instrument : Instrument
  name : Datum
  placed : List (Placed α)
  length : Rat
  previousEnd : Rat

/-- A part that holds the phrases themselves. -/
abbrev Part := PartOf Phrase

namespace PartOf

variable {α β : Type}

/-- A part without phrases. -/
def empty (instrument : Instrument) (name : Datum) : PartOf α := ⟨instrument, name, [], 0, 0⟩

/-- The part with its phrases in another form. -/
def map (f : α → β) (p : PartOf α) : PartOf β :=
  { p with placed := p.placed.map fun x => ⟨f x.content, x.start⟩ }

/-- Put a phrase of the given length at a start, which may not be negative. -/
def place (p : PartOf α) (content : α) (length start : Rat) : Except Fault (PartOf α) :=
  if start < 0 then .error (.placement (.phraseStart start))
  else
    .ok
      { p with
        placed := p.placed ++ [⟨content, start⟩]
        length := later p.length (start + length)
        previousEnd := start + length }

/-- The name of the part, or that of its instrument when it has none. -/
def label (p : PartOf α) : Datum :=
  if p.name.isTruthy then p.name else .text p.instrument.name

/-- The description of a part. -/
def text (p : PartOf α) : Shown :=
  "Part(" ++ p.label.detail ++ s!", phrases={p.placed.length}, length=" ++
    fractionText p.length ++ ")"

end PartOf

namespace Placed

/-- The beat at which a phrase of a part ends. -/
def finish (x : Placed Phrase) : Rat := x.start + x.content.length

/-- The events of a phrase on the clock of the part. -/
def events (x : Placed Phrase) : List Resolved := x.content.resolved.map (·.shifted x.start)

end Placed

namespace Resolved

/-- The event starts no later than another. -/
def startsBy (a b : Resolved) : Bool := a.start ≤ b.start

/-- Number events from zero on. -/
def number (events : List Resolved) : List Resolved :=
  events.mapIdx fun index r => r.reordered index

end Resolved

namespace Part

/-- Put a phrase at a beat of the part. -/
def addPhrase (p : Part) (phrase : Phrase) (start : Rat) : Except Fault Part :=
  p.place phrase phrase.length start

/-- Put a phrase where the one added last ends. -/
def appendToPrevious (p : Part) (phrase : Phrase) : Except Fault Part :=
  p.addPhrase phrase p.previousEnd

/-- Put a phrase at the length of the part. -/
def appendToEnd (p : Part) (phrase : Phrase) : Except Fault Part := p.addPhrase phrase p.length

/-- The events of all phrases on the clock of the part, numbered as they were written down. -/
def authored (p : Part) : List Resolved := Resolved.number (p.placed.flatMap Placed.events)

/-- The events of all phrases, ordered by start. -/
def timeline (p : Part) : List Resolved := p.authored.mergeSort Resolved.startsBy

/-- The latest end of the phrases as they are now. -/
def latestEnd (p : Part) : Rat := p.placed.foldl (fun latest x => later latest x.finish) 0

/-- The same part made anew: the length is that of the phrases as they are now. -/
def copy (p : Part) : Part := { p with length := p.latestEnd }

/-! ## Parts from data -/

/-- A part without phrases for a given instrument. -/
def ofDatum (instrument name : Datum) : Except Fault Part := do
  return .empty (← Instrument.ofDatum instrument) name

/-- Put a phrase at a given beat of the part. -/
def addPhraseGiven (p : Part) (phrase : Phrase) (start : Datum) : Except Fault Part := do
  p.addPhrase phrase (← start.beats)

end Part

end MusicScore
