import MusicScore.Phrase.Given
import MusicScore.Proofs.Outcome

/-!
# How a phrase grows

Whatever is asked of a phrase, it changes by placements only: an entry is put at the end, at a start and with
a cursor that one of the three rules gives. A placement that is not refused starts at beat zero or later,
and not before the event that was added last. An invariant of phrases is therefore shown once for a
placement, and holds of every phrase that can be made.
-/
namespace MusicScore.Phrase

/-- The start and the new cursor that the rule of an entry gives. The amount of a late or a trailing entry
has to be within its bounds. -/
inductive Rule (p : Phrase) : Entry → (start cursor : Rat) → Prop where
  | sequential (event : Event) : Rule p ⟨event, .sequential⟩ p.cursor (p.cursor + event.beats)
  | late (event : Event) (offset : Rat) (backwards : offset ≤ 0) :
      Rule p ⟨event, .late offset⟩ (p.cursor + offset)
        (later (later p.cursor p.length) (p.cursor + offset + event.beats))
  | trailing (event : Event) (advance : Rat) (forwards : 0 < advance) (within : advance ≤ event.beats) :
      Rule p ⟨event, .trailing advance⟩ p.cursor (p.cursor + advance)

/-- One placement that is not refused leads from a phrase to the next. -/
inductive Grows (p : Phrase) : Phrase → Prop where
  | placed {entry : Entry} {start cursor : Rat} (rule : Rule p entry start cursor) (inPhrase : 0 ≤ start)
      (inOrder : p.resolved = [] ∨ p.lastStart ≤ start) : Grows p (p.push entry start cursor)

/-- A placement is done exactly at a start that is neither before the phrase nor before the last event. -/
theorem place_eq_ok {p next : Phrase} {entry : Entry} {start cursor : Rat} {r : Resolved} :
    p.place entry start cursor = .ok (r, next) ↔
      0 ≤ start ∧ (p.resolved = [] ∨ p.lastStart ≤ start) ∧
        r = p.resolve entry start ∧ next = p.push entry start cursor := by
  have inOrder : (p.resolved = [] ∨ p.lastStart ≤ start) ↔
      ¬ (!p.resolved.isEmpty ∧ start < p.lastStart) := by
    simp only [Bool.not_eq_true', ← Bool.not_eq_true, List.isEmpty_iff]
    grind
  rw [inOrder]
  unfold place
  by_cases negative : start < 0
  · have outside : ¬ 0 ≤ start := by grind
    simp only [negative, if_true, outside, false_and, reduceCtorEq]
  · have inPhrase : 0 ≤ start := by grind
    rw [if_neg negative]
    split
    next early => simp [early]
    next fits =>
      simp only [inPhrase, fits, not_false_eq_true, true_and, Except.ok.injEq, Prod.mk.injEq]
      exact ⟨fun same => ⟨same.1.symm, same.2.symm⟩, fun same => ⟨same.1.symm, same.2.symm⟩⟩

/-- An entry is placed by its rule and not refused: what was placed, and the phrase after it. -/
def Placed (p : Phrase) (entry : Entry) (r : Resolved) (next : Phrase) : Prop :=
  ∃ start cursor, Rule p entry start cursor ∧ p.place entry start cursor = .ok (r, next)

/-- A placement by a rule is a step of growth. -/
theorem Placed.grows {p next : Phrase} {entry : Entry} {r : Resolved} (placed : p.Placed entry r next) :
    p.Grows next := by
  obtain ⟨start, cursor, rule, done⟩ := placed
  obtain ⟨inPhrase, inOrder, _, rfl⟩ := place_eq_ok.mp done
  exact .placed rule inPhrase inOrder

/-- What is placed comes last, and nothing before it is touched. -/
theorem Placed.resolved {p next : Phrase} {entry : Entry} {r : Resolved} (placed : p.Placed entry r next) :
    next.resolved = p.resolved ++ [r] ∧ r.event = entry.event := by
  obtain ⟨start, cursor, _, done⟩ := placed
  obtain ⟨_, _, rfl, rfl⟩ := place_eq_ok.mp done
  exact ⟨rfl, rfl⟩

/-- A sequential addition places its event. -/
theorem placed_of_add {p next : Phrase} {event : Event} {r : Resolved} (done : p.add event = .ok (r, next)) :
    p.Placed ⟨event, .sequential⟩ r next :=
  ⟨_, _, .sequential event, done⟩

/-- A late addition places its event. -/
theorem placed_of_addLate {p next : Phrase} {event : Event} {offset : Rat} {r : Resolved}
    (done : p.addLate event offset = .ok (r, next)) : p.Placed ⟨event, .late offset⟩ r next := by
  unfold addLate at done
  by_cases positive : 0 < offset
  · simp [positive] at done
  · rw [if_neg positive] at done
    exact ⟨_, _, .late event offset (by grind), done⟩

/-- A trailing addition places its event. -/
theorem placed_of_addTrailing {p next : Phrase} {event : Event} {advance : Rat} {r : Resolved}
    (done : p.addTrailing event advance = .ok (r, next)) : p.Placed ⟨event, .trailing advance⟩ r next := by
  unfold addTrailing at done
  by_cases within : 0 < advance ∧ advance ≤ event.beats
  · rw [if_pos within] at done
    exact ⟨_, _, .trailing event advance within.1 within.2, done⟩
  · simp [within] at done

/-- A datum that is added late is placed late. -/
theorem placed_of_addLateGiven {p next : Phrase} {value offset : Datum} {r : Resolved}
    (done : p.addLateGiven value offset = .ok (r, next)) :
    ∃ event amount, p.Placed ⟨event, .late amount⟩ r next := by
  obtain ⟨amount, _, guarded⟩ := Outcome.bind_eq_ok.mp done
  obtain ⟨_, checked⟩ := Outcome.guard_eq_ok.mp guarded
  obtain ⟨event, _, added⟩ := Outcome.bind_eq_ok.mp checked
  exact ⟨event, amount, placed_of_addLate added⟩

/-- What every placement keeps is kept by additions one after the other, up to the first refused one. -/
theorem extendData_keeps {P : Phrase → Prop} (kept : ∀ p next, P p → p.Grows next → P next) (p : Phrase)
    (values : List Datum) (before : P p) : P (p.extendData values).1 := by
  induction values generalizing p with
  | nil => exact before
  | cons value rest inductionHypothesis =>
    unfold extendData
    cases outcome : p.addGiven value with
    | error fault => exact before
    | ok placed =>
      obtain ⟨event, _, added⟩ := Outcome.bind_eq_ok.mp outcome
      exact inductionHypothesis placed.2 (kept p placed.2 before (placed_of_add added).grows)

namespace Addition

/-- The addition asks for a late placement. -/
def IsLate : Addition → Prop
  | late _ _ | simultaneous _ => True
  | _ => False

/-- The addition asks for a single placement. -/
def IsSingle : Addition → Prop
  | all _ => False
  | _ => True

end Addition

/-- An attempt is answered by what was placed. -/
theorem attempt_eq_ok {p next : Phrase} {placed : Except Fault (Resolved × Phrase)} {answer : Option Resolved}
    (done : p.attempt placed = (next, .ok answer)) : ∃ r, answer = some r ∧ placed = .ok (r, next) := by
  cases placed with
  | error fault => cases done
  | ok result =>
    cases done
    exact ⟨result.1, rfl, rfl⟩

/-- A refused attempt leaves the phrase as it was. -/
theorem attempt_eq_error {p next : Phrase} {placed : Except Fault (Resolved × Phrase)} {fault : Fault}
    (refused : p.attempt placed = (next, .error fault)) : next = p := by
  cases placed with
  | error other =>
    cases refused
    rfl
  | ok result => cases refused

/-- A single addition that is done is answered by what it placed, and a late one has placed it late. -/
theorem placed_of_grow {p next : Phrase} {addition : Addition} {answer : Option Resolved}
    (single : addition.IsSingle) (done : p.grow addition = (next, .ok answer)) :
    ∃ entry r, answer = some r ∧ p.Placed entry r next ∧
      (addition.IsLate → ∃ offset, entry.placement = .late offset) := by
  have lateGiven {value offset : Datum} {r : Resolved} (done : p.addLateGiven value offset = .ok (r, next)) :
      ∃ entry, p.Placed entry r next ∧ (addition.IsLate → ∃ offset, entry.placement = .late offset) := by
    obtain ⟨event, amount, placed⟩ := placed_of_addLateGiven done
    exact ⟨_, placed, fun _ => ⟨amount, rfl⟩⟩
  cases addition with
  | event value =>
    obtain ⟨r, rfl, added⟩ := attempt_eq_ok done
    obtain ⟨event, _, added⟩ := Outcome.bind_eq_ok.mp added
    exact ⟨_, r, rfl, placed_of_add added, False.elim⟩
  | rest duration =>
    obtain ⟨r, rfl, added⟩ := attempt_eq_ok done
    obtain ⟨rest, _, added⟩ := Outcome.bind_eq_ok.mp added
    exact ⟨_, r, rfl, placed_of_add added, False.elim⟩
  | late value offset =>
    obtain ⟨r, rfl, added⟩ := attempt_eq_ok done
    obtain ⟨entry, placed, late⟩ := lateGiven added
    exact ⟨entry, r, rfl, placed, late⟩
  | simultaneous value =>
    obtain ⟨r, rfl, added⟩ := attempt_eq_ok done
    obtain ⟨entry, placed, late⟩ := lateGiven added
    exact ⟨entry, r, rfl, placed, late⟩
  | trailing value advance =>
    obtain ⟨r, rfl, added⟩ := attempt_eq_ok done
    obtain ⟨amount, _, checked⟩ := Outcome.bind_eq_ok.mp added
    obtain ⟨event, _, added⟩ := Outcome.bind_eq_ok.mp checked
    exact ⟨_, r, rfl, placed_of_addTrailing added, False.elim⟩
  | all values => exact False.elim single

/-- A single addition that is refused leaves the phrase as it was. -/
theorem grow_refused {p next : Phrase} {addition : Addition} {fault : Fault} (single : addition.IsSingle)
    (refused : p.grow addition = (next, .error fault)) : next = p := by
  cases addition with
  | event _ | rest _ | late _ _ | simultaneous _ | trailing _ _ => exact attempt_eq_error refused
  | all values => exact False.elim single

/-- An addition of several data is answered by whether all of them were placed. -/
theorem grow_all (p : Phrase) (values : Datum) :
    p.grow (.all values) = ((p.extendGiven values).1, (p.extendGiven values).2.elim (.ok none) .error) := by
  cases outcome : p.extendGiven values with
  | mk next fault => cases fault <;> simp [grow, outcome]

/-- What every placement keeps is kept by every addition, whether it is refused or not. -/
theorem grow_keeps {P : Phrase → Prop} (kept : ∀ p next, P p → p.Grows next → P next) (p : Phrase)
    (addition : Addition) (before : P p) : P (p.grow addition).1 := by
  by_cases single : addition.IsSingle
  · cases outcome : p.grow addition with
    | mk next answer =>
      cases answer with
      | ok answer =>
        obtain ⟨entry, r, _, placed, _⟩ := placed_of_grow single outcome
        exact kept p next before placed.grows
      | error fault => exact grow_refused single outcome ▸ before
  · cases addition with
    | all values =>
      rw [grow_all]
      unfold extendGiven
      cases values.items with
      | error fault => exact before
      | ok items => exact extendData_keeps kept p items before
    | _ => exact absurd trivial single

/-- The phrases that come of additions to an empty one, refused additions included. -/
inductive Reachable : Phrase → Prop where
  | empty (name : Datum) : Reachable (empty name)
  | grow {p : Phrase} (before : Reachable p) (addition : Addition) : Reachable (p.grow addition).1

/-- What holds of empty phrases and is kept by every placement holds of every phrase that can be made. -/
theorem Reachable.invariant {P : Phrase → Prop} (initial : ∀ name, P (.empty name))
    (kept : ∀ p next, P p → p.Grows next → P next) {p : Phrase} (reachable : p.Reachable) : P p := by
  induction reachable with
  | empty name => exact initial name
  | grow _ addition inductionHypothesis => exact grow_keeps kept _ addition inductionHypothesis

/-- A phrase that is made of several data at once can be made by additions. -/
theorem reachable_ofData {name events : Datum} {p : Phrase} (made : ofData name events = .ok p) :
    p.Reachable := by
  have grown : Reachable ((empty name).grow (.all events)).1 := .grow (.empty name) (.all events)
  unfold ofData at made
  cases outcome : (empty name).extendGiven events with
  | mk next fault =>
    cases fault with
    | none =>
      rw [outcome] at made
      cases made
      simpa only [grow, outcome] using grown
    | some fault => simp [outcome] at made

/-- No event of a phrase starts before beat zero. -/
theorem Reachable.start_nonneg {p : Phrase} (reachable : p.Reachable) : ∀ r ∈ p.resolved, 0 ≤ r.start := by
  have initial (name : Datum) : ∀ r ∈ (Phrase.empty name).resolved, 0 ≤ r.start := by
    intro r member
    cases member
  have kept (p next : Phrase) (before : ∀ r ∈ p.resolved, 0 ≤ r.start) (grows : p.Grows next) :
      ∀ r ∈ next.resolved, 0 ≤ r.start := by
    obtain ⟨rule, inPhrase, inOrder⟩ := grows
    intro r member
    rcases List.mem_append.mp member with earlier | last
    · exact before r earlier
    · obtain rfl := List.mem_singleton.mp last
      exact inPhrase
  exact reachable.invariant initial kept

end MusicScore.Phrase
