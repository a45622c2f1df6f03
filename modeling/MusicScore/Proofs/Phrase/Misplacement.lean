import Mathlib
import MusicScore.Proofs.Phrase.Schedule
import MusicScore.Proofs.Workspace.Phrases

/-!
# Which placements are refused

A placement is refused for two reasons that a phrase checks one after the other: the start is before the
phrase, or it is before the event that was added last. On a clock that is in order these are one: the last
start is not negative, and it is zero as long as there are no events. An event at the cursor or together with
the last one therefore always finds its place, and what is left to refuse is an offset that goes forward or
too far back, and an advance that stands still or outlasts the event. What is refused changes nothing; of
several data those before the first that is refused stay.
-/
namespace MusicScore.Phrase

/-- What was asked is refused for where it would be placed, and for no other fault. -/
def Misplaced {α : Type} (outcome : Except Fault α) : Prop := ∃ cause, outcome = .error (.placement cause)

/-- A placement is done, unless something holds for which it is refused as a placement. -/
structure PlacedUnless (outcome : Except Fault (Option Resolved)) (refused : Prop) : Prop where
  misplaced_iff : Misplaced outcome ↔ refused
  placed_iff : (∃ r, outcome = .ok (some r)) ↔ ¬ refused

/-- The addition takes no amount of beats that could misplace an event. -/
def Addition.IsSafe : Addition → Prop
  | .late _ _ | .trailing _ _ => False
  | _ => True

/-- Which additions a phrase refuses, and what a refused one leaves of it. -/
structure Refuses (p : Phrase) : Prop where
  /-- As long as there are no events, no event may start before zero. -/
  unstarted : p.isEmpty → p.lastStart = 0
  /-- Without an offset and an advance nothing is misplaced, whatever was to be placed. -/
  safe : ∀ addition : Addition, addition.IsSafe → ¬ Misplaced (p.grow addition).2
  event : ∀ event, PlacedUnless (p.grow (.event (.event event))).2 False
  rest : ∀ value duration, Duration.given value = .ok duration → PlacedUnless (p.grow (.rest value)).2 False
  simultaneous : ∀ event, PlacedUnless (p.grow (.simultaneous (.event event))).2 False
  late : ∀ event value offset, value.beats = .ok offset →
    PlacedUnless (p.grow (.late (.event event) value)).2 (0 < offset ∨ p.cursor + offset < p.lastStart)
  trailing : ∀ event value advance, value.beats = .ok advance →
    PlacedUnless (p.grow (.trailing (.event event) value)).2 (advance ≤ 0 ∨ event.beats < advance)
  /-- A single addition that is refused changes nothing. -/
  single : ∀ addition : Addition, addition.IsSingle → ∀ fault, (p.grow addition).2 = .error fault →
    (p.grow addition).1 = p
  /-- Several data are refused altogether if they cannot be gone through. Otherwise the first one that is no
  event is refused, and just the events before it are placed, one after the other. -/
  several : ∀ values fault, (p.grow (.all values)).2 = .error fault →
    values.items = .error fault ∧ (p.grow (.all values)).1 = p ∨
      ∃ events value rest, values.items = .ok (events.map Datum.event ++ value :: rest) ∧
        Event.given value = .error fault ∧ p.extend events = ((p.grow (.all values)).1, none) ∧
          (p.grow (.all values)).1.entries = p.entries ++ events.map fun event => ⟨event, .sequential⟩

variable {p next : Phrase} {entry : Entry} {start cursor : Rat}

/-! ## Faults of other kinds -/

section

variable {α β : Type}

/-- What is done is not misplaced. -/
@[simp]
theorem not_misplaced_ok (a : α) : ¬ Misplaced (.ok a : Except Fault α) := by
  rintro ⟨_, never⟩
  cases never

/-- The cause decides whether a fault is one of placement. -/
theorem misplaced_error {fault : Fault} :
    Misplaced (.error fault : Except Fault α) ↔ ∃ cause, fault = .placement cause := by
  simp [Misplaced]

/-- After a step that is never misplaced, the next one decides. -/
theorem misplaced_bind {step : Except Fault α} {rest : α → Except Fault β} (proper : ¬ Misplaced step) :
    Misplaced (step >>= rest) ↔ ∃ a, step = .ok a ∧ Misplaced (rest a) := by
  cases step with
  | ok a => simp [bind, Except.bind]
  | error fault =>
    have other : ¬ Misplaced (.error fault : Except Fault β) := fun misplaced =>
      proper (misplaced_error.mpr (misplaced_error.mp misplaced))
    simpa [bind, Except.bind] using other

end

/-- A datum that stands for no amount of beats is refused as such. -/
theorem beats_not_misplaced (value : Datum) : ¬ Misplaced value.beats := by
  rintro ⟨cause, refused⟩
  unfold Datum.beats at refused
  split at refused
  case h_4 => split at refused <;> cases refused
  case h_5 => split at refused <;> cases refused
  all_goals cases refused

/-- A datum that stands for no duration is refused as such. -/
theorem given_not_misplaced (value : Datum) : ¬ Misplaced (Duration.given value) := by
  have positive (beats : Rat) (shown : Shown) : ¬ Misplaced (Duration.ofBeats beats shown) := by
    unfold Duration.ofBeats
    split <;> simp [misplaced_error]
  unfold Duration.given
  split
  · simp
  · unfold Duration.ofDatum
    rw [misplaced_bind (beats_not_misplaced value)]
    rintro ⟨beats, _, misplaced⟩
    exact positive beats _ misplaced

/-- A datum that stands for no rest is refused as such. -/
theorem rest_not_misplaced (value : Datum) : ¬ Misplaced (Rest.ofDatum value) := by
  unfold Rest.ofDatum
  rw [misplaced_bind (given_not_misplaced value)]
  rintro ⟨duration, _, misplaced⟩
  exact not_misplaced_ok _ misplaced

/-- A datum that is no event is refused as such. -/
theorem event_not_misplaced (value : Datum) : ¬ Misplaced (Event.given value) := by
  unfold Event.given
  split <;> simp [misplaced_error]

/-- A datum without items is refused as such. -/
theorem items_not_misplaced (values : Datum) : ¬ Misplaced values.items := by
  unfold Datum.items
  split <;> simp [misplaced_error]

/-! ## One placement -/

/-- A phrase without events has its last start at zero. -/
theorem Scheduled.lastStart_of_empty (scheduled : p.Scheduled) (empty : p.resolved = []) : p.lastStart = 0 := by
  have length : p.length = 0 := scheduled.latest.absent (by rw [empty, List.map_nil])
  have upper := scheduled.lastStart_le.trans scheduled.cursor_le
  exact le_antisymm (length ▸ upper) scheduled.lastStart_nonneg

/-- At the last start or after it an event finds its place. -/
theorem Scheduled.place_eq_ok (scheduled : p.Scheduled) (timely : p.lastStart ≤ start) :
    p.place entry start cursor = .ok (p.resolve entry start, p.push entry start cursor) :=
  Phrase.place_eq_ok.mpr ⟨scheduled.lastStart_nonneg.trans timely, .inr timely, rfl, rfl⟩

/-- Before the last start an event is misplaced: either of the two checks refuses it. In a phrase without
events, where the second one is not made, the first refuses all that the second would. -/
theorem Scheduled.misplaced_place (scheduled : p.Scheduled) (early : start < p.lastStart) :
    Misplaced (p.place entry start cursor) := by
  unfold place
  by_cases negative : start < 0
  · exact ⟨_, if_pos negative⟩
  · have started : p.resolved ≠ [] := by
      intro empty
      exact negative (scheduled.lastStart_of_empty empty ▸ early)
    rw [if_neg negative, if_pos ⟨by simpa using started, early⟩]
    exact ⟨_, rfl⟩

/-- Nothing refuses what is done. -/
theorem PlacedUnless.of_done {outcome : Except Fault (Option Resolved)} {refused : Prop}
    (done : ∃ r, outcome = .ok (some r)) (allowed : ¬ refused) : PlacedUnless outcome refused := by
  obtain ⟨r, rfl⟩ := done
  exact ⟨by simp [allowed], by simp [allowed]⟩

/-- What is misplaced is not done. -/
theorem PlacedUnless.of_misplaced {outcome : Except Fault (Option Resolved)} {refused : Prop}
    (misplaced : Misplaced outcome) (holds : refused) : PlacedUnless outcome refused := by
  obtain ⟨cause, rfl⟩ := misplaced
  exact ⟨by simp [holds, Misplaced], by simp [holds]⟩

/-- An attempt is misplaced when the placement is. -/
theorem misplaced_attempt {placed : Except Fault (Resolved × Phrase)} :
    Misplaced (p.attempt placed).2 ↔ Misplaced placed := by
  cases placed <;> simp [attempt, misplaced_error]

/-- An attempt at a start finds its place there, unless the event added last starts later. -/
theorem Scheduled.attempt_place (scheduled : p.Scheduled) (entry : Entry) (start cursor : Rat) :
    PlacedUnless (p.attempt (p.place entry start cursor)).2 (start < p.lastStart) := by
  by_cases early : start < p.lastStart
  · exact .of_misplaced (misplaced_attempt.mpr (scheduled.misplaced_place early)) early
  · rw [scheduled.place_eq_ok (not_lt.mp early)]
    exact .of_done ⟨_, rfl⟩ early

/-! ## The three rules -/

/-- At the cursor every event finds its place. -/
theorem Scheduled.add_eq_ok (scheduled : p.Scheduled) (event : Event) :
    p.add event = .ok (p.resolve ⟨event, .sequential⟩ p.cursor,
      p.push ⟨event, .sequential⟩ p.cursor (p.cursor + event.beats)) :=
  scheduled.place_eq_ok scheduled.lastStart_le

/-- A late event finds its place, unless its offset goes forward or back beyond the last start. -/
theorem Scheduled.attempt_addLate (scheduled : p.Scheduled) (event : Event) (offset : Rat) :
    PlacedUnless (p.attempt (p.addLate event offset)).2 (0 < offset ∨ p.cursor + offset < p.lastStart) := by
  unfold addLate
  by_cases forward : 0 < offset
  · rw [if_pos forward]
    exact .of_misplaced ⟨_, rfl⟩ (.inl forward)
  · rw [if_neg forward]
    simpa only [forward, false_or] using scheduled.attempt_place ⟨event, .late offset⟩ (p.cursor + offset) _

/-- A trailing event finds its place, unless its advance stands still or outlasts the event: it starts at the
cursor, which is not before the last start. -/
theorem Scheduled.attempt_addTrailing (scheduled : p.Scheduled) (event : Event) (advance : Rat) :
    PlacedUnless (p.attempt (p.addTrailing event advance)).2 (advance ≤ 0 ∨ event.beats < advance) := by
  have outside : (advance ≤ 0 ∨ event.beats < advance) ↔ ¬ (0 < advance ∧ advance ≤ event.beats) := by
    rw [not_and_or, not_lt, not_le]
  unfold addTrailing
  by_cases within : 0 < advance ∧ advance ≤ event.beats
  · rw [if_pos within, scheduled.place_eq_ok scheduled.lastStart_le]
    exact .of_done ⟨_, rfl⟩ (outside.not.mpr (not_not.mpr within))
  · rw [if_neg within]
    exact .of_misplaced ⟨_, rfl⟩ (outside.mpr within)

/-! ## Data -/

/-- A datum is placed at the cursor if it is an event. -/
theorem Scheduled.addGiven_proper (scheduled : p.Scheduled) (value : Datum) : ¬ Misplaced (p.addGiven value) := by
  unfold addGiven
  rw [misplaced_bind (event_not_misplaced value)]
  rintro ⟨event, _, misplaced⟩
  exact absurd misplaced (scheduled.add_eq_ok event ▸ not_misplaced_ok _)

/-- An event that is given with an amount of beats is placed late by that amount. The offset is checked
before the event and once more with it, which makes no difference. -/
theorem addLateGiven_event (event : Event) {value : Datum} {offset : Rat} (amount : value.beats = .ok offset) :
    p.addLateGiven (.event event) value = p.addLate event offset := by
  unfold addLateGiven
  rw [amount]
  by_cases forward : 0 < offset
  · simp [addLate, forward, bind, Except.bind]
  · simp [forward, bind, Except.bind, Event.given]

/-- A rational number stands for itself. -/
theorem beats_ofRat (q : Rat) : (Datum.ofRat q).beats = .ok q := rfl

/-- Together with the last event, a datum finds its place if it is an event: the way from the cursor back to
the last start is never forward. -/
theorem Scheduled.addSimultaneousGiven_eq (scheduled : p.Scheduled) (value : Datum) :
    p.addSimultaneousGiven value =
      Event.given value >>= fun event => p.addLate event (p.lastStart - p.cursor) := by
  have backward : ¬ 0 < p.lastStart - p.cursor := not_lt.mpr (sub_nonpos.mpr scheduled.lastStart_le)
  simp [addSimultaneousGiven, addLateGiven, beats_ofRat, backward, bind, Except.bind]

/-- Together with the last event every event finds its place. -/
theorem Scheduled.attempt_simultaneous (scheduled : p.Scheduled) (event : Event) :
    PlacedUnless (p.attempt (p.addLate event (p.lastStart - p.cursor))).2 False := by
  have back : ¬ (0 < p.lastStart - p.cursor ∨ p.cursor + (p.lastStart - p.cursor) < p.lastStart) := by
    have behind := scheduled.lastStart_le
    grind
  simpa only [back] using scheduled.attempt_addLate event (p.lastStart - p.cursor)

/-- Data that were not all placed were events up to the first that is none, and just those were placed. -/
theorem Scheduled.extendData_refused (scheduled : p.Scheduled) {values : List Datum} {fault : Fault}
    (refused : p.extendData values = (next, some fault)) :
    ∃ events value rest, values = events.map Datum.event ++ value :: rest ∧
      Event.given value = .error fault ∧ p.extend events = (next, none) ∧
        next.entries = p.entries ++ events.map fun event => ⟨event, .sequential⟩ := by
  induction values generalizing p with
  | nil => cases refused
  | cons value rest inductionHypothesis =>
    unfold extendData addGiven at refused
    cases given : Event.given value with
    | error other =>
      rw [given] at refused
      cases refused
      exact ⟨[], value, rest, rfl, given, rfl, (List.append_nil _).symm⟩
    | ok event =>
      have added := scheduled.add_eq_ok event
      rw [given] at refused
      simp only [bind, Except.bind, added] at refused
      -- The clock stays in order with every event, so that the next one finds its place as well.
      have grown := scheduled.grows (placed_of_add added).grows
      obtain ⟨events, last, others, rfl, own, placed, kept⟩ := inductionHypothesis grown refused
      refine ⟨event :: events, last, others, ?_, own, ?_, ?_⟩
      · rw [eq_of_given given]
        rfl
      · simpa only [extend, added] using placed
      · rw [kept]
        simp [push]

/-- An addition of several data is refused for its items or for one of them, and never for a placement. -/
theorem Scheduled.several_refused (scheduled : p.Scheduled) {values : Datum} {fault : Fault}
    (refused : (p.grow (.all values)).2 = .error fault) :
    values.items = .error fault ∧ (p.grow (.all values)).1 = p ∨
      ∃ events value rest, values.items = .ok (events.map Datum.event ++ value :: rest) ∧
        Event.given value = .error fault ∧ p.extend events = ((p.grow (.all values)).1, none) ∧
          (p.grow (.all values)).1.entries = p.entries ++ events.map fun event => ⟨event, .sequential⟩ := by
  rw [grow_all] at refused ⊢
  unfold extendGiven at refused ⊢
  cases parts : values.items with
  | error other =>
    rw [parts] at refused
    cases refused
    exact .inl ⟨rfl, rfl⟩
  | ok items =>
    rw [parts] at refused
    cases outcome : p.extendData items with
    | mk next answer =>
      cases answer with
      | none => simp [outcome] at refused
      | some other =>
        simp only [outcome, Option.elim] at refused ⊢
        cases refused
        obtain ⟨events, value, rest, split, given, placed, kept⟩ := scheduled.extendData_refused outcome
        exact .inr ⟨events, value, rest, congrArg Except.ok split, given, placed, kept⟩

/-! ## Additions -/

/-- Without an offset and an advance nothing is misplaced. -/
theorem Scheduled.safe (scheduled : p.Scheduled) {addition : Addition} (safe : addition.IsSafe) :
    ¬ Misplaced (p.grow addition).2 := by
  cases addition with
  | event value => exact misplaced_attempt.not.mpr (scheduled.addGiven_proper value)
  | rest value =>
    refine misplaced_attempt.not.mpr ?_
    unfold addRest
    rw [misplaced_bind (rest_not_misplaced value)]
    rintro ⟨silence, _, misplaced⟩
    exact absurd misplaced (scheduled.add_eq_ok (.rest silence) ▸ not_misplaced_ok _)
  | simultaneous value =>
    refine misplaced_attempt.not.mpr ?_
    rw [scheduled.addSimultaneousGiven_eq, misplaced_bind (event_not_misplaced value)]
    rintro ⟨event, _, misplaced⟩
    exact (scheduled.attempt_simultaneous event).misplaced_iff.mp (misplaced_attempt.mpr misplaced)
  | all values =>
    rintro ⟨cause, refused⟩
    rcases scheduled.several_refused refused with ⟨unread, _⟩ | ⟨_, value, _, _, given, _⟩
    · exact items_not_misplaced values ⟨cause, unread⟩
    · exact event_not_misplaced value ⟨cause, given⟩
  | late value offset => exact absurd safe id
  | trailing value advance => exact absurd safe id

/-- On a clock that is in order, just those additions are refused that the rules exclude. -/
theorem Scheduled.refuses (scheduled : p.Scheduled) : p.Refuses where
  unstarted := by
    intro unstarted
    have none : p.entries = [] := List.isEmpty_iff.mp unstarted
    have counted := scheduled.length_eq
    rw [none] at counted
    exact scheduled.lastStart_of_empty (List.eq_nil_of_length_eq_zero counted)
  safe := fun _ safe => scheduled.safe safe
  event := by
    intro event
    have placed : p.addGiven (.event event) = p.add event := rfl
    refine .of_done ?_ id
    rw [grow, placed, scheduled.add_eq_ok]
    exact ⟨_, rfl⟩
  rest := by
    intro value duration given
    have placed : p.addRest value = p.add (.rest ⟨duration⟩) := by
      simp [addRest, Rest.ofDatum, given, bind, Except.bind, pure, Except.pure]
    refine .of_done ?_ id
    rw [grow, placed, scheduled.add_eq_ok]
    exact ⟨_, rfl⟩
  simultaneous := by
    intro event
    rw [grow, scheduled.addSimultaneousGiven_eq]
    exact scheduled.attempt_simultaneous event
  late := by
    intro event value offset amount
    rw [grow, addLateGiven_event event amount]
    exact scheduled.attempt_addLate event offset
  trailing := by
    intro event value advance amount
    have placed : p.addTrailingGiven (.event event) value = p.addTrailing event advance := by
      rw [addTrailingGiven, amount]
      rfl
    rw [grow, placed]
    exact scheduled.attempt_addTrailing event advance
  single := fun _ single _ refused => grow_refused single (Prod.ext rfl refused)
  several := fun _ _ refused => scheduled.several_refused refused

end MusicScore.Phrase

namespace MusicScore.Workspace

variable {w : Workspace}

/-- A phrase that takes its own place changes nothing. -/
theorem setPhrase_phrase (w : Workspace) (id : PhraseId) : w.setPhrase id (w.phrase id) = w := by
  have same : w.phrases.set id.number (w.phrase id) = w.phrases := by
    by_cases kept : id.number < w.phrases.length
    · simp [phrase, kept]
    · exact List.set_eq_of_length_le (not_lt.mp kept)
  simp [setPhrase, same]

/-- Every phrase that can be made refuses just those additions that the rules exclude, and a command for a
single event that is refused leaves the whole workspace as it was. -/
theorem Reachable.phrases_refuse (reachable : w.Reachable) (id : PhraseId) :
    (w.phrase id).Refuses ∧ ∀ addition fault, addition.IsSingle →
      (w.run (.grow id addition)).2 = .error fault → (w.run (.grow id addition)).1 = w := by
  have refuses : (w.phrase id).Refuses := (phrase_reachable reachable.invariant.1 id).scheduled.refuses
  refine ⟨refuses, ?_⟩
  intro addition fault single refused
  rw [run_grow] at refused ⊢
  cases outcome : ((w.phrase id).grow addition).2 with
  | ok answer =>
    rw [outcome] at refused
    cases refused
  | error other =>
    rw [refuses.single addition single other outcome]
    exact setPhrase_phrase w id

/-- The cursor is at four and the last start at one: an event may be three beats late and not four. -/
theorem ringing_refuses :
    let late (amount : Int) :=
      ((ringing.phrase ⟨1⟩).grow (.late (middleC TimeSignature.common.beatUnit) (.ofInt amount))).2
    Phrase.Misplaced (late (-4)) ∧ ∃ r, late (-3) = .ok (some r) := by
  intro late
  have reachable : ringing.Reachable := reachable_iff.mpr ⟨_, rfl⟩
  obtain ⟨cursor, lastStart⟩ : (ringing.phrase ⟨1⟩).cursor = 4 ∧ (ringing.phrase ⟨1⟩).lastStart = 1 :=
    ⟨by cbv, by cbv⟩
  have decided (amount : Int) : Phrase.PlacedUnless (late amount) (0 < (amount : Rat) ∨ 4 + (amount : Rat) < 1) := by
    rw [← cursor, ← lastStart]
    exact (reachable.phrases_refuse ⟨1⟩).1.late _ (.ofInt amount) amount rfl
  exact ⟨(decided (-4)).misplaced_iff.mpr (by norm_num), (decided (-3)).placed_iff.mpr (by norm_num)⟩

end MusicScore.Workspace
