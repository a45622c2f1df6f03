import MusicScore.Proofs.Phrase.Misplacement

/-!
# Events one after the other

Events that are placed sequentially start where the ones before them end: each start is the cursor and the exact sum of
the durations before it. This holds wherever the phrase has got to. A trailing event may still sound beyond the cursor,
which is why the new length is the later of the old one and the new cursor, and not the new cursor itself. Since every
event finds its place, nothing depends on how the events are divided into lots.
-/
namespace MusicScore.Phrase

/-- The beats that events last one after the other. -/
def span (events : List Event) : Rat := (events.map Event.beats).sum

@[simp] theorem span_nil : span [] = 0 := rfl

@[simp] theorem span_cons (event : Event) (rest : List Event) : span (event :: rest) = event.beats + span rest :=
  List.sum_cons

/-- No events last a negative number of beats. -/
theorem span_nonneg (events : List Event) : 0 ≤ span events := by
  refine List.sum_nonneg fun beats member => ?_
  obtain ⟨event, _, rfl⟩ := List.mem_map.mp member
  exact event.beats_pos.le

/-- The event with a given place among those that start one after the other at a beat; `order` counts the events of the
phrase before them. -/
def running (beat : Rat) (order : Nat) (events : List Event) (place : Nat) (event : Event) : Resolved :=
  let start := beat + span (events.take place)
  ⟨start, start + event.beats, event, (order + place : Nat)⟩

/-- A phrase to which events have been added one after the other. -/
structure RunsOn (p : Phrase) (events : List Event) (next : Phrase) : Prop where
  name : next.name = p.name
  /-- The events are recorded as sequential ones. -/
  entries : next.entries = p.entries ++ events.map fun event => ⟨event, .sequential⟩
  /-- Each event starts at the sum of the durations before it, counted from the cursor. -/
  resolved : next.resolved = p.resolved ++ events.mapIdx (running p.cursor p.resolved.length events)
  /-- The cursor is moved by the sum of all durations. -/
  cursor : next.cursor = p.cursor + span events
  /-- The phrase lasts as long as before, or up to the cursor. -/
  length : events ≠ [] → next.length = max p.length (p.cursor + span events)
  /-- The event added last ends at the cursor. -/
  lastStart : ∀ last, events.getLast? = some last → next.lastStart + last.beats = next.cursor
  /-- No events leave the phrase as it was. -/
  unchanged : events = [] → next = p

variable {p next : Phrase}

/-- Nothing is added by no events. -/
theorem runsOn_nil (p : Phrase) : p.RunsOn [] p where
  name := rfl
  entries := (List.append_nil _).symm
  resolved := (List.append_nil _).symm
  cursor := (add_zero _).symm
  length := fun some => absurd rfl some
  lastStart := by simp
  unchanged := fun _ => rfl

/-- One event is placed at the cursor, and the others run on from its end. -/
theorem runsOn_cons {event : Event} {rest : List Event}
    (others : (p.push ⟨event, .sequential⟩ p.cursor (p.cursor + event.beats)).RunsOn rest next) :
    p.RunsOn (event :: rest) next := by
  constructor
  case name => exact others.name
  case entries => simp [others.entries, push]
  case resolved =>
    have later : running (p.cursor + event.beats) (p.resolved.length + 1) rest =
        fun place => running p.cursor p.resolved.length (event :: rest) (place + 1) := by
      funext place other
      simp only [running, List.take_succ_cons, span_cons, add_assoc, Nat.add_comm 1 place]
    have first : p.resolve ⟨event, .sequential⟩ p.cursor =
        running p.cursor p.resolved.length (event :: rest) 0 event := by
      simp [resolve, running]
    rw [others.resolved, List.mapIdx_cons]
    simp only [push, List.length_append, List.length_singleton, List.append_assoc, List.singleton_append, later, first]
  case cursor =>
    rw [others.cursor, span_cons, ← add_assoc]
    rfl
  case length =>
    intro _
    by_cases none : rest = []
    · subst none
      rw [others.unchanged rfl, span_cons, span_nil, add_zero]
      exact later_eq_max _ _
    · rw [others.length none, span_cons, ← add_assoc]
      simp only [push, later_eq_max, max_assoc, max_eq_right (le_add_of_nonneg_right (span_nonneg rest))]
  case lastStart =>
    intro last final
    cases rest with
    | nil =>
      obtain rfl : event = last := by simpa using final
      rw [others.unchanged rfl]
      rfl
    | cons _ _ => exact others.lastStart last (by simpa using final)
  case unchanged =>
    intro none
    cases none

/-- Events are added one after the other to a clock that is in order, and none of them is refused. -/
theorem Scheduled.extend_runsOn (scheduled : p.Scheduled) (events : List Event) :
    ∃ next, p.extend events = (next, none) ∧ p.RunsOn events next := by
  induction events generalizing p with
  | nil => exact ⟨p, rfl, runsOn_nil p⟩
  | cons event rest inductionHypothesis =>
    have added := scheduled.add_eq_ok event
    -- The clock stays in order with every event, so that the next one finds its place as well.
    have grown := scheduled.grows (placed_of_add added).grows
    obtain ⟨next, placed, others⟩ := inductionHypothesis grown
    exact ⟨next, by simp only [extend, added, placed], runsOn_cons others⟩

/-- Events that are all placed are followed by further events. -/
theorem extend_append {first : List Event} (placed : p.extend first = (next, none)) (second : List Event) :
    p.extend (first ++ second) = next.extend second := by
  induction first generalizing p with
  | nil =>
    cases placed
    rfl
  | cons event rest inductionHypothesis =>
    simp only [extend, List.cons_append] at placed ⊢
    cases added : p.add event with
    | ok result =>
      simp only [added] at placed ⊢
      exact inductionHypothesis placed
    | error fault =>
      rw [added] at placed
      cases placed

/-! ## Lots of events -/

/-- Data that are events are placed as these. -/
theorem extendData_events (p : Phrase) (events : List Event) :
    p.extendData (events.map Datum.event) = p.extend events := by
  induction events generalizing p with
  | nil => rfl
  | cons event rest inductionHypothesis =>
    have given : p.addGiven (.event event) = p.add event := rfl
    simp only [List.map_cons, extendData, extend, given]
    cases p.add event with
    | ok result => exact inductionHypothesis result.2
    | error fault => rfl

/-- The items of a datum are these events. -/
def HasEvents (values : Datum) (events : List Event) : Prop := values.items = .ok (events.map Datum.event)

/-- The events of a datum are placed one after the other. -/
theorem extendGiven_eq (p : Phrase) {values : Datum} {events : List Event} (items : HasEvents values events) :
    p.extendGiven values = p.extend events := by
  rw [HasEvents] at items
  simp only [extendGiven, items, extendData_events]

/-- Events that are added in two lots lead to the same phrase as all of them together. -/
theorem Scheduled.extendGiven_append (scheduled : p.Scheduled) {first second both : Datum} {xs ys : List Event}
    (firstItems : HasEvents first xs) (secondItems : HasEvents second ys) (bothItems : HasEvents both (xs ++ ys)) :
    (p.extendGiven first).1.extendGiven second = p.extendGiven both := by
  obtain ⟨middle, placed, _⟩ := scheduled.extend_runsOn xs
  rw [p.extendGiven_eq firstItems, placed, middle.extendGiven_eq secondItems, p.extendGiven_eq bothItems,
    extend_append placed]

/-! ## Tuplets -/

/-- Events of one duration last as many times as long as there are events. -/
theorem span_of_duration {duration : Duration} {events : List Event}
    (equal : ∀ event ∈ events, event.duration = duration) : span events = events.length * duration.beats := by
  have beats : events.map Event.beats = List.replicate events.length duration.beats := by
    rw [List.eq_replicate_iff]
    refine ⟨List.length_map _, fun amount member => ?_⟩
    obtain ⟨event, inside, rfl⟩ := List.mem_map.mp member
    rw [Event.beats, equal event inside]
  rw [span, beats, List.sum_replicate, nsmul_eq_mul]

end MusicScore.Phrase

namespace MusicScore

/-- A positive whole number is not zero or below. -/
theorem Duration.isAtMostZero_of_pos {a : Number} {n : Int} (whole : a.toInt? = some n) (positive : 0 < n) :
    isAtMostZero (.number a) = .ok false := by
  have above : a.le (.ofInt 0) = false := Bool.eq_false_iff.mpr fun low =>
    positive.not_ge ((Number.le_zero_iff whole).mp low)
  rw [← above]
  rfl

/-- A note of a tuplet lasts its share of the space. -/
theorem Duration.tuplet_eq (d : Duration) {count space : Number} {n m : Int} (counted : count.toInt? = some n)
    (spaced : space.toInt? = some m) (notes : 0 < n) (within : 0 < m) :
    ∃ e, d.tuplet (.number count) (.number space) = .ok e ∧ e.beats = d.beats * (m / n) := by
  have share : 0 < d.beats * ((m : Rat) / n) := mul_pos d.positive (by positivity)
  refine ⟨⟨_, share⟩, ?_, rfl⟩
  have nonzero : (n : Rat) ≠ 0 := by positivity
  simp [tuplet, isAtMostZero_of_pos counted notes, isAtMostZero_of_pos spaced within, ratio,
    Number.toRat?_of_toInt? counted, Number.toRat?_of_toInt? spaced, nonzero, ofBeats, share, bind, Except.bind]

namespace Workspace

variable {w : Workspace} {id : PhraseId}

/-- Events that are added together to a phrase run on from its cursor, wherever it has got to. Further events run on
from there as if all had been added together, and the notes of a tuplet take just the space that they stand in. -/
theorem Reachable.phrases_run_on (reachable : w.Reachable) (kept : id.number < w.phrases.length) :
    (∀ (values : Datum) (events : List Event), Phrase.HasEvents values events →
      (w.run (.grow id (.all values))).2 = .ok .done ∧
        (w.phrase id).RunsOn events ((w.run (.grow id (.all values))).1.phrase id)) ∧
    (∀ (first second both : Datum) (xs ys : List Event), Phrase.HasEvents first xs → Phrase.HasEvents second ys →
      Phrase.HasEvents both (xs ++ ys) →
        ((w.run (.grow id (.all first))).1.run (.grow id (.all second))).1 = (w.run (.grow id (.all both))).1) ∧
    ∀ (d : Duration) (count space : Number) (n m : Int), count.toInt? = some n → space.toInt? = some m → 1 ≤ n → 1 ≤ m →
      ∃ e, d.tuplet (.number count) (.number space) = .ok e ∧
        ∀ (values : Datum) (events : List Event), Phrase.HasEvents values events → events.length = n →
          (∀ event ∈ events, event.duration = e) →
            ((w.run (.grow id (.all values))).1.phrase id).cursor = (w.phrase id).cursor + m * d.beats := by
  have scheduled : (w.phrase id).Scheduled := (phrase_reachable reachable.invariant.1 id).scheduled
  have runs (values : Datum) (events : List Event) (items : Phrase.HasEvents values events) :
      (w.run (.grow id (.all values))).2 = .ok .done ∧
        (w.phrase id).RunsOn events ((w.run (.grow id (.all values))).1.phrase id) := by
    obtain ⟨next, placed, runs⟩ := scheduled.extend_runsOn events
    rw [run_grow, Phrase.grow_all, Phrase.extendGiven_eq _ items, placed, phrase_setPhrase_self _ kept]
    exact ⟨rfl, runs⟩
  refine ⟨runs, ?_, ?_⟩
  · intro first second both xs ys firstItems secondItems bothItems
    have same := scheduled.extendGiven_append firstItems secondItems bothItems
    simp only [run_grow, Phrase.grow_all, phrase_setPhrase_self _ kept, same]
    simp only [setPhrase, List.set_set]
  · intro d count space n m counted spaced notes within
    obtain ⟨e, made, share⟩ := d.tuplet_eq counted spaced notes within
    refine ⟨e, made, fun values events items length equal => ?_⟩
    have nonzero : (n : Rat) ≠ 0 := by positivity
    have many : (events.length : Rat) = n := by exact_mod_cast length
    rw [(runs values events items).2.cursor, Phrase.span_of_duration equal, many, share]
    field_simp

/-- A phrase with a note that still sounds after the cursor. -/
def sustained : Workspace :=
  .after [.newPhrase (.text "Sustained"),
    .grow ⟨0⟩ (.trailing (middleC TimeSignature.common.barDuration) (.ofInt 1))]

/-- Three quarter notes in the space of two, while the note before them still sounds. -/
theorem sustained_runs_on :
    (sustained.phrase ⟨0⟩).cursor = 1 ∧ (sustained.phrase ⟨0⟩).length = 4 ∧
      ∃ e, TimeSignature.common.beatUnit.tuplet (.ofInt 3) (.ofInt 2) = .ok e ∧
        ((sustained.run (.grow ⟨0⟩ (.all (.ofList (List.replicate 3 (middleC e)))))).1.phrase ⟨0⟩).cursor = 3 := by
  have reachable : sustained.Reachable := reachable_iff.mpr ⟨_, rfl⟩
  have kept : (⟨0⟩ : PhraseId).number < sustained.phrases.length := by
    have one : sustained.phrases.length = 1 := by cbv
    exact one ▸ Nat.zero_lt_one
  have cursor : (sustained.phrase ⟨0⟩).cursor = 1 := by cbv
  have beat : TimeSignature.common.beatUnit.beats = 1 := by cbv
  obtain ⟨_, _, tuplets⟩ := reachable.phrases_run_on kept
  obtain ⟨e, made, spaced⟩ :=
    tuplets TimeSignature.common.beatUnit (.ofInt 3) (.ofInt 2) 3 2 rfl rfl (by decide) (by decide)
  have moved := spaced (.ofList (List.replicate 3 (middleC e)))
    (List.replicate 3 (.note ⟨⟨.plain 60, middleC_inRange⟩, e, .standard⟩)) rfl rfl (by simp [Event.duration])
  refine ⟨cursor, by cbv, e, made, ?_⟩
  rw [moved, cursor, beat]
  norm_num

end Workspace

end MusicScore
