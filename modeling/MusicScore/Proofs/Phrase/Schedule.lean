import MusicScore.Proofs.Latest
import MusicScore.Proofs.Phrase.Growth

/-!
# The clock of a phrase

A phrase keeps three beats: the start of the event added last, the cursor and the length. They are in this
order, and this is what every rule of placement relies on: a late event may not start before the first of
them and moves the cursor up to the third, and a trailing event leaves the cursor short of its own end. So
starts never go back, the length is the latest end of all events, and the cursor is at the length after every
late placement. All of this holds of every phrase that can be made, also where placements were refused.
-/
namespace MusicScore.Phrase

/-- The clock of a phrase goes forward, and the phrase records what was placed on it. -/
structure Scheduled (p : Phrase) : Prop where
  lastStart_nonneg : 0 ≤ p.lastStart
  lastStart_le : p.lastStart ≤ p.cursor
  cursor_le : p.cursor ≤ p.length
  /-- The length is the latest end of the events. -/
  latest : IsLatest (p.resolved.map (·.finish)) p.length
  start_nonneg : ∀ r ∈ p.resolved, 0 ≤ r.start
  start_le : ∀ r ∈ p.resolved, r.start ≤ p.lastStart
  /-- Events start in the order in which they were placed. -/
  ascending : (p.resolved.map (·.start)).Pairwise (· ≤ ·)
  finish_eq : ∀ r ∈ p.resolved, r.finish = r.start + r.event.beats
  /-- The events are those of the entries, each with its place as its order. -/
  numbered : p.resolved.map (fun r => (r.order, r.event)) =
    p.entries.mapIdx fun index entry => ((index : Int), entry.event)

variable {p next : Phrase} {entry : Entry} {start cursor : Rat} {r : Resolved}

/-- Every event that is resolved has an entry. -/
theorem Scheduled.length_eq (scheduled : p.Scheduled) : p.resolved.length = p.entries.length := by
  simpa using congrArg List.length scheduled.numbered

/-- No phrase has a negative length. -/
theorem Scheduled.length_nonneg (scheduled : p.Scheduled) : 0 ≤ p.length :=
  le_trans (le_trans scheduled.lastStart_nonneg scheduled.lastStart_le) scheduled.cursor_le

/-- An empty phrase is at beat zero with everything it keeps. -/
theorem scheduled_empty (name : Datum) : (empty name).Scheduled where
  lastStart_nonneg := le_refl 0
  lastStart_le := le_refl 0
  cursor_le := le_refl 0
  latest := .nil
  start_nonneg := by simp [empty]
  start_le := by simp [empty]
  ascending := by simp [empty]
  finish_eq := by simp [empty]
  numbered := by simp [empty]

/-! ## One placement -/

/-- No rule moves the cursor back. -/
theorem Rule.cursor_ge (rule : Rule p entry start cursor) : p.cursor ≤ cursor := by
  cases rule with
  | sequential event =>
    have lasting := event.beats_pos
    grind
  | late event offset backwards => exact le_trans (le_later_left _ _) (le_later_left _ _)
  | trailing event advance forwards within => grind

/-- Every rule starts an event at the new cursor or before it. -/
theorem Rule.start_le (rule : Rule p entry start cursor) : start ≤ cursor := by
  cases rule with
  | sequential event =>
    have lasting := event.beats_pos
    grind
  | late event offset backwards =>
    have before : p.cursor + offset ≤ p.cursor := by grind
    exact le_trans before (le_trans (le_later_left _ _) (le_later_left _ _))
  | trailing event advance forwards within => grind

/-- No rule moves the cursor beyond the new length, if it was not beyond the old one. -/
theorem Rule.cursor_le (rule : Rule p entry start cursor) (within : p.cursor ≤ p.length) :
    cursor ≤ later p.length (start + entry.event.beats) := by
  cases rule with
  | sequential event => exact le_later_right _ _
  | late event offset backwards => rw [later_of_le within]
  | trailing event advance forwards within =>
    have before : p.cursor + advance ≤ p.cursor + event.beats := by grind
    exact le_trans before (le_later_right _ _)

/-- A late event takes the cursor to the new length. Here the order of cursor and length decides: were the
cursor beyond the length, it would stay there. -/
theorem Rule.cursor_of_late (rule : Rule p entry start cursor) (within : p.cursor ≤ p.length) {offset : Rat}
    (late : entry.placement = .late offset) : cursor = later p.length (start + entry.event.beats) := by
  cases rule with
  | sequential event => cases late
  | late event offset backwards => rw [later_of_le within]
  | trailing event advance forwards within => cases late

/-- Every placement keeps the clock in order. -/
theorem Scheduled.grows (scheduled : p.Scheduled) (grows : p.Grows next) : next.Scheduled := by
  obtain ⟨rule, inPhrase, inOrder⟩ := grows
  rename_i entry start cursor
  have lasting : 0 < entry.event.beats := entry.event.beats_pos
  have started : ∀ r ∈ p.resolved, r.start ≤ start := by
    intro r member
    rcases inOrder with empty | after
    · exact absurd (empty ▸ member) (List.not_mem_nil)
    · exact le_trans (scheduled.start_le r member) after
  constructor
  case lastStart_nonneg => exact inPhrase
  case lastStart_le => exact rule.start_le
  case cursor_le => exact rule.cursor_le scheduled.cursor_le
  case latest =>
    have ends : 0 ≤ start + entry.event.beats := by grind
    simpa [push, resolve] using scheduled.latest.append (.single _) scheduled.length_nonneg ends
  case start_nonneg =>
    simpa [push, resolve, or_imp, forall_and] using ⟨scheduled.start_nonneg, inPhrase⟩
  case start_le => simpa [push, resolve, or_imp, forall_and] using started
  case ascending =>
    simpa [push, resolve, List.pairwise_append] using ⟨scheduled.ascending, started⟩
  case finish_eq => simpa [push, resolve, or_imp, forall_and] using scheduled.finish_eq
  case numbered =>
    simpa [push, resolve, List.mapIdx_append, scheduled.length_eq] using scheduled.numbered

/-- The clock of every phrase that can be made is in order. -/
theorem Reachable.scheduled (reachable : p.Reachable) : p.Scheduled :=
  reachable.invariant scheduled_empty fun _ _ before grows => before.grows grows

/-! ## What an addition does -/

/-- What an addition has done to a phrase, given the phrase after it and the answer. -/
structure Answers (p : Phrase) (addition : Addition) (next : Phrase) (answer : Except Fault (Option Resolved)) :
    Prop where
  /-- The cursor does not go back, whether the addition was refused or not. -/
  forward : p.cursor ≤ next.cursor
  /-- Nothing that was placed before is touched. -/
  kept : p.resolved <+: next.resolved
  /-- A single addition is answered by the event that it has put behind the others, and by no other. -/
  single : addition.IsSingle → ∀ placed, answer = .ok placed →
    ∃ r, placed = some r ∧ next.resolved = p.resolved ++ [r]
  /-- After a late addition the next event of the line starts after all that were placed. -/
  late : addition.IsLate → ∀ placed, answer = .ok placed → next.cursor = next.length
  /-- Of several data each was an event, and each has been put behind the others. -/
  several : ∀ values placed, addition = .all values → answer = .ok placed →
    ∃ events added, values.items = .ok (events.map Datum.event) ∧ added.map Resolved.event = events ∧
      next.resolved = p.resolved ++ added
  /-- A single addition that is refused changes nothing. -/
  refused : addition.IsSingle → ∀ fault, answer = .error fault → next = p

/-- No addition moves the cursor back. -/
theorem cursor_le_grow (p : Phrase) (addition : Addition) : p.cursor ≤ (p.grow addition).1.cursor := by
  refine grow_keeps (P := fun q => p.cursor ≤ q.cursor) ?_ p addition (le_refl _)
  intro q next before grows
  obtain ⟨rule, _, _⟩ := grows
  exact le_trans before rule.cursor_ge

/-- No addition makes a phrase shorter. -/
theorem length_le_grow (p : Phrase) (addition : Addition) : p.length ≤ (p.grow addition).1.length := by
  refine grow_keeps (P := fun q => p.length ≤ q.length) ?_ p addition (le_refl _)
  intro q next before grows
  obtain ⟨_, _, _⟩ := grows
  exact le_trans before (le_later_left _ _)

/-- No addition touches what was placed before. -/
theorem resolved_isPrefix_grow (p : Phrase) (addition : Addition) :
    p.resolved <+: (p.grow addition).1.resolved := by
  refine grow_keeps (P := fun q => p.resolved <+: q.resolved) ?_ p addition (List.prefix_refl _)
  intro q next before grows
  obtain ⟨_, _, _⟩ := grows
  exact before.trans (List.prefix_append _ _)

/-- A late placement takes the cursor to the length. -/
theorem Placed.cursor_eq_length (placed : p.Placed entry r next) (scheduled : p.Scheduled) {offset : Rat}
    (late : entry.placement = .late offset) : next.cursor = next.length := by
  obtain ⟨start, cursor, rule, done⟩ := placed
  obtain ⟨_, _, _, rfl⟩ := place_eq_ok.mp done
  exact rule.cursor_of_late scheduled.cursor_le late

/-- Only an event is given as one. -/
theorem eq_of_given {value : Datum} {event : Event} (given : Event.given value = .ok event) :
    value = .event event := by
  cases value with
  | event e =>
    cases given
    rfl
  | _ => cases given

/-- Data that were all placed were events, and each of them comes behind those before. -/
theorem resolved_extendData {values : List Datum} (p : Phrase) (done : (p.extendData values).2 = none) :
    ∃ events added, values = events.map Datum.event ∧ added.map Resolved.event = events ∧
      (p.extendData values).1.resolved = p.resolved ++ added := by
  induction values generalizing p with
  | nil => exact ⟨[], [], rfl, rfl, (List.append_nil _).symm⟩
  | cons value rest inductionHypothesis =>
    unfold extendData at done ⊢
    cases outcome : p.addGiven value with
    | error fault =>
      rw [outcome] at done
      cases done
    | ok result =>
      obtain ⟨r, next⟩ := result
      rw [outcome] at done
      obtain ⟨event, given, added⟩ := Outcome.bind_eq_ok.mp outcome
      obtain ⟨first, same⟩ := (placed_of_add added).resolved
      obtain ⟨events, more, rfl, rfl, later⟩ := inductionHypothesis next done
      refine ⟨event :: more.map Resolved.event, r :: more, ?_, ?_, ?_⟩
      · rw [eq_of_given given]
        rfl
      · rw [List.map_cons, same]
      · rw [later, first, List.append_assoc]
        rfl

/-- Every addition to a phrase whose clock is in order does what its answer says. -/
theorem Scheduled.answers (scheduled : p.Scheduled) (addition : Addition) :
    p.Answers addition (p.grow addition).1 (p.grow addition).2 := by
  constructor
  case forward => exact cursor_le_grow p addition
  case kept => exact resolved_isPrefix_grow p addition
  case single =>
    intro single answer done
    obtain ⟨entry, r, same, placed, _⟩ := placed_of_grow single (Prod.ext rfl done)
    exact ⟨r, same, placed.resolved.1⟩
  case late =>
    intro late answer done
    have single : addition.IsSingle := by cases addition <;> trivial
    obtain ⟨entry, r, _, placed, behind⟩ := placed_of_grow single (Prod.ext rfl done)
    obtain ⟨offset, rule⟩ := behind late
    exact placed.cursor_eq_length scheduled rule
  case several =>
    rintro values answer rfl done
    rw [grow_all] at done ⊢
    unfold extendGiven at done ⊢
    cases parts : values.items with
    | error fault =>
      rw [parts] at done
      cases done
    | ok items =>
      rw [parts] at done
      have finished : (p.extendData items).2 = none := by
        cases refusal : (p.extendData items).2 with
        | none => rfl
        | some fault =>
          simp only [refusal] at done
          cases done
      obtain ⟨events, added, rfl, own, behind⟩ := resolved_extendData p finished
      exact ⟨events, added, rfl, own, behind⟩
  case refused =>
    intro single fault refused
    exact grow_refused single (Prod.ext rfl refused)

end MusicScore.Phrase
