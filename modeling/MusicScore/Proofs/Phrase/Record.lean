import MusicScore.Proofs.Workspace.Phrases

/-!
# Entries as a record

The entries of a phrase say by which rules its events were placed; its clock and the times of its events are not
among them. Nothing is lost by that. Placing the entries again on an empty phrase is never refused, and it gives
back the events with their times and the clock, also for an event that was placed together with the one before it
and is recorded as a late one. So phrases with equal entries are alike, however they were made, and whatever is
asked of them next, they give the same answers and stay alike.

Equal entries need not be the same: a pitch may have been given by a number or by a marking that stands for it. Two
phrases are therefore compared by what equality of data sees of them, and their names are left out.
-/
namespace MusicScore

/-! ## Entries -/

namespace Event

/-- Two events are equal as data. -/
def Same (a b : Event) : Prop := (Datum.event a).same (.event b) = true

theorem same_refl (e : Event) : e.Same e := by
  cases e <;> simp [Same, Datum.same]

/-- Equal events are equally long. -/
theorem Same.beats_eq {a b : Event} (same : a.Same b) : a.beats = b.beats := by
  unfold Same at same
  unfold beats
  cases a <;> cases b <;> simp_all [Datum.same, duration]

end Event

namespace Entry

/-- Two entries are equal: their events are, and they were placed by the same rule with the same amount. -/
def Same (e f : Entry) : Prop := e.event.Same f.event ∧ e.placement = f.placement

theorem same_refl (e : Entry) : e.Same e := ⟨e.event.same_refl, rfl⟩

/-- The addition that an entry records. -/
def addition (e : Entry) : Phrase.Addition :=
  match e.placement with
  | .sequential => .event (.event e.event)
  | .late offset => .late (.event e.event) (.ofRat offset)
  | .trailing advance => .trailing (.event e.event) (.ofRat advance)

end Entry

/-- Two events with their times are equal. -/
structure Resolved.Same (a b : Resolved) : Prop where
  start : a.start = b.start
  finish : a.finish = b.finish
  order : a.order = b.order
  event : a.event.Same b.event

namespace Phrase

variable {p q next : Phrase} {e f : Entry} {start cursor : Rat} {r : Resolved}

/-- The phrase under another name. -/
def renamed (p : Phrase) (name : Datum) : Phrase := { p with name := name }

/-- Additions one after the other: the phrase after all of them, and the answer to each. -/
def growAll (p : Phrase) : List Addition → Phrase × List (Except Fault (Option Resolved))
  | [] => (p, [])
  | addition :: rest =>
    let (next, answer) := p.grow addition
    let (last, answers) := next.growAll rest
    (last, answer :: answers)

theorem growAll_append (p : Phrase) (first second : List Addition) :
    p.growAll (first ++ second) =
      (((p.growAll first).1.growAll second).1, (p.growAll first).2 ++ ((p.growAll first).1.growAll second).2) := by
  induction first generalizing p with
  | nil => rfl
  | cons addition rest inductionHypothesis => simp [growAll, inductionHypothesis]

/-- Where its rule gives a start and a cursor, an entry is placed there. -/
theorem addEntry_of_rule (rule : Rule p e start cursor) : p.addEntry e = p.place e start cursor := by
  cases rule with
  | sequential event => rfl
  | late event offset backwards =>
    have within : ¬ 0 < offset := by grind
    simp [addEntry, addLate, within]
  | trailing event advance forwards within => simp [addEntry, addTrailing, forwards, within]

/-- An entry is placed exactly where its rule allows it. -/
theorem addEntry_eq_ok : p.addEntry e = .ok (r, next) ↔ p.Placed e r next := by
  constructor
  · intro done
    obtain ⟨event, placement⟩ := e
    cases placement with
    | sequential => exact placed_of_add done
    | late offset => exact placed_of_addLate done
    | trailing advance => exact placed_of_addTrailing done
  · rintro ⟨start, cursor, rule, done⟩
    rw [addEntry_of_rule rule, done]

/-- What an entry records is asked for again by its addition. -/
theorem grow_addition (p : Phrase) (e : Entry) : p.grow e.addition = p.attempt (p.addEntry e) := by
  obtain ⟨event, placement⟩ := e
  cases placement with
  | sequential => rfl
  | late offset =>
    -- the amount is looked at before the event and once more with it
    by_cases positive : 0 < offset <;>
      simp [Entry.addition, grow, addEntry, addLateGiven, addLate, Datum.beats, Datum.ofRat, Event.given, positive,
        bind, Except.bind]
  | trailing advance => rfl

/-! ## Replaying the entries -/

/-- No rule looks at the name. -/
theorem Rule.renamed (rule : Rule p e start cursor) (name : Datum) : Rule (p.renamed name) e start cursor := by
  cases rule with
  | sequential event => exact .sequential event
  | late event offset backwards => exact .late event offset backwards
  | trailing event advance forwards within => exact .trailing event advance forwards within

/-- A placement is the same under another name. -/
theorem Placed.renamed (placed : p.Placed e r next) (name : Datum) :
    (p.renamed name).Placed e r (next.renamed name) := by
  obtain ⟨start, cursor, rule, done⟩ := placed
  obtain ⟨inPhrase, inOrder, rfl, rfl⟩ := place_eq_ok.mp done
  exact ⟨start, cursor, rule.renamed name, place_eq_ok.mpr ⟨inPhrase, inOrder, rfl, rfl⟩⟩

/-- One more entry is placed on what comes of those before it. -/
theorem replay_append_single {name : Datum} {entries : List Entry} :
    replay name (entries ++ [e]) = .ok next ↔ ∃ p r, replay name entries = .ok p ∧ p.Placed e r next := by
  have last : replay name (entries ++ [e]) = replay name entries >>= fun p => do return (← p.addEntry e).2 := by
    simp [replay, List.foldlM_append]
  rw [last, Outcome.bind_eq_ok]
  refine exists_congr fun p => ?_
  constructor
  · rintro ⟨before, step⟩
    obtain ⟨⟨r, after⟩, done, same⟩ := Outcome.bind_eq_ok.mp step
    cases same
    exact ⟨r, before, addEntry_eq_ok.mp done⟩
  · rintro ⟨r, before, placed⟩
    exact ⟨before, Outcome.bind_eq_ok.mpr ⟨_, addEntry_eq_ok.mpr placed, rfl⟩⟩

/-- Placing the entries of a phrase by their rules on an empty one is not refused, and gives the phrase back. -/
theorem Reachable.replay_entries (reachable : p.Reachable) (name : Datum) :
    replay name p.entries = .ok (p.renamed name) := by
  refine reachable.invariant (P := fun p => replay name p.entries = .ok (p.renamed name)) (fun _ => rfl) ?_
  intro p next before grows
  obtain ⟨rule, inPhrase, inOrder⟩ := grows
  have placed : p.Placed _ _ _ := ⟨_, _, rule, place_eq_ok.mpr ⟨inPhrase, inOrder, rfl, rfl⟩⟩
  exact replay_append_single.mpr ⟨_, _, before, placed.renamed name⟩

/-- Where entries can be placed again, their additions are answered by the events that come of them. -/
theorem growAll_of_replay {name : Datum} {entries : List Entry} (done : replay name entries = .ok p) :
    (empty name).growAll (entries.map Entry.addition) = (p, p.resolved.map fun r => .ok (some r)) := by
  induction entries using List.reverseRecOn generalizing p with
  | nil =>
    cases done
    rfl
  | append_singleton entries e inductionHypothesis =>
    obtain ⟨before, r, earlier, placed⟩ := replay_append_single.mp done
    have last : before.grow e.addition = (p, .ok (some r)) := by
      rw [grow_addition, addEntry_eq_ok.mpr placed]
      rfl
    rw [List.map_append, growAll_append, inductionHypothesis earlier]
    simp [growAll, last, placed.resolved.1]

/-! ## Phrases with equal entries -/

/-- Two phrases have equal entries and events, and the same clock. -/
structure Alike (p q : Phrase) : Prop where
  entries : List.Forall₂ Entry.Same p.entries q.entries
  resolved : List.Forall₂ Resolved.Same p.resolved q.resolved
  cursor : p.cursor = q.cursor
  lastStart : p.lastStart = q.lastStart
  length : p.length = q.length

/-- Two placements are refused alike, or they place the same and leave phrases that are alike. -/
inductive Matches : Except Fault (Resolved × Phrase) → Except Fault (Resolved × Phrase) → Prop where
  | placed (r : Resolved) {p q : Phrase} (alike : Alike p q) : Matches (.ok (r, p)) (.ok (r, q))
  | refused (fault : Fault) : Matches (.error fault) (.error fault)

/-- Empty phrases are alike, whatever their names. -/
theorem alike_empty (name other : Datum) : Alike (empty name) (empty other) :=
  ⟨.nil, .nil, rfl, rfl, rfl⟩

/-- Equal entries at the same start keep phrases alike. -/
theorem Alike.push (alike : Alike p q) (same : e.Same f) (start cursor : Rat) :
    Alike (p.push e start cursor) (q.push f start cursor) := by
  have beats : e.event.beats = f.event.beats := same.1.beats_eq
  have count : p.resolved.length = q.resolved.length := alike.resolved.length_eq
  constructor
  case entries => exact List.rel_append alike.entries (.cons same .nil)
  case resolved =>
    refine List.rel_append alike.resolved (.cons ⟨rfl, ?_, ?_, same.1⟩ .nil)
    · simp [resolve, beats]
    · simp [resolve, count]
  case cursor => rfl
  case lastStart => rfl
  case length => simp [Phrase.push, beats, alike.length]

/-- The rule of an equal entry gives the same start and the same cursor. -/
theorem Alike.rule (alike : Alike p q) (same : e.Same f) (rule : Rule p e start cursor) : Rule q f start cursor := by
  obtain ⟨event, placement⟩ := f
  obtain ⟨events, placements⟩ := same
  have beats := events.beats_eq
  cases rule with
  | sequential first =>
    obtain rfl : placement = .sequential := placements.symm
    rw [alike.cursor, beats]
    exact .sequential event
  | late first offset backwards =>
    obtain rfl : placement = .late offset := placements.symm
    rw [alike.cursor, alike.length, beats]
    exact .late event offset backwards
  | trailing first advance forwards within =>
    obtain rfl : placement = .trailing advance := placements.symm
    rw [alike.cursor]
    exact .trailing event advance forwards (beats ▸ within)

/-- Placing equal entries by their rules keeps phrases alike. -/
theorem Alike.foldlM_addEntry {last lastToo : Phrase} {entries others : List Entry} (alike : Alike p q)
    (same : List.Forall₂ Entry.Same entries others)
    (done : entries.foldlM (fun p entry => do return (← p.addEntry entry).2) p = .ok last)
    (doneToo : others.foldlM (fun p entry => do return (← p.addEntry entry).2) q = .ok lastToo) :
    Alike last lastToo := by
  induction same generalizing p q with
  | nil =>
    cases done
    cases doneToo
    exact alike
  | cons first _ inductionHypothesis =>
    obtain ⟨next, step, rest⟩ := Outcome.bind_eq_ok.mp done
    obtain ⟨nextToo, stepToo, restToo⟩ := Outcome.bind_eq_ok.mp doneToo
    obtain ⟨⟨r, _⟩, added, same⟩ := Outcome.bind_eq_ok.mp step
    obtain ⟨⟨s, _⟩, addedToo, sameToo⟩ := Outcome.bind_eq_ok.mp stepToo
    cases same
    cases sameToo
    refine inductionHypothesis ?_ rest restToo
    obtain ⟨start, cursor, rule, placed⟩ := addEntry_eq_ok.mp added
    obtain ⟨_, _, _, rfl⟩ := place_eq_ok.mp placed
    rw [addEntry_of_rule (alike.rule first rule)] at addedToo
    obtain ⟨_, _, _, rfl⟩ := place_eq_ok.mp addedToo
    exact alike.push first start cursor

/-- Phrases with equal entries are alike, however they were made. -/
theorem Reachable.alike (reachable : p.Reachable) (reachableToo : q.Reachable)
    (same : List.Forall₂ Entry.Same p.entries q.entries) : Alike p q :=
  (alike_empty p.name q.name).foldlM_addEntry same (reachable.replay_entries p.name)
    (reachableToo.replay_entries q.name)

/-! ## Further additions to phrases that are alike -/

/-- An entry at a start is refused by both phrases or by neither. -/
theorem Alike.place (alike : Alike p q) (e : Entry) (start cursor : Rat) :
    Matches (p.place e start cursor) (q.place e start cursor) := by
  have none : p.resolved.isEmpty = q.resolved.isEmpty := by
    rw [Bool.eq_iff_iff, List.isEmpty_iff_length_eq_zero, List.isEmpty_iff_length_eq_zero, alike.resolved.length_eq]
  have resolved : p.resolve e start = q.resolve e start := by simp [resolve, alike.resolved.length_eq]
  unfold Phrase.place
  rw [none, alike.lastStart, resolved]
  split
  · exact .refused _
  · split
    · exact .refused _
    · exact .placed _ (alike.push e.same_refl start cursor)

theorem Alike.add (alike : Alike p q) (event : Event) : Matches (p.add event) (q.add event) := by
  unfold Phrase.add
  rw [alike.cursor]
  exact alike.place _ _ _

theorem Alike.addLate (alike : Alike p q) (event : Event) (offset : Rat) :
    Matches (p.addLate event offset) (q.addLate event offset) := by
  unfold Phrase.addLate
  rw [alike.cursor, alike.length]
  split
  · exact .refused _
  · exact alike.place _ _ _

theorem Alike.addTrailing (alike : Alike p q) (event : Event) (advance : Rat) :
    Matches (p.addTrailing event advance) (q.addTrailing event advance) := by
  unfold Phrase.addTrailing
  rw [alike.cursor]
  split
  · exact alike.place _ _ _
  · exact .refused _

/-- What is read of the data first is the same for both phrases. -/
theorem Matches.bind {α : Type} (x : Except Fault α) {f g : α → Except Fault (Resolved × Phrase)}
    (each : ∀ a, Matches (f a) (g a)) : Matches (x >>= f) (x >>= g) := by
  cases x with
  | error fault => exact .refused fault
  | ok a => exact each a

theorem Alike.addGiven (alike : Alike p q) (value : Datum) : Matches (p.addGiven value) (q.addGiven value) :=
  .bind _ alike.add

theorem Alike.addLateGiven (alike : Alike p q) (value offset : Datum) :
    Matches (p.addLateGiven value offset) (q.addLateGiven value offset) := by
  refine .bind _ fun amount => ?_
  dsimp only
  split
  · exact .refused _
  · exact .bind _ fun event => alike.addLate event amount

theorem Matches.attempt {x y : Except Fault (Resolved × Phrase)} (matched : Matches x y) (alike : Alike p q) :
    Alike (p.attempt x).1 (q.attempt y).1 ∧ (p.attempt x).2 = (q.attempt y).2 := by
  cases matched with
  | placed r next => exact ⟨next, rfl⟩
  | refused fault => exact ⟨alike, rfl⟩

theorem Alike.extendData (alike : Alike p q) (values : List Datum) :
    Alike (p.extendData values).1 (q.extendData values).1 ∧ (p.extendData values).2 = (q.extendData values).2 := by
  induction values generalizing p q with
  | nil => exact ⟨alike, rfl⟩
  | cons value rest inductionHypothesis =>
    unfold Phrase.extendData
    have matched := alike.addGiven value
    generalize p.addGiven value = x at matched ⊢
    generalize q.addGiven value = y at matched ⊢
    cases matched with
    | placed r next => exact inductionHypothesis next
    | refused fault => exact ⟨alike, rfl⟩

/-- Whatever is asked of phrases that are alike, they give the same answer and stay alike. -/
theorem Alike.grow (alike : Alike p q) (addition : Addition) :
    Alike (p.grow addition).1 (q.grow addition).1 ∧ (p.grow addition).2 = (q.grow addition).2 := by
  cases addition with
  | event value => exact (alike.addGiven value).attempt alike
  | rest duration =>
    have matched : Matches (p.addRest duration) (q.addRest duration) := .bind _ fun rest => alike.add (.rest rest)
    exact matched.attempt alike
  | late value offset => exact (alike.addLateGiven value offset).attempt alike
  | simultaneous value =>
    have matched : Matches (p.addSimultaneousGiven value) (q.addSimultaneousGiven value) := by
      unfold addSimultaneousGiven
      rw [alike.lastStart, alike.cursor]
      exact alike.addLateGiven value _
    exact matched.attempt alike
  | trailing value advance =>
    have matched : Matches (p.addTrailingGiven value advance) (q.addTrailingGiven value advance) :=
      .bind _ fun amount => .bind _ fun event => alike.addTrailing event amount
    exact matched.attempt alike
  | all values =>
    rw [grow_all, grow_all]
    unfold extendGiven
    cases values.items with
    | error fault => exact ⟨alike, rfl⟩
    | ok items =>
      obtain ⟨next, answers⟩ := alike.extendData items
      exact ⟨next, by simp only [answers]⟩

theorem Alike.growAll (alike : Alike p q) (additions : List Addition) :
    Alike (p.growAll additions).1 (q.growAll additions).1 ∧ (p.growAll additions).2 = (q.growAll additions).2 := by
  induction additions generalizing p q with
  | nil => exact ⟨alike, rfl⟩
  | cons addition rest inductionHypothesis =>
    obtain ⟨next, answer⟩ := alike.grow addition
    obtain ⟨last, answers⟩ := inductionHypothesis next
    exact ⟨last, congrArg₂ List.cons answer answers⟩

/-- The entries of a phrase are a complete record of it. -/
structure Recorded (p : Phrase) : Prop where
  /-- The entries can be placed again by their rules, which gives the phrase back. -/
  replayed : ∀ name, replay name p.entries = .ok (p.renamed name)
  /-- Asked for one after the other, each is answered by the event that the phrase has of it. -/
  answered : ∀ name, (empty name).growAll (p.entries.map Entry.addition) =
    (p.renamed name, p.resolved.map fun r => .ok (some r))
  /-- A phrase with equal entries gives the same answers to whatever is asked next, and stays alike. -/
  decisive : ∀ q : Phrase, q.Reachable → List.Forall₂ Entry.Same p.entries q.entries → ∀ additions,
    Alike (p.growAll additions).1 (q.growAll additions).1 ∧ (p.growAll additions).2 = (q.growAll additions).2

theorem Reachable.recorded (reachable : p.Reachable) : p.Recorded where
  replayed := reachable.replay_entries
  answered name := growAll_of_replay (reachable.replay_entries name)
  decisive _ reachableToo same additions := (reachable.alike reachableToo same).growAll additions

end Phrase

namespace Workspace

/-- The entries of every phrase of a workspace are a complete record of it. -/
theorem Reachable.entries_record {w : Workspace} (reachable : w.Reachable) (id : PhraseId) :
    (w.phrase id).Recorded :=
  (phrase_reachable reachable.invariant.1 id).recorded

/-- A phrase with a long note, another one together with it, and one after both. -/
def strummed : Workspace :=
  let long := middleC TimeSignature.common.barDuration
  let short := middleC TimeSignature.common.beatUnit
  .after [.newPhrase (.text "Strummed"),
    .grow ⟨0⟩ (.trailing long (.ofInt 1)),
    .grow ⟨0⟩ (.simultaneous short),
    .grow ⟨0⟩ (.event short)]

/-- The note that was placed together with the one before it is recorded as one that is a beat late. -/
theorem strummed_recorded :
    (strummed.phrase ⟨0⟩).entries.map (·.placement) = [.trailing 1, .late (-1), .sequential] ∧
      ((strummed.phrase ⟨0⟩).resolved.map fun r => (r.start, r.finish)) = [(0, 4), (0, 1), (4, 5)] ∧
        (strummed.phrase ⟨0⟩).Recorded :=
  ⟨by cbv, by cbv, Reachable.entries_record (reachable_iff.mpr ⟨_, rfl⟩) ⟨0⟩⟩

end Workspace

end MusicScore
