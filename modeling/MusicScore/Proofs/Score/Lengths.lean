import MusicScore.Proofs.Phrase.Misplacement
import MusicScore.Proofs.Score.Agreement
import MusicScore.Proofs.Score.Keys
import MusicScore.Proofs.Workspace.Copies

/-!
# The length of a score in ticks

A score lasts up to the latest end that its parts keep, and its timeline up to the last release. Ticks are rounded for
each event by itself. As rounding keeps the order of beats, the latest of the rounded ends is the rounded latest end,
so that the timeline ends where the score does, if something sounds up to there. What is silent at the end belongs to
the score only.

This needs the parts to keep the latest end of their phrases. They do as long as none of the phrases is extended where
it stands; a phrase may be extended before it is put into a part, and a part may fall behind its phrases before it is
put into the score, since the copy that the score gets finds its length anew.
-/
namespace MusicScore

open Midi

namespace Workspace

variable {w : Workspace} {score : ScoreId}

/-- The command extends a phrase that stands in a part of the score. -/
def Extends (w : Workspace) (score : ScoreId) : Command → Prop
  | .grow phrase addition =>
    (∃ part ∈ (w.scoreEntry score).parts, .phrase phrase ∈ w.slots (.part part)) ∧
      ((w.phrase phrase).grow addition).1 ≠ w.phrase phrase
  | _ => False

/-- The workspaces that come of commands to an empty one none of which extends a phrase in the score. -/
inductive ReachableUnextended (score : ScoreId) : Workspace → Prop where
  | empty : ReachableUnextended score empty
  | run {w : Workspace} {command : Command} (before : ReachableUnextended score w)
      (unextended : ¬ w.Extends score command) : ReachableUnextended score (w.run command).1

/-- They are among those that can be made. -/
theorem ReachableUnextended.reachable (unextended : w.ReachableUnextended score) : w.Reachable := by
  induction unextended with
  | empty => exact .empty
  | run _ _ inductionHypothesis => exact inductionHypothesis.run _

/-- Nothing is extended in a score without parts. -/
theorem not_extends_of_parts {command : Command} (none : (w.scoreEntry score).parts = []) :
    ¬ w.Extends score command := by
  cases command with
  | grow phrase addition =>
    rintro ⟨⟨part, held, _⟩, _⟩
    rw [none] at held
    cases held
  | _ => exact id

/-- An addition that extends no phrase in the score leaves the parts of the score as they are. -/
theorem part_grow_of_not_extends {phrase : PhraseId} {addition : Phrase.Addition}
    (unextended : ¬ w.Extends score (.grow phrase addition)) {id : PartId} (held : id ∈ (w.scoreEntry score).parts) :
    (w.run (.grow phrase addition)).1.part id = w.part id := by
  by_cases same : ((w.phrase phrase).grow addition).1 = w.phrase phrase
  · rw [run_grow, same, setPhrase_phrase]
  · refine part_grow_of_spares ?_
    rintro item member addressed
    cases addressed
    exact unextended ⟨⟨id, held, member⟩, same⟩

/-- A part that is not kept reads as one without phrases, at zero. -/
theorem latest_of_not_kept {id : PartId} (gone : ¬ Item.Kept w (.part id)) :
    IsLatest ((w.part id).placed.map Placed.finish) (w.part id).length := by
  have beyond : w.parts[id.number]? = none := List.getElem?_eq_none (not_lt.mp gone)
  rw [part, partEntry, beyond]
  exact .nil

/-- The parts of a score keep the latest ends of their phrases, where none of these is extended in the score. -/
theorem ReachableUnextended.latest (unextended : w.ReachableUnextended score) :
    ∀ id ∈ (w.scoreEntry score).parts, IsLatest ((w.part id).placed.map Placed.finish) (w.part id).length := by
  induction unextended with
  | empty =>
    intro id held
    cases held
  | @run w command before unextended inductionHypothesis =>
    intro id held
    rcases grow_or_effect w command with ⟨phrase, addition, rfl⟩ | ⟨_, effect⟩
    · have heldBefore : id ∈ (w.scoreEntry score).parts := by
        rw [run_grow] at held
        exact held
      rw [part_grow_of_not_extends unextended heldBefore]
      exact inductionHypothesis id heldBefore
    · -- a part that comes into the score was not kept before, and reads as an empty one
      have latest : IsLatest ((w.part id).placed.map Placed.finish) (w.part id).length := by
        obtain ⟨_, widens⟩ := (run_change w command).widens
        have slot : .part id ∈ (w.run command).1.slots (.score score) := List.mem_map_of_mem held
        rw [widens.slots] at slot
        rcases List.mem_append.mp slot with earlier | new
        · obtain ⟨own, heldBefore, same⟩ := List.mem_map.mp earlier
          cases same
          exact inductionHypothesis id heldBefore
        · exact latest_of_not_kept (widens.fresh new).1
      exact effect.latest before.reachable latest

end Workspace

namespace Score

variable {s : Score} {options : Options} {t : Timeline}

/-- The timeline of a score ends by the length of the score, and its notes by the end of the timeline. -/
structure Spans (t : Timeline) (s : Score) (options : Options) (total : Int) : Prop where
  ending : t.totalTicks = .ofInt total
  /-- The timeline ends at the tick of the length, or before it. -/
  le : total ≤ ticks s.length options.ticksPerQuarter
  /-- It ends there if an event other than a rest ends with the score. -/
  eq : (∃ r ∈ s.events, (∀ rest, r.event ≠ .rest rest) ∧ r.finish = s.length) →
    total = ticks s.length options.ticksPerQuarter
  /-- Each note ends after its start and by the end of the timeline. -/
  notes : ∀ n ∈ t.notes, ∃ start finish, n.start = .ofInt start ∧ n.finish = .ok (.ofInt finish) ∧
    start < finish ∧ finish ≤ total

/-- The length of a score is the latest end that its parts keep. -/
theorem latest_length (late : ∀ part ∈ s.parts, 0 ≤ part.length) : IsLatest (s.parts.map (·.length)) s.length := by
  rw [List.map_eq_flatMap]
  exact IsLatest.foldl (fun part _ => .single part.length) late

/-- Only rests are silent. -/
theorem pitches_ne_nil {e : Event} (sounding : ∀ rest, e ≠ .rest rest) : e.pitches ≠ [] := by
  cases e with
  | note n => exact List.cons_ne_nil _ _
  | chord c => exact c.harmony.nonempty
  | rest r => exact absurd rfl (sounding r)

/-- A note of the timeline is that of a pitch of an event. -/
theorem exists_of_mem_notes {n : Timeline.Note} {meter : String} (member : n ∈ (s.timelineOf options meter).notes) :
    ∃ r ∈ s.events, ∃ channel, ∃ p ∈ r.event.pitches, n = r.noteOf options.ticksPerQuarter channel p := by
  have listed : n ∈ (s.noteLists options).flatten := (Timeline.Note.sort_perm _).mem_iff.mp member
  obtain ⟨notes, inside, own⟩ := List.mem_flatten.mp listed
  obtain ⟨⟨part, channel⟩, found, rfl⟩ := List.mem_map.mp inside
  obtain ⟨r, event, noted⟩ := List.mem_flatMap.mp own
  obtain ⟨p, sounds, rfl⟩ := List.mem_map.mp noted
  have held : part ∈ s.parts := (List.mem_zipIdx' found).2 ▸ List.getElem_mem _
  exact ⟨r, List.mem_flatMap.mpr ⟨part, held, event⟩, channel, p, sounds, rfl⟩

/-- Where the parts keep the latest ends of their phrases, no event ends after the score. -/
theorem finish_le_length (sound : ∀ part ∈ s.parts, part.Sound)
    (latest : ∀ part ∈ s.parts, IsLatest (part.placed.map Placed.finish) part.length)
    (length : IsLatest (s.parts.map (·.length)) s.length) {r : Resolved} (inside : r ∈ s.events) :
    r.finish ≤ s.length := by
  obtain ⟨part, held, event⟩ := List.mem_flatMap.mp inside
  obtain ⟨x, placed, before⟩ := (sound part held).exists_finish_ge event
  calc
    r.finish ≤ x.finish := before
    _ ≤ part.length := (latest part held).bound x.finish (List.mem_map_of_mem placed)
    _ ≤ s.length := length.bound part.length (List.mem_map_of_mem held)

/-- Where the parts keep the latest ends of their phrases, the timeline spans the score. -/
theorem spans_of_latest (sound : ∀ part ∈ s.parts, part.Sound)
    (latest : ∀ part ∈ s.parts, IsLatest (part.placed.map Placed.finish) part.length)
    (listed : s.toTimeline options = .ok t) : Spans t s options (latestRelease options s.events) := by
  obtain ⟨_, possible, meter, _, rfl⟩ := toTimeline_eq_ok.mp listed
  have forward : 0 < options.ticksPerQuarter := options.inRange.1
  have late (part : Part) (held : part ∈ s.parts) : 0 ≤ part.length :=
    (latest part held).nonneg (sound part held).finish_nonneg
  have length := latest_length late
  obtain ⟨above, attained⟩ := latestRelease_spec options s.events
  have bound : latestRelease options s.events ≤ ticks s.length options.ticksPerQuarter := by
    rcases attained with zero | ⟨r, inside, _, same⟩
    · rw [zero]
      exact ticks_nonneg (length.nonneg (List.forall_mem_map.mpr late)) forward
    · rw [same]
      exact ticks_mono forward.le (finish_le_length sound latest length inside)
  constructor
  case ending => rfl
  case le => exact bound
  case eq =>
    rintro ⟨r, inside, sounding, ending⟩
    have reached := above r inside (pitches_ne_nil sounding)
    rw [ending] at reached
    exact le_antisymm bound reached
  case notes =>
    intro n member
    obtain ⟨r, inside, channel, p, sounds, rfl⟩ := exists_of_mem_notes member
    have sounding : r.event.pitches ≠ [] := List.ne_nil_of_mem sounds
    refine ⟨ticks r.start options.ticksPerQuarter, ticks r.finish options.ticksPerQuarter, rfl, ?_, ?_, ?_⟩
    · simp [Timeline.Note.finish, Resolved.noteOf]
    · exact not_le.mp fun backward => (possible r inside).1 ⟨sounding, backward⟩
    · exact above r inside sounding

/-- Where no phrase is extended in a score, its timeline spans it. -/
theorem timeline_spans {w : Workspace} {id : ScoreId} (unextended : w.ReachableUnextended id)
    (listed : (w.score id).toTimeline options = .ok t) : ∃ total, Spans t (w.score id) options total := by
  refine ⟨_, spans_of_latest ?_ ?_ listed⟩
  · intro part member
    obtain ⟨own, _, rfl⟩ := List.mem_map.mp member
    exact unextended.reachable.part_sound own
  · intro part member
    obtain ⟨own, held, rfl⟩ := List.mem_map.mp member
    exact unextended.latest own held

/-- The timeline of the score with the overlap ends with the score. -/
theorem overlap_spans : overlap.ReachableUnextended ⟨0⟩ ∧ (overlap.score ⟨0⟩).length = 7 ∧
    ∃ t, (overlap.score ⟨0⟩).toTimeline .standard = .ok t ∧ ∃ total, Spans t (overlap.score ⟨0⟩) .standard total := by
  have unextended : overlap.ReachableUnextended ⟨0⟩ := by
    refine .run (.run (.run (.run (.run (.run (.run .empty ?_) ?_) ?_) ?_) ?_) ?_) ?_
    all_goals first | exact id | exact Workspace.not_extends_of_parts (by cbv)
  have events : (overlap.score ⟨0⟩).events = (overlap.part ⟨1⟩).timeline := by
    rw [Score.events, parts_overlap, List.flatMap_singleton]
  have spans : (overlap.part ⟨1⟩).timeline.map (fun r => (ticks r.start 960, ticks r.finish 960)) =
      [(960, 4800), (2880, 6720)] := by cbv
  have forward : ∀ span ∈ ([(960, 4800), (2880, 6720)] : List (Int × Int)), span.1 < span.2 := by decide
  have starts : (overlap.part ⟨1⟩).timeline.map Resolved.start = [1, 3] := by cbv
  have measured : ∀ start ∈ ([1, 3] : List Rat), (Double.ofRat? start).isSome = true := by decide +kernel
  have possible : ∀ r ∈ (overlap.score ⟨0⟩).events, ¬ r.TooShort 960 ∧ ¬ r.TooLate := by
    rw [events]
    refine fun r member => ⟨fun short => ?_, fun late => ?_⟩
    · exact not_lt.mpr short.2 (forward _ (spans ▸ List.mem_map_of_mem member))
    · have beat := measured r.start (starts ▸ List.mem_map_of_mem member)
      simp [late.2] at beat
  have counted : checkPartCount (overlap.score ⟨0⟩) = .ok () := by cbv
  have unmetered : (overlap.score ⟨0⟩).meterText = .ok "" := by cbv
  have listed : (overlap.score ⟨0⟩).toTimeline .standard = .ok ((overlap.score ⟨0⟩).timelineOf .standard "") :=
    toTimeline_eq_ok.mpr ⟨counted, possible, "", unmetered, rfl⟩
  exact ⟨unextended, by cbv, _, listed, timeline_spans unextended listed⟩

end Score

end MusicScore
