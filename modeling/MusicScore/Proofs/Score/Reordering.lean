import Mathlib
import MusicScore.Proofs.Score.Document
import MusicScore.Proofs.Timeline.Reordering

/-!
# The timeline of a score with its notes in another order

Each note of the timeline of a score has whole numbers for its times and a finite start in beats. So the notes
may be put in any order before the timeline is written, exactly if those that agree in all whole numbers start
at equal beats. This can fail only where events are closer than a tick: then different beats become one tick,
and what is written shows which of the notes was found first.
-/
namespace MusicScore

open Midi

/-- A rational number that is not negative and not too large is a finite number of the format. -/
theorem Double.finite_of_ofRat? {q : Rat} (late : 0 ≤ q) {x : Double} (found : ofRat? q = some x) :
    ∃ v, x = .finite v := by
  unfold ofRat? round at found
  by_cases zero : q = 0
  · simp only [zero, if_true] at found
    exact ⟨0, (Option.some.inj found).symm⟩
  · simp only [zero, if_false, not_lt.mpr late] at found
    unfold roundPositive at found
    by_cases large : limit ≤ nearest q
    · simp [large] at found
    · simp only [large, if_false] at found
      exact ⟨nearest q, (Option.some.inj found).symm⟩

/-- The note of an event that does not start before zero or too late is measured. -/
theorem Resolved.isMeasured_noteOf {r : Resolved} (late : 0 ≤ r.start) {p : Pitch} (sounds : p ∈ r.event.pitches)
    (timely : ¬ r.TooLate) (resolution : Int) (channel : Nat) : (r.noteOf resolution channel p).IsMeasured where
  whole := by
    simp only [Timeline.Note.keys, noteOf, List.forall_mem_cons]
    exact ⟨⟨_, rfl⟩, ⟨_, rfl⟩, ⟨_, rfl⟩, ⟨_, rfl⟩, ⟨_, rfl⟩, by simp⟩
  beat := by
    cases found : Double.ofRat? r.start with
    | none => exact absurd ⟨List.ne_nil_of_mem sounds, found⟩ timely
    | some x =>
      obtain ⟨v, rfl⟩ := Double.finite_of_ofRat? late found
      exact ⟨v, by simp [noteOf, Resolved.beat, found]⟩

namespace Score

variable {w : Workspace} {id : ScoreId} {options : Options} {t : Timeline}

/-- The notes of a timeline that a score has are measured. -/
theorem isMeasured_of_toTimeline (reachable : w.Reachable) (listed : (w.score id).toTimeline options = .ok t) :
    ∀ n ∈ t.notes, n.IsMeasured := by
  obtain ⟨_, possible, meter, _, rfl⟩ := toTimeline_eq_ok.mp listed
  intro n member
  obtain ⟨index, part, r, p, found, sounding, sounds, rfl⟩ := mem_notes member
  have inside : r ∈ (w.score id).events := List.mem_flatMap.mpr ⟨part, List.mem_of_getElem? found, sounding⟩
  obtain ⟨entry, _, rfl⟩ := List.mem_map.mp (List.mem_of_getElem? found)
  exact Resolved.isMeasured_noteOf (reachable.timeline_start_nonneg entry r sounding) sounds (possible r inside).2 _ _

/-- However the notes of the timeline of a score are permuted, its record and its text in JSON are the same exactly
when notes that agree in all whole numbers start at equal beats, unless the timeline has no record at all. -/
theorem sameDocuments_iff_steady (reachable : w.Reachable) (listed : (w.score id).toTimeline options = .ok t) :
    (∀ notes : List Timeline.Note, notes.Perm t.notes → { t with notes := notes }.SameDocuments t) ↔
      ((∃ record, t.toDatum = .ok record) → t.IsSteady) := by
  have measured := isMeasured_of_toTimeline reachable listed
  obtain ⟨_, _, meter, _, rfl⟩ := toTimeline_eq_ok.mp listed
  have ordered : ∀ n ∈ ((w.score id).noteLists options).flatten, n.isOrdered = true := fun n member =>
    (measured n ((Timeline.Note.sort_perm _).mem_iff.mpr member)).isOrdered
  exact Timeline.sameDocuments_iff (sort_timelineTracks _) (Timeline.Note.sort_pairwise ordered) measured

/-- Each pitch of each event of a part has its note in the timeline. -/
theorem noteOf_mem_notes {s : Score} {index : Nat} {part : Part} {r : Resolved} {p : Pitch} (meter : String)
    (found : s.parts[index]? = some part) (sounding : r ∈ part.timeline) (sounds : p ∈ r.event.pitches) :
    r.noteOf options.ticksPerQuarter index p ∈ (s.timelineOf options meter).notes := by
  have listed : part.timeline.flatMap (Resolved.notes options.ticksPerQuarter index) ∈ s.noteLists options :=
    List.mem_map.mpr ⟨(part, index), List.mem_zipIdx_iff_getElem?.mpr found, rfl⟩
  have own : r.noteOf options.ticksPerQuarter index p ∈
      part.timeline.flatMap (Resolved.notes options.ticksPerQuarter index) :=
    List.mem_flatMap.mpr ⟨r, sounding, List.mem_map_of_mem sounds⟩
  exact (Timeline.Note.sort_perm _).mem_iff.mpr (List.mem_flatten.mpr ⟨_, listed, own⟩)

/-- A score in which a note sounds twice, the second time less than half a tick after the first. -/
def blurred : Workspace :=
  .after [.newPhrase (.text "Line"),
    .grow ⟨0⟩ (.event (Workspace.middleC TimeSignature.common.beatUnit)),
    .newPart (.ofInt 0) (.text "Piano"),
    .placePhrase ⟨0⟩ ⟨0⟩ (.ofInt 0),
    .placePhrase ⟨0⟩ ⟨0⟩ (.ofRat (1 / 2048)),
    .newScore (.text "Blurred") (.ofInt 120) none,
    .addPart ⟨0⟩ ⟨0⟩]

/-- The part of the score is the copy that was made of the part when it was put into the score. -/
theorem parts_blurred : (blurred.score ⟨0⟩).parts = [blurred.part ⟨1⟩] := by cbv

/-- The pitch that sounds. -/
def blurredPitch : Pitch := ⟨.plain 60, Workspace.middleC_inRange⟩

/-- The events of the score: one note, and the same note a little later. -/
def blurredEvents : List Resolved :=
  let note : Event := .note ⟨blurredPitch, TimeSignature.common.beatUnit, .standard⟩
  [⟨0, 1, note, 0⟩, ⟨1 / 2048, 2049 / 2048, note, 1⟩]

/-- The part plays these events. -/
theorem timeline_blurred : (blurred.part ⟨1⟩).timeline = blurredEvents := by cbv

/-- The score has a timeline. -/
theorem toTimeline_blurred : (blurred.score ⟨0⟩).toTimeline .standard =
    .ok ((blurred.score ⟨0⟩).timelineOf .standard "") := by
  have events : (blurred.score ⟨0⟩).events.map (fun r => (r.start, r.finish)) =
      [(0, 1), (1 / 2048, 2049 / 2048)] := by
    rw [Score.events, parts_blurred, List.flatMap_singleton, timeline_blurred]
    rfl
  have counted : checkPartCount (blurred.score ⟨0⟩) = .ok () := by cbv
  have unmetered : (blurred.score ⟨0⟩).metadata = none := by cbv
  exact toTimeline_of_spans counted unmetered events (by decide +kernel)

/-- The notes of the score are not steady: they have the same numbers and start at different beats. So the documents of
its timeline depend on the order of its notes. -/
theorem blurred_documents_differ :
    let t := (blurred.score ⟨0⟩).timelineOf .standard ""
    ¬ ∀ notes : List Timeline.Note, notes.Perm t.notes → { t with notes := notes }.SameDocuments t := by
  intro t
  have reachable : blurred.Reachable := Workspace.reachable_iff.mpr ⟨_, rfl⟩
  have recorded : ∃ record, t.toDatum = .ok record := by
    have values : t.tracks.map Timeline.Track.values =
        [[.ofInt 0, .ofInt 0, .text "Acoustic Grand Piano", .text "Piano"]] := by cbv
    have plain : ∀ track ∈ t.tracks, track.IsPlain := by
      intro track member v own
      have fields : track.values = [.ofInt 0, .ofInt 0, .text "Acoustic Grand Piano", .text "Piano"] :=
        List.mem_singleton.mp (values ▸ List.mem_map_of_mem member)
      simp only [fields, List.mem_cons, List.not_mem_nil, or_false] at own
      rcases own with rfl | rfl | rfl | rfl <;> rfl
    exact ⟨_, (congrArg (· >>= Timeline.record) (canonical_timelineOf _ _ _)).trans (Timeline.record_eq plain)⟩
  have unsteady : ¬ t.IsSteady := by
    intro steady
    have found : (blurred.score ⟨0⟩).parts[0]? = some (blurred.part ⟨1⟩) := congrArg (·[0]?) parts_blurred
    have sounds : ∀ r ∈ blurredEvents, blurredPitch ∈ r.event.pitches := by
      simp [blurredEvents, Event.pitches]
    have listed : ∀ r ∈ blurredEvents, r.noteOf Options.standard.ticksPerQuarter 0 blurredPitch ∈ t.notes :=
      fun r member => noteOf_mem_notes "" found (timeline_blurred ▸ member) (sounds r member)
    have early := listed _ List.mem_cons_self
    have late := listed _ (List.mem_cons_of_mem _ List.mem_cons_self)
    have equal := steady _ early _ late (by decide +kernel)
    have beats : Double.ofRat? 0 = some (.finite 0) ∧ Double.ofRat? (1 / 2048) = some (.finite (1 / 2048)) := by
      decide +kernel
    have apart : (Datum.number (.float (.finite 0))).same (.number (.float (.finite (1 / 2048)))) = false := by
      decide +kernel
    simp only [Resolved.noteOf, Resolved.beat, beats, Option.getD_some, apart, Bool.false_eq_true] at equal
  exact fun same => unsteady ((sameDocuments_iff_steady reachable toTimeline_blurred).mp same recorded)

end Score

end MusicScore
