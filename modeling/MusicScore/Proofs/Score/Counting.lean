import Mathlib
import MusicScore.Proofs.Score.Agreement
import MusicScore.Proofs.Score.Document
import MusicScore.Proofs.Timeline.Difference
import MusicScore.Proofs.Timeline.Summary

/-!
# Counting the notes of scores

The notes of the timeline of a score are on the channels of its tracks, each on one. A comparison of two such
timelines accounts for every note unless two notes sound in unison, and a summary accounts for every note unless
two parts share a label and the earlier of them has notes. Neither is excluded in a score: phrases of one part
may put the same note in the same place, and parts without a name have that of their instrument for label.
-/
namespace MusicScore.Score

open Midi

variable {s other : Score} {options otherOptions : Options} {t u : Timeline}

/-- The notes of a timeline that a score has stand in an order. -/
theorem isOrdered_of_toTimeline (listed : s.toTimeline options = .ok t) : ∀ n ∈ t.notes, n.isOrdered = true := by
  obtain ⟨_, _, meter, _, rfl⟩ := toTimeline_eq_ok.mp listed
  intro n member
  obtain ⟨_, _, r, p, _, _, _, rfl⟩ := mem_notes member
  rfl

/-- A comparison of the timelines of two scores accounts for every note of either exactly when no two notes of that
timeline agree in all numbers. -/
theorem difference_accounts (listed : s.toTimeline options = .ok t)
    (listedToo : other.toTimeline otherOptions = .ok u) :
    ((t.difference u).unchanged + (t.difference u).added = u.noteCount ↔ u.IsDistinct) ∧
      ((t.difference u).unchanged + (t.difference u).removed = t.noteCount ↔ t.IsDistinct) :=
  Timeline.difference_accounts_iff (isOrdered_of_toTimeline listed) (isOrdered_of_toTimeline listedToo)

/-- A score without notes, and one whose part plays the same phrase twice at once. -/
def unison : Workspace :=
  .after [.newPhrase (.text "Line"),
    .grow ⟨0⟩ (.event (Workspace.middleC TimeSignature.common.beatUnit)),
    .newPart (.ofInt 0) (.text "Piano"),
    .newScore (.text "Silent") (.ofInt 120) none,
    .addPart ⟨0⟩ ⟨0⟩,
    .placePhrase ⟨0⟩ ⟨0⟩ (.ofInt 0),
    .placePhrase ⟨0⟩ ⟨0⟩ (.ofInt 0),
    .newScore (.text "Unison") (.ofInt 120) none,
    .addPart ⟨1⟩ ⟨0⟩]

/-- Both scores have a timeline. -/
theorem toTimeline_unison : ∀ id ∈ [(⟨0⟩ : ScoreId), ⟨1⟩],
    (unison.score id).toTimeline .standard = .ok ((unison.score id).timelineOf .standard "") := by
  have silence : (unison.score ⟨0⟩).events.map (fun r => (r.start, r.finish)) = [] := by cbv
  have sounds : (unison.score ⟨1⟩).events.map (fun r => (r.start, r.finish)) = [(0, 1), (0, 1)] := by cbv
  simp only [List.forall_mem_cons]
  exact ⟨toTimeline_of_spans (by cbv) (by cbv) silence (by simp),
    toTimeline_of_spans (by cbv) (by cbv) sounds (by decide +kernel), by simp⟩

/-- Of the two notes in unison one is counted, so the comparison with silence does not account for both. -/
theorem unison_not_accounted :
    let silence := (unison.score ⟨0⟩).timelineOf .standard ""
    let sounds := (unison.score ⟨1⟩).timelineOf .standard ""
    (silence.difference sounds).unchanged + (silence.difference sounds).added ≠ sounds.noteCount := by
  intro silence sounds accounted
  have silent : (unison.score ⟨0⟩).toTimeline .standard = .ok silence := toTimeline_unison ⟨0⟩ (by simp)
  have sounding : (unison.score ⟨1⟩).toTimeline .standard = .ok sounds := toTimeline_unison ⟨1⟩ (by simp)
  have distinct : sounds.IsDistinct := (difference_accounts silent sounding).1.mp accounted
  have keys : sounds.notes.map Timeline.Note.keys =
      List.replicate 2 [.ofInt 0, .ofInt 0, .ofInt 60, .ofInt 960, .ofInt 70] := by cbv
  have apart : (sounds.notes.map Timeline.Note.keys).Pairwise fun a b =>
      ¬ (a.zip b).all (fun pair => pair.1.alike pair.2) = true := List.pairwise_map.mpr distinct
  rw [keys] at apart
  exact absurd apart (by decide +kernel)

/-- The notes on the channel of the track of a part are those on the channel of its number. -/
theorem notesOf_timelineTrack (t : Timeline) (part : Part) (index : Nat) :
    t.notesOf (timelineTrack part index) = t.notesOn index := by
  simp only [Timeline.notesOf, Timeline.notesOn, timelineTrack, Datum.ofInt, Datum.same, Number.ofInt]

/-- The notes on the channels of the tracks of a score are all the notes of its timeline. -/
theorem sum_notesOf (s : Score) (options : Options) (meter : String) :
    ((s.timelineOf options meter).tracks.map fun track => ((s.timelineOf options meter).notesOf track).length).sum =
      (s.timelineOf options meter).noteCount := by
  have each : (s.timelineTracks.map fun track => ((s.timelineOf options meter).notesOf track).length) =
      (s.noteLists options).map List.length := by
    unfold timelineTracks noteLists
    rw [List.map_map, List.map_map]
    refine List.map_congr_left ?_
    rintro ⟨part, index⟩ member
    have found : s.parts[index]? = some part := List.mem_zipIdx_iff_getElem?.mp member
    simp only [Function.comp_apply, notesOf_timelineTrack]
    exact (notesOn_perm found meter).length_eq
  have all : (s.timelineOf options meter).noteCount = (s.noteLists options).flatten.length :=
    (Timeline.Note.sort_perm _).length_eq
  rw [all, List.length_flatten, ← each]
  rfl

/-- The summary of the timeline of a score accounts for every note exactly when no part with notes has a label that
a later part has as well. There is a summary if all labels can be keys. -/
theorem summary_accounts (listed : s.toTimeline options = .ok t) :
    ((∃ x, t.summary = .ok x) ↔ ∀ track ∈ t.tracks, track.label.isKey = true) ∧
      ∀ x, t.summary = .ok x → ((x.tracks.map Prod.snd).sum = x.noteCount ↔
        t.tracks.Pairwise fun earlier later =>
          earlier.label.alike later.label = true → t.notesOf earlier = []) := by
  obtain ⟨_, _, meter, _, rfl⟩ := toTimeline_eq_ok.mp listed
  refine Timeline.summary_accounts_iff (fun track member => ?_) (sum_notesOf s options meter)
  obtain ⟨⟨part, index⟩, _, rfl⟩ := List.mem_map.mp member
  exact ⟨_, rfl⟩

/-- A score with two parts for the same instrument, neither with a name. -/
def namesakes : Workspace :=
  .after [.newPhrase (.text "Line"),
    .grow ⟨0⟩ (.event (Workspace.middleC TimeSignature.common.beatUnit)),
    .newPart (.ofInt 0) (.text ""),
    .placePhrase ⟨0⟩ ⟨0⟩ (.ofInt 0),
    .newPart (.ofInt 0) (.text ""),
    .placePhrase ⟨1⟩ ⟨0⟩ (.ofInt 0),
    .placePhrase ⟨1⟩ ⟨0⟩ (.ofInt 1),
    .newScore (.text "Namesakes") (.ofInt 120) none,
    .addPart ⟨0⟩ ⟨0⟩,
    .addPart ⟨0⟩ ⟨1⟩]

/-- The timeline of the score. -/
def namesakesTimeline : Timeline := (namesakes.score ⟨0⟩).timelineOf .standard ""

/-- The parts of the score are the copies that were made of the two parts. -/
theorem parts_namesakes : (namesakes.score ⟨0⟩).parts = [namesakes.part ⟨2⟩, namesakes.part ⟨3⟩] := by cbv

/-- The score has this timeline. -/
theorem toTimeline_namesakes : (namesakes.score ⟨0⟩).toTimeline .standard = .ok namesakesTimeline := by
  have events : (namesakes.score ⟨0⟩).events.map (fun r => (r.start, r.finish)) = [(0, 1), (0, 1), (1, 2)] := by cbv
  exact toTimeline_of_spans (by cbv) (by cbv) events (by decide +kernel)

/-- The tracks of the timeline are those of the two parts. -/
theorem tracks_namesakes :
    namesakesTimeline.tracks = [timelineTrack (namesakes.part ⟨2⟩) 0, timelineTrack (namesakes.part ⟨3⟩) 1] := by
  change (namesakes.score ⟨0⟩).timelineTracks = _
  rw [timelineTracks, parts_namesakes]
  rfl

/-- Every track is labelled by the instrument. -/
theorem label_namesakes : ∀ track ∈ namesakesTimeline.tracks, track.label = .text "Acoustic Grand Piano" := by
  have labels : namesakesTimeline.tracks.map Timeline.Track.label =
      List.replicate 2 (.text "Acoustic Grand Piano") := by
    rw [tracks_namesakes]
    cbv
  exact fun track member => List.eq_of_mem_replicate (n := 2) (labels ▸ List.mem_map_of_mem member)

/-- The first part has one note. -/
theorem length_notesOn_namesakes : (namesakesTimeline.notesOn 0).length = 1 := by
  have found : (namesakes.score ⟨0⟩).parts[0]? = some (namesakes.part ⟨2⟩) := congrArg (·[0]?) parts_namesakes
  have played : ((namesakes.part ⟨2⟩).timeline.flatMap (Resolved.notes Options.standard.ticksPerQuarter 0)).length =
      1 := by cbv
  rw [namesakesTimeline, (notesOn_perm found "").length_eq, played]

/-- The note of the first part is lost, since the second part has the same label. -/
theorem namesakes_not_accounted :
    ∃ x, namesakesTimeline.summary = .ok x ∧ (x.tracks.map Prod.snd).sum ≠ x.noteCount := by
  have keys : ∀ track ∈ namesakesTimeline.tracks, track.label.isKey = true := fun track member =>
    label_namesakes track member ▸ rfl
  obtain ⟨summarized, accounted⟩ := summary_accounts toTimeline_namesakes
  obtain ⟨x, made⟩ := summarized.mpr keys
  refine ⟨x, made, fun same => ?_⟩
  have apart := (accounted x made).mp same
  have labels := label_namesakes
  rw [tracks_namesakes, List.forall_mem_cons, List.forall_mem_singleton] at labels
  rw [tracks_namesakes, List.pairwise_pair, labels.1, labels.2, notesOf_timelineTrack] at apart
  have silent : namesakesTimeline.notesOn 0 = [] := apart (by decide +kernel)
  have played := length_notesOn_namesakes
  simp [silent] at played

end MusicScore.Score
