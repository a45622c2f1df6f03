import MusicScore.Proofs.Score.Document
import MusicScore.Proofs.Timeline.Yaml

/-!
# The YAML documents of a score

The timeline of a score says texts and numbers, so that its YAML document, if it has one, is read back as the timeline.
It has one exactly when no number is too long to be written, and the tempo and the pitches were given as whole numbers:
a dynamic marking stands for a number wherever a tempo or a pitch is made, but YAML has no form for it.
-/
namespace MusicScore.Score

open Midi

variable {s : Score} {options : Options} {meter : String} {r : Resolved} {p : Pitch}

/-- The tempo and the pitches that sound were given as whole numbers. -/
structure IsPlain (s : Score) : Prop where
  tempo : s.tempo.numeral.IsPlain
  pitches : ∀ r ∈ s.events, ∀ p ∈ r.event.pitches, p.numeral.IsPlain

/-- Every pitch that sounds has a note in the timeline. -/
theorem exists_note (event : r ∈ s.events) (sounds : p ∈ r.event.pitches) :
    ∃ n ∈ (s.timelineOf options meter).notes, n.pitch = .whole p.numeral := by
  obtain ⟨part, member, own⟩ := List.mem_flatMap.mp event
  obtain ⟨index, found⟩ := List.getElem?_of_mem member
  refine ⟨r.noteOf options.ticksPerQuarter index p, (Timeline.Note.sort_perm _).mem_iff.mpr ?_, rfl⟩
  have placed : (part, index) ∈ s.parts.zipIdx := List.mem_zipIdx_iff_getElem?.mpr found
  exact List.mem_flatten.mpr ⟨_, List.mem_map_of_mem placed, List.mem_flatMap.mpr ⟨r, own, List.mem_map_of_mem sounds⟩⟩

/-- The timeline of a score whose title and names are texts says texts and whole numbers of its own, and further the
tempo, the pitches that sound and the beats at which they do. -/
theorem each_timelineOf {P : Datum → Prop} (titled : ∃ title, s.title = .text title)
    (named : ∀ part ∈ s.parts, ∃ name, part.name = .text name) (text : ∀ content, P (.text content))
    (whole : ∀ n : Int, P (.ofInt n)) (tempo : P (.number (.whole s.tempo.numeral)))
    (pitch : ∀ r ∈ s.events, ∀ p ∈ r.event.pitches, P (.number (.whole p.numeral)))
    (beat : ∀ r ∈ s.events, r.event.pitches ≠ [] → P (.number (.float r.beat))) :
    (s.timelineOf options meter).Each P := by
  constructor
  case heading =>
    obtain ⟨title, titled⟩ := titled
    simp only [Timeline.heading, timelineOf, titled, List.forall_mem_cons]
    exact ⟨text _, text _, tempo, text _, text _, whole _, whole _, by simp⟩
  case tracks =>
    intro track member
    obtain ⟨⟨part, index⟩, placed, rfl⟩ := List.mem_map.mp member
    obtain ⟨name, named⟩ := named part (List.mem_of_getElem? (List.mem_zipIdx_iff_getElem?.mp placed))
    simp only [Timeline.Track.values, timelineTrack, named, List.forall_mem_cons]
    exact ⟨whole _, whole _, text _, text _, by simp⟩
  case notes =>
    intro n member
    obtain ⟨index, part, r, p, found, sounding, sounds, rfl⟩ := mem_notes member
    have event : r ∈ s.events := List.mem_flatMap.mpr ⟨part, List.mem_of_getElem? found, sounding⟩
    refine ⟨?_, beat r event (List.ne_nil_of_mem sounds)⟩
    simp only [Timeline.Note.keys, Resolved.noteOf, List.forall_mem_cons]
    exact ⟨whole _, whole _, pitch r event p sounds, whole _, whole _, by simp⟩

/-- The timeline of a score whose title and names are texts says texts and numbers. -/
theorem isStatement_timelineOf (timely : ∀ r ∈ s.events, ¬ r.TooLate) (titled : ∃ title, s.title = .text title)
    (named : ∀ part ∈ s.parts, ∃ name, part.name = .text name) :
    (s.timelineOf options meter).Each Datum.IsStatement := by
  refine each_timelineOf titled named .text (fun n => .whole _) (.whole _) (fun r _ p _ => .whole _) ?_
  intro r event sounding
  obtain ⟨p, sounds⟩ := List.exists_mem_of_ne_nil _ sounding
  exact .float (r.inFormat_beat sounds (timely r event))

/-- All numbers of the timeline of a score were given as such exactly when the tempo and the pitches were. -/
theorem isPlain_timelineOf_iff (titled : ∃ title, s.title = .text title)
    (named : ∀ part ∈ s.parts, ∃ name, part.name = .text name) :
    (s.timelineOf options meter).Each Datum.IsPlain ↔ s.IsPlain := by
  constructor
  · intro each
    refine ⟨each.heading ("tempo", .number (.whole s.tempo.numeral)) (by simp [Timeline.heading, timelineOf]), ?_⟩
    intro r event p sounds
    obtain ⟨n, member, pitch⟩ : ∃ n ∈ (s.timelineOf options meter).notes, n.pitch = .whole p.numeral :=
      exists_note event sounds
    have plain := (each.notes n member).1 n.pitch (by simp [Timeline.Note.keys])
    rwa [pitch] at plain
  · intro plain
    exact each_timelineOf titled named (fun _ => trivial) (fun _ => rfl) plain.tempo plain.pitches
      fun _ _ _ => trivial

/-- No number of the timeline of a score is too long when none of those that are listed in its fields is. -/
theorem isShort_timelineOf_iff : (s.timelineOf options meter).Each Datum.IsShort ↔ (s.timelineOf options meter).IsShort := by
  refine ⟨fun each => ⟨each.heading, each.tracks, fun n member => (each.notes n member).1⟩, fun short => ?_⟩
  refine ⟨short.heading, short.tracks, fun n member => ⟨short.notes n member, ?_⟩⟩
  obtain ⟨index, part, r, p, _, _, _, rfl⟩ := mem_notes member
  trivial

/-- A score whose title and names are texts has a YAML document of its timeline exactly when the tempo and the pitches
were given as whole numbers and no number is too long to be written. What is read from the document is the timeline, in
every field. -/
theorem yaml_round_trip {w : Workspace} (reachable : w.Reachable) {id : ScoreId} {t : Timeline}
    (listed : (w.score id).toTimeline options = .ok t) (titled : ∃ title, (w.score id).title = .text title)
    (named : ∀ part ∈ (w.score id).parts, ∃ name, part.name = .text name) :
    ((∃ text, t.toYaml = .ok text) ↔ (w.score id).IsPlain ∧ t.IsShort) ∧
      ∀ text, t.toYaml = .ok text → Timeline.ofYaml text = .ok t := by
  have valid := isValid_of_toTimeline reachable listed
  obtain ⟨counted, possible, meter, _, rfl⟩ := toTimeline_eq_ok.mp listed
  have statements : ((w.score id).timelineOf options meter).Each Datum.IsStatement :=
    isStatement_timelineOf (fun r inside => (possible r inside).2) titled named
  obtain ⟨exists_iff, read⟩ := Timeline.toYaml_spec (canonical_timelineOf _ _ _) statements valid
  refine ⟨?_, read⟩
  rw [exists_iff, Timeline.each_isSimple_iff statements, isPlain_timelineOf_iff titled named, isShort_timelineOf_iff]

/-- The score with one note whose tempo was given by a dynamic marking. -/
def markedTimeline : Timeline :=
  ((Workspace.single (.number (.whole (.marking .mf))) none).score ⟨0⟩).timelineOf .standard ""

/-- The timeline of the score with one note is read from its document. At a tempo that was given by a dynamic marking
there is no document. -/
theorem single_yaml_round_trip :
    (∃ text, singleTimeline.toYaml = .ok text ∧ Timeline.ofYaml text = .ok singleTimeline) ∧
      ¬ ∃ text, markedTimeline.toYaml = .ok text := by
  have plain : Tempo.given (.ofInt 120) = .ok ⟨.plain 120, by decide⟩ := rfl
  have marked : Tempo.given (.number (.whole (.marking .mf))) = .ok ⟨.marking .mf, by decide⟩ := rfl
  have reachable (tempo : Datum) : (Workspace.single tempo none).Reachable := Workspace.reachable_iff.mpr ⟨_, rfl⟩
  have name : ((Workspace.after Workspace.noteInPart).part ⟨0⟩).copy.name = .text "Piano" := by cbv
  have round {tempo : Datum} {own : Tempo} (given : Tempo.given tempo = .ok own) :=
    yaml_round_trip (reachable tempo) (toTimeline_single given)
      (by rw [Workspace.score_single given]; exact ⟨_, rfl⟩)
      (by rw [Workspace.score_single given]; exact List.forall_mem_singleton.mpr ⟨_, name⟩)
  constructor
  · have pitches : ((Workspace.single (.ofInt 120) none).score ⟨0⟩).events.map
        (fun r => r.event.pitches.map Pitch.numeral) = [[.plain 60]] := by cbv
    have isPlain : ((Workspace.single (.ofInt 120) none).score ⟨0⟩).IsPlain := by
      refine ⟨by rw [Workspace.score_single plain]; rfl, fun r event p sounds => ?_⟩
      have listed : r.event.pitches.map Pitch.numeral ∈ [[Numeral.plain 60]] := pitches ▸ List.mem_map_of_mem event
      have numeral : p.numeral ∈ [Numeral.plain 60] := List.mem_singleton.mp listed ▸ List.mem_map_of_mem sounds
      rw [List.mem_singleton.mp numeral]
      rfl
    obtain ⟨exists_iff, read⟩ := round plain
    obtain ⟨text, wrote⟩ := exists_iff.mpr ⟨isPlain, isShort_single⟩
    exact ⟨text, wrote, read text wrote⟩
  · intro wrote
    have tempo := ((round marked).1.mp wrote).1.tempo
    rw [Workspace.score_single marked] at tempo
    cases tempo

end MusicScore.Score
