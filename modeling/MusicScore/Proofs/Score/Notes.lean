import MusicScore.Proofs.Midi.Strokes
import MusicScore.Proofs.Score.Tracks
import MusicScore.Proofs.Sorting
import MusicScore.Score.Timeline

/-!
# The notes of a score

The timeline of a score has a note for each pitch of each event. An event is refused when it sounds and is
shorter than one tick, and also when it sounds and starts so late that its beat is too large for binary64.
The events are looked at part by part, in the order of the timelines, and the first that is refused decides.
-/
namespace MusicScore

open Midi

namespace Resolved

/-- The event sounds, and the beat of its start is too large for binary64. -/
def TooLate (r : Resolved) : Prop := r.event.pitches ≠ [] ∧ Double.ofRat? r.start = none

/-- The beat of the start of an event; zero for one that is too late. -/
def beat (r : Resolved) : Double := (Double.ofRat? r.start).getD (.finite 0)

/-- The note of a pitch of an event on a channel. -/
def noteOf (resolution : Int) (channel : Nat) (r : Resolved) (p : Pitch) : Timeline.Note :=
  { start := .ofInt (ticks r.start resolution)
    channel := .ofInt channel
    pitch := .whole p.numeral
    duration := .ofInt (ticks r.finish resolution - ticks r.start resolution)
    velocity := .ofInt r.event.velocity
    beat := .number (.float r.beat) }

/-- The notes of an event on a channel. -/
def notes (resolution : Int) (channel : Nat) (r : Resolved) : List Timeline.Note :=
  r.event.pitches.map (r.noteOf resolution channel)

end Resolved

namespace Score

variable {s : Score} {options : Options} {part : Part} {channel : Nat} {r : Resolved} {fault : Fault}

/-- All events of a score, part by part. -/
def events (s : Score) : List Resolved := s.parts.flatMap Part.timeline

/-- The strokes of an event are the pairs of its notes. -/
theorem notesOfPairs_strokes (resolution : Int) (channel : Nat) (r : Resolved) :
    notesOfPairs channel r.beat (r.strokes resolution) = r.notes resolution channel := by
  unfold Resolved.strokes Resolved.notes
  induction r.event.pitches with
  | nil => rfl
  | cons p rest inductionHypothesis =>
    rw [List.flatMap_cons, List.map_cons, ← inductionHypothesis]
    rfl

/-- An event without pitches has no strokes. -/
theorem strokes_isEmpty {resolution : Int} : (r.strokes resolution).isEmpty = true ↔ r.event.pitches = [] := by
  cases known : r.event.pitches with
  | nil => simp [Resolved.strokes, known]
  | cons p rest => simp [Resolved.strokes, known, Stroke.pair]

/-- An event that is too short is refused as it is for a file. -/
theorem notesOfEvent_of_short (short : r.TooShort options.ticksPerQuarter) :
    notesOfEvent options channel r = .error (.encoding (r.shortness options.ticksPerQuarter)) :=
  Outcome.bind_eq_error.mpr (.inl (Stroke.ofResolved_of_short short))

/-- An event that is too late is refused, if it is long enough. -/
theorem notesOfEvent_of_late (long : ¬ r.TooShort options.ticksPerQuarter) (late : r.TooLate) :
    notesOfEvent options channel r = .error .overflow := by
  have sounds : ¬ (r.strokes options.ticksPerQuarter).isEmpty = true := fun empty =>
    late.1 (strokes_isEmpty.mp empty)
  refine Outcome.bind_eq_error.mpr (.inr ⟨_, Stroke.ofResolved_of_long long, ?_⟩)
  simp only [sounds, late.2, Bool.false_eq_true, if_false]

/-- Any other event has its notes. -/
theorem notesOfEvent_of_timely (long : ¬ r.TooShort options.ticksPerQuarter) (timely : ¬ r.TooLate) :
    notesOfEvent options channel r = .ok (r.notes options.ticksPerQuarter channel) := by
  refine Outcome.bind_eq_ok.mpr ⟨_, Stroke.ofResolved_of_long long, ?_⟩
  by_cases silent : r.event.pitches = []
  · simp [strokes_isEmpty.mpr silent, Resolved.notes, silent, pure, Except.pure]
  · have sounds : ¬ (r.strokes options.ticksPerQuarter).isEmpty = true := fun empty =>
      silent (strokes_isEmpty.mp empty)
    cases beat : Double.ofRat? r.start with
    | none => exact absurd ⟨silent, beat⟩ timely
    | some x =>
      have same : r.beat = x := by simp [Resolved.beat, beat]
      simp only [sounds, Bool.false_eq_true, if_false, ← same, notesOfPairs_strokes]
      rfl

/-- An event has notes exactly when it is neither too short nor too late. -/
theorem notesOfEvent_eq_ok {notes : List Timeline.Note} :
    notesOfEvent options channel r = .ok notes ↔
      (¬ r.TooShort options.ticksPerQuarter ∧ ¬ r.TooLate) ∧ notes = r.notes options.ticksPerQuarter channel := by
  by_cases short : r.TooShort options.ticksPerQuarter
  · simp [notesOfEvent_of_short short, short]
  · by_cases late : r.TooLate
    · simp [notesOfEvent_of_late short late, late]
    · simp [notesOfEvent_of_timely short late, short, late, eq_comm]

/-- An event is refused when it is too short, or else when it is too late. -/
theorem notesOfEvent_eq_error :
    notesOfEvent options channel r = .error fault ↔
      r.TooShort options.ticksPerQuarter ∧ fault = .encoding (r.shortness options.ticksPerQuarter) ∨
        (¬ r.TooShort options.ticksPerQuarter ∧ r.TooLate) ∧ fault = .overflow := by
  by_cases short : r.TooShort options.ticksPerQuarter
  · simp [notesOfEvent_of_short short, short, eq_comm]
  · by_cases late : r.TooLate
    · simp [notesOfEvent_of_late short late, short, late, eq_comm]
    · simp [notesOfEvent_of_timely short late, short, late]

/-! ## All notes -/

/-- A part has notes exactly when each of its events has, and they are those of the events in order. -/
theorem notesOfPart_eq_ok {notes : List Timeline.Note} :
    notesOfPart options part channel = .ok notes ↔
      (∀ r ∈ part.timeline, ¬ r.TooShort options.ticksPerQuarter ∧ ¬ r.TooLate) ∧
        notes = part.timeline.flatMap (Resolved.notes options.ticksPerQuarter channel) := by
  unfold notesOfPart
  rw [Outcome.bind_eq_ok]
  simp only [Outcome.mapM_eq_ok_map notesOfEvent_eq_ok, List.flatMap_def]
  constructor
  · rintro ⟨_, ⟨possible, rfl⟩, same⟩
    cases same
    exact ⟨possible, rfl⟩
  · rintro ⟨possible, rfl⟩
    exact ⟨_, ⟨possible, rfl⟩, rfl⟩

/-- A part is refused at the first event without notes, with the fault of that event. -/
theorem notesOfPart_eq_error (refused : notesOfPart options part channel = .error fault) :
    ∃ done r rest, part.timeline = done ++ r :: rest ∧
      (∀ d ∈ done, ¬ d.TooShort options.ticksPerQuarter ∧ ¬ d.TooLate) ∧
        notesOfEvent options channel r = .error fault := by
  rcases Outcome.bind_eq_error.mp refused with event | ⟨_, _, never⟩
  · obtain ⟨done, r, rest, split, earlier, fault⟩ := Outcome.mapM_eq_error.mp event
    refine ⟨done, r, rest, split, fun d member => ?_, fault⟩
    obtain ⟨_, made⟩ := earlier d member
    exact (notesOfEvent_eq_ok.mp made).1
  · cases never

/-- An event of a part is an event of the score; what holds of all events before the part and of all before
the event in the part holds of all before the event in the score. -/
theorem events_split {before after : List Part} {done rest : List Resolved} {possible : Resolved → Prop}
    (parts : s.parts = before ++ part :: after) (timeline : part.timeline = done ++ r :: rest)
    (elsewhere : ∀ (index : Nat) (other : Part), before[index]? = some other → ∀ d ∈ other.timeline, possible d)
    (here : ∀ d ∈ done, possible d) :
    ∃ done rest, s.events = done ++ r :: rest ∧ ∀ d ∈ done, possible d := by
  refine ⟨before.flatMap Part.timeline ++ done, rest ++ after.flatMap Part.timeline, ?_, ?_⟩
  · simp [events, parts, timeline]
  · intro d member
    rcases List.mem_append.mp member with early | late
    · obtain ⟨other, inside, own⟩ := List.mem_flatMap.mp early
      obtain ⟨index, found⟩ := List.mem_iff_getElem?.mp inside
      exact elsewhere index other found d own
    · exact here d late

/-- The notes of all parts, one list for each part. -/
def noteLists (s : Score) (options : Options) : List (List Timeline.Note) :=
  s.parts.zipIdx.map fun (part, index) => part.timeline.flatMap (Resolved.notes options.ticksPerQuarter index)

/-- The parts have notes exactly when every event of the score has. -/
theorem mapM_notesOfPart_eq_ok {lists : List (List Timeline.Note)} :
    (s.parts.zipIdx.mapM fun (part, index) => notesOfPart options part index) = .ok lists ↔
      (∀ r ∈ s.events, ¬ r.TooShort options.ticksPerQuarter ∧ ¬ r.TooLate) ∧ lists = s.noteLists options := by
  have everywhere : (∀ numbered ∈ s.parts.zipIdx, ∀ r ∈ numbered.1.timeline,
      ¬ r.TooShort options.ticksPerQuarter ∧ ¬ r.TooLate) ↔
      ∀ r ∈ s.events, ¬ r.TooShort options.ticksPerQuarter ∧ ¬ r.TooLate := by
    conv_rhs => rw [events, ← List.zipIdx_map_fst 0 s.parts]
    simp only [List.forall_mem_flatMap, List.forall_mem_map]
  rw [Outcome.mapM_eq_ok_map fun {_ _} => notesOfPart_eq_ok, everywhere]
  rfl

/-- The parts are refused at the first event of the score without notes, with the fault of that event. -/
theorem mapM_notesOfPart_eq_error
    (refused : (s.parts.zipIdx.mapM fun (part, index) => notesOfPart options part index) = .error fault) :
    ∃ done r rest, s.events = done ++ r :: rest ∧
      (∀ d ∈ done, ¬ d.TooShort options.ticksPerQuarter ∧ ¬ d.TooLate) ∧
        ∃ channel, notesOfEvent options channel r = .error fault := by
  obtain ⟨before, part, after, parts, earlier, own⟩ := Outcome.mapM_zipIdx_eq_error refused
  obtain ⟨done, r, rest, timeline, possible, event⟩ := notesOfPart_eq_error own
  obtain ⟨all, remaining, split, each⟩ := events_split parts timeline
    (fun index other found => by
      obtain ⟨_, made⟩ := earlier index other found
      exact (notesOfPart_eq_ok.mp made).1)
    possible
  exact ⟨all, r, remaining, split, each, _, event⟩

/-! ## Timelines -/

/-- One whole number comes before another when it is smaller. -/
theorem before_ofInt (m n : Int) : (Datum.ofInt m).before (.ofInt n) = .ok (decide (m < n)) := by
  simp [Datum.before, Datum.holds, Datum.ofInt, Relation.ofNumbers]

/-- What the timeline of a score says of its parts. -/
def timelineTracks (s : Score) : List Timeline.Track :=
  s.parts.zipIdx.map fun (part, index) => timelineTrack part index

/-- The tracks of a score are in the order of their channels. -/
theorem sort_timelineTracks (s : Score) : Timeline.Track.sort s.timelineTracks = .ok s.timelineTracks := by
  refine Sorting.sort_of_ordered (List.isChain_iff_getElem.mpr fun index inside => ?_)
  have backward : ¬ ((index + 1 : Nat) : Int) < index := by omega
  simp only [timelineTracks, timelineTrack, List.getElem_map, List.getElem_zipIdx, Nat.zero_add, before_ofInt,
    backward, decide_false]

/-- The text of the meter of a score; empty when it is not known. -/
def meterText (s : Score) : Except Fault String :=
  match s.metadata with
  | some m => m.meter.plain.read
  | none => .ok ""

/-- The timeline of a score whose events have notes. -/
def timelineOf (s : Score) (options : Options) (meter : String) : Timeline :=
  { version := .text Timeline.currentVersion
    title := s.title
    tempo := .number (.whole s.tempo.numeral)
    key := .text ((s.metadata.map (·.key.name)).getD "")
    timeSignature := .text meter
    ticksPerBeat := .ofInt options.ticksPerQuarter
    totalTicks := .ofInt (latestRelease options s.events)
    tracks := s.timelineTracks
    notes := Timeline.Note.sort (s.noteLists options).flatten }

/-- A timeline with the tracks of a score has an order. -/
theorem canonical_eq {t : Timeline} (tracks : t.tracks = s.timelineTracks) :
    t.canonical = .ok { t with notes := Timeline.Note.sort t.notes } :=
  Outcome.bind_eq_ok.mpr ⟨t.tracks, tracks ▸ s.sort_timelineTracks, rfl⟩

/-- A timeline comes of three steps, any of which may be refused: counting the parts, writing the meter and
listing the notes. -/
theorem toTimeline_eq (s : Score) (options : Options) :
    s.toTimeline options = (do
      checkPartCount s
      let meter ← s.meterText
      let lists ← s.parts.zipIdx.mapM fun (part, index) => notesOfPart options part index
      return { s.timelineOf options meter with notes := Timeline.Note.sort lists.flatten }) := by
  have last (meter : String) (lists : List (List Timeline.Note)) :
      Timeline.canonical { s.timelineOf options meter with notes := lists.flatten } =
        .ok { s.timelineOf options meter with notes := Timeline.Note.sort lists.flatten } := canonical_eq rfl
  unfold toTimeline meterText
  refine bind_congr fun _ => ?_
  cases known : s.metadata with
  | none | some m =>
    refine bind_congr fun meter => bind_congr fun lists => ?_
    refine Eq.trans ?_ (last meter lists)
    simp only [timelineOf, known]
    rfl

/-- A score has a timeline exactly when its parts can be counted, its meter has a text and all its events have
notes. -/
theorem toTimeline_eq_ok {t : Timeline} :
    s.toTimeline options = .ok t ↔
      checkPartCount s = .ok () ∧ (∀ r ∈ s.events, ¬ r.TooShort options.ticksPerQuarter ∧ ¬ r.TooLate) ∧
        ∃ meter, s.meterText = .ok meter ∧ t = s.timelineOf options meter := by
  constructor
  · intro done
    rw [toTimeline_eq] at done
    obtain ⟨_, counted, remaining⟩ := Outcome.bind_eq_ok.mp done
    obtain ⟨meter, shown, remaining⟩ := Outcome.bind_eq_ok.mp remaining
    obtain ⟨lists, made, same⟩ := Outcome.bind_eq_ok.mp remaining
    obtain ⟨possible, rfl⟩ := mapM_notesOfPart_eq_ok.mp made
    cases same
    exact ⟨counted, possible, meter, shown, rfl⟩
  · rintro ⟨counted, possible, meter, shown, rfl⟩
    rw [toTimeline_eq]
    refine Outcome.bind_eq_ok.mpr ⟨(), counted, Outcome.bind_eq_ok.mpr ⟨meter, shown, ?_⟩⟩
    exact Outcome.bind_eq_ok.mpr ⟨_, mapM_notesOfPart_eq_ok.mpr ⟨possible, rfl⟩, rfl⟩

/-- A score without a timeline cannot be counted, or else its meter has no text, or else an event has no
notes. -/
theorem toTimeline_eq_error :
    s.toTimeline options = .error fault ↔
      checkPartCount s = .error fault ∨ checkPartCount s = .ok () ∧
        (s.meterText = .error fault ∨ (∃ meter, s.meterText = .ok meter) ∧
          (s.parts.zipIdx.mapM fun (part, index) => notesOfPart options part index) = .error fault) := by
  rw [toTimeline_eq]
  simp only [Outcome.bind_eq_error, pure, Except.pure, reduceCtorEq, and_false, exists_false, or_false,
    exists_and_right, Unique.exists_iff]

end Score

end MusicScore
