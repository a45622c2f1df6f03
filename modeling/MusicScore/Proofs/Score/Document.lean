import MusicScore.Proofs.Midi.Ticks
import MusicScore.Proofs.Score.Refusals
import MusicScore.Proofs.Timeline.Json
import MusicScore.Proofs.Workspace.Parts

/-!
# The documents of a score

The timeline of a score is in order, and all its notes pass the checks that are made of a note, so that its document
is read back as it was written: in JSON with any indentation, where title and names are texts and no whole number is
too long to be written.
-/
namespace MusicScore

open Midi Text

/-- The start of an event that is not too late is a number of the format. -/
theorem Resolved.inFormat_beat (r : Resolved) {p : Pitch} (sounds : p ∈ r.event.pitches) (timely : ¬ r.TooLate) :
    r.beat.InFormat := by
  cases beat : Double.ofRat? r.start with
  | none => exact absurd ⟨List.ne_nil_of_mem sounds, beat⟩ timely
  | some x =>
    rw [Resolved.beat, beat]
    exact Double.inFormat_of_ofRat? beat

namespace Score

variable {s : Score} {options : Options} {meter : String} {n : Timeline.Note} {t : Timeline}

/-- A note of the timeline of a score is that of a pitch of an event of a part. -/
theorem mem_notes (member : n ∈ (s.timelineOf options meter).notes) :
    ∃ (index : Nat) (part : Part) (r : Resolved) (p : Pitch),
      s.parts[index]? = some part ∧ r ∈ part.timeline ∧ p ∈ r.event.pitches ∧
      n = r.noteOf options.ticksPerQuarter index p := by
  have unordered := (Timeline.Note.sort_perm _).mem_iff.mp member
  obtain ⟨list, inside, own⟩ := List.mem_flatten.mp unordered
  obtain ⟨⟨part, index⟩, placed, rfl⟩ := List.mem_map.mp inside
  obtain ⟨r, sounding, noted⟩ := List.mem_flatMap.mp own
  obtain ⟨p, sounds, rfl⟩ := List.mem_map.mp noted
  exact ⟨index, part, r, p, List.mem_zipIdx_iff_getElem?.mp placed, sounding, sounds, rfl⟩

/-- The timeline of a score is in order. -/
theorem canonical_timelineOf (s : Score) (options : Options) (meter : String) :
    (s.timelineOf options meter).canonical = .ok (s.timelineOf options meter) := by
  have ordered : ∀ n ∈ (s.noteLists options).flatten, n.isOrdered = true := by
    intro n member
    have inside : n ∈ (s.timelineOf options meter).notes := (Timeline.Note.sort_perm _).mem_iff.mpr member
    obtain ⟨_, _, r, p, _, _, _, rfl⟩ := mem_notes inside
    rfl
  rw [canonical_eq (s := s) rfl]
  refine congrArg Except.ok ?_
  unfold timelineOf
  dsimp only
  rw [Timeline.Note.sort_sort ordered]

/-- The notes of the timeline of a score pass the checks that are made of a note. -/
theorem isValid_of_mem_notes (counted : checkPartCount s = .ok ()) (late : ∀ r ∈ s.events, 0 ≤ r.start)
    (long : ∀ r ∈ s.events, ¬ r.TooShort options.ticksPerQuarter)
    (member : n ∈ (s.timelineOf options meter).notes) : n.IsValid := by
  obtain ⟨index, part, r, p, found, sounding, sounds, rfl⟩ := mem_notes member
  have event : r ∈ s.events := List.mem_flatMap.mpr ⟨part, List.mem_of_getElem? found, sounding⟩
  have channel := channel_le counted found
  have start := ticks_nonneg (late r event) options.inRange.1
  have forward : ticks r.start options.ticksPerQuarter < ticks r.finish options.ticksPerQuarter :=
    Int.not_le.mp fun backward => long r event ⟨List.ne_nil_of_mem sounds, backward⟩
  have velocity := r.event.velocity_le
  obtain ⟨low, high⟩ := p.inRange
  rw [Timeline.Note.isValid_iff]
  simp only [Resolved.noteOf, Timeline.Note.isFromZero, Timeline.Note.highest, Timeline.Note.channelCount,
    Number.ofInt, Number.le_whole, Number.lt_whole, Numeral.value_plain, Bool.and_eq_true]
  omega

/-- The notes of a timeline that a score has pass the checks. -/
theorem isValid_of_toTimeline {w : Workspace} (reachable : w.Reachable) {id : ScoreId}
    (listed : (w.score id).toTimeline options = .ok t) : ∀ n ∈ t.notes, n.IsValid := by
  obtain ⟨counted, possible, meter, _, rfl⟩ := toTimeline_eq_ok.mp listed
  have late : ∀ r ∈ (w.score id).events, 0 ≤ r.start := by
    intro r inside
    obtain ⟨part, member, own⟩ := List.mem_flatMap.mp inside
    obtain ⟨entry, _, rfl⟩ := List.mem_map.mp member
    exact reachable.timeline_start_nonneg entry r own
  exact fun n member => isValid_of_mem_notes counted late (fun r inside => (possible r inside).1) member

/-- All that the timeline of a score says has a form in JSON, if its title and names are texts and no number is too
long. -/
theorem isWritable_timelineOf (timely : ∀ r ∈ s.events, ¬ r.TooLate)
    (unicode : (s.timelineOf options meter).IsUnicode) (short : (s.timelineOf options meter).IsShort) :
    (s.timelineOf options meter).IsWritable := by
  have text {v : Datum} (own : v.IsUnicode) : Json.Writable 0 v := by
    obtain ⟨text, rfl⟩ := own
    exact .text text
  constructor
  case heading =>
    have numbers := short.heading
    simp only [Timeline.heading, List.forall_mem_cons] at numbers ⊢
    obtain ⟨_, _, tempo, _, _, ticksPerBeat, totalTicks, _⟩ := numbers
    exact ⟨.text _, text unicode.title, .whole tempo, .text _, .text _, .whole ticksPerBeat, .whole totalTicks, by simp⟩
  case tracks =>
    intro track member
    have numbers := short.tracks track member
    have name := unicode.names track member
    obtain ⟨⟨part, index⟩, _, rfl⟩ := List.mem_map.mp member
    simp only [Timeline.Track.IsWritable, Timeline.Track.values, List.forall_mem_cons] at numbers ⊢
    exact ⟨.whole numbers.1, .whole numbers.2.1, .text _, text name, by simp⟩
  case notes =>
    intro n member
    have numbers := short.notes n member
    obtain ⟨index, part, r, p, found, sounding, sounds, rfl⟩ := mem_notes member
    have event : r ∈ s.events := List.mem_flatMap.mpr ⟨part, List.mem_of_getElem? found, sounding⟩
    simp only [Timeline.Note.keys, List.forall_mem_cons] at numbers
    refine ⟨?_, ?_⟩
    · simp only [Timeline.Note.keys, List.forall_mem_cons]
      exact ⟨.whole numbers.1, .whole numbers.2.1, .whole numbers.2.2.1, .whole numbers.2.2.2.1,
        .whole numbers.2.2.2.2.1, by simp⟩
    · exact .float (r.inFormat_beat sounds (timely r event))

/-- A timeline whose notes pass the checks is read from its record in its order. The timeline of a score is read from
its JSON document as it is, however that is indented: in every field what is read is equal to what was written. -/
theorem json_round_trip :
    (∀ x : Timeline, (∀ track ∈ x.tracks, track.IsPlain) → (∀ n ∈ x.notes, n.IsValid) →
      (do Timeline.ofDatum (← x.toDatum)) = x.canonical) ∧
      ∀ (w : Workspace) (id : ScoreId) (options : Options) (t : Timeline) (layout : Json.Layout), w.Reachable →
        (w.score id).toTimeline options = .ok t → t.IsUnicode → t.IsShort → layout.IsBlank →
          ∃ text back, t.toJson layout = .ok text ∧ Timeline.ofJson text = .ok back ∧ back.Same t := by
  constructor
  · intro x plain valid
    exact Timeline.ofDatum_toDatum plain valid
  · intro w id options t layout reachable listed unicode short blank
    have valid := isValid_of_toTimeline reachable listed
    obtain ⟨counted, possible, meter, _, rfl⟩ := toTimeline_eq_ok.mp listed
    have writable := isWritable_timelineOf (fun r inside => (possible r inside).2) unicode short
    obtain ⟨text, wrote, read⟩ := Timeline.ofJson_toJson blank (canonical_timelineOf _ _ _) writable valid
    exact ⟨text, _, wrote, read, Timeline.kept_same writable⟩

/-- The timeline of a score with one note. -/
def singleTimeline : Timeline := ((Workspace.single (.ofInt 120) none).score ⟨0⟩).timelineOf .standard ""

/-- A score without metadata has a timeline if its parts can be counted, each event ends at a later tick than it
starts, and no event starts too late. -/
theorem toTimeline_of_spans {spans : List (Rat × Rat)} (counted : checkPartCount s = .ok ())
    (unmetered : s.metadata = none) (events : s.events.map (fun r => (r.start, r.finish)) = spans)
    (each : ∀ span ∈ spans, ¬ ticks span.2 options.ticksPerQuarter ≤ ticks span.1 options.ticksPerQuarter ∧
      ¬ Double.ofRat? span.1 = none) :
    s.toTimeline options = .ok (s.timelineOf options "") := by
  have noText : s.meterText = .ok "" := by
    unfold meterText
    rw [unmetered]
  refine toTimeline_eq_ok.mpr ⟨counted, fun r member => ?_, "", noText, rfl⟩
  obtain ⟨long, timely⟩ := each (r.start, r.finish) (events ▸ List.mem_map_of_mem member)
  exact ⟨fun short => long short.2, fun late => timely late.2⟩

/-- The score with one note has a timeline at any tempo. -/
theorem toTimeline_single {tempo : Datum} {own : Tempo} (given : Tempo.given tempo = .ok own) :
    ((Workspace.single tempo none).score ⟨0⟩).toTimeline .standard =
      .ok (((Workspace.single tempo none).score ⟨0⟩).timelineOf .standard "") := by
  have read := Workspace.score_single given none
  have events : ((Workspace.single tempo none).score ⟨0⟩).events.map (fun r => (r.start, r.finish)) = [(0, 1)] := by
    rw [read]
    cbv
  have counted : checkPartCount ((Workspace.single tempo none).score ⟨0⟩) = .ok () := by
    rw [read]
    cbv
  have unmetered : ((Workspace.single tempo none).score ⟨0⟩).metadata = none := by rw [read]
  exact toTimeline_of_spans counted unmetered events (by decide +kernel)

/-- The heading of the timeline. -/
theorem heading_single : singleTimeline.heading.map Prod.snd =
    [.text "timeline_ir/v1", .text "Single", .ofInt 120, .text "", .text "", .ofInt 960, .ofInt 960] := by cbv

/-- The fields of its track. -/
theorem values_single : ∀ track ∈ singleTimeline.tracks,
    track.values = [.ofInt 0, .ofInt 0, .text "Acoustic Grand Piano", .text "Piano"] := by
  have tracks : singleTimeline.tracks.map Timeline.Track.values =
      [[.ofInt 0, .ofInt 0, .text "Acoustic Grand Piano", .text "Piano"]] := by cbv
  exact fun track member => List.mem_singleton.mp (tracks ▸ List.mem_map_of_mem member)

/-- The numbers of its note. -/
theorem keys_single : ∀ n ∈ singleTimeline.notes, n.keys = [.ofInt 0, .ofInt 0, .ofInt 60, .ofInt 960, .ofInt 70] := by
  have notes : singleTimeline.notes.map Timeline.Note.keys =
      [[.ofInt 0, .ofInt 0, .ofInt 60, .ofInt 960, .ofInt 70]] := by cbv
  exact fun n member => List.mem_singleton.mp (notes ▸ List.mem_map_of_mem member)

/-- No number of the timeline is too long. -/
theorem isShort_single : singleTimeline.IsShort := by
  have small {n : Int} (below : n.natAbs < 10 ^ 3) : (Datum.ofInt n).IsShort :=
    Nat.lt_of_lt_of_le below (Text.pow_le_digitLimit (by decide))
  refine ⟨fun part member => ?_, fun track member v own => ?_, fun n member a own => ?_⟩
  · have value : part.2 ∈ singleTimeline.heading.map Prod.snd := List.mem_map_of_mem member
    simp only [heading_single, List.mem_cons, List.not_mem_nil, or_false] at value
    rcases value with same | same | same | same | same | same | same <;> rw [same]
    all_goals first | exact small (by decide) | trivial
  · simp only [values_single track member, List.mem_cons, List.not_mem_nil, or_false] at own
    rcases own with rfl | rfl | rfl | rfl
    all_goals first | exact small (by decide) | trivial
  · simp only [keys_single n member, List.mem_cons, List.not_mem_nil, or_false] at own
    rcases own with rfl | rfl | rfl | rfl | rfl
    all_goals exact small (by decide)

/-- The timeline of the score with one note is read as it is, both from its record and from its document. -/
theorem single_json_round_trip :
    (do Timeline.ofDatum (← singleTimeline.toDatum)) = singleTimeline.canonical ∧
      ∃ text back, singleTimeline.toJson .standard = .ok text ∧ Timeline.ofJson text = .ok back ∧
        back.Same singleTimeline := by
  have unicode : singleTimeline.IsUnicode := by
    have heading := heading_single
    simp only [Timeline.heading, List.map_cons, List.map_nil, List.cons.injEq] at heading
    obtain ⟨_, title, _⟩ := heading
    refine ⟨⟨_, title⟩, fun track member => ?_⟩
    have values := values_single track member
    simp only [Timeline.Track.values, List.cons.injEq] at values
    exact ⟨_, values.2.2.2.1⟩
  have plain : ∀ track ∈ singleTimeline.tracks, track.IsPlain := by
    intro track member v own
    simp only [values_single track member, List.mem_cons, List.not_mem_nil, or_false] at own
    rcases own with rfl | rfl | rfl | rfl <;> rfl
  have given : Tempo.given (.ofInt 120) = .ok ⟨.plain 120, by decide⟩ := rfl
  have reachable : (Workspace.single (.ofInt 120) none).Reachable := Workspace.reachable_iff.mpr ⟨_, rfl⟩
  have listed := toTimeline_single given
  have blank : Json.Layout.standard.IsBlank := by simp [Json.Layout.standard, Json.Layout.IsBlank, Json.isSpace]
  exact ⟨json_round_trip.1 singleTimeline plain (isValid_of_toTimeline reachable listed),
    json_round_trip.2 _ ⟨0⟩ .standard singleTimeline .standard reachable listed unicode isShort_single blank⟩

end Score

end MusicScore
