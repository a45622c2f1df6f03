import Mathlib
import MusicScore.Proofs.Score.Tracks
import MusicScore.Proofs.Workspace.Reachable

/-!
# The music of a file

A file plays the music of its score. In the track of a part a key is held at a tick as often as the timeline
of the part has an event that sounds it then, whatever overlaps: releases are counted against presses, and
both come from the same events. Nothing is pressed that the timeline does not have, and nothing is left out.
Time goes forward, since the strokes are in order and no event starts before beat zero; every channel message
is on the channel of the part, whose instrument is named once, before the first stroke.
-/
namespace MusicScore

open Midi

namespace Resolved

/-- What is heard of an event: each of its pitches is pressed and released. -/
def keystrokes (resolution : Int) (r : Resolved) : List Keystroke :=
  r.event.pitches.flatMap fun p =>
    [⟨ticks r.start resolution, .press, p.number, r.event.velocity⟩,
      ⟨ticks r.finish resolution, .release, p.number, 0⟩]

/-- The event has the pitch, and the tick is from its start on and before its end. -/
def soundsAt (resolution pitch tick : Int) (r : Resolved) : Bool :=
  r.event.pitches.any (·.number = pitch) && ticks r.start resolution ≤ tick &&
    tick < ticks r.finish resolution

end Resolved

namespace Part

/-- The number of events in the timeline of a part that sound a pitch at a tick. -/
def sounding (resolution pitch tick : Int) (part : Part) : Nat :=
  part.timeline.countP (Resolved.soundsAt resolution pitch tick)

/-- The tick, the pitch and the velocity of everything that is struck in the timeline of a part. -/
def presses (resolution : Int) (part : Part) : List (Int × Int × Int) :=
  part.timeline.flatMap fun r =>
    r.event.pitches.map fun p => (ticks r.start resolution, p.number, (r.event.velocity : Int))

end Part

namespace Midi

namespace Keystroke

/-- The keystroke touches the key of a pitch in the given way, at a tick or before it. -/
def touchesBy (touch : Touch) (pitch tick : Int) (k : Keystroke) : Bool :=
  k.touch = touch && k.pitch = pitch && k.tick ≤ tick

/-- The tick, the pitch and the velocity of a press. -/
def struck? (k : Keystroke) : Option (Int × Int × Int) :=
  match k.touch with
  | .press => some (k.tick, k.pitch, k.velocity)
  | .release => none

end Keystroke

namespace Track

/-- How often the key of a pitch has been pressed by a tick. -/
def pressed (pitch tick : Int) (track : Track) : Nat :=
  track.heard.countP (Keystroke.touchesBy .press pitch tick)

/-- How often the key of a pitch has been released by a tick. -/
def released (pitch tick : Int) (track : Track) : Nat :=
  track.heard.countP (Keystroke.touchesBy .release pitch tick)

/-- The tick, the pitch and the velocity of everything that a track strikes. -/
def presses (track : Track) : List (Int × Int × Int) := track.heard.filterMap Keystroke.struck?

/-- The track plays the part on the channel. -/
structure Plays (track : Track) (part : Part) (channel : Nat) (resolution : Int) : Prop where
  /-- A key is held as often as an event of the part sounds its pitch. -/
  held : ∀ pitch tick, (track.pressed pitch tick : Int) - track.released pitch tick =
    part.sounding resolution pitch tick
  /-- What is struck is what the part has, each as often as there. -/
  struck : track.presses.Perm (part.presses resolution)
  /-- Time goes forward. -/
  forward : ∀ t ∈ track, 0 ≤ t.delta
  /-- Every channel message is on the channel. -/
  onChannel : ∀ t ∈ track, ∀ c, t.message.channel? = some c → c = channel
  /-- The program is named once, before all strokes, and the track ends with its only end message. -/
  layout : ∃ opening played, track = opening ++
      ⟨0, .programChange channel part.instrument.program⟩ :: played ++ [⟨0, .endOfTrack⟩] ∧
    (∀ t ∈ opening, t.message.IsDescription) ∧ ∀ t ∈ played, t.message.IsStroke

end Track

end Midi

namespace Event

/-- The pitches of an event are in strictly ascending order. -/
theorem pitches_ascending (e : Event) : e.pitches.Pairwise (·.number < ·.number) := by
  cases e with
  | note n => exact List.pairwise_singleton _ _
  | chord c => exact c.harmony.ascending
  | rest r => exact List.Pairwise.nil

/-- No event has a pitch twice. -/
theorem countP_pitch (e : Event) (pitch : Int) :
    e.pitches.countP (·.number = pitch) = if e.pitches.any (·.number = pitch) then 1 else 0 := by
  have ascending : e.pitches.Pairwise (·.number < ·.number) := e.pitches_ascending
  generalize e.pitches = pitches at ascending ⊢
  induction pitches with
  | nil => rfl
  | cons p rest inductionHypothesis =>
    obtain ⟨below, others⟩ := List.pairwise_cons.mp ascending
    by_cases same : p.number = pitch
    · have absent : rest.countP (·.number = pitch) = 0 := by
        rw [List.countP_eq_zero]
        intro q member
        have above := below q member
        simp only [decide_eq_true_eq]
        omega
      simp [same, absent]
    · simpa [same] using inductionHypothesis others

end Event

namespace Resolved

variable {resolution : Int} {r : Resolved}

/-- The strokes of an event are heard as its keystrokes. -/
theorem map_heard_strokes (resolution : Int) (r : Resolved) :
    (r.strokes resolution).map Stroke.heard = r.keystrokes resolution := by
  simp [strokes, keystrokes, List.map_flatMap, Stroke.pair, Stroke.heard, Pitch.number]

/-- The tick at which the keys of an event are touched. -/
def touchTick (resolution : Int) (r : Resolved) : Touch → Int
  | .press => ticks r.start resolution
  | .release => ticks r.finish resolution

/-- An event touches the key of each of its pitches once in each way. -/
theorem countP_touchesBy (touch : Touch) (resolution pitch tick : Int) (r : Resolved) :
    (r.keystrokes resolution).countP (Keystroke.touchesBy touch pitch tick) =
      if r.event.pitches.any (·.number = pitch) ∧ r.touchTick resolution touch ≤ tick then 1 else 0 := by
  have pair (p : Pitch) : [Keystroke.mk (ticks r.start resolution) .press p.number r.event.velocity,
      ⟨ticks r.finish resolution, .release, p.number, 0⟩].countP (Keystroke.touchesBy touch pitch tick) =
      if p.number = pitch ∧ r.touchTick resolution touch ≤ tick then 1 else 0 := by
    cases touch with
    | press | release =>
      by_cases same : p.number = pitch <;> simp [Keystroke.touchesBy, touchTick, List.countP_cons, same]
  have each : (r.keystrokes resolution).countP (Keystroke.touchesBy touch pitch tick) =
      if r.touchTick resolution touch ≤ tick then r.event.pitches.countP (·.number = pitch) else 0 := by
    unfold keystrokes
    induction r.event.pitches with
    | nil => simp
    | cons p rest inductionHypothesis =>
      rw [List.flatMap_cons, List.countP_append, pair, inductionHypothesis, List.countP_cons]
      by_cases reached : r.touchTick resolution touch ≤ tick <;> simp [reached, Nat.add_comm]
  rw [each, Event.countP_pitch]
  by_cases reached : r.touchTick resolution touch ≤ tick <;> simp [reached]

/-- An event that is not too short holds the key of a pitch exactly while it sounds: by a tick that is not
before its end it has been pressed and released, and before its start neither. -/
theorem countP_held (long : ¬ r.TooShort resolution) (pitch tick : Int) :
    ((r.keystrokes resolution).countP (Keystroke.touchesBy .press pitch tick) : Int) -
        (r.keystrokes resolution).countP (Keystroke.touchesBy .release pitch tick) =
      if r.soundsAt resolution pitch tick then 1 else 0 := by
  rw [countP_touchesBy, countP_touchesBy]
  unfold soundsAt touchTick
  by_cases has : r.event.pitches.any (·.number = pitch)
  · have sounds : r.event.pitches ≠ [] := by
      intro silent
      simp [silent] at has
    have forward : ticks r.start resolution < ticks r.finish resolution :=
      Int.not_le.mp fun short => long ⟨sounds, short⟩
    by_cases started : ticks r.start resolution ≤ tick
    · by_cases ended : ticks r.finish resolution ≤ tick
      · simp [has, started, ended, Int.not_lt.mpr ended]
      · simp [has, started, ended, Int.not_le.mp ended]
    · have unfinished : ¬ ticks r.finish resolution ≤ tick := by omega
      simp [started, unfinished]
  · simp [has]

/-- What an event strikes. -/
theorem filterMap_struck (resolution : Int) (r : Resolved) :
    (r.keystrokes resolution).filterMap Keystroke.struck? =
      r.event.pitches.map fun p => (ticks r.start resolution, p.number, (r.event.velocity : Int)) := by
  unfold keystrokes
  rw [List.filterMap_flatMap, List.map_eq_flatMap]
  rfl

/-- Events that are not too short hold a key as often as they sound it. -/
theorem countP_held_all {timeline : List Resolved} (long : ∀ r ∈ timeline, ¬ r.TooShort resolution)
    (pitch tick : Int) :
    ((timeline.flatMap (keystrokes resolution)).countP (Keystroke.touchesBy .press pitch tick) : Int) -
        (timeline.flatMap (keystrokes resolution)).countP (Keystroke.touchesBy .release pitch tick) =
      timeline.countP (soundsAt resolution pitch tick) := by
  induction timeline with
  | nil => rfl
  | cons r rest inductionHypothesis =>
    obtain ⟨first, others⟩ := List.forall_mem_cons.mp long
    have own := countP_held first pitch tick
    have later := inductionHypothesis others
    rw [List.flatMap_cons, List.countP_append, List.countP_append, List.countP_cons]
    split at own
    next sounds =>
      rw [if_pos sounds]
      omega
    next silent =>
      rw [if_neg silent]
      omega

end Resolved

namespace Part

/-- The strokes of a part are heard as the keystrokes of its events, in another order. -/
theorem heard_strokes_perm (resolution : Int) (part : Part) :
    ((part.strokes resolution).map Stroke.heard).Perm
      (part.timeline.flatMap (Resolved.keystrokes resolution)) := by
  have sorted := (Stroke.sort_perm (part.timeline.flatMap (Resolved.strokes resolution))).map Stroke.heard
  simpa only [strokes, List.map_flatMap, Resolved.map_heard_strokes] using sorted

end Part

namespace Midi.Track

variable {part : Part} {resolution : Int} {opening : List Message} {channel : Nat}

/-- The layout of a track with the strokes of a part is heard as the events of the part. -/
theorem heard_layout_perm (describes : ∀ m ∈ opening, m.IsDescription) :
    (layout opening channel part.instrument.program (part.strokes resolution)).heard.Perm
      (part.timeline.flatMap (Resolved.keystrokes resolution)) := by
  have fits : ∀ s ∈ part.strokes resolution, s.FitsData := fun s member => Part.fitsData_of_mem_strokes member
  rw [heard_layout describes fits]
  exact part.heard_strokes_perm resolution

/-- The strokes of events that are not too short nor before beat zero go forward in time. -/
theorem ascending_strokes (positive : 0 < resolution) (long : ∀ r ∈ part.timeline, ¬ r.TooShort resolution)
    (late : ∀ r ∈ part.timeline, 0 ≤ r.start) :
    (0 :: (part.strokes resolution).map Stroke.tick).Pairwise (· ≤ ·) := by
  have fromZero : ∀ s ∈ part.strokes resolution, 0 ≤ s.tick := by
    intro s member
    obtain ⟨r, inside, own⟩ := List.mem_flatMap.mp ((Stroke.sort_perm _).mem_iff.mp member)
    exact Stroke.tick_nonneg_of_mem_strokes positive (late r inside) (long r inside) own
  refine List.pairwise_cons.mpr ⟨?_, Stroke.sort_ticks _⟩
  simpa only [List.forall_mem_map] using fromZero

/-- The layout of a track with the strokes of a part plays the part. -/
theorem plays_layout (positive : 0 < resolution) (describes : ∀ m ∈ opening, m.IsDescription)
    (long : ∀ r ∈ part.timeline, ¬ r.TooShort resolution) (late : ∀ r ∈ part.timeline, 0 ≤ r.start) :
    (layout opening channel part.instrument.program (part.strokes resolution)).Plays part channel
      resolution := by
  have heard : (layout opening channel part.instrument.program (part.strokes resolution)).heard.Perm _ :=
    heard_layout_perm describes
  have ascending := ascending_strokes positive long late
  constructor
  case held =>
    intro pitch tick
    rw [pressed, released, heard.countP_eq, heard.countP_eq, Resolved.countP_held_all long pitch tick]
    rfl
  case struck =>
    have struck := heard.filterMap Keystroke.struck?
    rw [List.filterMap_flatMap] at struck
    simp only [Resolved.filterMap_struck] at struck
    exact struck
  case forward =>
    intro t member
    rcases mem_layout member with ⟨m, _, rfl⟩ | rfl | stroke | rfl
    · exact Int.le_refl 0
    · exact Int.le_refl 0
    · exact delta_nonneg_of_mem_ofHeard ascending stroke
    · exact Int.le_refl 0
  case onChannel =>
    intro t member c own
    rcases mem_layout member with ⟨m, opens, rfl⟩ | rfl | stroke | rfl
    · rw [(describes m opens).silent.1] at own
      cases own
    · exact (Option.some.inj own).symm
    · obtain ⟨s, _, same⟩ := mem_ofHeard stroke
      rw [same, s.channel?_message channel] at own
      exact (Option.some.inj own).symm
    · cases own
  case layout =>
    refine ⟨opening.map (Timed.mk 0), ofHeard channel 0 (part.strokes resolution), by simp [layout], ?_, ?_⟩
    · simpa only [List.forall_mem_map] using describes
    · intro t member
      obtain ⟨s, _, same⟩ := mem_ofHeard member
      exact same ▸ s.isStroke_message channel

end Midi.Track

namespace Score

/-- A file plays the music of its score: there is one track for each part, and it plays the part on the
channel with the number of the part, however the events of the part overlap and however long it is. -/
theorem tracks_play_parts {w : Workspace} (reachable : w.Reachable) {id : ScoreId} {options : Options}
    {file : File} (accepted : (w.score id).toFile options = .ok file) :
    file.tracks.length = (w.score id).parts.length ∧
      ∀ (index : Nat) (part : Part), (w.score id).parts[index]? = some part →
        ∃ track : Track, file.tracks[index]? = some track ∧
          track.Plays part index options.ticksPerQuarter := by
  refine ⟨tracks_length accepted, fun index part found => ?_⟩
  obtain ⟨_, opening, opened, long, _, placed⟩ := track_of_part accepted found
  obtain ⟨entry, _, rfl⟩ := List.mem_map.mp (List.mem_of_getElem? found)
  have late := reachable.timeline_start_nonneg entry
  exact ⟨_, placed, Track.plays_layout options.inRange.1 (opening_describes opened) long late⟩

/-- A score in which a key is struck again while it is still held. -/
def overlap : Workspace :=
  let note := Workspace.middleC TimeSignature.common.barDuration
  .solo "Overlap" 60 [.trailing note (.ofInt 2), .event note]

/-- The file of that score: of the two releases of the key, none comes before both presses. -/
def overlapFile : File where
  format := 1
  ticksPerQuarter := 960
  tracks :=
    [[⟨0, .trackName "Overlap"⟩, ⟨0, .setTempo 1000000⟩, ⟨0, .programChange 0 40⟩, ⟨960, .noteOn 0 60 70⟩,
      ⟨1920, .noteOn 0 60 70⟩, ⟨1920, .noteOff 0 60 0⟩, ⟨1920, .noteOff 0 60 0⟩, ⟨0, .endOfTrack⟩]]

/-- The part of the score is the copy that was made of the part when it was put into the score. -/
theorem parts_overlap : (overlap.score ⟨0⟩).parts = [overlap.part ⟨1⟩] := by cbv

/-- The score with the overlap has this file. -/
theorem toFile_overlap : (overlap.score ⟨0⟩).toFile .standard = .ok overlapFile := by
  let part := overlap.part ⟨1⟩
  let opening : List Message := [.trackName "Overlap", .setTempo 1000000]
  have spans : (part.timeline.map fun r => (ticks r.start 960, ticks r.finish 960)) =
      [(960, 4800), (2880, 6720)] := by cbv
  have forward : ∀ span ∈ part.timeline.map fun r => (ticks r.start 960, ticks r.finish 960),
      span.1 < span.2 := spans ▸ by decide
  have long : ∀ r ∈ part.timeline, ¬ r.TooShort 960 := fun r member short =>
    Int.not_lt.mpr short.2 (forward _ (List.mem_map_of_mem member))
  have played : (part.strokes 960).map Stroke.tick = [960, 2880, 4800, 6720] := by cbv
  have gaps : Track.GapsFit 0 (part.strokes 960) := by
    unfold Track.GapsFit
    exact played ▸ by decide
  have laidOut : overlapFile.tracks =
      [Track.layout opening 0 part.instrument.program (part.strokes 960)] := by cbv
  have opened : (overlap.score ⟨0⟩).openingMessages .standard part 0 = .ok opening := by cbv
  have track := (trackOf_eq_ok (by decide)).mpr ⟨opening, opened, long, gaps, rfl⟩
  refine toFile_eq_ok.mpr ⟨by cbv, by decide +kernel, ?_, rfl, rfl⟩
  rw [parts_overlap, laidOut]
  refine Outcome.mapM_eq_ok.mpr ?_
  exact .cons track .nil

/-- The file of the score with the overlap plays its part. -/
theorem overlap_plays : ∃ track : Track, overlapFile.tracks[0]? = some track ∧
    track.Plays (overlap.part ⟨1⟩) 0 960 :=
  (tracks_play_parts (w := overlap) (Workspace.reachable_iff.mpr ⟨_, rfl⟩) toFile_overlap).2 0
    (overlap.part ⟨1⟩) (congrArg (·[0]?) parts_overlap)

end Score

end MusicScore
