import MusicScore.Proofs.Score.Music
import MusicScore.Proofs.Score.Notes
import MusicScore.Proofs.Timeline.Order

/-!
# The timeline and the file agree

Where a score has both a timeline and a file, they say the same. The notes of a channel are the keystrokes of
the track of that number: a note is pressed at its start and released after its duration. Both come from the
events of the part, so that neither the order of the notes, which is over all channels, nor the order of the
track matters. The length of the timeline is the last tick at which a key is touched, since no event is
released before it is pressed.
-/
namespace MusicScore

open Midi

namespace Timeline

/-- The keystrokes that a note stands for, if its numbers are whole. -/
def Note.keystrokes? (n : Note) : Option (List Keystroke) := do
  let start ← n.start.toInt?
  let pitch ← n.pitch.toInt?
  let duration ← n.duration.toInt?
  let velocity ← n.velocity.toInt?
  return [⟨start, .press, pitch, velocity⟩, ⟨start + duration, .release, pitch, 0⟩]

/-- The notes on a channel. -/
def notesOn (t : Timeline) (channel : Nat) : List Note := t.notes.filter fun n => n.channel.same (.ofInt channel)

end Timeline

namespace Resolved

/-- The note of a pitch stands for its press and its release. -/
theorem keystrokes?_noteOf (resolution : Int) (channel : Nat) (r : Resolved) (p : Pitch) :
    (r.noteOf resolution channel p).keystrokes? =
      some [⟨ticks r.start resolution, .press, p.number, r.event.velocity⟩,
        ⟨ticks r.finish resolution, .release, p.number, 0⟩] := by
  have arrives : ticks r.start resolution + (ticks r.finish resolution - ticks r.start resolution) =
      ticks r.finish resolution := by omega
  simp only [Timeline.Note.keystrokes?, noteOf, Number.toInt?, Number.ofInt, Numeral.value_plain,
    Option.bind_eq_bind, Option.bind_some, arrives]
  rfl

/-- Of the notes of an event all are on its channel. -/
theorem filter_notes (resolution : Int) (channel index : Nat) (r : Resolved) :
    (r.notes resolution channel).filter (fun n => n.channel.same (.ofInt index)) =
      if channel = index then r.notes resolution channel else [] := by
  have each : ∀ n ∈ r.notes resolution channel,
      n.channel.same (.ofInt index) = decide (channel = index) := by
    intro n member
    obtain ⟨p, _, rfl⟩ := List.mem_map.mp member
    simp only [noteOf, Number.same_ofInt, Int.natCast_inj]
  rw [List.filter_congr each]
  by_cases same : channel = index <;> simp [same]

end Resolved

/-- In a list with places, what is kept of one place is what belongs to the item there. -/
theorem flatMap_zipIdx_single {α β : Type} {xs : List α} {index start : Nat} {x : α}
    (found : xs[index]? = some x) (g : α → Nat → List β) :
    ((xs.zipIdx start).flatMap fun (y, place) => if place = start + index then g y place else []) =
      g x (start + index) := by
  induction xs generalizing index start with
  | nil => cases found
  | cons y rest inductionHypothesis =>
    rw [List.zipIdx_cons, List.flatMap_cons]
    cases index with
    | zero =>
      obtain rfl : y = x := Option.some.inj found
      have others : ((rest.zipIdx (start + 1)).flatMap fun (z, place) =>
          if place = start + 0 then g z place else []) = [] := by
        rw [List.flatMap_eq_nil_iff]
        rintro ⟨z, place⟩ member
        have later : start + 1 ≤ place := (List.mem_zipIdx member).1
        exact if_neg (by omega)
      rw [others, List.append_nil]
      exact if_pos rfl
    | succ index =>
      have further : start + (index + 1) = start + 1 + index := by omega
      have earlier : ¬ start = start + 1 + index := by omega
      rw [further, inductionHypothesis found]
      simp only [earlier, if_false, List.nil_append]

namespace Score

variable {s : Score} {options : Options} {part : Part} {index : Nat}

/-- The notes of a part are those of the timeline on its channel. -/
theorem filter_noteLists (found : s.parts[index]? = some part) :
    (s.noteLists options).flatten.filter (fun n => n.channel.same (.ofInt index)) =
      part.timeline.flatMap (Resolved.notes options.ticksPerQuarter index) := by
  have own (other : Part) (channel : Nat) :
      (other.timeline.flatMap (Resolved.notes options.ticksPerQuarter channel)).filter
          (fun n => n.channel.same (.ofInt index)) =
        if channel = 0 + index then
          other.timeline.flatMap (Resolved.notes options.ticksPerQuarter channel)
        else [] := by
    rw [List.filter_flatMap]
    simp only [Resolved.filter_notes, Nat.zero_add]
    by_cases same : channel = index <;> simp [same]
  unfold noteLists
  rw [← List.flatMap_def, List.filter_flatMap]
  simp only [own]
  rw [flatMap_zipIdx_single found fun other channel =>
    other.timeline.flatMap (Resolved.notes options.ticksPerQuarter channel), Nat.zero_add]

/-- The notes of the timeline on the channel of a part are those of its events, in another order. -/
theorem notesOn_perm (found : s.parts[index]? = some part) (meter : String) :
    ((s.timelineOf options meter).notesOn index).Perm
      (part.timeline.flatMap (Resolved.notes options.ticksPerQuarter index)) := by
  have sorted := (Timeline.Note.sort_perm (s.noteLists options).flatten).filter fun n =>
    n.channel.same (.ofInt index)
  rw [filter_noteLists found] at sorted
  exact sorted

/-- Every note of an event stands for keystrokes, and those of all its notes are those of the event. -/
theorem flatMap_keystrokes (resolution : Int) (channel : Nat) (r : Resolved) :
    (r.notes resolution channel).flatMap (fun n => n.keystrokes?.getD []) = r.keystrokes resolution := by
  simp [Resolved.notes, Resolved.keystrokes, List.flatMap_map, Resolved.keystrokes?_noteOf]

/-- The notes of events stand for the keystrokes of the events, in whatever order the notes are. -/
theorem keystrokes_of_perm {timeline : List Resolved} {resolution : Int} {channel : Nat}
    {notes : List Timeline.Note} (same : notes.Perm (timeline.flatMap (Resolved.notes resolution channel))) :
    ∃ lists, notes.mapM Timeline.Note.keystrokes? = some lists ∧
      lists.flatten.Perm (timeline.flatMap (Resolved.keystrokes resolution)) := by
  let keystrokes (n : Timeline.Note) : List Keystroke := n.keystrokes?.getD []
  have each : ∀ n ∈ notes, n.keystrokes? = some (keystrokes n) := by
    intro n member
    obtain ⟨r, _, noted⟩ := List.mem_flatMap.mp (same.mem_iff.mp member)
    obtain ⟨p, _, rfl⟩ := List.mem_map.mp noted
    simp [keystrokes, Resolved.keystrokes?_noteOf]
  have all : notes.mapM Timeline.Note.keystrokes? = some (notes.map keystrokes) := by
    clear same
    induction notes with
    | nil => rfl
    | cons n rest inductionHypothesis =>
      obtain ⟨first, others⟩ := List.forall_mem_cons.mp each
      rw [List.mapM_cons, first, inductionHypothesis others]
      rfl
  refine ⟨_, all, ?_⟩
  have expanded := same.flatMap_right keystrokes
  rw [List.flatMap_assoc] at expanded
  simp only [keystrokes, flatMap_keystrokes] at expanded
  rwa [← List.flatMap_def]

/-! ## The last tick -/

/-- A number that bounds all others from above and is one of them, or is zero where they are none below, is the
greatest. -/
theorem max?_getD_eq {ticks : List Int} {latest : Int} (nonneg : ∀ t ∈ ticks, 0 ≤ t)
    (bounded : ∀ t ∈ ticks, t ≤ latest) (attained : latest = 0 ∨ latest ∈ ticks) :
    ticks.max?.getD 0 = latest := by
  cases greatest : ticks.max? with
  | none =>
    have empty : ticks = [] := List.max?_eq_none_iff.mp greatest
    rcases attained with zero | member
    · exact zero.symm
    · simp [empty] at member
  | some m =>
    obtain ⟨member, above⟩ := List.max?_eq_some_iff.mp greatest
    have low := nonneg m member
    have high := bounded m member
    rcases attained with zero | inside
    · simp only [Option.getD_some]
      omega
    · have top := above latest inside
      simp only [Option.getD_some]
      omega

/-- The latest release is no earlier than the release of any event that sounds, and is one of them or zero. -/
theorem latestRelease_spec (options : Options) (events : List Resolved) :
    (∀ r ∈ events, r.event.pitches ≠ [] → ticks r.finish options.ticksPerQuarter ≤ latestRelease options events) ∧
      (latestRelease options events = 0 ∨ ∃ r ∈ events, r.event.pitches ≠ [] ∧
        latestRelease options events = ticks r.finish options.ticksPerQuarter) := by
  have release {r : Resolved} (sounds : r.event.pitches ≠ []) :
      latestRelease.releaseOf options r = ticks r.finish options.ticksPerQuarter := by
    simp [latestRelease.releaseOf, sounds]
  have greatest : (0 :: events.map (latestRelease.releaseOf options)).max? =
      some (latestRelease options events) := by
    rw [List.max?_cons', List.foldl_map]
    rfl
  obtain ⟨member, above⟩ := List.max?_eq_some_iff.mp greatest
  constructor
  · intro r inside sounds
    exact release sounds ▸ above _ (List.mem_cons_of_mem _ (List.mem_map_of_mem inside))
  · rcases List.mem_cons.mp member with zero | later
    · exact .inl zero
    · obtain ⟨r, inside, same⟩ := List.mem_map.mp later
      by_cases silent : r.event.pitches = []
      · exact .inl (by simp [← same, latestRelease.releaseOf, silent])
      · exact .inr ⟨r, inside, silent, by rw [← same, release silent]⟩

/-- The track of a part is heard as the events of the part. -/
theorem heard_of_part {file : File} (accepted : s.toFile options = .ok file)
    (found : s.parts[index]? = some part) :
    ∃ track, file.tracks[index]? = some track ∧
      track.heard.Perm (part.timeline.flatMap (Resolved.keystrokes options.ticksPerQuarter)) := by
  obtain ⟨_, opening, opened, _, _, placed⟩ := track_of_part accepted found
  exact ⟨_, placed, Track.heard_layout_perm (opening_describes opened)⟩

/-- What is heard of a file is what its events sound. -/
theorem mem_heard_iff {file : File} (accepted : s.toFile options = .ok file) {k : Keystroke} :
    k ∈ file.tracks.flatMap Track.heard ↔ ∃ r ∈ s.events, k ∈ r.keystrokes options.ticksPerQuarter := by
  constructor
  · intro heard
    obtain ⟨track, inside, own⟩ := List.mem_flatMap.mp heard
    obtain ⟨index, part, opening, found, _, opened, rfl⟩ := part_of_track accepted inside
    have sounds := (Track.heard_layout_perm (opening_describes opened)).mem_iff.mp own
    obtain ⟨r, sounding, struck⟩ := List.mem_flatMap.mp sounds
    exact ⟨r, List.mem_flatMap.mpr ⟨_, List.mem_of_getElem? found, sounding⟩, struck⟩
  · rintro ⟨r, inside, struck⟩
    obtain ⟨part, member, sounding⟩ := List.mem_flatMap.mp inside
    obtain ⟨index, found⟩ := List.mem_iff_getElem?.mp member
    obtain ⟨track, placed, same⟩ := heard_of_part accepted found
    have own := same.mem_iff.mpr (List.mem_flatMap.mpr ⟨r, sounding, struck⟩)
    exact List.mem_flatMap.mpr ⟨track, List.mem_of_getElem? placed, own⟩

/-- The keystrokes of an event are between its start and its end. -/
theorem tick_of_mem_keystrokes {resolution : Int} {r : Resolved} {k : Keystroke}
    (long : ¬ r.TooShort resolution) (struck : k ∈ r.keystrokes resolution) :
    r.event.pitches ≠ [] ∧ ticks r.start resolution ≤ k.tick ∧ k.tick ≤ ticks r.finish resolution := by
  obtain ⟨p, sounds, touched⟩ := List.mem_flatMap.mp struck
  have sounding : r.event.pitches ≠ [] := List.ne_nil_of_mem sounds
  have forward : ticks r.start resolution < ticks r.finish resolution :=
    Int.not_le.mp fun backward => long ⟨sounding, backward⟩
  rcases List.mem_pair.mp touched with rfl | rfl
  · exact ⟨sounding, Int.le_refl _, Int.le_of_lt forward⟩
  · exact ⟨sounding, Int.le_of_lt forward, Int.le_refl _⟩

/-- An event that sounds is released at its end. -/
theorem release_mem_keystrokes {resolution : Int} {r : Resolved} (sounds : r.event.pitches ≠ []) :
    ∃ k ∈ r.keystrokes resolution, k.tick = ticks r.finish resolution := by
  obtain ⟨p, member⟩ := List.exists_mem_of_ne_nil _ sounds
  refine ⟨⟨ticks r.finish resolution, .release, p.number, 0⟩, List.mem_flatMap.mpr ⟨p, member, ?_⟩, rfl⟩
  exact List.mem_cons_of_mem _ List.mem_cons_self

/-- The last tick of a file is the latest release of its events, where none starts before beat zero. -/
theorem lastTick_eq {file : File} (accepted : s.toFile options = .ok file)
    (long : ∀ r ∈ s.events, ¬ r.TooShort options.ticksPerQuarter) (late : ∀ r ∈ s.events, 0 ≤ r.start) :
    ((file.tracks.flatMap Track.heard).map Keystroke.tick).max?.getD 0 = latestRelease options s.events := by
  obtain ⟨latest, attained⟩ := latestRelease_spec options s.events
  refine max?_getD_eq ?_ ?_ ?_
  · rw [List.forall_mem_map]
    intro k heard
    obtain ⟨r, inside, struck⟩ := (mem_heard_iff accepted).mp heard
    have first := ticks_nonneg (late r inside) options.inRange.1
    exact Int.le_trans first (tick_of_mem_keystrokes (long r inside) struck).2.1
  · rw [List.forall_mem_map]
    intro k heard
    obtain ⟨r, inside, struck⟩ := (mem_heard_iff accepted).mp heard
    obtain ⟨sounds, _, last⟩ := tick_of_mem_keystrokes (long r inside) struck
    exact Int.le_trans last (latest r inside sounds)
  · rcases attained with zero | ⟨r, inside, sounds, same⟩
    · exact .inl zero
    · obtain ⟨k, struck, atEnd⟩ :
          ∃ k ∈ r.keystrokes options.ticksPerQuarter, k.tick = ticks r.finish options.ticksPerQuarter :=
        release_mem_keystrokes sounds
      have heard := (mem_heard_iff accepted).mpr ⟨r, inside, struck⟩
      rw [same, ← atEnd]
      exact .inr (List.mem_map_of_mem heard)

/-- A timeline and a file tell the same of a score. -/
structure Agree (t : Timeline) (file : File) (s : Score) : Prop where
  /-- The notes on the channel of a part stand for the keystrokes of its track. -/
  notes : ∀ (index : Nat) (part : Part), s.parts[index]? = some part →
    ∃ track lists, file.tracks[index]? = some track ∧
      (t.notesOn index).mapM Timeline.Note.keystrokes? = some lists ∧ lists.flatten.Perm track.heard
  /-- The tracks of the timeline have the channels and the programs of the parts. -/
  tracks : t.tracks.map (fun entry => (entry.channel, entry.program)) =
    s.parts.zipIdx.map fun (part, index) => (.ofInt index, .ofInt (part.instrument.program : Nat))
  /-- The timeline ends with the last keystroke of all tracks; without any it ends at zero. -/
  ending : t.totalTicks = .ofInt (((file.tracks.flatMap Track.heard).map Keystroke.tick).max?.getD 0)

/-- The timeline and the file of a score agree, where it has both. -/
theorem timeline_agrees {w : Workspace} (reachable : w.Reachable) {id : ScoreId} {options : Options}
    {t : Timeline} {file : File} (listed : (w.score id).toTimeline options = .ok t)
    (accepted : (w.score id).toFile options = .ok file) : Agree t file (w.score id) := by
  obtain ⟨_, possible, meter, _, rfl⟩ := toTimeline_eq_ok.mp listed
  have late : ∀ r ∈ (w.score id).events, 0 ≤ r.start := by
    intro r inside
    obtain ⟨part, member, own⟩ := List.mem_flatMap.mp inside
    obtain ⟨entry, _, rfl⟩ := List.mem_map.mp member
    exact reachable.timeline_start_nonneg entry r own
  constructor
  case notes =>
    intro index part found
    obtain ⟨track, placed, heard⟩ := heard_of_part accepted found
    obtain ⟨lists, expanded, same⟩ := keystrokes_of_perm (notesOn_perm found meter)
    exact ⟨track, lists, placed, expanded, same.trans heard.symm⟩
  case tracks =>
    simp only [timelineOf, timelineTracks, List.map_map]
    rfl
  case ending =>
    rw [lastTick_eq accepted (fun r inside => (possible r inside).1) late]
    rfl

/-- The score with the overlap has a timeline, which agrees with its file. -/
theorem overlap_agrees : (overlap.score ⟨0⟩).toTimeline .standard =
      .ok ((overlap.score ⟨0⟩).timelineOf .standard "") ∧
    Agree ((overlap.score ⟨0⟩).timelineOf .standard "") overlapFile (overlap.score ⟨0⟩) := by
  have events : (overlap.score ⟨0⟩).events = (overlap.part ⟨1⟩).timeline := by
    rw [Score.events, parts_overlap, List.flatMap_singleton]
  have found : (overlap.score ⟨0⟩).parts[0]? = some (overlap.part ⟨1⟩) := congrArg (·[0]?) parts_overlap
  obtain ⟨_, _, _, long, _⟩ := track_of_part toFile_overlap found
  have starts : (overlap.part ⟨1⟩).timeline.map Resolved.start = [1, 3] := by cbv
  have measured : ∀ start ∈ ([1, 3] : List Rat), (Double.ofRat? start).isSome = true := by decide +kernel
  have timely : ∀ r ∈ (overlap.part ⟨1⟩).timeline, ¬ r.TooLate := by
    intro r member late
    have beat := measured r.start (starts ▸ List.mem_map_of_mem member)
    simp [late.2] at beat
  have counted : checkPartCount (overlap.score ⟨0⟩) = .ok () := by cbv
  have unmetered : (overlap.score ⟨0⟩).meterText = .ok "" := by cbv
  have listed : (overlap.score ⟨0⟩).toTimeline .standard =
      .ok ((overlap.score ⟨0⟩).timelineOf .standard "") :=
    toTimeline_eq_ok.mpr ⟨counted, fun r member =>
      ⟨long r (events ▸ member), timely r (events ▸ member)⟩, "", unmetered, rfl⟩
  exact ⟨listed, timeline_agrees (Workspace.reachable_iff.mpr ⟨_, rfl⟩) listed toFile_overlap⟩

end Score

end MusicScore
