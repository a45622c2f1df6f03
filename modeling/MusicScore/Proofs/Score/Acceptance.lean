import MusicScore.Proofs.Score.Faults

/-!
# Scores that can be written

A score can be written exactly when it has one to sixteen parts, a tempo that a beat of three bytes of
microseconds can hold, titles and names in Latin-1 where they are written, no event that is too short, and no
distance between keystrokes that is above the greatest quantity. The distances are those between one tick at
which a key of the part is touched and the next, however the strokes are sorted. This takes for granted that the
title and the tempo have texts, that the meter has a message, and that the bytes of a track can be counted.
-/
namespace MusicScore

open Midi

/-- The fault is that an event is none, or that a number is no data byte or no channel of a message. -/
def Fault.BlamesData : Fault → Prop
  | .unknownEvent _ | .encoding (.unknownEvent _) | .encoding (.dataByte _ _) => True
  | .range .dataByte | .range .channel => True
  | _ => False

/-! ## Names -/

/-- The datum is a text in Latin-1. -/
def Datum.IsLatin1 : Datum → Prop
  | .text letters => Message.isLatin1 letters = true
  | _ => False

namespace Score

variable {s : Score} {options : Options} {part : Part} {index : Nat} {fault : Fault}

/-- A name has its message exactly when it is not to be written or is in Latin-1. -/
theorem exists_nameMessages_iff {name : Datum} :
    (∃ messages, nameMessages options name = .ok messages) ↔
      (options.includeTrackNames = true → name.isTruthy = true → name.IsLatin1) := by
  unfold nameMessages
  by_cases written : options.includeTrackNames ∧ name.isTruthy
  · have needed : (options.includeTrackNames = true → name.isTruthy = true → name.IsLatin1) ↔ name.IsLatin1 := by
      simp [written]
    rw [needed, if_pos written]
    cases name with
    | text text =>
      by_cases latin : Message.isLatin1 text <;>
        simp [Message.ofGivenName, Message.ofName, Datum.IsLatin1, latin, bind, Except.bind, pure, Except.pure]
    | _ => simp [Message.ofGivenName, Datum.IsLatin1, bind, Except.bind]
  · rw [if_neg written]
    refine iff_of_true ⟨_, rfl⟩ ?_
    intro asked truthy
    exact absurd ⟨asked, truthy⟩ written

/-- The meter of the score, where one is known, has a message. -/
def IsMetered (s : Score) : Prop := ∀ m, s.metadata = some m → ∃ message, Message.ofMeter m.meter = .ok message

/-- What is known of a score has its messages exactly when the meter has one. -/
theorem exists_metadataMessages_iff : (∃ messages, s.metadataMessages = .ok messages) ↔ s.IsMetered := by
  unfold metadataMessages IsMetered
  cases s.metadata with
  | none => simp
  | some m => simp [Message.ofMetadata, Outcome.bind_eq_ok, pure, Except.pure]

/-- The messages about a score whose meter has one are made exactly when the title and the tempo can be written. -/
theorem exists_generalMessages_iff (metered : s.IsMetered) :
    (∃ messages, generalMessages s options = .ok messages) ↔
      (options.includeTrackNames = true → s.title.isTruthy = true → s.title.IsLatin1) ∧ 4 ≤ s.tempo.bpm := by
  rw [← exists_nameMessages_iff, ← exists_ofTempo_iff]
  constructor
  · rintro ⟨_, done⟩
    obtain ⟨title, tempo, _, titled, timed, _⟩ := generalMessages_eq_ok.mp done
    exact ⟨⟨title, titled⟩, ⟨tempo, timed⟩⟩
  · rintro ⟨⟨title, titled⟩, ⟨tempo, timed⟩⟩
    obtain ⟨metadata, known⟩ := exists_metadataMessages_iff.mpr metered
    exact ⟨_, generalMessages_eq_ok.mpr ⟨title, tempo, metadata, titled, timed, known, rfl⟩⟩

/-- The opening of a track of a score whose meter has a message is made exactly when the track says what it can:
the first one the title and the tempo, and every one the name of its part, unless the title stands for it. -/
theorem exists_openingMessages_iff (metered : s.IsMetered) :
    (∃ opening, openingMessages s options part index = .ok opening) ↔
      (index = 0 → (options.includeTrackNames = true → s.title.isTruthy = true → s.title.IsLatin1) ∧
        4 ≤ s.tempo.bpm) ∧
      (¬ (index = 0 ∧ s.title.isTruthy = true) →
        options.includeTrackNames = true → part.name.isTruthy = true → part.name.IsLatin1) := by
  have shared : (∃ messages, sharedMessages s options index = .ok messages) ↔
      (index = 0 → (options.includeTrackNames = true → s.title.isTruthy = true → s.title.IsLatin1) ∧
        4 ≤ s.tempo.bpm) := by
    unfold sharedMessages
    by_cases first : index = 0
    · simpa [first] using exists_generalMessages_iff metered
    · simp [first]
  have own : (∃ messages, ownName s options part index = .ok messages) ↔
      (¬ (index = 0 ∧ s.title.isTruthy = true) →
        options.includeTrackNames = true → part.name.isTruthy = true → part.name.IsLatin1) := by
    unfold ownName
    by_cases stands : index = 0 ∧ s.title.isTruthy = true
    · simp [stands]
    · rw [if_neg stands, exists_nameMessages_iff]
      exact ⟨fun written _ => written, fun written => written stands⟩
  rw [← shared, ← own]
  constructor
  · rintro ⟨_, done⟩
    obtain ⟨first, second, made, named, _⟩ := openingMessages_eq_ok.mp done
    exact ⟨⟨first, made⟩, ⟨second, named⟩⟩
  · rintro ⟨⟨first, made⟩, ⟨second, named⟩⟩
    exact ⟨_, openingMessages_eq_ok.mpr ⟨first, second, made, named, rfl⟩⟩

end Score

/-! ## Distances -/

/-- In a list of numbers that ascend, those that follow one another are within a limit exactly when any two are
between which there is no other. -/
theorem isChain_within_iff {limit first : Int} {rest : List Int} (nonneg : 0 ≤ limit)
    (ascending : (first :: rest).Pairwise (· ≤ ·)) :
    ((first :: rest).IsChain fun earlier later => later - earlier ≤ limit) ↔
      ∀ a b, a ∈ first :: rest → b ∈ rest → a < b → (∀ c ∈ rest, c ≤ a ∨ b ≤ c) → b - a ≤ limit := by
  induction rest generalizing first with
  | nil => simp
  | cons next others inductionHypothesis =>
    obtain ⟨after, ascendingRest⟩ := List.pairwise_cons.mp ascending
    have afterNext := (List.pairwise_cons.mp ascendingRest).1
    have fromNext {b : Int} (member : b ∈ next :: others) : next ≤ b := by
      rcases List.mem_cons.mp member with rfl | later
      · exact le_refl _
      · exact afterNext b later
    rw [List.isChain_cons_cons, inductionHypothesis ascendingRest]
    constructor
    · rintro ⟨near, remaining⟩ a b fromFirst inRest before none
      have inside : a ∈ next :: others → b - a ≤ limit := by
        intro member
        have later : b ∈ others := by
          rcases List.mem_cons.mp inRest with rfl | later
          · exact absurd (fromNext member) (not_le.mpr before)
          · exact later
        exact remaining a b member later before fun c own => none c (List.mem_cons_of_mem next own)
      rcases List.mem_cons.mp fromFirst with rfl | member
      · rcases none next List.mem_cons_self with back | forward
        · have same : a = next := le_antisymm (after next List.mem_cons_self) back
          exact inside (same ▸ List.mem_cons_self)
        · exact le_antisymm forward (fromNext inRest) ▸ near
      · exact inside member
    · intro every
      constructor
      · by_cases before : first < next
        · exact every first next List.mem_cons_self List.mem_cons_self before
            fun c member => .inr (fromNext member)
        · omega
      · intro a b fromRest inOthers before none
        refine every a b (List.mem_cons_of_mem first fromRest) (List.mem_cons_of_mem next inOthers) before ?_
        intro c member
        rcases List.mem_cons.mp member with rfl | own
        · exact .inl (fromNext fromRest)
        · exact none c own

namespace Part

variable {resolution : Int} {part : Part}

/-- An event of the part presses or releases keys at the tick. -/
def Touches (resolution : Int) (part : Part) (tick : Int) : Prop :=
  ∃ r ∈ part.timeline, r.event.pitches ≠ [] ∧ (tick = ticks r.start resolution ∨ tick = ticks r.finish resolution)

/-- From one tick at which keys are touched to the next, and from the first tick of all to the first of them, it
is no further than a quantity can say. -/
def GapsFit (resolution : Int) (part : Part) : Prop :=
  ∀ earlier later, earlier = 0 ∨ part.Touches resolution earlier → part.Touches resolution later → earlier < later →
    (∀ tick, part.Touches resolution tick → tick ≤ earlier ∨ later ≤ tick) → later - earlier ≤ 0x0fffffff

/-- The ticks of the strokes of a part are those at which it touches keys. -/
theorem mem_strokes_tick {tick : Int} :
    tick ∈ (part.strokes resolution).map Stroke.tick ↔ part.Touches resolution tick := by
  unfold strokes Touches
  rw [List.mem_map]
  simp only [(Stroke.sort_perm _).mem_iff, List.mem_flatMap, Resolved.strokes]
  constructor
  · rintro ⟨stroke, ⟨r, inside, pitch, sounds, paired⟩, rfl⟩
    refine ⟨r, inside, List.ne_nil_of_mem sounds, ?_⟩
    rcases List.mem_pair.mp paired with rfl | rfl
    · exact .inl rfl
    · exact .inr rfl
  · rintro ⟨r, inside, sounds, reached⟩
    obtain ⟨pitch, member⟩ := List.exists_mem_of_ne_nil _ sounds
    rcases reached with rfl | rfl
    · exact ⟨_, ⟨r, inside, pitch, member, List.mem_cons_self⟩, rfl⟩
    · exact ⟨_, ⟨r, inside, pitch, member, List.mem_cons_of_mem _ List.mem_cons_self⟩, rfl⟩

/-- The distances of the strokes of a part fit exactly when its gaps do, if the strokes go forward in time. -/
theorem gapsFit_iff (ascending : (0 :: (part.strokes resolution).map Stroke.tick).Pairwise (· ≤ ·)) :
    Track.GapsFit 0 (part.strokes resolution) ↔ part.GapsFit resolution := by
  unfold Track.GapsFit GapsFit
  rw [isChain_within_iff (by decide) ascending]
  simp only [List.mem_cons, mem_strokes_tick, Quantity.greatest]

end Part

namespace Score

variable {w : Workspace} {id : ScoreId} {s : Score} {options : Options}

/-- What a score has to be like to be written: one to sixteen parts, a tempo of four beats in a minute or more,
titles and names in Latin-1 where they are written, events that last a tick, and gaps that a quantity can say.
The title stands for the name of the first part. -/
structure Writable (s : Score) (options : Options) : Prop where
  parts : 1 ≤ s.parts.length ∧ s.parts.length ≤ 16
  tempo : 4 ≤ s.tempo.bpm
  title : options.includeTrackNames = true → s.title.isTruthy = true → s.title.IsLatin1
  names : ∀ index part, s.parts[index]? = some part → ¬ (index = 0 ∧ s.title.isTruthy = true) →
    options.includeTrackNames = true → part.name.isTruthy = true → part.name.IsLatin1
  long : ∀ part ∈ s.parts, ∀ r ∈ part.timeline, r.event.pitches ≠ [] →
    ticks r.start options.ticksPerQuarter < ticks r.finish options.ticksPerQuarter
  gaps : ∀ part ∈ s.parts, part.GapsFit options.ticksPerQuarter

/-- A part of a score that can be made has its track exactly when its opening is made, its events last a tick and
its gaps fit. -/
theorem exists_trackOf_iff (reachable : w.Reachable) {part : Part} {index : Nat} (member : part ∈ (w.score id).parts)
    (highest : index ≤ 15) :
    (∃ track, trackOf s options part index = .ok track) ↔
      (∃ opening, openingMessages s options part index = .ok opening) ∧
        (∀ r ∈ part.timeline, r.event.pitches ≠ [] →
          ticks r.start options.ticksPerQuarter < ticks r.finish options.ticksPerQuarter) ∧
        part.GapsFit options.ticksPerQuarter := by
  have long_iff : (∀ r ∈ part.timeline, ¬ r.TooShort options.ticksPerQuarter) ↔
      ∀ r ∈ part.timeline, r.event.pitches ≠ [] →
        ticks r.start options.ticksPerQuarter < ticks r.finish options.ticksPerQuarter := by
    simp [Resolved.TooShort]
  have gaps_iff (long : ∀ r ∈ part.timeline, ¬ r.TooShort options.ticksPerQuarter) :
      Track.GapsFit 0 (part.strokes options.ticksPerQuarter) ↔ part.GapsFit options.ticksPerQuarter := by
    obtain ⟨entry, _, rfl⟩ := List.mem_map.mp member
    have late := reachable.timeline_start_nonneg entry
    exact Part.gapsFit_iff (Track.ascending_strokes options.inRange.1 long late)
  rw [← long_iff]
  constructor
  · rintro ⟨_, made⟩
    obtain ⟨opening, opened, long, gaps, _⟩ := (trackOf_eq_ok highest).mp made
    exact ⟨⟨opening, opened⟩, long, (gaps_iff long).mp gaps⟩
  · rintro ⟨⟨opening, opened⟩, long, gaps⟩
    exact ⟨_, (trackOf_eq_ok highest).mpr ⟨opening, opened, long, (gaps_iff long).mpr gaps, rfl⟩⟩

/-- A score whose title and tempo have texts has a file exactly when its parts can be counted and each has its
track. -/
theorem exists_file_iff (announced : (announcement s).isShown = true) :
    (∃ file, s.toFile options = .ok file) ↔ (s.parts ≠ [] ∧ s.parts.length ≤ 16) ∧
      ∀ index part, s.parts[index]? = some part → ∃ track, trackOf s options part index = .ok track := by
  rw [← checkPartCount_eq_ok]
  constructor
  · rintro ⟨file, accepted⟩
    obtain ⟨counted, _, made, _, _⟩ := toFile_eq_ok.mp accepted
    refine ⟨counted, ?_⟩
    intro index part found
    exact Outcome.exists_mapM_eq_ok.mp ⟨_, made⟩ (part, index) (List.mk_mem_zipIdx_iff_getElem?.mpr found)
  · rintro ⟨counted, each⟩
    obtain ⟨tracks, made⟩ := Outcome.exists_mapM_eq_ok.mpr fun (numbered : Part × Nat) member =>
      each numbered.2 numbered.1 (List.mk_mem_zipIdx_iff_getElem?.mp member)
    exact ⟨⟨1, options.ticksPerQuarter, tracks⟩, toFile_eq_ok.mpr ⟨counted, announced, made, rfl, rfl⟩⟩

/-- A score that can be made has a file exactly when it is as a score has to be, if its title and tempo have texts
and its meter has a message. -/
theorem exists_toFile_iff (reachable : w.Reachable) (announced : (announcement (w.score id)).isShown = true)
    (metered : (w.score id).IsMetered) :
    (∃ file, (w.score id).toFile options = .ok file) ↔ (w.score id).Writable options := by
  rw [exists_file_iff announced]
  constructor
  · rintro ⟨⟨some, few⟩, each⟩
    have counted := checkPartCount_eq_ok.mpr ⟨some, few⟩
    have opened (index : Nat) (part : Part) (found : (w.score id).parts[index]? = Option.some part) :=
      (exists_trackOf_iff reachable (List.mem_of_getElem? found) (channel_le counted found)).mp (each index part found)
    have nonempty : 0 < (w.score id).parts.length := List.length_pos_iff.mpr some
    have first := (exists_openingMessages_iff metered).mp (opened 0 _ (List.getElem?_eq_getElem nonempty)).1
    constructor
    case parts => exact ⟨nonempty, few⟩
    case tempo => exact (first.1 rfl).2
    case title => exact (first.1 rfl).1
    case names =>
      intro index part found
      exact ((exists_openingMessages_iff metered).mp (opened index part found).1).2
    case long =>
      intro part member
      obtain ⟨index, found⟩ := List.mem_iff_getElem?.mp member
      exact (opened index part found).2.1
    case gaps =>
      intro part member
      obtain ⟨index, found⟩ := List.mem_iff_getElem?.mp member
      exact (opened index part found).2.2
  · intro writable
    have some := List.length_pos_iff.mp writable.parts.1
    have counted := checkPartCount_eq_ok.mpr ⟨some, writable.parts.2⟩
    refine ⟨⟨some, writable.parts.2⟩, ?_⟩
    intro index part found
    have member := List.mem_of_getElem? found
    have opened : ∃ opening, openingMessages (w.score id) options part index = .ok opening :=
      (exists_openingMessages_iff metered).mpr
        ⟨fun _ => ⟨writable.title, writable.tempo⟩, writable.names index part found⟩
    exact (exists_trackOf_iff reachable member (channel_le counted found)).mpr
      ⟨opened, writable.long part member, writable.gaps part member⟩

/-- No refusal of a score that can be made is for an event or for a number of a message. -/
theorem not_blamesData {fault : Fault} (reachable : w.Reachable)
    (refused : (w.score id).toBytes options = .error fault) : ¬ fault.BlamesData := by
  rcases refusedFor_of_toBytes reachable refused with _ | _ | ⟨_, _, _, _, _, meter⟩ | _ | cause
  · exact fun blames => blames
  · exact fun blames => blames
  · rcases ofMeter_error meter with rfl | rfl | ⟨_, _, rfl⟩ <;> exact fun blames => blames
  · exact fun blames => blames
  · rcases toBytes_refused refused with count | ⟨_, overlooked | ⟨_, _, r, _, _, _, _, rfl⟩⟩
    · unfold checkPartCount at count
      repeat' split at count
      all_goals cases count
      all_goals exact fun blames => blames
    · cases cause with
      | unknownEvent _ | dataByte _ _ => exact False.elim overlooked
      | _ => exact fun blames => blames
    · exact fun blames => blames

/-- A score that can be made has bytes exactly when it is as a score has to be, if its title and tempo have texts,
its meter has a message and the bytes of its tracks can be counted. Where it is refused, no event and no number of
a message is to blame. -/
theorem toBytes_accepted_iff (reachable : w.Reachable) (announced : (announcement (w.score id)).isShown = true)
    (metered : (w.score id).IsMetered) (counted : (w.score id).TracksCounted options) :
    ((∃ bytes, (w.score id).toBytes options = .ok bytes) ↔ (w.score id).Writable options) ∧
      ∀ fault, (w.score id).toBytes options = .error fault → ¬ fault.BlamesData := by
  refine ⟨?_, fun _ => not_blamesData reachable⟩
  rw [← exists_toFile_iff reachable announced metered]
  constructor
  · rintro ⟨_, written⟩
    obtain ⟨file, accepted, _⟩ := Outcome.bind_eq_ok.mp written
    exact ⟨file, accepted⟩
  · rintro ⟨file, accepted⟩
    obtain ⟨bytes, encoded⟩ := (bytes_of_toFile reachable accepted).1.mpr counted
    exact ⟨bytes, Outcome.bind_eq_ok.mpr ⟨file, accepted, encoded⟩⟩

/-- The score with the overlap meets every condition, so that it is written. -/
theorem overlap_accepted : (overlap.score ⟨0⟩).Writable .standard ∧
    ∃ bytes, (overlap.score ⟨0⟩).toBytes .standard = .ok bytes := by
  have reachable : overlap.Reachable := Workspace.reachable_iff.mpr ⟨_, rfl⟩
  obtain ⟨_, announced, _, _, _⟩ := toFile_eq_ok.mp toFile_overlap
  have metered : (overlap.score ⟨0⟩).IsMetered := by
    have unknown : (overlap.score ⟨0⟩).metadata = none := by cbv
    intro m known
    cases unknown.symm.trans known
  have counted : (overlap.score ⟨0⟩).TracksCounted .standard := by
    have lengths : overlapFile.tracks.map (fun track => track.written.length) = [45] := by cbv
    intro file accepted track inside body written
    cases toFile_overlap.symm.trans accepted
    obtain ⟨_, rfl⟩ := Track.body_eq_ok.mp written
    have length : track.written.length ∈ [45] := lengths ▸ List.mem_map_of_mem inside
    rw [List.mem_singleton.mp length]
    decide
  have accepted := (toBytes_accepted_iff reachable announced metered counted).1
  have writable := (exists_toFile_iff reachable announced metered).mp ⟨overlapFile, toFile_overlap⟩
  exact ⟨writable, accepted.mpr writable⟩

/-- A single note is as a score has to be at every tempo from four beats in a minute on. -/
theorem writable_single {t : Tempo} (fast : 4 ≤ t.bpm) (metadata : Option Metadata) :
    Writable ⟨.text "Single", t, metadata, [((Workspace.after Workspace.noteInPart).part ⟨0⟩).copy]⟩ .standard := by
  set part := ((Workspace.after Workspace.noteInPart).part ⟨0⟩).copy with same
  have spans : part.timeline.map (fun r => (ticks r.start 960, ticks r.finish 960)) = [(0, 960)] := by cbv
  have span (r : Resolved) (inside : r ∈ part.timeline) : ticks r.start 960 = 0 ∧ ticks r.finish 960 = 960 := by
    have member : (ticks r.start 960, ticks r.finish 960) ∈ [((0 : Int), (960 : Int))] :=
      spans ▸ List.mem_map_of_mem inside
    simpa using member
  have touched (tick : Int) (touches : part.Touches 960 tick) : 0 ≤ tick ∧ tick ≤ 960 := by
    obtain ⟨r, inside, _, rfl | rfl⟩ := touches
    · rw [(span r inside).1]
      decide
    · rw [(span r inside).2]
      decide
  have latin : Message.isLatin1 "Single" = true := by decide
  have titled : (Datum.text "Single").isTruthy = true := by decide
  constructor
  case parts => exact ⟨Nat.le_refl 1, Nat.le_add_left 1 15⟩
  case tempo => exact fast
  case title => exact fun _ _ => latin
  case names =>
    intro index part found other
    cases index with
    | zero => exact absurd ⟨rfl, titled⟩ other
    | succ index => cases found
  case long =>
    intro part member r inside _
    obtain rfl := List.mem_singleton.mp member
    change ticks r.start 960 < ticks r.finish 960
    rw [(span r inside).1, (span r inside).2]
    decide
  case gaps =>
    intro part member earlier later fromZero reached _ _
    obtain rfl := List.mem_singleton.mp member
    have low : 0 ≤ earlier := fromZero.elim (fun zero => zero.ge) fun touches => (touched earlier touches).1
    have high := (touched later reached).2
    omega

/-- The key without sharps and flats. -/
def cMajor : Key := ⟨0, .major, by decide⟩

/-- A meter that is no time signature but the number three hundred: its denominator has a place in a message, and
its numerator has not. -/
def countless : Metadata := ⟨cMajor, .ofInt 300⟩

/-- A positive whole number is a tempo. -/
theorem given_ofInt {n : Int} (positive : 0 < n) : Tempo.given (.ofInt n) = .ok ⟨.plain n, positive⟩ :=
  dif_pos positive

/-- A score that is as a score has to be, and is not written: its meter has a denominator with a place in a
message, and a numerator without one. -/
theorem writable_not_accepted :
    ((Workspace.single (.ofInt 120) (some countless)).score ⟨0⟩).Writable .standard ∧
      Metadata.ratioOf countless.meter = .ok (300, 1) ∧ (∃ message, Message.ofRatio 4 1 = .ok message) ∧
      ((Workspace.single (.ofInt 120) (some countless)).score ⟨0⟩).toBytes .standard =
        .error (.range (.metaField 0 255)) := by
  have moderate : Tempo.given (.ofInt 120) = .ok .moderate := given_ofInt (by decide)
  have named : nameMessages .standard (.text "Single") = .ok [.trackName "Single"] := by cbv
  have timed : Message.ofTempo .moderate = .ok (.setTempo 500000) := by cbv
  have limited : Message.ofMeter (.ofInt 300) = .error (.range (.metaField 0 255)) := by rfl
  have few : (120 : Int).natAbs < Text.digitLimit :=
    Nat.lt_of_lt_of_le (by decide : 120 < 10 ^ 3) (Text.pow_le_digitLimit (by decide))
  have possible : ∃ message, Message.ofRatio 4 1 = .ok message := by
    have found : Logarithm.exponent? Message.greatestExponent 1 = some 0 := by decide +kernel
    refine ⟨.timeSignature 4 0, ?_⟩
    simp [Message.ofRatio, Message.greatestExponent, Message.greatestNumerator] at found ⊢
    simp [found]
  rw [Workspace.score_single moderate]
  refine ⟨writable_single (by decide) _, rfl, possible, ?_⟩
  exact toBytes_of_meter rfl ((announcement_isShown_iff rfl).mpr few) named timed rfl limited

end Score

end MusicScore
