import MusicScore.Proofs.Midi.Playing
import MusicScore.Proofs.Midi.Tempo
import MusicScore.Score.Encoding

/-!
# The tracks of a score

A score that has a file has one to sixteen parts, and the file has one track for each of them, in the same
place. The track of a part opens with descriptions, of which only names, the tempo, the meter and the key can
be the subject, names the instrument of the part, and has the strokes of the timeline of the part in order.
-/
namespace MusicScore

open Midi

/-- The strokes of the timeline of a part in the order of a track. -/
def Part.strokes (resolution : Int) (part : Part) : List Stroke :=
  Stroke.sort (part.timeline.flatMap (Resolved.strokes resolution))

/-- The strokes of a part are data of messages. -/
theorem Part.fitsData_of_mem_strokes {resolution : Int} {part : Part} {s : Stroke}
    (member : s ∈ part.strokes resolution) : s.FitsData := by
  have unordered := (Stroke.sort_perm _).mem_iff.mp member
  obtain ⟨r, _, own⟩ := List.mem_flatMap.mp unordered
  exact Stroke.fitsData_of_mem_strokes own

namespace Score

variable {s : Score} {options : Options} {part : Part} {index : Nat} {fault : Fault}

/-- What the track of a part may say in its opening. -/
inductive Describes (s : Score) (part : Part) : Message → Prop where
  | name {text : String} (source : s.title = .text text ∨ part.name = .text text)
      (latin : Message.isLatin1 text = true) : Describes s part (.trackName text)
  | tempo (fits : s.tempo.microsecondsPerBeat ≤ 0xffffff) :
      Describes s part (.setTempo s.tempo.microsecondsPerBeat.toNat)
  | meter {numerator exponent : Nat} (above : numerator ≤ 255) (below : exponent ≤ 255) :
      Describes s part (.timeSignature numerator exponent)
  | key (key : Key) : Describes s part (.keySignature key)

/-- What a track opens with describes it. -/
theorem Describes.isDescription {m : Message} (describes : Describes s part m) : m.IsDescription := by
  cases describes <;> trivial

/-- A name that is written is the text it was given as, in Latin-1. -/
theorem mem_nameMessages {name : Datum} {messages : List Message} {m : Message}
    (done : nameMessages options name = .ok messages) (member : m ∈ messages) :
    ∃ text, name = .text text ∧ Message.isLatin1 text = true ∧ m = .trackName text := by
  unfold nameMessages at done
  by_cases written : options.includeTrackNames ∧ name.isTruthy
  · rw [if_pos written] at done
    obtain ⟨message, named, same⟩ := Outcome.bind_eq_ok.mp done
    cases same
    obtain rfl := List.mem_singleton.mp member
    cases name with
    | text text =>
      simp only [Message.ofGivenName, Message.ofName] at named
      by_cases latin : Message.isLatin1 text
      · rw [if_pos latin] at named
        cases named
        exact ⟨text, rfl, latin, rfl⟩
      · simp [latin] at named
    | _ => cases named
  · rw [if_neg written] at done
    cases done
    cases member

/-- The message of two numbers holds them in a byte each. -/
theorem ofRatio_eq_ok {numerator denominator : Int} {m : Message}
    (done : Message.ofRatio numerator denominator = .ok m) :
    0 ≤ numerator ∧ numerator ≤ 255 ∧ 1 ≤ denominator ∧
      denominator ≤ Nat.pow 2 Message.greatestExponent ∧
      ∃ exponent ≤ 255, m = .timeSignature numerator.toNat exponent := by
  unfold Message.ofRatio at done
  dsimp only at done
  split at done
  next => cases done
  next inner =>
    split at done
    next => cases done
    next within =>
      have above : numerator ≤ 255 := Int.not_lt.mp fun high => inner (.inr high)
      have below : denominator ≤ Nat.pow 2 Message.greatestExponent :=
        Int.not_lt.mp fun high => within (.inr high)
      cases found : Logarithm.exponent? Message.greatestExponent denominator.toNat with
      | none => simp [found] at done
      | some exponent =>
        simp only [found] at done
        cases done
        exact ⟨by omega, above, by omega, below, exponent, Logarithm.wholeUpTo?_le found, rfl⟩

/-- The message of a meter holds two bytes. -/
theorem ofMeter_eq_ok {meter : Datum} {m : Message} (done : Message.ofMeter meter = .ok m) :
    ∃ numerator exponent, numerator ≤ 255 ∧ exponent ≤ 255 ∧ m = .timeSignature numerator exponent := by
  obtain ⟨_, _, remaining⟩ := Outcome.bind_eq_ok.mp done
  obtain ⟨_, above, _, _, exponent, below, rfl⟩ := ofRatio_eq_ok remaining
  exact ⟨_, exponent, by omega, below, rfl⟩

/-! ## The opening of a track -/

/-- The messages of what is known of a score. -/
def metadataMessages (s : Score) : Except Fault (List Message) :=
  match s.metadata with
  | some m => Message.ofMetadata m
  | none => .ok []

/-- The messages about the whole score come of three steps: the title, the tempo and what is known. -/
theorem generalMessages_eq (s : Score) (options : Options) :
    generalMessages s options = (do
      let title ← nameMessages options s.title
      let tempo ← Message.ofTempo s.tempo
      let metadata ← s.metadataMessages
      return title ++ tempo :: metadata) := by
  unfold generalMessages metadataMessages
  cases s.metadata <;> rfl

/-- The messages about the whole score are made exactly when those of each step are. -/
theorem generalMessages_eq_ok {messages : List Message} : generalMessages s options = .ok messages ↔
    ∃ title tempo metadata, nameMessages options s.title = .ok title ∧ Message.ofTempo s.tempo = .ok tempo ∧
      s.metadataMessages = .ok metadata ∧ messages = title ++ tempo :: metadata := by
  rw [generalMessages_eq]
  constructor
  · intro done
    obtain ⟨title, titled, remaining⟩ := Outcome.bind_eq_ok.mp done
    obtain ⟨tempo, timed, remaining⟩ := Outcome.bind_eq_ok.mp remaining
    obtain ⟨metadata, known, same⟩ := Outcome.bind_eq_ok.mp remaining
    exact ⟨title, tempo, metadata, titled, timed, known, (Except.ok.inj same).symm⟩
  · rintro ⟨title, tempo, metadata, titled, timed, known, rfl⟩
    exact Outcome.bind_eq_ok.mpr ⟨title, titled, Outcome.bind_eq_ok.mpr ⟨tempo, timed,
      Outcome.bind_eq_ok.mpr ⟨metadata, known, rfl⟩⟩⟩

/-- The messages about the whole score are refused for the first step that is. -/
theorem generalMessages_eq_error {fault : Fault} : generalMessages s options = .error fault ↔
    nameMessages options s.title = .error fault ∨
      (∃ title, nameMessages options s.title = .ok title) ∧
        (Message.ofTempo s.tempo = .error fault ∨
          (∃ tempo, Message.ofTempo s.tempo = .ok tempo) ∧ s.metadataMessages = .error fault) := by
  simp [generalMessages_eq, Outcome.bind_eq_error, pure, Except.pure]

/-- What a track says about the whole score: everything in the first track, and nothing in the others. -/
def sharedMessages (s : Score) (options : Options) (index : Nat) : Except Fault (List Message) :=
  if index = 0 then generalMessages s options else .ok []

/-- The name that a track has of its own: that of the part, unless the title stands for it. -/
def ownName (s : Score) (options : Options) (part : Part) (index : Nat) : Except Fault (List Message) :=
  if index = 0 ∧ s.title.isTruthy then .ok [] else nameMessages options part.name

/-- The opening of a track comes of two steps: what it says about the whole score, and its own name. -/
theorem openingMessages_eq (s : Score) (options : Options) (part : Part) (index : Nat) :
    openingMessages s options part index = (do
      let shared ← sharedMessages s options index
      let name ← ownName s options part index
      return shared ++ name) := by
  unfold openingMessages sharedMessages ownName
  by_cases first : index = 0
  · by_cases titled : s.title.isTruthy <;> simp [first, titled]
  · cases nameMessages options part.name <;> simp [first, bind, Except.bind, pure, Except.pure]

/-- The opening of a track is made exactly when both of its parts are. -/
theorem openingMessages_eq_ok {messages : List Message} : openingMessages s options part index = .ok messages ↔
    ∃ shared name, sharedMessages s options index = .ok shared ∧ ownName s options part index = .ok name ∧
      messages = shared ++ name := by
  rw [openingMessages_eq]
  constructor
  · intro done
    obtain ⟨shared, made, remaining⟩ := Outcome.bind_eq_ok.mp done
    obtain ⟨name, own, same⟩ := Outcome.bind_eq_ok.mp remaining
    exact ⟨shared, name, made, own, (Except.ok.inj same).symm⟩
  · rintro ⟨shared, name, made, own, rfl⟩
    exact Outcome.bind_eq_ok.mpr ⟨shared, made, Outcome.bind_eq_ok.mpr ⟨name, own, rfl⟩⟩

/-- The opening of a track is refused for what it says about the whole score, or for the name of the part. -/
theorem openingMessages_refusal {fault : Fault} (refused : openingMessages s options part index = .error fault) :
    generalMessages s options = .error fault ∨ nameMessages options part.name = .error fault := by
  rw [openingMessages_eq] at refused
  rcases Outcome.bind_eq_error.mp refused with shared | ⟨_, _, remaining⟩
  · unfold sharedMessages at shared
    split at shared
    · exact .inl shared
    · cases shared
  · rcases Outcome.bind_eq_error.mp remaining with own | ⟨_, _, never⟩
    · unfold ownName at own
      split at own
      · cases own
      · exact .inr own
    · cases never

/-- What is known of a score describes it. -/
theorem mem_metadataMessages {messages : List Message} {m : Message}
    (done : s.metadataMessages = .ok messages) (member : m ∈ messages) : Describes s part m := by
  unfold metadataMessages at done
  split at done
  next given =>
    obtain ⟨meter, counted, same⟩ := Outcome.bind_eq_ok.mp done
    cases same
    rcases List.mem_pair.mp member with rfl | rfl
    · obtain ⟨numerator, exponent, above, below, rfl⟩ := ofMeter_eq_ok counted
      exact .meter above below
    · exact .key _
  next =>
    cases done
    cases member

/-- The messages about the whole score describe it. -/
theorem mem_generalMessages {messages : List Message} {m : Message}
    (done : generalMessages s options = .ok messages) (member : m ∈ messages) : Describes s part m := by
  obtain ⟨title, tempo, metadata, named, timed, known, rfl⟩ := generalMessages_eq_ok.mp done
  rcases List.mem_append.mp member with first | later
  · obtain ⟨text, source, latin, rfl⟩ := mem_nameMessages named first
    exact .name (.inl source) latin
  · rcases List.mem_cons.mp later with rfl | last
    · obtain ⟨fast, rfl⟩ := ofTempo_eq_ok.mp timed
      exact .tempo (Tempo.microsecondsPerBeat_le_iff.mpr fast)
    · exact mem_metadataMessages known last

/-- What a track opens with describes it. -/
theorem mem_openingMessages {messages : List Message} {m : Message}
    (done : openingMessages s options part index = .ok messages) (member : m ∈ messages) :
    Describes s part m := by
  obtain ⟨shared, name, made, own, rfl⟩ := openingMessages_eq_ok.mp done
  rcases List.mem_append.mp member with early | late
  · unfold sharedMessages at made
    split at made
    · exact mem_generalMessages made early
    · cases made
      cases early
  · unfold ownName at own
    split at own
    · cases own
      cases late
    · obtain ⟨text, source, latin, rfl⟩ := mem_nameMessages own late
      exact .name (.inr source) latin

/-- Everything that a track opens with is a description. -/
theorem opening_describes {opening : List Message} (opened : openingMessages s options part index = .ok opening) :
    ∀ m ∈ opening, m.IsDescription :=
  fun _ member => (mem_openingMessages opened member).isDescription

/-! ## Tracks and files -/

/-- A part has a track on a channel exactly when its opening can be written, no event is too short and every
distance fits; the track is then laid out with the opening, the program and the strokes of the part. -/
theorem trackOf_eq_ok {track : Track} (highest : index ≤ 15) :
    trackOf s options part index = .ok track ↔
      ∃ opening, openingMessages s options part index = .ok opening ∧
        (∀ r ∈ part.timeline, ¬ r.TooShort options.ticksPerQuarter) ∧
        Track.GapsFit 0 (part.strokes options.ticksPerQuarter) ∧
        track = Track.layout opening index part.instrument.program
          (part.strokes options.ticksPerQuarter) := by
  have greatest : (part.instrument.program : Nat) ≤ 127 := Nat.le_of_lt_succ part.instrument.program.isLt
  have fits : ∀ x ∈ part.strokes options.ticksPerQuarter, x.FitsData :=
    fun x member => Part.fitsData_of_mem_strokes member
  constructor
  · intro done
    obtain ⟨opening, opened, remaining⟩ := Outcome.bind_eq_ok.mp done
    obtain ⟨strokes, played, laidOut⟩ := Outcome.bind_eq_ok.mp remaining
    obtain ⟨long, rfl⟩ := Stroke.ofTimeline_eq_ok.mp played
    obtain ⟨gaps, rfl⟩ := (Track.ofStrokes_eq_ok fits highest greatest).mp laidOut
    exact ⟨opening, opened, long, gaps, rfl⟩
  · rintro ⟨opening, opened, long, gaps, rfl⟩
    have laidOut : Track.ofStrokes _ index (part.instrument.program : Nat) opening = .ok _ :=
      (Track.ofStrokes_eq_ok fits highest greatest).mpr ⟨gaps, rfl⟩
    exact Outcome.bind_eq_ok.mpr ⟨opening, opened, Outcome.bind_eq_ok.mpr
      ⟨_, Stroke.ofTimeline_eq_ok.mpr ⟨long, rfl⟩, laidOut⟩⟩

/-- The parts of a score are counted exactly when there are one to sixteen. -/
theorem checkPartCount_eq_ok : checkPartCount s = .ok () ↔ s.parts ≠ [] ∧ s.parts.length ≤ 16 := by
  unfold checkPartCount channelCount
  by_cases empty : s.parts = []
  · simp [empty]
  · by_cases many : 16 < s.parts.length
    · simp [empty, many, Nat.not_le.mpr many]
    · simp [empty, many, Nat.not_lt.mp many]

/-- The parts of a score that are counted have channels. -/
theorem channel_le (counted : checkPartCount s = .ok ()) (found : s.parts[index]? = some part) : index ≤ 15 := by
  obtain ⟨inside, _⟩ := List.getElem?_eq_some_iff.mp found
  have few := (checkPartCount_eq_ok.mp counted).2
  omega

/-- A score has a file exactly when its parts can be counted, its title and tempo have texts and every part
has a track; the tracks stand in the places of the parts. -/
theorem toFile_eq_ok {file : File} :
    s.toFile options = .ok file ↔
      checkPartCount s = .ok () ∧ (announcement s).isShown = true ∧
        (s.parts.zipIdx.mapM fun (part, index) => trackOf s options part index) = .ok file.tracks ∧
        file.format = 1 ∧ file.ticksPerQuarter = options.ticksPerQuarter := by
  constructor
  · intro done
    obtain ⟨_, counted, remaining⟩ := Outcome.bind_eq_ok.mp done
    obtain ⟨announced, remaining⟩ := Outcome.guard_eq_ok.mp remaining
    obtain ⟨tracks, made, same⟩ := Outcome.bind_eq_ok.mp remaining
    cases same
    exact ⟨counted, by simpa using announced, made, rfl, rfl⟩
  · rintro ⟨counted, announced, made, format, resolution⟩
    obtain ⟨_, _, _⟩ := file
    cases format
    cases resolution
    exact Outcome.bind_eq_ok.mpr ⟨(), counted, Outcome.guard_eq_ok.mpr
      ⟨by simp [announced], Outcome.bind_eq_ok.mpr ⟨_, made, rfl⟩⟩⟩

/-- A file has as many tracks as the score has parts. -/
theorem tracks_length {file : File} (accepted : s.toFile options = .ok file) :
    file.tracks.length = s.parts.length := by
  obtain ⟨_, _, made, _, _⟩ := toFile_eq_ok.mp accepted
  simpa using Outcome.mapM_length made

/-- The track in the place of a part is laid out from the part. -/
theorem track_of_part {file : File} (accepted : s.toFile options = .ok file)
    (found : s.parts[index]? = some part) :
    index ≤ 15 ∧ ∃ opening, openingMessages s options part index = .ok opening ∧
      (∀ r ∈ part.timeline, ¬ r.TooShort options.ticksPerQuarter) ∧
      Track.GapsFit 0 (part.strokes options.ticksPerQuarter) ∧
      file.tracks[index]? = some
        (Track.layout opening index part.instrument.program (part.strokes options.ticksPerQuarter)) := by
  obtain ⟨counted, _, made, _, _⟩ := toFile_eq_ok.mp accepted
  have highest := channel_le counted found
  have numbered : s.parts.zipIdx[index]? = some (part, index) := by simp [List.getElem?_zipIdx, found]
  obtain ⟨track, placed, own⟩ := Outcome.mapM_getElem? made numbered
  obtain ⟨opening, opened, long, gaps, rfl⟩ := (trackOf_eq_ok highest).mp own
  exact ⟨highest, opening, opened, long, gaps, placed⟩

/-- Every track of a file is laid out from the part in its place. -/
theorem part_of_track {file : File} (accepted : s.toFile options = .ok file) {track : Track}
    (inside : track ∈ file.tracks) :
    ∃ index part opening, s.parts[index]? = some part ∧ index ≤ 15 ∧
      openingMessages s options part index = .ok opening ∧
      track = Track.layout opening index part.instrument.program (part.strokes options.ticksPerQuarter) := by
  obtain ⟨index, placed⟩ := List.mem_iff_getElem?.mp inside
  obtain ⟨within, _⟩ := List.getElem?_eq_some_iff.mp placed
  have inRange : index < s.parts.length := tracks_length accepted ▸ within
  have found : s.parts[index]? = some s.parts[index] := List.getElem?_eq_getElem inRange
  obtain ⟨highest, opening, opened, _, _, laidOut⟩ := track_of_part accepted found
  exact ⟨index, _, opening, found, highest, opened, Option.some.inj (placed.symm.trans laidOut)⟩

/-- A score that has a file has one with other settings as well, where each of its tracks can be made with them. What is
known to hold between the tracks of each part holds between the tracks of the files. -/
theorem toFile_relates {others : Options} {related : Track → Track → Prop} {file : File}
    (each : ∀ part ∈ s.parts, ∀ index ≤ 15, ∀ track, trackOf s options part index = .ok track →
      ∃ other, trackOf s others part index = .ok other ∧ related track other)
    (accepted : s.toFile options = .ok file) :
    ∃ tracks, s.toFile others = .ok ⟨file.format, others.ticksPerQuarter, tracks⟩ ∧
      List.Forall₂ related file.tracks tracks := by
  obtain ⟨counted, announced, made, format, _⟩ := toFile_eq_ok.mp accepted
  have own : ∀ numbered ∈ s.parts.zipIdx, ∀ track, trackOf s options numbered.1 numbered.2 = .ok track →
      ∃ other, trackOf s others numbered.1 numbered.2 = .ok other ∧ related track other := by
    rintro ⟨part, index⟩ member
    have found : s.parts[index]? = some part := List.mk_mem_zipIdx_iff_getElem?.mp member
    exact each part (List.mem_of_getElem? found) index (channel_le counted found)
  obtain ⟨tracks, remade, alike⟩ := Outcome.mapM_relates own made
  exact ⟨tracks, toFile_eq_ok.mpr ⟨counted, announced, remade, format, rfl⟩, alike⟩

end Score

end MusicScore
