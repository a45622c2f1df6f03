import MusicScore.Proofs.Midi.Tempo
import MusicScore.Proofs.Score.Music

/-!
# Files without names

Titles and the names of parts are written where the settings say so. A score that has a file with them has one without
them too. Only the messages of names are missing there: the others are the same, in the same order and at the same
distances, since a name stands in the opening of a track, where no time passes. So every track is heard as before.
-/
namespace MusicScore

namespace Midi

namespace Message

/-- The message is a name. -/
def isName : Message → Bool
  | trackName _ => true
  | _ => false

/-- The messages that are no names, in their order. -/
def withoutNames (messages : List Message) : List Message := messages.filter fun m => !m.isName

/-- Messages of which none is a name are left as they are. -/
theorem withoutNames_eq_self {messages : List Message} (unnamed : ∀ m ∈ messages, m.isName = false) :
    withoutNames messages = messages := by
  apply List.filter_eq_self.mpr
  intro m member
  rw [unnamed m member, Bool.not_false]

/-- Of messages that are all names none is left. -/
theorem withoutNames_eq_nil {messages : List Message} (named : ∀ m ∈ messages, m.isName = true) :
    withoutNames messages = [] := by
  apply List.filter_eq_nil_iff.mpr
  intro m member
  simp [named m member]

/-- Names are left out of one list of messages and of the next. -/
theorem withoutNames_append (first second : List Message) :
    withoutNames (first ++ second) = withoutNames first ++ withoutNames second := List.filter_append ..

/-- A message that presses or releases a key is no name. -/
theorem IsStroke.unnamed {m : Message} (stroke : m.IsStroke) : m.isName = false := by
  cases m with
  | trackName _ => exact False.elim stroke
  | _ => rfl

end Message

namespace Track

/-- The track without the messages of names. The distances of the others stay as they are. -/
def withoutNames (track : Track) : Track := track.filter fun t => !t.message.isName

/-- A layout without names is that of the opening without names. -/
theorem layout_withoutNames (opening : List Message) (channel program : Nat) (strokes : List Stroke) :
    (layout opening channel program strokes).withoutNames =
      layout (Message.withoutNames opening) channel program strokes := by
  have played : (ofHeard channel 0 strokes).filter (fun t => !t.message.isName) = ofHeard channel 0 strokes := by
    apply List.filter_eq_self.mpr
    intro t member
    obtain ⟨s, _, same⟩ := mem_ofHeard member
    rw [same, (s.isStroke_message channel).unnamed, Bool.not_false]
  have opens : ((opening ++ [Message.programChange channel program]).map (Timed.mk 0)).filter
      (fun t => !t.message.isName) =
        (Message.withoutNames opening ++ [Message.programChange channel program]).map (Timed.mk 0) := by
    rw [List.filter_map]
    exact congrArg (List.map (Timed.mk 0)) (Message.withoutNames_append opening [.programChange channel program])
  unfold layout withoutNames
  rw [List.filter_append, List.filter_append, opens, played]
  rfl

end Track

/-- The content of a file without the messages of names. -/
def File.withoutNames (file : File) : File := { file with tracks := file.tracks.map Track.withoutNames }

/-- The settings with which no names are written. -/
def Options.withoutNames (options : Options) : Options := { options with includeTrackNames := false }

end Midi

namespace Score

open Midi

variable {s : Score} {options : Options} {part : Part} {index : Nat} {messages : List Message}

/-- A name that can be written can also be left out. -/
theorem nameMessages_withoutNames {name : Datum} (done : nameMessages options name = .ok messages) :
    nameMessages options.withoutNames name = .ok (Message.withoutNames messages) := by
  have named : ∀ m ∈ messages, m.isName = true := by
    intro m member
    obtain ⟨text, _, _, rfl⟩ := mem_nameMessages done member
    rfl
  rw [Message.withoutNames_eq_nil named]
  exact if_neg fun written => Bool.false_ne_true written.1

/-- What is known of a score is no name. -/
theorem metadata_unnamed (done : s.metadataMessages = .ok messages) : ∀ m ∈ messages, m.isName = false := by
  unfold metadataMessages at done
  split at done
  next given =>
    obtain ⟨meter, counted, same⟩ := Outcome.bind_eq_ok.mp done
    obtain ⟨_, _, _, _, rfl⟩ := ofMeter_eq_ok counted
    cases same
    simp [Message.isName]
  next =>
    cases done
    simp

/-- A tempo is no name. -/
theorem tempo_unnamed {t : Tempo} {m : Message} (done : Message.ofTempo t = .ok m) : m.isName = false := by
  obtain ⟨_, rfl⟩ := ofTempo_eq_ok.mp done
  rfl

/-- The messages about the whole score without a title are those that are no names. -/
theorem generalMessages_withoutNames (done : generalMessages s options = .ok messages) :
    generalMessages s options.withoutNames = .ok (Message.withoutNames messages) := by
  obtain ⟨title, tempo, metadata, named, timed, known, rfl⟩ := generalMessages_eq_ok.mp done
  have rest : ∀ m ∈ tempo :: metadata, m.isName = false :=
    List.forall_mem_cons.mpr ⟨tempo_unnamed timed, metadata_unnamed known⟩
  rw [Message.withoutNames_append, Message.withoutNames_eq_self rest]
  exact generalMessages_eq_ok.mpr ⟨_, tempo, metadata, nameMessages_withoutNames named, timed, known, rfl⟩

/-- What a track says about the whole score without a title is what it says apart from names. -/
theorem sharedMessages_withoutNames (done : sharedMessages s options index = .ok messages) :
    sharedMessages s options.withoutNames index = .ok (Message.withoutNames messages) := by
  unfold sharedMessages at done ⊢
  by_cases first : index = 0
  · rw [if_pos first] at done ⊢
    exact generalMessages_withoutNames done
  · rw [if_neg first] at done ⊢
    cases done
    rfl

/-- The name of its own can be left out of a track. -/
theorem ownName_withoutNames (done : ownName s options part index = .ok messages) :
    ownName s options.withoutNames part index = .ok (Message.withoutNames messages) := by
  unfold ownName at done ⊢
  by_cases titled : index = 0 ∧ s.title.isTruthy
  · rw [if_pos titled] at done ⊢
    cases done
    rfl
  · rw [if_neg titled] at done ⊢
    exact nameMessages_withoutNames done

/-- The opening of a track without names is what is no name in it. -/
theorem openingMessages_withoutNames (done : openingMessages s options part index = .ok messages) :
    openingMessages s options.withoutNames part index = .ok (Message.withoutNames messages) := by
  obtain ⟨shared, name, made, own, rfl⟩ := openingMessages_eq_ok.mp done
  rw [Message.withoutNames_append]
  exact openingMessages_eq_ok.mpr ⟨_, _, sharedMessages_withoutNames made, ownName_withoutNames own, rfl⟩

/-- A part that has a track has one without names, which is the other one with its names taken out. -/
theorem trackOf_withoutNames {track : Track} (highest : index ≤ 15)
    (made : trackOf s options part index = .ok track) :
    trackOf s options.withoutNames part index = .ok track.withoutNames := by
  obtain ⟨opening, opened, long, gaps, rfl⟩ := (trackOf_eq_ok highest).mp made
  rw [Track.layout_withoutNames]
  exact (trackOf_eq_ok highest).mpr ⟨_, openingMessages_withoutNames opened, long, gaps, rfl⟩

/-- A score that has a file has one without names as well. It is the other file with the messages of names taken out,
and every track is heard as it is with them. -/
theorem toFile_withoutNames {file : File} (accepted : s.toFile options = .ok file) :
    s.toFile options.withoutNames = .ok file.withoutNames ∧
      ∀ track ∈ file.tracks, track.withoutNames.heard = track.heard := by
  constructor
  · have each : ∀ part ∈ s.parts, ∀ index ≤ 15, ∀ track, trackOf s options part index = .ok track →
        ∃ other, trackOf s options.withoutNames part index = .ok other ∧ track.withoutNames = other :=
      fun part _ index highest track made => ⟨_, trackOf_withoutNames highest made, rfl⟩
    obtain ⟨tracks, remade, alike⟩ := toFile_relates each accepted
    have taken : file.tracks.map Track.withoutNames = tracks := by
      rw [← List.forall₂_eq_eq_eq, List.forall₂_map_left_iff]
      exact alike
    obtain ⟨_, _, _, _, resolution⟩ := toFile_eq_ok.mp accepted
    rw [remade, File.withoutNames, taken, resolution]
    rfl
  · intro track inside
    obtain ⟨index, part, opening, _, _, opened, rfl⟩ := part_of_track accepted inside
    have describes := opening_describes opened
    have fewer : ∀ m ∈ Message.withoutNames opening, m.IsDescription :=
      fun m member => describes m (List.mem_filter.mp member).1
    have fits : ∀ x ∈ part.strokes options.ticksPerQuarter, x.FitsData :=
      fun x member => Part.fitsData_of_mem_strokes member
    rw [Track.layout_withoutNames, Track.heard_layout fewer fits, Track.heard_layout describes fits]

/-- The score with the overlap has a file without its title. -/
theorem overlap_withoutNames : (overlap.score ⟨0⟩).toFile (.withoutNames .standard) = .ok overlapFile.withoutNames ∧
    ∀ track ∈ overlapFile.tracks, track.withoutNames.heard = track.heard :=
  toFile_withoutNames toFile_overlap

end Score

end MusicScore
