import MusicScore.Proofs.Score.Files
import MusicScore.Proofs.Score.Refusals
import MusicScore.Proofs.Workspace.Parts

/-!
# What scores are refused for

A score is refused for its announcement, when a number in it has too many digits; for a title or a name that is
no text; for a meter that has no message; for a track with more bytes than a chunk can count; and otherwise for a
failure of the encoding. The order of the steps is part of each refusal: what comes before the step that is
refused was done.
-/
namespace MusicScore.Score

open Midi

variable {s : Score} {options : Options} {part : Part} {index : Nat} {fault : Fault}

/-- The step of the encoder that refuses a score with a fault, and what was done before. -/
inductive RefusedFor (s : Score) (options : Options) : Fault → Prop where
  | announcement (counted : checkPartCount s = .ok ()) (lost : ¬ (announcement s).isShown) :
      RefusedFor s options (.range .unwritable)
  | name {name : Datum} (source : name = s.title ∨ ∃ part ∈ s.parts, name = part.name)
      (noText : ∀ text, name ≠ .text text) : RefusedFor s options .noSuchMember
  | meter {m : Metadata} {title : List Message} {tempo : Message} {cause : Fault}
      (counted : checkPartCount s = .ok ()) (announced : (announcement s).isShown)
      (titled : nameMessages options s.title = .ok title) (timed : Message.ofTempo s.tempo = .ok tempo)
      (known : s.metadata = some m) (refused : Message.ofMeter m.meter = .error cause) :
      RefusedFor s options cause
  | length {file : File} (accepted : s.toFile options = .ok file) (uncounted : ¬ s.TracksCounted options) :
      RefusedFor s options .fieldWidth
  | encoding (cause : EncodingFault) : RefusedFor s options (.encoding cause)

/-- A score of which the title is a text is announced unless its tempo has too many digits. -/
theorem announcement_isShown_iff {text : String} (titled : s.title = .text text) :
    (announcement s).isShown = true ↔ s.tempo.bpm.natAbs < Text.digitLimit := by
  unfold announcement wholeText
  rw [titled]
  by_cases few : s.tempo.bpm.natAbs < Text.digitLimit
  · simp [few, Datum.plain, Shown.isShown]
  · simp [few, Shown.isShown]

/-- A score that cannot be announced is refused for a number without a text. -/
theorem toBytes_of_announcement (counted : checkPartCount s = .ok ()) (lost : ¬ (announcement s).isShown) :
    s.toBytes options = .error (.range .unwritable) := by
  refine Outcome.bind_eq_error.mpr (.inl (Outcome.bind_eq_error.mpr (.inr ⟨(), counted, ?_⟩)))
  exact Outcome.guard_eq_error.mpr (.inl ⟨by simpa using lost, rfl⟩)

/-- A score whose title and tempo have their messages is refused for its meter. -/
theorem toBytes_of_meter {m : Metadata} {title : List Message} {tempo : Message}
    (counted : checkPartCount s = .ok ()) (announced : (announcement s).isShown)
    (titled : nameMessages options s.title = .ok title) (timed : Message.ofTempo s.tempo = .ok tempo)
    (known : s.metadata = some m) (refused : Message.ofMeter m.meter = .error fault) :
    s.toBytes options = .error fault := by
  have general : generalMessages s options = .error fault := by
    have meter := metadataMessages_eq_error.mpr ⟨m, known, refused⟩
    exact generalMessages_eq_error.mpr (.inr ⟨⟨title, titled⟩, .inr ⟨⟨tempo, timed⟩, meter⟩⟩)
  have first (part : Part) : trackOf s options part 0 = .error fault := by
    refine Outcome.bind_eq_error.mpr (.inl ?_)
    rw [openingMessages_eq]
    exact Outcome.bind_eq_error.mpr (.inl general)
  refine Outcome.bind_eq_error.mpr (.inl (Outcome.bind_eq_error.mpr (.inr ⟨(), counted, ?_⟩)))
  refine Outcome.guard_eq_error.mpr (.inr ⟨by simp [announced], Outcome.bind_eq_error.mpr (.inl ?_)⟩)
  -- the meter stands in the first track, so that it is refused before any other part is looked at
  obtain ⟨part, others, parts⟩ := List.exists_cons_of_ne_nil (checkPartCount_eq_ok.mp counted).1
  rw [parts]
  exact Outcome.mapM_eq_error.mpr ⟨[], (part, 0), _, rfl, by simp, first part⟩

/-- The opening of the track of a part is refused for a name or for the meter, or else by a failure of the
encoding. -/
theorem refusedFor_of_opening (counted : checkPartCount s = .ok ()) (announced : (announcement s).isShown)
    (member : part ∈ s.parts) (refused : openingMessages s options part index = .error fault) :
    s.RefusedFor options fault := by
  have ofName {name : Datum} (source : name = s.title ∨ ∃ part ∈ s.parts, name = part.name)
      (refused : nameMessages options name = .error fault) : s.RefusedFor options fault := by
    rcases nameMessages_error refused with ⟨text, rfl⟩ | ⟨noText, rfl⟩
    · exact .encoding _
    · exact .name source noText
  rcases openingMessages_refusal refused with general | own
  · rcases generalMessages_eq_error.mp general with title | ⟨⟨_, titled⟩, slow | ⟨⟨_, timed⟩, metadata⟩⟩
    · exact ofName (.inl rfl) title
    · exact (ofTempo_eq_error.mp slow).2 ▸ .encoding _
    · obtain ⟨m, known, meter⟩ := metadataMessages_eq_error.mp metadata
      exact .meter counted announced titled timed known meter
  · exact ofName (.inr ⟨part, member, rfl⟩) own

/-- The number of parts is refused by a failure of the encoding. -/
theorem checkPartCount_error (refused : checkPartCount s = .error fault) : ∃ cause, fault = .encoding cause := by
  unfold checkPartCount at refused
  split at refused
  · exact ⟨_, (Except.error.inj refused).symm⟩
  · split at refused
    · exact ⟨_, (Except.error.inj refused).symm⟩
    · cases refused

/-- Every refusal of a score that can be made is one of the five. -/
theorem refusedFor_of_toBytes {w : Workspace} (reachable : w.Reachable) {id : ScoreId}
    (refused : (w.score id).toBytes options = .error fault) : (w.score id).RefusedFor options fault := by
  rcases Outcome.bind_eq_error.mp refused with file | ⟨file, accepted, bytes⟩
  · rcases Outcome.bind_eq_error.mp file with count | ⟨_, counted, remaining⟩
    · obtain ⟨cause, rfl⟩ := checkPartCount_error count
      exact .encoding cause
    · rcases Outcome.guard_eq_error.mp remaining with ⟨lost, rfl⟩ | ⟨shown, remaining⟩
      · exact .announcement counted (by simpa using lost)
      · rcases Outcome.bind_eq_error.mp remaining with tracks | ⟨_, _, never⟩
        · obtain ⟨before, part, after, parts, _, own⟩ := Outcome.mapM_zipIdx_eq_error tracks
          have found : (w.score id).parts[before.length]? = some part := by simp [parts]
          have highest := channel_le counted found
          rcases trackOf_error highest own with opening | ⟨_, ⟨_, _, _, _, _, _, rfl⟩ | ⟨_, rfl⟩⟩
          · exact refusedFor_of_opening counted (by simpa using shown) (by simp [parts]) opening
          · exact .encoding _
          · exact .encoding _
        · cases never
  · obtain ⟨written, only⟩ := bytes_of_toFile reachable accepted
    have uncounted : ¬ (w.score id).TracksCounted options := by
      intro counted
      obtain ⟨_, done⟩ := written.mpr counted
      cases done.symm.trans bytes
    exact only fault bytes ▸ .length accepted uncounted

end MusicScore.Score
