import MusicScore.Proofs.Fault
import MusicScore.Proofs.Score.Acceptance

/-!
# Faults that are no failures of the encoding

Whoever writes a score is told to expect bytes or a failure of the encoding. Where the title and the names are
texts, something else comes out in four cases, and in no other: the tempo has too many digits to be announced, the
meter has no message, the failure has no text of its own as a number in it has too many digits, or a track has more
bytes than a chunk can count.
-/
namespace MusicScore

open Midi

namespace Score

variable {w : Workspace} {id : ScoreId} {s : Score} {options : Options}

/-- What makes the encoder fail with a fault that is no failure of the encoding. -/
inductive Escapes (s : Score) (options : Options) : Prop where
  /-- The tempo has too many digits for the line that announces the score. -/
  | tempo (parts : 1 ≤ s.parts.length ∧ s.parts.length ≤ 16) (long : Text.digitLimit ≤ s.tempo.bpm)
  /-- The meter has no message, and nothing before it is refused. -/
  | meter {m : Metadata} (parts : 1 ≤ s.parts.length ∧ s.parts.length ≤ 16) (short : s.tempo.bpm < Text.digitLimit)
      (title : options.includeTrackNames = true → s.title.isTruthy = true → s.title.IsLatin1)
      (fast : 4 ≤ s.tempo.bpm) (known : s.metadata = some m)
      (refused : ∀ message, Message.ofMeter m.meter ≠ .ok message)
  /-- There is a failure of the encoding, and a number in its text has too many digits. -/
  | message {cause : EncodingFault} (refused : s.toBytes options = .error (.encoding cause))
      (lost : cause.message = .lost)
  /-- The score has a file, and a track of it has more bytes than a chunk can count. -/
  | length {file : File} (accepted : s.toFile options = .ok file) (uncounted : ¬ s.TracksCounted options)

/-- The parts of a score can be counted when there are one to sixteen. -/
theorem counted_iff : checkPartCount s = .ok () ↔ 1 ≤ s.parts.length ∧ s.parts.length ≤ 16 := by
  rw [checkPartCount_eq_ok, ← List.length_pos_iff]
  rfl

/-- What is refused with a fault that is no failure of the encoding is one of the four cases. -/
theorem escapes_of_refused (reachable : w.Reachable) {title : String} (titled : (w.score id).title = .text title)
    (named : ∀ part ∈ (w.score id).parts, ∃ name, part.name = .text name) {fault : Fault}
    (refused : (w.score id).toBytes options = .error fault) (escaped : ¬ fault.IsEncoding) :
    (w.score id).Escapes options := by
  have shown_iff := announcement_isShown_iff titled
  have positive : 0 < (w.score id).tempo.bpm := (w.score id).tempo.positive
  rcases refusedFor_of_toBytes reachable refused with
    ⟨counted, lost⟩ | ⟨source, noText⟩ | ⟨counted, announced, first, timed, known, meter⟩ |
      ⟨accepted, uncounted⟩ | cause
  · rw [shown_iff] at lost
    exact .tempo (counted_iff.mp counted) (by omega)
  · rcases source with rfl | ⟨part, member, rfl⟩
    · exact absurd titled (noText title)
    · obtain ⟨name, own⟩ := named part member
      exact absurd own (noText name)
  · rw [shown_iff] at announced
    refine .meter (counted_iff.mp counted) (by omega) (exists_nameMessages_iff.mp ⟨_, first⟩)
      (exists_ofTempo_iff.mp ⟨_, timed⟩) known ?_
    intro message made
    cases made.symm.trans meter
  · exact .length accepted uncounted
  · refine .message refused ?_
    by_contra shown
    exact escaped (Fault.isEncoding_iff.mpr ⟨cause, rfl, shown⟩)

/-- In each of the four cases the encoder fails, with a fault that is no failure of the encoding. -/
theorem Escapes.exists_fault (escapes : (w.score id).Escapes options) (reachable : w.Reachable) {title : String}
    (titled : (w.score id).title = .text title) :
    ∃ fault, (w.score id).toBytes options = .error fault ∧ ¬ fault.IsEncoding := by
  have shown_iff := announcement_isShown_iff titled
  have positive : 0 < (w.score id).tempo.bpm := (w.score id).tempo.positive
  cases escapes with
  | tempo parts long =>
    have lost : ¬ (announcement (w.score id)).isShown := by
      rw [shown_iff]
      omega
    exact ⟨_, toBytes_of_announcement (counted_iff.mpr parts) lost, Fault.not_isEncoding (by simp)⟩
  | @meter m parts short latin fast known refused =>
    obtain ⟨first, written⟩ := exists_nameMessages_iff.mpr latin
    obtain ⟨tempo, timed⟩ := exists_ofTempo_iff.mpr fast
    cases made : Message.ofMeter m.meter with
    | ok message => exact absurd made (refused message)
    | error fault =>
      refine ⟨fault, toBytes_of_meter (counted_iff.mpr parts) (shown_iff.mpr (by omega)) written timed known made,
        Fault.not_isEncoding ?_⟩
      rintro cause rfl
      exact ofMeter_not_encoding made
  | message refused lost =>
    refine ⟨_, refused, ?_⟩
    intro encoding
    obtain ⟨cause, same, shown⟩ := Fault.isEncoding_iff.mp encoding
    exact shown (Fault.encoding.inj same ▸ lost)
  | @length file accepted uncounted =>
    obtain ⟨written, only⟩ := bytes_of_toFile reachable accepted
    cases encoded : file.bytes with
    | ok bytes => exact absurd (written.mp ⟨bytes, encoded⟩) uncounted
    | error fault =>
      have refused := Outcome.bind_eq_error.mpr (.inr ⟨file, accepted, encoded⟩)
      exact ⟨fault, refused, only fault encoded ▸ Fault.not_isEncoding (by simp)⟩

/-- A score whose title and names are texts escapes the failures of the encoding exactly in the four cases. -/
theorem toBytes_escapes_iff (reachable : w.Reachable) (titled : ∃ title, (w.score id).title = .text title)
    (named : ∀ part ∈ (w.score id).parts, ∃ name, part.name = .text name) :
    (∃ fault, (w.score id).toBytes options = .error fault ∧ ¬ fault.IsEncoding) ↔
      (w.score id).Escapes options := by
  obtain ⟨title, titled⟩ := titled
  constructor
  · rintro ⟨fault, refused, escaped⟩
    exact escapes_of_refused reachable titled named refused escaped
  · intro escapes
    exact escapes.exists_fault reachable titled

/-- A time signature over the two hundred and fifty-sixth power of two. -/
def minute : Metadata := ⟨cMajor, .timeSignature { TimeSignature.common with exponent := 256 }⟩

/-- The note value is too small for a message, and what comes out is no failure of the encoding. -/
theorem minute_escapes :
    Message.ofMeter minute.meter = .error (.range (.metaField 1 (Nat.pow 2 255))) ∧
      ∃ fault, ((Workspace.single (.ofInt 120) (some minute)).score ⟨0⟩).toBytes .standard = .error fault ∧
        ¬ fault.IsEncoding := by
  have limited : Message.ofMeter minute.meter = .error (.range (.metaField 1 (Nat.pow 2 255))) := by rfl
  have moderate : Tempo.given (.ofInt 120) = .ok .moderate := given_ofInt (by decide)
  have read := Workspace.score_single moderate (some minute)
  have reachable : (Workspace.single (.ofInt 120) (some minute)).Reachable :=
    Workspace.reachable_iff.mpr ⟨_, rfl⟩
  have titled : ∃ title, ((Workspace.single (.ofInt 120) (some minute)).score ⟨0⟩).title = .text title :=
    ⟨"Single", congrArg ScoreOf.title read⟩
  have own : ((Workspace.after Workspace.noteInPart).part ⟨0⟩).copy.name = .text "Piano" := by cbv
  have named : ∀ part ∈ ((Workspace.single (.ofInt 120) (some minute)).score ⟨0⟩).parts,
      ∃ name, part.name = .text name := by
    rw [read]
    intro part member
    obtain rfl := List.mem_singleton.mp member
    exact ⟨"Piano", own⟩
  have short : (120 : Int) < Text.digitLimit := by
    have three : 10 ^ 3 ≤ Text.digitLimit := Text.pow_le_digitLimit (by decide)
    omega
  have latin : Message.isLatin1 "Single" = true := by decide
  refine ⟨limited, (toBytes_escapes_iff reachable titled named).mpr ?_⟩
  rw [read]
  refine .meter ⟨Nat.le_refl 1, Nat.le_add_left 1 15⟩ short (fun _ _ => latin) (by decide) rfl ?_
  intro message made
  cases made.symm.trans limited

end Score

end MusicScore
