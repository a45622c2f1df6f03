import Mathlib.Algebra.Order.Ring.Int
import MusicScore.Event.Given
import MusicScore.Midi.Message
import MusicScore.Proofs.Fault
import MusicScore.Proofs.Text.Digits

/-!
# Tempos that can be played

A tempo message holds the length of a beat in whole microseconds, rounded down, in three bytes. Slower than four beats
in a minute a beat is too long for them, and the tempo is refused. Faster than sixty million beats in a minute a beat
is shorter than one microsecond. It is rounded down to nothing and written all the same, and no player can go by beats
that take no time. The length is that of a beat wherever it is written, so that between these two ends it can be
played.
-/
namespace MusicScore

variable {t : Tempo}

namespace Tempo

/-- So many microseconds are what a beat lasts, rounded down. -/
def HasBeat (t : Tempo) (microseconds : Nat) : Prop :=
  microseconds * t.bpm ≤ microsecondsPerMinute ∧ microsecondsPerMinute < (microseconds + 1) * t.bpm

/-- A beat lasts no less than some microseconds when that many beats of them go into a minute. -/
theorem le_microsecondsPerBeat_iff {microseconds : Int} :
    microseconds ≤ t.microsecondsPerBeat ↔ microseconds * t.bpm ≤ microsecondsPerMinute :=
  Int.le_ediv_iff_mul_le t.positive

/-- No beat lasts less than nothing. -/
theorem microsecondsPerBeat_nonneg (t : Tempo) : 0 ≤ t.microsecondsPerBeat := by
  rw [le_microsecondsPerBeat_iff, zero_mul]
  decide

/-- The microseconds that are written for a beat are what it lasts. -/
theorem hasBeat_microsecondsPerBeat (t : Tempo) : t.HasBeat t.microsecondsPerBeat.toNat := by
  unfold HasBeat
  rw [Int.toNat_of_nonneg t.microsecondsPerBeat_nonneg, ← not_le, ← le_microsecondsPerBeat_iff,
    ← le_microsecondsPerBeat_iff]
  exact ⟨le_rfl, by omega⟩

/-- A beat has a place in three bytes from four beats in a minute on. -/
theorem microsecondsPerBeat_le_iff : t.microsecondsPerBeat ≤ 0xffffff ↔ 4 ≤ t.bpm := by
  have long : 0x1000000 ≤ t.microsecondsPerBeat ↔ 0x1000000 * t.bpm ≤ 60000000 := le_microsecondsPerBeat_iff
  omega

/-- A beat lasts one microsecond or longer up to sixty million beats in a minute. -/
theorem microsecondsPerBeat_pos_iff : 1 ≤ t.microsecondsPerBeat ↔ t.bpm ≤ microsecondsPerMinute := by
  rw [le_microsecondsPerBeat_iff, one_mul]

end Tempo

namespace Midi

/-- A tempo has its message exactly from four beats in a minute on. -/
theorem ofTempo_eq_ok {message : Message} :
    Message.ofTempo t = .ok message ↔ 4 ≤ t.bpm ∧ message = .setTempo t.microsecondsPerBeat.toNat := by
  rw [← Tempo.microsecondsPerBeat_le_iff, ← not_lt]
  unfold Message.ofTempo
  by_cases slow : 0xffffff < t.microsecondsPerBeat
  · simp [slow]
  · simp [slow, eq_comm]

/-- A tempo is refused exactly below four beats in a minute. -/
theorem ofTempo_eq_error {fault : Fault} :
    Message.ofTempo t = .error fault ↔ t.bpm < 4 ∧ fault = .encoding (.tempo t.bpm) := by
  rw [← not_le, ← Tempo.microsecondsPerBeat_le_iff, not_le]
  unfold Message.ofTempo
  by_cases slow : 0xffffff < t.microsecondsPerBeat
  · simp [slow, eq_comm]
  · simp [slow]

/-- A tempo has a message exactly when it is four beats in a minute or more. -/
theorem exists_ofTempo_iff : (∃ message, Message.ofTempo t = .ok message) ↔ 4 ≤ t.bpm := by
  simp [ofTempo_eq_ok]

/-- A tempo is refused with a fault that is reported as a failure of the encoding. -/
theorem isEncoding_of_ofTempo {fault : Fault} (refused : Message.ofTempo t = .error fault) : fault.IsEncoding := by
  obtain ⟨slow, rfl⟩ := ofTempo_eq_error.mp refused
  have positive : 0 < t.bpm := t.positive
  have few : t.bpm.natAbs < Text.digitLimit :=
    lt_of_lt_of_le (by omega : t.bpm.natAbs < 10 ^ 1) (Text.pow_le_digitLimit (by decide))
  refine Fault.isEncoding_iff.mpr ⟨_, rfl, ?_⟩
  simp [EncodingFault.message, wholeText_of_short few]

/-- What comes of a tempo can be played by: a failure of the encoding, or a message with the length of its beats, which
is at least one microsecond. -/
inductive Playable (t : Tempo) : Except Fault Message → Prop where
  | refused {fault : Fault} (encoding : fault.IsEncoding) : Playable t (.error fault)
  | timed {microseconds : Nat} (some : 1 ≤ microseconds) (fits : microseconds ≤ 0xffffff)
      (beat : t.HasBeat microseconds) : Playable t (.ok (.setTempo microseconds))

/-- What comes of a tempo can be played by exactly when it has at most sixty million beats in a minute. It is refused
below four of them, and where it is written the message has the length of its beats. -/
theorem ofTempo_playable_iff (t : Tempo) :
    (Playable t (Message.ofTempo t) ↔ t.bpm ≤ 60000000) ∧
      (∀ fault, Message.ofTempo t = .error fault ↔ t.bpm < 4 ∧ fault = .encoding (.tempo t.bpm)) ∧
      ∀ message, Message.ofTempo t = .ok message →
        ∃ microseconds ≤ 0xffffff, message = .setTempo microseconds ∧ t.HasBeat microseconds := by
  have written : ∀ message, Message.ofTempo t = .ok message →
      ∃ microseconds ≤ 0xffffff, message = .setTempo microseconds ∧ t.HasBeat microseconds := by
    intro message done
    obtain ⟨fast, rfl⟩ := ofTempo_eq_ok.mp done
    have fits := Tempo.microsecondsPerBeat_le_iff.mpr fast
    exact ⟨_, by omega, rfl, t.hasBeat_microsecondsPerBeat⟩
  refine ⟨?_, fun fault => ofTempo_eq_error, written⟩
  cases outcome : Message.ofTempo t with
  | error fault =>
    have slow := (ofTempo_eq_error.mp outcome).1
    exact iff_of_true (.refused (isEncoding_of_ofTempo outcome)) (by omega)
  | ok message =>
    obtain ⟨fast, rfl⟩ := ofTempo_eq_ok.mp outcome
    have pos : 1 ≤ t.microsecondsPerBeat ↔ t.bpm ≤ 60000000 := Tempo.microsecondsPerBeat_pos_iff
    rw [← pos]
    constructor
    · rintro ⟨⟩
      omega
    · intro some
      have fits := Tempo.microsecondsPerBeat_le_iff.mpr fast
      exact .timed (by omega) (by omega) t.hasBeat_microsecondsPerBeat

/-- One beat more than sixty million in a minute is a tempo, and its beats are written to last no time. -/
theorem hurry_not_playable :
    ∃ t : Tempo, Tempo.given (.ofInt 60000001) = .ok t ∧ Message.ofTempo t = .ok (.setTempo 0) ∧
      ¬ Playable t (Message.ofTempo t) := by
  refine ⟨⟨.plain 60000001, by decide⟩, rfl, rfl, ?_⟩
  rw [(ofTempo_playable_iff _).1]
  decide

end Midi

end MusicScore
