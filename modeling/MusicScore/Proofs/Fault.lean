import MusicScore.Fault

/-!
# Faults that the library announces

A fault is reported as it is, unless its text is lost. So whoever is told to expect a refused value gets another fault
when a whole number in the text of the refusal has too many digits, and the number decides whether it has.
-/
namespace MusicScore

/-- What is put together from two parts is lost with either of them. -/
@[simp] theorem Shown.append_eq_lost_iff {a b : Shown} : a ++ b = .lost ↔ a = .lost ∨ b = .lost := by
  cases a <;> cases b <;> simp

/-- A whole number is shown unless it has too many digits. -/
theorem wholeText_eq_lost_iff {n : Int} : wholeText n = .lost ↔ Text.digitLimit ≤ n.natAbs := by
  unfold wholeText
  split
  next short => simpa using short
  next long => simpa using long

/-- A whole number of not too many digits is shown by what is written for it. -/
theorem wholeText_of_short {n : Int} (short : n.natAbs < Text.digitLimit) :
    wholeText n = .text (String.ofList (IntegerText.write n)) :=
  if_pos short

namespace Fault

variable {fault : Fault}

/-- The fault is reported as one of those that the library announces: a refused value, a refused placement, a failure of
the encoding or of the destination. -/
def IsOwn (fault : Fault) : Prop :=
  match fault.reported with
  | .value _ | .placement _ | .encoding _ | .sink _ => True
  | _ => False

/-- The fault is that of a value or of a placement, with a text or without one. -/
def IsRefusal (fault : Fault) : Prop := (∃ cause, fault = .value cause) ∨ ∃ cause, fault = .placement cause

/-- A refusal is reported as one unless its text is lost. -/
theorem IsRefusal.isOwn_iff (refusal : fault.IsRefusal) : fault.IsOwn ↔ fault.message? ≠ some .lost := by
  unfold IsOwn reported
  by_cases lost : fault.message? = some .lost
  · simp [lost]
  · obtain ⟨cause, rfl⟩ | ⟨cause, rfl⟩ := refusal <;> simp [lost]

/-- A refused value is reported as one unless its text is lost. -/
theorem isOwn_value {cause : ValueFault} : (value cause).IsOwn ↔ cause.message ≠ .lost := by
  rw [IsRefusal.isOwn_iff (.inl ⟨cause, rfl⟩)]
  simp [message?]

/-- A refused note number is not reported as one just when it has too many digits. -/
theorem not_isOwn_pitch_iff {n : Int} : ¬ (value (.pitch (wholeText n))).IsOwn ↔ Text.digitLimit ≤ n.natAbs := by
  simp [isOwn_value, ValueFault.message, wholeText_eq_lost_iff]

/-- A number outside of its range is no fault that the library announces. -/
theorem not_isOwn_range {cause : RangeFault} : ¬ (range cause).IsOwn := by
  unfold IsOwn reported
  by_cases lost : (range cause).message? = some .lost <;> simp [lost]

/-- The fault is reported as a failure of the encoding. -/
def IsEncoding (fault : Fault) : Prop := ∃ cause, fault.reported = .encoding cause

/-- A failure of the encoding is reported as one exactly when it has a text. -/
theorem isEncoding_iff :
    fault.IsEncoding ↔ ∃ cause, fault = .encoding cause ∧ cause.message ≠ .lost := by
  unfold IsEncoding reported
  constructor
  · rintro ⟨cause, same⟩
    split at same
    next => cases same
    next shown =>
      subst same
      exact ⟨cause, rfl, fun lost => shown (congrArg some lost)⟩
  · rintro ⟨cause, rfl, shown⟩
    refine ⟨cause, if_neg ?_⟩
    intro lost
    exact shown (Option.some.inj lost)

/-- A fault of another kind is no failure of the encoding. -/
theorem not_isEncoding (other : ∀ cause, fault ≠ .encoding cause) : ¬ fault.IsEncoding := by
  intro encoding
  obtain ⟨cause, same, _⟩ := isEncoding_iff.mp encoding
  exact other cause same

end Fault

end MusicScore
