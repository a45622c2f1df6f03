import MusicScore.Part.Basic
import MusicScore.Phrase.Given
import MusicScore.Proofs.Fault
import MusicScore.Proofs.Number.FractionText
import MusicScore.Proofs.Outcome

/-!
# Amounts of beats

What stands for an amount of beats is a duration, a number other than a truth value, or a text that spells a fraction;
all else is refused as a duration. Wherever an amount of beats is asked for, whoever asks is told to expect a refused
value or a refused placement. Something else comes out in two cases, and in no other: the text spells a fraction with a
denominator of zero, or the refusal has no text as a number in it has too many digits.
-/
namespace MusicScore

namespace Datum

variable {value : Datum} {q : Rat} {fault : Fault}

/-- The datum stands for this amount of beats. A binary64 number stands for its shortest decimal text, and a text for
the fraction that it spells with short groups of digits. -/
inductive IsBeats : Datum → Rat → Prop where
  | duration (d : Duration) : IsBeats (.duration d) d.beats
  | whole (n : Numeral) : IsBeats (.number (.whole n)) n.value
  | ratio (q : Rat) : IsBeats (.number (.ratio q)) q
  | float {x : Double} {q : Rat} (decimal : x.decimalValue? = some q) : IsBeats (.number (.float x)) q
  | text {s : String} {negative : Bool} {spelled : FractionText.Spelled}
      (spells : FractionText.Spells s.toList negative spelled) (short : spelled.IsShort) (nonzero : ¬ spelled.IsOverZero) :
      IsBeats (.text s) (spelled.value negative)

/-- The datum is a text that spells a fraction with a denominator of zero. -/
inductive IsOverZero : Datum → Prop where
  | text {s : String} {negative : Bool} {spelled : FractionText.Spelled}
      (spells : FractionText.Spells s.toList negative spelled) (short : spelled.IsShort) (zero : spelled.IsOverZero) :
      IsOverZero (.text s)

/-- Where an amount of beats is asked for, the datum lets another fault out than those of the library: it has a
denominator of zero, or it stands for no amount of beats and cannot be shown. -/
def EscapesAsBeats (value : Datum) : Prop := value.IsOverZero ∨ (∀ q, ¬ value.IsBeats q) ∧ value.plain = .lost

/-! ## What is taken -/

/-- A text is read as a fraction. -/
theorem beats_text (s : String) : (Datum.text s).beats =
    match FractionText.read s.toList with
    | .value q => .ok q
    | .zeroDenominator => .error .zeroDenominator
    | _ => .error (.value (.duration (.text s))) := by
  have trimmed : FractionText.read (Text.trim s.toList) = FractionText.read s.toList := by
    simp only [FractionText.read, Text.trim_trim]
  rw [← trimmed]
  rfl

/-- A datum is taken for just the amount of beats that it stands for. -/
theorem beats_eq_ok_iff : value.beats = .ok q ↔ value.IsBeats q := by
  constructor
  · intro done
    cases value with
    | duration d => cases done; exact .duration d
    | text s =>
      rw [beats_text] at done
      split at done <;> cases done
      next found =>
        obtain ⟨negative, spelled, spells, short, nonzero, rfl⟩ := FractionText.read_eq_value_iff.mp found
        exact .text spells short nonzero
    | number n =>
      cases n with
      | truth b => cases done
      | whole n => cases done; exact .whole n
      | ratio q => cases done; exact .ratio q
      | float x =>
        simp only [beats] at done
        split at done <;> cases done
        next decimal => exact .float decimal
    | _ => cases done
  · intro meant
    cases meant with
    | duration d => rfl
    | whole n => rfl
    | ratio q => rfl
    | float decimal => simp only [beats, decimal]
    | text spells short nonzero =>
      have read := FractionText.read_eq_value_iff.mpr ⟨_, _, spells, short, nonzero, rfl⟩
      simp only [beats_text, read]

/-- What is refused is refused as a duration, a denominator of zero apart. -/
theorem beats_eq_error (refused : value.beats = .error fault) :
    value.IsOverZero ∧ fault = .zeroDenominator ∨ fault = .value (.duration value.plain) := by
  cases value with
  | duration d => cases refused
  | text s =>
    rw [beats_text] at refused
    split at refused <;> cases refused
    next found =>
      obtain ⟨negative, spelled, spells, short, zero⟩ := FractionText.read_eq_zeroDenominator_iff.mp found
      exact .inl ⟨.text spells short zero, rfl⟩
    next => exact .inr rfl
  | number n =>
    cases n with
    | truth b => cases refused; exact .inr rfl
    | whole n => cases refused
    | ratio q => cases refused
    | float x =>
      simp only [beats] at refused
      split at refused <;> cases refused
      exact .inr rfl
  | _ => cases refused; exact .inr rfl

/-- A denominator of zero is found. -/
theorem IsOverZero.beats_eq (overZero : value.IsOverZero) : value.beats = .error .zeroDenominator := by
  obtain ⟨spells, short, zero⟩ := overZero
  have read := FractionText.read_eq_zeroDenominator_iff.mpr ⟨_, _, spells, short, zero⟩
  simp only [beats_text, read]

/-- What stands for no amount of beats is refused. -/
theorem exists_refused_iff : (∃ fault, value.beats = .error fault) ↔ ∀ q, ¬ value.IsBeats q := by
  simp only [← beats_eq_ok_iff]
  cases value.beats <;> simp

/-! ## What is let out -/

/-- Another fault than those of the library is let out in just the two cases. -/
theorem beats_escapes_iff : (∃ fault, value.beats = .error fault ∧ ¬ fault.IsOwn) ↔ value.EscapesAsBeats := by
  have shown : (Fault.value (.duration value.plain)).IsOwn ↔ value.plain ≠ .lost := by
    simp [Fault.isOwn_value, ValueFault.message]
  constructor
  · rintro ⟨fault, refused, escaped⟩
    obtain ⟨overZero, _⟩ | rfl := beats_eq_error refused
    · exact .inl overZero
    · exact .inr ⟨exists_refused_iff.mp ⟨_, refused⟩, not_not.mp (mt shown.mpr escaped)⟩
  · rintro (overZero | ⟨meaningless, lost⟩)
    · exact ⟨_, overZero.beats_eq, fun own => own⟩
    · obtain ⟨fault, refused⟩ := exists_refused_iff.mpr meaningless
      obtain ⟨overZero, rfl⟩ | rfl := beats_eq_error refused
      · exact ⟨_, refused, fun own => own⟩
      · exact ⟨_, refused, fun own => shown.mp own lost⟩

end Datum

/-! ## Whoever asks for an amount of beats -/

/-- An operation takes an amount of beats: what the datum is refused for, and what lets another fault out than those of
the library. -/
structure TakesBeats {α : Type} (value : Datum) (outcome : Except Fault α) : Prop where
  /-- What stands for no amount of beats is refused as such. -/
  alike : ∀ fault, value.beats = .error fault → outcome = .error fault
  /-- What stands for one is refused as a value or as a placement. -/
  refusal : ∀ q, value.IsBeats q → ∀ fault, outcome = .error fault → fault.IsRefusal
  /-- Another fault is let out for a denominator of zero, and where a number in the refusal has too many digits. -/
  escapes : (∃ fault, outcome = .error fault ∧ ¬ fault.IsOwn) ↔
    value.EscapesAsBeats ∨ ∃ q, value.IsBeats q ∧ ∃ fault, outcome = .error fault ∧ fault.message? = some .lost

variable {α : Type} {value : Datum}

/-- An operation that goes on with the amount of beats takes it, if it refuses values and placements only. -/
theorem takesBeats_bind {next : Rat → Except Fault α}
    (proper : ∀ q fault, next q = .error fault → fault.IsRefusal) : TakesBeats value (value.beats >>= next) where
  alike fault refused := Outcome.bind_eq_error.mpr (.inl refused)
  refusal q meant fault refused := by
    rw [Datum.beats_eq_ok_iff.mpr meant] at refused
    exact proper q fault refused
  escapes := by
    rw [← Datum.beats_escapes_iff]
    constructor
    · rintro ⟨fault, refused, escaped⟩
      obtain bad | ⟨q, taken, refused'⟩ := Outcome.bind_eq_error.mp refused
      · exact .inl ⟨fault, bad, escaped⟩
      · refine .inr ⟨q, Datum.beats_eq_ok_iff.mp taken, fault, refused, ?_⟩
        exact not_not.mp (mt (proper q fault refused').isOwn_iff.mpr escaped)
    · rintro (⟨fault, bad, escaped⟩ | ⟨q, meant, fault, refused, lost⟩)
      · exact ⟨fault, Outcome.bind_eq_error.mpr (.inl bad), escaped⟩
      · refine ⟨fault, refused, fun own => ?_⟩
        rw [Datum.beats_eq_ok_iff.mpr meant] at refused
        exact (proper q fault refused).isOwn_iff.mp own lost

/-- A duration is refused as a value. -/
theorem Duration.isRefusal_of_ofBeats {q : Rat} {shown : Shown} {fault : Fault}
    (refused : Duration.ofBeats q shown = .error fault) : fault.IsRefusal := by
  unfold Duration.ofBeats at refused
  split at refused <;> cases refused
  exact .inl ⟨_, rfl⟩

/-- A duration stands for itself, and this is the duration of its beats. -/
theorem Duration.given_eq (value : Datum) : Duration.given value = Duration.ofDatum value := by
  cases value with
  | duration d =>
    have own : Duration.ofBeats d.beats d.name = .ok d := dif_pos d.positive
    exact own.symm
  | _ => rfl

/-- A rest is refused as its duration is. -/
theorem Rest.ofDatum_eq (value : Datum) :
    Rest.ofDatum value = value.beats >>= fun q => Duration.ofBeats q value.plain >>= fun d => pure ⟨d⟩ := by
  rw [Rest.ofDatum, Duration.given_eq, Duration.ofDatum, bind_assoc]

namespace Phrase

variable {p : Phrase} {entry : Entry} {event : Event} {start cursor q : Rat} {fault : Fault}

/-- An entry is refused as a placement. -/
theorem isRefusal_of_place (refused : p.place entry start cursor = .error fault) : fault.IsRefusal := by
  unfold place at refused
  split at refused
  · cases refused
    exact .inr ⟨_, rfl⟩
  · split at refused <;> cases refused
    exact .inr ⟨_, rfl⟩

/-- A late event is refused as a placement. -/
theorem isRefusal_of_addLate (refused : p.addLate event q = .error fault) : fault.IsRefusal := by
  unfold addLate at refused
  split at refused
  · cases refused
    exact .inr ⟨_, rfl⟩
  · exact isRefusal_of_place refused

/-- A trailing event is refused as a placement. -/
theorem isRefusal_of_addTrailing (refused : p.addTrailing event q = .error fault) : fault.IsRefusal := by
  unfold addTrailing at refused
  split at refused
  · exact isRefusal_of_place refused
  · cases refused
    exact .inr ⟨_, rfl⟩

end Phrase

/-- A phrase is refused as a placement. -/
theorem Part.isRefusal_of_addPhrase {part : Part} {phrase : Phrase} {start : Rat} {fault : Fault}
    (refused : part.addPhrase phrase start = .error fault) : fault.IsRefusal := by
  unfold Part.addPhrase PartOf.place at refused
  split at refused <;> cases refused
  exact .inr ⟨_, rfl⟩

namespace Datum

/-- What comes of a datum wherever an amount of beats is asked for. -/
structure GivenAsBeats (value : Datum) : Prop where
  /-- It is taken for just the amount of beats that it stands for. -/
  taken : ∀ q, value.beats = .ok q ↔ value.IsBeats q
  /-- If it stands for none and lets nothing else out, it is refused as a duration, in a text that shows it. -/
  refused : (∀ q, ¬ value.IsBeats q) → ¬ value.EscapesAsBeats →
    ∃ shown, value.plain = .text shown ∧ value.beats = .error (.value (.duration shown)) ∧
      (Fault.value (.duration shown)).reported = .value (.duration shown)
  /-- Another fault than those of the library is let out in just two cases. -/
  escapes : (∃ fault, value.beats = .error fault ∧ ¬ fault.IsOwn) ↔ value.EscapesAsBeats
  duration : TakesBeats value (Duration.ofDatum value)
  rest : TakesBeats value (Rest.ofDatum value)
  late : ∀ (p : Phrase) event, TakesBeats value (p.addLateGiven (.event event) value)
  trailing : ∀ (p : Phrase) event, TakesBeats value (p.addTrailingGiven (.event event) value)
  phrase : ∀ (part : Part) phrase, TakesBeats value (part.addPhraseGiven phrase value)

/-- Every datum is taken for the amount of beats that it stands for, or refused, wherever one is asked for. -/
theorem given_as_beats (value : Datum) : value.GivenAsBeats where
  taken q := beats_eq_ok_iff
  refused := by
    intro meaningless within
    obtain ⟨fault, refused⟩ := exists_refused_iff.mpr meaningless
    obtain ⟨overZero, _⟩ | rfl := beats_eq_error refused
    · exact absurd (.inl overZero) within
    · cases shown : value.plain with
      | text s => exact ⟨s, rfl, shown ▸ refused, rfl⟩
      | lost => exact absurd (.inr ⟨meaningless, shown⟩) within
  escapes := beats_escapes_iff
  duration := takesBeats_bind fun _ _ => Duration.isRefusal_of_ofBeats
  rest := by
    rw [Rest.ofDatum_eq]
    refine takesBeats_bind fun q fault refused => ?_
    obtain duration | ⟨_, _, never⟩ := Outcome.bind_eq_error.mp refused
    · exact Duration.isRefusal_of_ofBeats duration
    · cases never
  late p event := by
    refine takesBeats_bind fun q fault refused => ?_
    obtain ⟨_, rfl⟩ | ⟨_, late⟩ := Outcome.guard_eq_error.mp refused
    · exact .inr ⟨_, rfl⟩
    · exact Phrase.isRefusal_of_addLate late
  trailing p event := takesBeats_bind fun _ _ => Phrase.isRefusal_of_addTrailing
  phrase part phrase := takesBeats_bind fun _ _ => Part.isRefusal_of_addPhrase

/-- A denominator of zero is let out where an amount of beats is asked for. -/
theorem over_zero_escapes : ∃ fault, (text "1/0").beats = .error fault ∧ ¬ fault.IsOwn := by
  have one : IntegerText.IsGroup ['1'] [1] := .intro rfl .nil
  have zero : IntegerText.IsGroup ['0'] [0] := .intro rfl .nil
  have spells : FractionText.Spells ([] ++ ([] ++ (['1'] ++ '/' :: ['0'])) ++ []) false (.quotient [1] [0]) :=
    .intro (by simp [Text.IsBlanks]) .none (.quotient one zero) (by simp [Text.IsBlanks])
  exact (given_as_beats _).escapes.mpr (.inl (.text spells ⟨by decide, by decide⟩ rfl))

end Datum

end MusicScore
