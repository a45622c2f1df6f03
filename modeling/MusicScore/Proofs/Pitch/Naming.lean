import MusicScore.Pitch.Spelling
import MusicScore.Proofs.Fault
import MusicScore.Proofs.Outcome
import MusicScore.Proofs.Text.Blank
import MusicScore.Proofs.Text.Digits

/-!
# The names of pitches

A name is a letter in either case, the symbol of an accidental or none, and an octave, with blanks around it all; the
octave is a run of digits of any script with a minus or without one. The letter b and the flat are the same character,
and still a name is spelled in one way only: an octave begins with no symbol of an accidental, so that the longest
symbol is the only one that fits.

A name is taken for the pitch that it spells, and everything else is refused as a value. The one thing that is let out
besides is the fault of a number of too many digits, in the octave or in the note number that has to be shown.
-/
namespace MusicScore

open Text

/-- The text is a symbol of the accidental; the natural has none. -/
inductive Accidental.IsSymbol : Accidental → List Char → Prop where
  | natural : IsSymbol natural []
  | flat : IsSymbol flat ['b']
  | doubleFlat : IsSymbol doubleFlat ['b', 'b']
  | sharp : IsSymbol sharp ['#']
  | doubleSharp : IsSymbol doubleSharp ['#', '#']
  | cross : IsSymbol doubleSharp ['x']

/-- The character stands for the letter, as a capital or a small one. -/
def Letter.IsWritten (letter : Letter) (c : Char) : Prop := c = letter.capital ∨ c = letter.capital.toLower

namespace Spelling

/-- The text is an octave: digits of any script, behind a minus if it is negative. -/
inductive IsOctave : List Char → Bool → List Nat → Prop where
  | upper {s : List Char} {digits : List Nat} (each : List.Forall₂ (fun c d => digitValue? c = some d) s digits)
      (some : digits ≠ []) : IsOctave s false digits
  | lower {s : List Char} {digits : List Nat} (each : List.Forall₂ (fun c d => digitValue? c = some d) s digits)
      (some : digits ≠ []) : IsOctave ('-' :: s) true digits

/-- The text is the name of a spelling, and its octave is written with so many digits. -/
inductive Names : List Char → Spelling → Nat → Prop where
  | intro {before symbol octave after : List Char} {c : Char} {letter : Letter} {accidental : Accidental}
      {negative : Bool} {digits : List Nat} (leading : IsBlanks before) (written : letter.IsWritten c)
      (altered : accidental.IsSymbol symbol) (placed : IsOctave octave negative digits) (trailing : IsBlanks after) :
      Names (before ++ (c :: symbol ++ octave) ++ after)
        ⟨letter, accidental, IntegerText.signed negative (ofDigits digits)⟩ digits.length

end Spelling

/-! ## The parts of a name -/

/-- A character is found to stand for a letter just when it is that letter in either case. -/
theorem Letter.ofChar?_eq_some_iff {c : Char} {letter : Letter} :
    ofChar? c = some letter ↔ letter.IsWritten c := by
  constructor
  · intro found
    have same := List.find?_some found
    rw [decide_eq_true_eq] at same
    by_cases small : 'a'.val ≤ c.val ∧ c.val ≤ 'z'.val
    · obtain ⟨k, few, rfl⟩ : ∃ k < 26, c = Char.ofNat (97 + k) := by
        have low : 97 ≤ c.toNat := small.1
        have high : c.toNat ≤ 122 := small.2
        refine ⟨c.toNat - 97, by omega, ?_⟩
        rw [Nat.add_sub_cancel' low, Char.ofNat_toNat]
      have each : ∀ k < 26, letter.capital = (Char.ofNat (97 + k)).toUpper →
          Char.ofNat (97 + k) = letter.capital.toLower := by
        cases letter <;> decide
      exact .inr (each k few same)
    · have unchanged : c.toUpper = c := dif_neg small
      exact .inl (unchanged.symm.trans same.symm)
  · rintro (rfl | rfl) <;> cases letter <;> decide

/-- A letter is no blank. -/
theorem Letter.IsWritten.isBlank {c : Char} {letter : Letter} (written : letter.IsWritten c) : isBlank c = false := by
  obtain rfl | rfl := written <;> cases letter <;> decide

namespace Accidental

variable {accidental : Accidental} {symbol rest : List Char}

/-- A symbol is taken from the front of a text that goes on with none. -/
theorem take_append (altered : accidental.IsSymbol symbol) (bare : ∀ c ∈ rest.head?, c ≠ 'b' ∧ c ≠ '#' ∧ c ≠ 'x') :
    take (symbol ++ rest) = (accidental, rest) := by
  cases rest with
  | nil => cases altered <;> rfl
  | cons c rest =>
    obtain ⟨noFlat, noSharp, noCross⟩ := bare c rfl
    cases altered <;> simp [take, noFlat, noSharp, noCross]

/-- What is taken is a symbol. -/
theorem exists_of_take {s : List Char} (taken : take s = (accidental, rest)) :
    ∃ symbol, s = symbol ++ rest ∧ accidental.IsSymbol symbol := by
  rw [take.eq_def] at taken
  split at taken <;> cases taken
  · exact ⟨['b', 'b'], rfl, .doubleFlat⟩
  · exact ⟨['#', '#'], rfl, .doubleSharp⟩
  · exact ⟨['b'], rfl, .flat⟩
  · exact ⟨['#'], rfl, .sharp⟩
  · exact ⟨['x'], rfl, .cross⟩
  · exact ⟨[], rfl, .natural⟩

/-- There is no blank in a symbol. -/
theorem IsSymbol.isBlank (altered : accidental.IsSymbol symbol) : ∀ c ∈ symbol, isBlank c = false := by
  have flat : Text.isBlank 'b' = false := by decide
  have sharp : Text.isBlank '#' = false := by decide
  have cross : Text.isBlank 'x' = false := by decide
  cases altered <;> simp [flat, sharp, cross]

end Accidental

namespace Spelling

variable {s : List Char} {negative : Bool} {digits : List Nat} {spelling other : Spelling} {count : Nat} {name : String}

/-- The digits of a text are found when each of its characters is one. -/
theorem mapM_digitValue?_eq_some_iff :
    s.mapM digitValue? = some digits ↔ List.Forall₂ (fun c d => digitValue? c = some d) s digits := by
  induction s generalizing digits with
  | nil => cases digits <;> simp
  | cons c s inductionHypothesis =>
    simp only [List.mapM_cons, Option.bind_eq_bind, Option.bind_eq_some_iff, Option.pure_def, Option.some.injEq,
      inductionHypothesis]
    constructor
    · rintro ⟨d, value, ds, others, rfl⟩
      exact .cons value others
    · rintro (_ | ⟨value, others⟩)
      exact ⟨_, value, _, others, rfl⟩

/-- Digits behind a minus or without one are read where there are some. -/
theorem digits?_eq_some_iff {minus : Bool} :
    (if s.isEmpty then none else (s.mapM digitValue?).map fun digits => (minus, digits)) = some (negative, digits) ↔
      List.Forall₂ (fun c d => digitValue? c = some d) s digits ∧ digits ≠ [] ∧ minus = negative := by
  cases s with
  | nil => simp +contextual
  | cons c s =>
    simp only [List.isEmpty_cons, Bool.false_eq_true, if_false, Option.map_eq_some_iff, Prod.mk.injEq,
      mapM_digitValue?_eq_some_iff]
    constructor
    · rintro ⟨_, each, rfl, rfl⟩
      cases each
      exact ⟨.cons ‹_› ‹_›, List.cons_ne_nil _ _, rfl⟩
    · rintro ⟨each, _, rfl⟩
      exact ⟨digits, each, rfl, rfl⟩

/-- The digits of an octave are read just from a text that is one. -/
theorem octaveDigits?_eq_some_iff : octaveDigits? s = some (negative, digits) ↔ IsOctave s negative digits := by
  by_cases minus : ∃ t, s = '-' :: t
  · obtain ⟨t, rfl⟩ := minus
    rw [octaveDigits?, digits?_eq_some_iff]
    constructor
    · rintro ⟨each, some, rfl⟩
      exact .lower each some
    · rintro (⟨each, _⟩ | ⟨each, some⟩)
      · cases each with
        | cons value _ => cases value
      · exact ⟨each, some, rfl⟩
  · have bare : ∀ t, s = '-' :: t → False := fun t same => minus ⟨t, same⟩
    rw [octaveDigits?.eq_2 s bare, digits?_eq_some_iff]
    constructor
    · rintro ⟨each, some, rfl⟩
      exact .upper each some
    · rintro (⟨each, some⟩ | _)
      · exact ⟨each, some, rfl⟩
      · exact absurd rfl (bare _)

/-- An octave begins with a minus or a digit, and there is no blank in it. -/
theorem IsOctave.spec (octave : IsOctave s negative digits) :
    (∀ c ∈ s.head?, c ≠ 'b' ∧ c ≠ '#' ∧ c ≠ 'x') ∧ ∀ c ∈ s, isBlank c = false := by
  have solid {t : List Char} (each : List.Forall₂ (fun c d => digitValue? c = some d) t digits) :
      ∀ c ∈ t, ∃ d, digitValue? c = some d := by
    intro c member
    obtain ⟨index, inside, rfl⟩ := List.getElem_of_mem member
    exact ⟨_, each.get inside (each.length_eq ▸ inside)⟩
  cases octave with
  | upper each some =>
    refine ⟨fun c first => ?_, fun c member => ?_⟩
    · obtain ⟨d, value⟩ := solid each c (List.mem_of_head? first)
      refine ⟨?_, ?_, ?_⟩ <;> (rintro rfl; cases value)
    · obtain ⟨d, value⟩ := solid each c member
      exact isBlank_of_digitValue? value
  | lower each some =>
    refine ⟨by simp, List.forall_mem_cons.mpr ⟨by decide, fun c member => ?_⟩⟩
    obtain ⟨d, value⟩ := solid each c member
    exact isBlank_of_digitValue? value

/-! ## Reading -/

/-- A text is a name just when its parts are found one after the other: the letter, the longest symbol of an accidental,
and the octave. -/
theorem names_iff : Names s spelling count ↔
    ∃ c rest letter negative digits, trim s = c :: rest ∧ Letter.ofChar? c = some letter ∧
      octaveDigits? (Accidental.take rest).2 = some (negative, digits) ∧ count = digits.length ∧
        spelling = ⟨letter, (Accidental.take rest).1, IntegerText.signed negative (ofDigits digits)⟩ := by
  constructor
  · rintro ⟨leading, written, altered, placed, trailing⟩
    rename_i before symbol octave after c letter accidental negative digits
    obtain ⟨bare, solid⟩ := placed.spec
    have body : trim (before ++ (c :: symbol ++ octave) ++ after) = c :: (symbol ++ octave) := by
      refine trim_append (hasSolidEnds_of_forall fun d member => ?_) leading trailing
      simp only [List.cons_append, List.mem_cons, List.mem_append] at member
      rcases member with rfl | symbolic | octaval
      · exact Letter.IsWritten.isBlank written
      · exact altered.isBlank d symbolic
      · exact solid d octaval
    have taken := Accidental.take_append altered bare
    refine ⟨c, symbol ++ octave, letter, negative, digits, body, Letter.ofChar?_eq_some_iff.mpr written, ?_, rfl, ?_⟩
    · rw [taken]
      exact octaveDigits?_eq_some_iff.mpr placed
    · rw [taken]
  · rintro ⟨c, rest, letter, negative, digits, body, written, placed, rfl, rfl⟩
    obtain ⟨_, before, after, leading, trailing, whole⟩ := trim_eq_iff.mp body
    rcases taken : Accidental.take rest with ⟨accidental, octave⟩
    rw [taken] at placed
    obtain ⟨symbol, split, altered⟩ := Accidental.exists_of_take taken
    have form : s = before ++ (c :: symbol ++ octave) ++ after := by
      rw [whole, split, List.cons_append]
    exact form ▸ .intro leading (Letter.ofChar?_eq_some_iff.mp written) altered
      (octaveDigits?_eq_some_iff.mp placed) trailing

/-- A name is that of one spelling only. -/
theorem Names.unique {n : Nat} (named : Names s spelling count) (again : Names s other n) :
    spelling = other ∧ count = n := by
  obtain ⟨c, rest, letter, negative, digits, body, written, placed, rfl, rfl⟩ := names_iff.mp named
  obtain ⟨c', rest', letter', negative', digits', body', written', placed', rfl, rfl⟩ := names_iff.mp again
  obtain ⟨rfl, rfl⟩ := List.cons.inj (body.symm.trans body')
  cases written.symm.trans written'
  cases placed.symm.trans placed'
  exact ⟨rfl, rfl⟩

/-- A name is read as the spelling that it is the name of, if the octave has not too many digits. -/
theorem read_of_names (named : Names name.toList spelling count) :
    read name = if count ≤ maxDigits then .ok spelling else .error (.range (.digits count)) := by
  obtain ⟨c, rest, letter, negative, digits, body, written, placed, rfl, rfl⟩ := names_iff.mp named
  simp only [read, body, written, placed]

/-- What is no name is refused as a name. -/
theorem read_of_no_name (nameless : ¬ ∃ spelling count, Names name.toList spelling count) :
    read name = .error (.value (.pitchName name)) := by
  simp only [read]
  split
  next => rfl
  next c rest body =>
    split
    next letter negative digits written placed =>
      refine absurd ⟨_, _, names_iff.mpr ⟨c, rest, letter, negative, digits, body, written, ?_, rfl, rfl⟩⟩ nameless
      exact placed
    next => rfl

end Spelling

namespace Pitch

open Spelling (Names)

variable {name : String} {spelling : Spelling} {count : Nat}

/-! ## Names of pitches -/

/-- A note number with too many digits is outside of the range. -/
theorem outside_of_digitLimit_le {n : Int} (many : digitLimit ≤ n.natAbs) : n < 0 ∨ highest < n := by
  have short : 127 < digitLimit := length_digitsOf_le_maxDigits.mp (by decide)
  rw [highest]
  omega

/-- The name of a spelling is taken for the pitch of its note number, if the octave has not too many digits. -/
theorem parse_of_names (named : Names name.toList spelling count) :
    parse name = if count ≤ maxDigits then ofInt spelling.number else .error (.range (.digits count)) := by
  rw [parse, Spelling.read_of_names named]
  split <;> rfl

/-- What is no name is refused as one. -/
theorem parse_of_no_name (nameless : ¬ ∃ spelling count, Names name.toList spelling count) :
    parse name = .error (.value (.pitchName name)) := by
  rw [parse, Spelling.read_of_no_name nameless]
  rfl

/-- A text is taken for just the pitch that it spells, if the octave has not too many digits. -/
theorem parse_eq_ok_iff {p : Pitch} : parse name = .ok p ↔
    ∃ spelling count, Names name.toList spelling count ∧ count ≤ maxDigits ∧
      (0 ≤ spelling.number ∧ spelling.number ≤ highest) ∧ p.numeral = .plain spelling.number := by
  constructor
  · intro done
    by_cases some : ∃ spelling count, Names name.toList spelling count
    · obtain ⟨spelling, count, named⟩ := some
      rw [parse_of_names named] at done
      split at done
      next short =>
        have own := (ofInt_eq_ok_iff _ _).mp done
        have inside := p.inRange
        rw [own, Numeral.value_plain] at inside
        exact ⟨spelling, count, named, short, inside, own⟩
      next => cases done
    · rw [parse_of_no_name some] at done
      cases done
  · rintro ⟨spelling, count, named, short, _, own⟩
    rw [parse_of_names named, if_pos short]
    exact (ofInt_eq_ok_iff _ _).mpr own

/-- A refused pitch name is reported as one. -/
theorem isOwn_pitchName : (Fault.value (.pitchName name)).IsOwn := by
  simp [Fault.isOwn_value, ValueFault.message]

/-- Another fault than those of the library is let out for a number of too many digits, and in no other case. -/
theorem parse_escapes_iff : (∃ fault, parse name = .error fault ∧ ¬ fault.IsOwn) ↔
    ∃ spelling count, Names name.toList spelling count ∧ (maxDigits < count ∨ digitLimit ≤ spelling.number.natAbs) := by
  constructor
  · rintro ⟨fault, refused, escaped⟩
    by_cases some : ∃ spelling count, Names name.toList spelling count
    · obtain ⟨spelling, count, named⟩ := some
      refine ⟨spelling, count, named, ?_⟩
      rw [parse_of_names named] at refused
      split at refused
      next =>
        obtain ⟨_, rfl⟩ := ofInt_eq_error_iff.mp refused
        exact .inr (Fault.not_isOwn_pitch_iff.mp escaped)
      next long => exact .inl (Nat.lt_of_not_le long)
    · rw [parse_of_no_name some] at refused
      cases refused
      exact absurd isOwn_pitchName escaped
  · rintro ⟨spelling, count, named, many⟩
    by_cases short : count ≤ maxDigits
    · have large : digitLimit ≤ spelling.number.natAbs := many.resolve_left (Nat.not_lt.mpr short)
      refine ⟨.value (.pitch (wholeText spelling.number)), ?_, Fault.not_isOwn_pitch_iff.mpr large⟩
      rw [parse_of_names named, if_pos short]
      exact ofInt_eq_error_iff.mpr ⟨outside_of_digitLimit_le large, rfl⟩
    · refine ⟨.range (.digits count), ?_, Fault.not_isOwn_range⟩
      rw [parse_of_names named, if_neg short]

/-- What comes of a text where the name of a pitch is asked for. -/
structure GivenAsName (name : String) : Prop where
  /-- It is the name of one spelling at most. -/
  unique : ∀ spelling count, Names name.toList spelling count →
    ∀ other n, Names name.toList other n → spelling = other ∧ count = n
  /-- It is taken for just the pitch that it spells, if the octave has not too many digits. -/
  taken : ∀ p, parse name = .ok p ↔ ∃ spelling count, Names name.toList spelling count ∧ count ≤ maxDigits ∧
    (0 ≤ spelling.number ∧ spelling.number ≤ highest) ∧ p.numeral = .plain spelling.number
  /-- What is no name is refused as one, and reported as such. -/
  nameless : (¬ ∃ spelling count, Names name.toList spelling count) →
    parse name = .error (.value (.pitchName name)) ∧ (Fault.value (.pitchName name)).IsOwn
  /-- A name whose note number is outside of the range is refused for the number. -/
  outside : ∀ spelling count, Names name.toList spelling count → count ≤ maxDigits →
    ¬ (0 ≤ spelling.number ∧ spelling.number ≤ highest) →
      parse name = .error (.value (.pitch (wholeText spelling.number)))
  /-- Another fault than those of the library is let out for a number of too many digits, and in no other case. -/
  escapes : (∃ fault, parse name = .error fault ∧ ¬ fault.IsOwn) ↔
    ∃ spelling count, Names name.toList spelling count ∧ (maxDigits < count ∨ digitLimit ≤ spelling.number.natAbs)

/-- A text is taken for the pitch that it spells, or refused. -/
theorem given_as_name (name : String) : GivenAsName name where
  unique spelling count named other n again := named.unique again
  taken p := parse_eq_ok_iff
  nameless none := ⟨parse_of_no_name none, isOwn_pitchName⟩
  outside spelling count named short outside := by
    rw [parse_of_names named, if_pos short]
    exact ofInt_eq_error_iff.mpr ⟨by omega, rfl⟩
  escapes := parse_escapes_iff

/-- An octave of too many digits lets the fault of the number out, though it may be that of a pitch. -/
theorem long_octave_escapes :
    ∃ fault, parse (.ofList ('C' :: List.replicate (maxDigits + 1) '0')) = .error fault ∧ ¬ fault.IsOwn := by
  have digits : List.Forall₂ (fun c d => digitValue? c = some d) (List.replicate (maxDigits + 1) '0')
      (List.replicate (maxDigits + 1) 0) := by
    generalize maxDigits + 1 = count
    induction count with
    | zero => exact .nil
    | succ count inductionHypothesis => exact .cons rfl inductionHypothesis
  have named : Names ([] ++ ('C' :: [] ++ List.replicate (maxDigits + 1) '0') ++ []) _ _ :=
    .intro (by simp [IsBlanks]) (.inl rfl : Letter.c.IsWritten 'C') .natural (.upper digits (List.cons_ne_nil _ _))
      (by simp [IsBlanks])
  refine (given_as_name _).escapes.mpr ⟨_, _, by simpa using named, .inl ?_⟩
  exact Nat.lt_succ_self maxDigits

end Pitch

end MusicScore
