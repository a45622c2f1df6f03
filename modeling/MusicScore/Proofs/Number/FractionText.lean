import MusicScore.Proofs.Number.IntegerText
import MusicScore.Proofs.Number.Shortest

/-!
# The grammar of fractions

A fraction is spelled with a sign, or without one, and then as a numerator over a denominator or as a decimal number:
a whole part, digits after a point, and a power of ten, of which the last two may be missing, and the first as well
where digits stand after the point. There may be blanks around it all. Reading accepts just the texts of this form in
which no group has too many digits, and it gives the quantity that they spell. A denominator of zero is the one case
in which the form is right and there is no quantity.
-/
namespace MusicScore.FractionText

open MusicScore.Text MusicScore.IntegerText

/-! ## What is spelled -/

/-- A fraction as it is spelled, by the values of its digits. -/
inductive Spelled where
  | quotient (numerator denominator : List Nat)
  | decimal (whole fraction : List Nat) (below : Bool) (power : List Nat)

namespace Spelled

/-- No group has too many digits. -/
def IsShort : Spelled → Prop
  | quotient numerator denominator => numerator.length ≤ maxDigits ∧ denominator.length ≤ maxDigits
  | decimal whole fraction _ power =>
    whole.length ≤ maxDigits ∧ fraction.length ≤ maxDigits ∧ power.length ≤ maxDigits

/-- What is spelled has a denominator of zero. -/
def IsOverZero : Spelled → Prop
  | quotient _ denominator => ofDigits denominator = 0
  | decimal _ _ _ _ => False

/-- The quantity that is spelled: the numerator over the denominator, or all digits moved by the power of ten and back
by the places after the point. -/
def value (negative : Bool) : Spelled → Rat
  | quotient numerator denominator => (signed negative (ofDigits numerator) : Rat) / ofDigits denominator
  | decimal whole fraction below power =>
    signed negative (ofDigits (whole ++ fraction)) * 10 ^ (signed below (ofDigits power) - fraction.length)

end Spelled

variable {s rest f p : List Char} {whole values power : List Nat} {negative below : Bool} {q : Rat} {spelled : Spelled}

/-- The text stands for the fractional part: nothing, a point, or a point and digits. -/
inductive IsFractional : List Char → List Nat → Prop where
  | nothing : IsFractional [] []
  | point : IsFractional ['.'] []
  | digits {s : List Char} {ds : List Nat} (group : IsGroup s ds) : IsFractional ('.' :: s) ds

/-- The text stands for a power of ten: nothing, or a mark, a sign and digits. -/
inductive IsPower : List Char → Bool → List Nat → Prop where
  | nothing : IsPower [] false []
  | marked {mark : Char} {sign s : List Char} {below : Bool} {ds : List Nat} (known : mark = 'e' ∨ mark = 'E')
      (signed : IsSign sign below) (group : IsGroup s ds) : IsPower (mark :: sign ++ s) below ds

/-- The text is a fraction without a sign. -/
inductive IsUnsigned : List Char → Spelled → Prop where
  | quotient {n d : List Char} {above under : List Nat} (numerator : IsGroup n above) (denominator : IsGroup d under) :
      IsUnsigned (n ++ '/' :: d) (.quotient above under)
  | decimal {w f p : List Char} {whole values power : List Nat} {below : Bool} (group : IsGroup w whole)
      (fraction : IsFractional f values) (exponent : IsPower p below power) :
      IsUnsigned (w ++ (f ++ p)) (.decimal whole values below power)
  | point {f p : List Char} {values power : List Nat} {below : Bool} (fraction : IsGroup f values)
      (exponent : IsPower p below power) : IsUnsigned ('.' :: f ++ p) (.decimal [] values below power)

/-- The text spells a fraction: a sign and an unsigned fraction, with blanks around them. -/
inductive Spells : List Char → Bool → Spelled → Prop where
  | intro {before sign body after : List Char} {negative : Bool} {spelled : Spelled} (leading : IsBlanks before)
      (signed : IsSign sign negative) (unsigned : IsUnsigned body spelled) (trailing : IsBlanks after) :
      Spells (before ++ (sign ++ body) ++ after) negative spelled

/-! ## The parts of a decimal number -/

/-- What follows the digits of a decimal number is nothing, or the mark of a power of ten. -/
theorem IsPower.first (exponent : IsPower p below power) : ∀ c ∈ p.head?, c = 'e' ∨ c = 'E' := by
  cases exponent with
  | nothing => simp
  | marked known => simpa using known

/-- Digits stop before a power of ten. -/
theorem IsPower.stops (exponent : IsPower p below power) : Stops p := by
  intro c first
  obtain rfl | rfl := exponent.first c first <;> exact ⟨by decide +kernel, by decide⟩

/-- There is no group of digits where digits stop. -/
theorem digitGroup?_of_stops (stops : Stops rest) : digitGroup? rest = none := by
  cases rest with
  | nil => rfl
  | cons c rest => rw [digitGroup?, (stops_cons.mp stops).1]; rfl

/-- The fractional part is found before a power of ten. -/
theorem fractional_append (fraction : IsFractional f values) (exponent : IsPower p below power) :
    fractional (f ++ p) = (.digits values, p) := by
  cases fraction with
  | nothing =>
    rw [List.nil_append, fractional.eq_def]
    split
    next => simpa using exponent.first '.' rfl
    next => rfl
  | point =>
    have none : p.takeWhile (fun c => c = 'd' || c = 'D') = [] := by
      cases exponent with
      | nothing => rfl
      | marked known => obtain rfl | rfl := known <;> rfl
    simp only [List.singleton_append, fractional, digitGroup?_of_stops exponent.stops, none]
  | digits group => simp only [List.cons_append, fractional, digitGroup?_append group exponent.stops]

/-- What is found of digits is a fractional part. -/
theorem exists_of_fractional (found : fractional s = (.digits values, rest)) :
    ∃ f, s = f ++ rest ∧ IsFractional f values := by
  rw [fractional.eq_def] at found
  split at found
  next t =>
    split at found
    next found' =>
      obtain ⟨group, split, grouped⟩ := exists_of_digitGroup? found'
      cases found
      exact ⟨'.' :: group, by rw [split, List.cons_append], .digits grouped⟩
    next =>
      dsimp only at found
      split at found <;> cases found
      exact ⟨['.'], rfl, .point⟩
  next =>
    cases found
    exact ⟨[], rfl, .nothing⟩

/-- A power of ten is read from its text. -/
theorem exponent?_eq_some_iff : exponent? p = some (below, power) ↔ IsPower p below power := by
  constructor
  · intro read
    cases p with
    | nil =>
      cases read
      exact .nothing
    | cons mark rest =>
      rcases taken : takeSign rest with ⟨negative, body⟩
      obtain ⟨sign, split, signed⟩ := exists_of_takeSign taken
      simp only [exponent?, taken] at read
      split at read
      next known =>
        split at read
        next found =>
          obtain ⟨group, whole, grouped⟩ := exists_of_digitGroup? found
          cases read
          rw [List.append_nil] at whole
          rw [split, whole, ← List.cons_append]
          exact .marked (by simpa using known) signed grouped
        next => cases read
      next => cases read
  · intro exponent
    cases exponent with
    | nothing => rfl
    | @marked mark sign s below power known signed group =>
      have taken : takeSign (sign ++ s) = (below, s) := by
        refine takeSign_append signed fun c first => ?_
        obtain ⟨c', d, own, value⟩ := group.head?
        cases own.symm.trans first
        exact ne_sign value
      have found : digitGroup? s = some (power, []) := by simpa using digitGroup?_append group stops_nil
      simp only [List.cons_append, exponent?, taken, found]
      obtain rfl | rfl := known <;> rfl

/-- A part has too many digits unless all are short. -/
theorem tooLong?_eq_none {parts : List (List Nat)} :
    tooLong? parts = none ↔ ∀ digits ∈ parts, digits.length ≤ maxDigits := by
  simp [tooLong?]

/-- A decimal number with short parts has its value. -/
theorem decimal_append (fraction : IsFractional f values) (exponent : IsPower p below power)
    (short : (Spelled.decimal whole values below power).IsShort) :
    decimal negative whole (f ++ p) = .value ((Spelled.decimal whole values below power).value negative) := by
  have few : tooLong? [whole, values, power] = none := by
    simpa [tooLong?_eq_none, Spelled.IsShort] using short
  simp only [decimal, fractional_append fraction exponent, exponent?_eq_some_iff.mpr exponent, few, scaled_eq,
    Spelled.value]

/-- What has a value as a decimal number consists of a fractional part and a power of ten, and its parts are short. -/
theorem exists_of_decimal (done : decimal negative whole rest = .value q) :
    ∃ f p values below power, rest = f ++ p ∧ IsFractional f values ∧ IsPower p below power ∧
      (Spelled.decimal whole values below power).IsShort := by
  rcases found : fractional rest with ⟨part, tail⟩
  simp only [decimal, found] at done
  split at done
  next => cases done
  next => split at done <;> cases done
  next below power values known =>
    split at done
    next => cases done
    next few =>
      obtain ⟨f, split, fraction⟩ := exists_of_fractional found
      refine ⟨f, tail, _, below, power, split, fraction, exponent?_eq_some_iff.mp known, ?_⟩
      simpa [tooLong?_eq_none, Spelled.IsShort] using few

/-- A decimal number has no denominator. -/
theorem decimal_ne_zeroDenominator : decimal negative whole rest ≠ .zeroDenominator := by
  rcases found : fractional rest with ⟨part, tail⟩
  simp only [decimal, found]
  split
  next => simp
  next => split <;> simp
  next => split <;> simp

/-! ## Reading -/

/-- What follows the whole part of a decimal number begins with a point or the mark of a power of ten. -/
theorem first_of_parts (fraction : IsFractional f values) (exponent : IsPower p below power) :
    ∀ c ∈ (f ++ p).head?, c = '.' ∨ c = 'e' ∨ c = 'E' := by
  cases fraction with
  | nothing => exact fun c first => .inr (exponent.first c first)
  | point => simp
  | digits => simp

/-- A fraction without a sign begins with a digit or a point. -/
theorem IsUnsigned.head? (unsigned : IsUnsigned s spelled) :
    ∃ c, s.head? = some c ∧ (c = '.' ∨ ∃ d, digitValue? c = some d) := by
  have grouped {s t : List Char} {ds : List Nat} (group : IsGroup s ds) :
      ∃ c, (s ++ t).head? = some c ∧ (c = '.' ∨ ∃ d, digitValue? c = some d) := by
    obtain ⟨c, d, own, value⟩ := group.head?
    exact ⟨c, by rw [List.head?_append, own]; rfl, .inr ⟨d, value⟩⟩
  cases unsigned with
  | quotient numerator _ => exact grouped numerator
  | decimal group _ _ => exact grouped group
  | point _ _ => exact ⟨'.', rfl, .inl rfl⟩

/-- There is no blank in a fraction. -/
theorem IsUnsigned.isBlank (unsigned : IsUnsigned s spelled) : ∀ c ∈ s, isBlank c = false := by
  have ofFraction {f : List Char} {values : List Nat} (fraction : IsFractional f values) :
      ∀ c ∈ f, Text.isBlank c = false := by
    cases fraction with
    | nothing => simp
    | point => exact List.forall_mem_cons.mpr ⟨by decide, by simp⟩
    | digits group => exact List.forall_mem_cons.mpr ⟨by decide, group.isBlank⟩
  have ofPower {p : List Char} {below : Bool} {power : List Nat} (exponent : IsPower p below power) :
      ∀ c ∈ p, Text.isBlank c = false := by
    cases exponent with
    | nothing => simp
    | marked known signed group =>
      rw [List.cons_append, List.forall_mem_cons, List.forall_mem_append]
      exact ⟨by obtain rfl | rfl := known <;> decide, signed.isBlank, group.isBlank⟩
  cases unsigned with
  | quotient numerator denominator =>
    rw [List.forall_mem_append, List.forall_mem_cons]
    exact ⟨numerator.isBlank, by decide, denominator.isBlank⟩
  | decimal group fraction exponent =>
    rw [List.forall_mem_append, List.forall_mem_append]
    exact ⟨group.isBlank, ofFraction fraction, ofPower exponent⟩
  | point fraction exponent =>
    rw [List.cons_append, List.forall_mem_cons, List.forall_mem_append]
    exact ⟨by decide, fraction.isBlank, ofPower exponent⟩

/-- A quotient with short parts has its value, unless the denominator is zero. -/
theorem quotient_eq {above under : List Nat} (short : (Spelled.quotient above under).IsShort) :
    quotient negative above under =
      if ofDigits under = 0 then .zeroDenominator else .value ((Spelled.quotient above under).value negative) := by
  have few : tooLong? [above, under] = none := by
    simpa [tooLong?_eq_none, Spelled.IsShort] using short
  simp only [quotient, few, Rat.mkRat_eq_div, Spelled.value]

/-- The sign of a fraction is taken, and the blanks around it are left out. -/
theorem takeSign_trim {before sign body after : List Char} (leading : IsBlanks before) (signed : IsSign sign negative)
    (unsigned : IsUnsigned body spelled) (trailing : IsBlanks after) :
    takeSign (trim (before ++ (sign ++ body) ++ after)) = (negative, body) := by
  have solid : HasSolidEnds (sign ++ body) := by
    refine hasSolidEnds_of_forall fun c member => ?_
    exact (List.mem_append.mp member).elim (signed.isBlank c) (unsigned.isBlank c)
  rw [trim_append solid leading trailing]
  refine takeSign_append signed fun c first => ?_
  obtain ⟨c', own, known⟩ := unsigned.head?
  cases own.symm.trans first
  obtain rfl | ⟨d, value⟩ := known
  · decide
  · exact ne_sign value

/-- A text that spells a fraction with short groups of digits is read as what it spells. -/
theorem read_of_spells (spells : Spells s negative spelled) (short : spelled.IsShort) :
    spelled.IsOverZero ∧ read s = .zeroDenominator ∨ ¬ spelled.IsOverZero ∧ read s = .value (spelled.value negative) := by
  obtain ⟨leading, signed, unsigned, trailing⟩ := spells
  have taken := takeSign_trim leading signed unsigned trailing
  cases unsigned with
  | @quotient n d above under numerator denominator =>
    have first : digitGroup? (n ++ '/' :: d) = some (above, '/' :: d) := digitGroup?_append numerator (by simp; decide)
    have second : digitGroup? d = some (under, []) := by simpa using digitGroup?_append denominator stops_nil
    simp only [read, taken, first, second, quotient_eq short]
    by_cases zero : ofDigits under = 0
    · exact .inl ⟨zero, if_pos zero⟩
    · exact .inr ⟨zero, if_neg zero⟩
  | @decimal w f p whole values power below group fraction exponent =>
    have start := first_of_parts fraction exponent
    have stops : Stops (f ++ p) := by
      intro c first
      obtain rfl | rfl | rfl := start c first <;> exact ⟨by decide +kernel, by decide⟩
    have found := digitGroup?_append group stops
    refine .inr ⟨not_false, ?_⟩
    rw [← decimal_append fraction exponent short, read]
    simp only [taken, found]
    split
    next same =>
      obtain ⟨_, slash⟩ := Prod.mk.inj (Option.some.inj same)
      have never := start '/' (by rw [slash]; rfl)
      simp at never
    next same => cases same; rfl
    next same => cases same
  | @point f p values power below fraction exponent =>
    obtain ⟨value, further⟩ := fraction
    rename_i c d s ds
    have none : digitGroup? ('.' :: c :: s ++ p) = none := digitGroup?_of_stops (by simp; decide)
    have digit : isDigit c = true := by rw [isDigit, value]; rfl
    refine .inr ⟨not_false, ?_⟩
    rw [← decimal_append (.digits (.intro value further)) exponent short]
    simp only [List.cons_append] at taken none ⊢
    simp only [read, taken, none, digit, if_true]

/-- A point with a digit after it is the beginning of the fractional part. -/
theorem isUnsigned_of_point {c : Char} (fraction : IsFractional f values) (exponent : IsPower p below power)
    (split : '.' :: c :: rest = f ++ p) (digit : isDigit c = true) :
    IsUnsigned (f ++ p) (.decimal [] values below power) := by
  cases fraction with
  | nothing =>
    obtain rfl : '.' :: c :: rest = p := split
    have never := exponent.first '.' rfl
    simp at never
  | point =>
    obtain rfl : c :: rest = p := (List.cons.inj split).2
    obtain rfl | rfl := exponent.first c rfl <;> exact absurd digit (by decide +kernel)
  | digits group => exact .point group exponent

/-- What is read as a quantity or as a denominator of zero has a sign and an unsigned fraction of short groups. -/
theorem exists_unsigned_of_read {body : List Char} (taken : takeSign (trim s) = (negative, body))
    (decided : read s = .value q ∨ read s = .zeroDenominator) : ∃ spelled, IsUnsigned body spelled ∧ spelled.IsShort := by
  simp only [read, taken] at decided
  split at decided
  next above rest found =>
    obtain ⟨n, split, numerator⟩ := exists_of_digitGroup? found
    split at decided
    next under found' =>
      obtain ⟨d, split', denominator⟩ := exists_of_digitGroup? found'
      rw [List.append_nil] at split'
      subst split split'
      refine ⟨_, .quotient numerator denominator, ?_⟩
      by_contra long
      have many : tooLong? [above, under] ≠ none := by
        simpa [tooLong?_eq_none, Spelled.IsShort] using long
      obtain ⟨count, same⟩ := Option.ne_none_iff_exists'.mp many
      simp [quotient, same] at decided
    next => simp at decided
  next whole rest found =>
    obtain ⟨w, split, group⟩ := exists_of_digitGroup? found
    have done := decided.resolve_right decimal_ne_zeroDenominator
    obtain ⟨f, p, values, below, power, rfl, fraction, exponent, short⟩ := exists_of_decimal done
    exact ⟨_, split ▸ .decimal group fraction exponent, short⟩
  next =>
    split at decided
    next c rest found =>
      split at decided
      next digit =>
        have done := decided.resolve_right decimal_ne_zeroDenominator
        obtain ⟨f, p, values, below, power, split, fraction, exponent, short⟩ := exists_of_decimal done
        exact ⟨_, split ▸ isUnsigned_of_point fraction exponent split digit, short⟩
      next => simp at decided
    next => simp at decided

/-- Only a text that spells a fraction with short groups of digits is read as a quantity, or as a denominator of
zero. -/
theorem exists_of_read (decided : read s = .value q ∨ read s = .zeroDenominator) :
    ∃ negative spelled, Spells s negative spelled ∧ spelled.IsShort := by
  obtain ⟨_, before, after, leading, trailing, whole⟩ := trim_eq_iff.mp (rfl : trim s = trim s)
  rcases taken : takeSign (trim s) with ⟨negative, body⟩
  obtain ⟨sign, split, signed⟩ := exists_of_takeSign taken
  obtain ⟨spelled, unsigned, short⟩ := exists_unsigned_of_read taken decided
  refine ⟨negative, spelled, ?_, short⟩
  rw [whole, split]
  exact .intro leading signed unsigned trailing

/-- Reading gives a quantity just for the texts that spell it. -/
theorem read_eq_value_iff : read s = .value q ↔
    ∃ negative spelled, Spells s negative spelled ∧ spelled.IsShort ∧ ¬ spelled.IsOverZero ∧ q = spelled.value negative := by
  constructor
  · intro done
    obtain ⟨negative, spelled, spells, short⟩ := exists_of_read (.inl done)
    rcases read_of_spells spells short with ⟨_, zero⟩ | ⟨nonzero, value⟩
    · cases zero.symm.trans done
    · exact ⟨negative, spelled, spells, short, nonzero, (Reading.value.inj (value.symm.trans done)).symm⟩
  · rintro ⟨negative, spelled, spells, short, nonzero, rfl⟩
    exact (read_of_spells spells short).elim (fun zero => absurd zero.1 nonzero) And.right

/-- Reading finds a denominator of zero just in the texts that spell a fraction with one. -/
theorem read_eq_zeroDenominator_iff : read s = .zeroDenominator ↔
    ∃ negative spelled, Spells s negative spelled ∧ spelled.IsShort ∧ spelled.IsOverZero := by
  constructor
  · intro done
    obtain ⟨negative, spelled, spells, short⟩ := exists_of_read (q := 0) (.inr done)
    rcases read_of_spells spells short with ⟨zero, _⟩ | ⟨_, value⟩
    · exact ⟨negative, spelled, spells, short, zero⟩
    · cases value.symm.trans done
  · rintro ⟨negative, spelled, spells, short, zero⟩
    exact (read_of_spells spells short).elim And.right fun nonzero => absurd zero nonzero.1

end MusicScore.FractionText
