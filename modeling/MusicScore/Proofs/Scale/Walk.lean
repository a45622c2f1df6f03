import Mathlib.Algebra.BigOperators.Intervals
import Mathlib.Algebra.Order.Ring.Int
import Mathlib.Data.List.GetD
import Mathlib.Tactic.Ring
import MusicScore.Proofs.Fault
import MusicScore.Proofs.Outcome
import MusicScore.Proofs.Text.Digits
import MusicScore.Scale

/-!
# The walk of a scale

The steps of a scale are gone through again and again, from the tonic on, and each step leads from one note number to
the next. A scale finds these numbers in another way: it keeps the offsets of the degrees in one octave, which leave
out the last step, and adds twelve semitones for each octave that is complete. Both are the same because the steps add
up to twelve, so that going through all of them once leads to the same degree an octave higher.

What is taken of a scale are the numbers that are reached before the first one beyond the highest pitch. A step may
also lead down, so they need not ascend, and the scale is refused at the first of them that is below the lowest pitch.
The refusal tells this number. Where it has too many digits to be told, the refusal is not reported as one.
-/
namespace MusicScore

/-- The numbers stand for these whole ones. -/
def Number.StandFor (numbers : List Number) (ints : List Int) : Prop :=
  List.Forall₂ (fun a n => a.toInt? = some n) numbers ints

namespace ScaleType

/-- The steps of the scale type are these whole numbers. -/
def HasSteps (type : ScaleType) (steps : List Int) : Prop := Number.StandFor type.steps steps

variable {type : ScaleType} {data : List Datum} {name : Datum} {steps : List Int}

/-- Whole numbers are added up to their sum. -/
theorem addUp_sum {total : Int} {sum : Number} {numbers : List Number}
    (done : addUp (.ofInt total) data = .ok (sum, numbers)) (whole : Number.StandFor numbers steps) :
    sum = .ofInt (total + steps.sum) := by
  induction data generalizing total numbers steps with
  | nil =>
    cases done
    cases whole
    simp
  | cons value rest inductionHypothesis =>
    cases value with
    | number n =>
      simp only [addUp] at done
      split at done
      next next added =>
        obtain ⟨⟨above, others⟩, remaining, same⟩ := Outcome.bind_eq_ok.mp done
        cases same
        cases whole with
        | cons own others =>
          rw [Number.ofInt_add?_of_toInt? total own] at added
          cases added
          rw [inductionHypothesis remaining others, List.sum_cons, add_assoc]
      next => cases done
    | _ => cases done

/-- The steps of a scale type add up to an octave. -/
theorem HasSteps.sum_eq (whole : type.HasSteps steps) (made : ofData data name = .ok type) : steps.sum = 12 := by
  obtain ⟨⟨total, numbers⟩, added, checked⟩ := Outcome.bind_eq_ok.mp made
  by_cases octave : total.same (.ofInt 12) = true
  · simp only [octave, if_true] at checked
    cases checked
    rw [addUp_sum added whole, Number.same_ofInt, decide_eq_true_eq, zero_add] at octave
    exact octave
  · simp only [octave] at checked
    cases checked

/-- Steps that add up to an octave are not none. -/
theorem length_pos (octave : steps.sum = 12) : 0 < steps.length := by
  refine List.length_pos_iff.mpr ?_
  rintro rfl
  cases octave

/-! ## Offsets -/

/-- Offsets from a whole number on are the sums of the first steps. -/
theorem offsetsAfter_eq {numbers : List Number} (offset : Int) (whole : Number.StandFor numbers steps) :
    offsetsAfter (.ofInt offset) numbers =
      some ((List.range steps.length).map fun place => .ofInt (offset + (steps.take (place + 1)).sum)) := by
  induction whole generalizing offset with
  | nil => rfl
  | cons own _ inductionHypothesis =>
    simp [offsetsAfter, Number.ofInt_add?_of_toInt? offset own, inductionHypothesis, List.range_succ_eq_map,
      Function.comp_def, add_assoc]

/-- The offsets of a scale type are the sums of its first steps; each step has a degree before it. -/
theorem HasSteps.offsets?_eq (whole : type.HasSteps steps) (octave : steps.sum = 12) :
    type.offsets? = some ((List.range steps.length).map fun degree => .ofInt (steps.take degree).sum) := by
  obtain ⟨last, length⟩ := Nat.exists_eq_add_one_of_ne_zero (length_pos octave).ne'
  have inner : Number.StandFor type.steps.dropLast (steps.take last) := by
    rw [List.dropLast_eq_take, whole.length_eq, length]
    exact List.forall₂_take last whole
  have others : (List.range last).map (fun place => Number.ofInt (0 + ((steps.take last).take (place + 1)).sum)) =
      (List.range last).map fun place => .ofInt (steps.take (place + 1)).sum := by
    refine List.map_congr_left fun place member => ?_
    rw [List.take_take, Nat.min_eq_left (List.mem_range.mp member), zero_add]
  have within : (steps.take last).length = last := by
    rw [List.length_take, length]
    omega
  simp only [offsets?, offsetsAfter_eq 0 inner, within, others, length, List.range_succ_eq_map, List.map_cons,
    List.map_map]
  rfl

end ScaleType

namespace Scale

open Finset

variable {tonic : Int} {steps : List Int}

/-! ## Going through the steps -/

/-- The note number that is reached when so many steps are taken from the tonic on; after the last step comes the first
one again. -/
def reach (tonic : Int) (steps : List Int) (taken : Nat) : Int :=
  tonic + ∑ place ∈ range taken, steps.getD (place % steps.length) 0

@[simp] theorem reach_zero : reach tonic steps 0 = tonic := by
  simp [reach]

/-- One more step leads on by that step. -/
theorem reach_succ (taken : Nat) :
    reach tonic steps (taken + 1) = reach tonic steps taken + steps.getD (taken % steps.length) 0 := by
  simp only [reach, sum_range_succ, add_assoc]

/-- As long as no step is taken again, what is reached is the tonic and the sum of the steps taken. -/
theorem reach_of_le {degree : Nat} (inside : degree ≤ steps.length) :
    reach tonic steps degree = tonic + (steps.take degree).sum := by
  induction degree with
  | zero => simp
  | succ degree inductionHypothesis =>
    rw [reach_succ, inductionHypothesis (by omega), Nat.mod_eq_of_lt inside, List.sum_take_succ steps degree inside,
      List.getD_eq_getElem _ _ inside, add_assoc]

/-- Taking every step once leads to the same degree an octave higher. -/
theorem reach_add_length (octave : steps.sum = 12) (taken : Nat) :
    reach tonic steps (steps.length + taken) = reach tonic steps taken + 12 := by
  have once : reach tonic steps steps.length = tonic + 12 := by
    rw [reach_of_le le_rfl, List.take_length, octave]
  simp only [reach, sum_range_add, Nat.add_mod_left] at once ⊢
  omega

/-- Taking every step many times leads as many octaves higher. -/
theorem reach_add_mul_length (octave : steps.sum = 12) (octaves degree : Nat) :
    reach tonic steps (steps.length * octaves + degree) = reach tonic steps degree + octaves * 12 := by
  induction octaves with
  | zero => simp
  | succ octaves inductionHypothesis =>
    have split : steps.length * (octaves + 1) + degree = steps.length + (steps.length * octaves + degree) := by ring
    rw [split, reach_add_length octave, inductionHypothesis]
    push_cast
    ring

/-- The number of a degree, found with the offset in its octave, is what the steps lead to. -/
theorem numberAt?_eq {tonic : Pitch} (octave : steps.sum = 12) (index : Nat) :
    numberAt? tonic ((List.range steps.length).map fun degree => .ofInt (steps.take degree).sum) index =
      some (.ofInt (reach tonic.number steps index)) := by
  have inside : index % steps.length < steps.length := Nat.mod_lt index (ScaleType.length_pos octave)
  have reached : reach tonic.number steps index =
      tonic.number + (index / steps.length : Nat) * 12 + (steps.take (index % steps.length)).sum := by
    conv_lhs => rw [← Nat.div_add_mod index steps.length]
    rw [reach_add_mul_length octave, reach_of_le inside.le]
    ring
  simp [numberAt?, inside, reached]

/-! ## What is taken -/

/-- The note numbers that are reached from the tonic on, at most `count` and only those before the first one beyond the
highest pitch. -/
def reached (tonic : Int) (steps : List Int) (count : Nat) : List Int :=
  ((List.range count).map (reach tonic steps)).takeWhile (· ≤ Pitch.highest)

/-- What is reached goes on to a place where it stops, at `count` or at the first number beyond the highest pitch. -/
theorem reached_eq_map (tonic : Int) (steps : List Int) (count : Nat) :
    ∃ stop ≤ count, reached tonic steps count = (List.range stop).map (reach tonic steps) ∧
      (∀ place < stop, reach tonic steps place ≤ Pitch.highest) ∧
      (stop < count → Pitch.highest < reach tonic steps stop) := by
  induction count with
  | zero => exact ⟨0, le_rfl, rfl, by simp, by simp⟩
  | succ count inductionHypothesis =>
    obtain ⟨stop, within, same, inside, beyond⟩ := inductionHypothesis
    have split : reached tonic steps (count + 1) = if stop = count
        then (List.range count).map (reach tonic steps) ++ [reach tonic steps count].takeWhile (· ≤ Pitch.highest)
        else reached tonic steps count := by
      have length : (reached tonic steps count).length = stop := by simp [same]
      rw [reached, List.range_succ, List.map_append, List.takeWhile_append, List.length_map, List.length_range,
        ← reached, length, List.map_singleton]
    by_cases whole : stop = count
    · subst whole
      by_cases next : reach tonic steps stop ≤ Pitch.highest
      · refine ⟨stop + 1, le_rfl, ?_, fun place lower => ?_, by simp⟩
        · simp [split, next, List.range_succ]
        · obtain lower | rfl := Nat.lt_succ_iff_lt_or_eq.mp lower
          · exact inside place lower
          · exact next
      · refine ⟨stop, by omega, ?_, inside, fun _ => not_le.mp next⟩
        simp [split, next]
    · refine ⟨stop, by omega, ?_, inside, fun _ => beyond (by omega)⟩
      rw [split, if_neg whole, same]

/-- Fewer numbers are the first ones of more numbers. -/
theorem reached_prefix {fewer count : Nat} (less : fewer ≤ count) :
    reached tonic steps fewer <+: reached tonic steps count := by
  obtain ⟨more, rfl⟩ := Nat.exists_eq_add_of_le less
  rw [reached, reached, List.range_add, List.map_append, List.takeWhile_append]
  split
  next all =>
    rw [(List.takeWhile_prefix _).eq_of_length all]
    exact List.prefix_append _ _
  next => exact List.prefix_rfl

/-- The walk makes pitches of the numbers from its index on. -/
theorem walk_eq {tonic : Pitch} {offsets : List Number} (count index : Nat)
    (leads : ∀ index, numberAt? tonic offsets index = some (.ofInt (reach tonic.number steps index))) :
    walk tonic offsets count index =
      (((List.range' index count).map (reach tonic.number steps)).takeWhile (· ≤ Pitch.highest)).mapM Pitch.ofInt := by
  induction count generalizing index with
  | zero => rfl
  | succ count inductionHypothesis =>
    rw [walk, leads, List.range'_succ, List.map_cons]
    by_cases inside : reach tonic.number steps index ≤ Pitch.highest
    · rw [List.takeWhile_cons_of_pos (by simpa using inside), List.mapM_cons, ← inductionHypothesis]
      simp only [Number.lt_ofInt, decide_eq_true_eq, not_lt.mpr inside, if_false]
      rfl
    · rw [List.takeWhile_cons_of_neg (by simpa using inside)]
      simp only [Number.lt_ofInt, decide_eq_true_eq, not_le.mp inside, if_true]
      rfl

section

variable {scale : Scale} (whole : scale.type.HasSteps steps) (octave : steps.sum = 12)

include whole octave

/-- What is taken of a scale are the pitches with the numbers that its steps lead to. -/
theorem take_eq (count : Nat) : scale.take count = (reached scale.tonic.number steps count).mapM Pitch.ofInt := by
  simp only [take, whole.offsets?_eq octave, walk_eq _ _ (numberAt?_eq octave)]
  rw [reached, List.range_eq_range']

/-- The pitches that are taken are those with the numbers that are reached. -/
theorem take_eq_ok (count : Nat) (pitches : List Pitch) :
    scale.take count = .ok pitches ↔
      pitches.map Pitch.numeral = (reached scale.tonic.number steps count).map .plain := by
  rw [take_eq whole octave, Outcome.mapM_eq_ok, ← List.forall₂_eq_eq_eq, List.forall₂_map_left_iff,
    List.forall₂_map_right_iff]
  simp only [Pitch.ofInt_eq_ok_iff]
  exact ⟨List.Forall₂.flip, List.Forall₂.flip⟩

/-- Their numbers are those that are reached. -/
theorem number_of_take {count : Nat} {pitches : List Pitch} (done : scale.take count = .ok pitches) :
    pitches.map Pitch.number = reached scale.tonic.number steps count := by
  have numerals := (take_eq_ok whole octave count pitches).mp done
  calc
    pitches.map Pitch.number = (pitches.map Pitch.numeral).map Numeral.value := by
      rw [List.map_map]
      rfl
    _ = reached scale.tonic.number steps count := by simp [numerals, Function.comp_def]

/-- A scale is refused at the first number below the lowest pitch. -/
theorem take_eq_error (count : Nat) (fault : Fault) :
    scale.take count = .error fault ↔
      ∃ before n after, reached scale.tonic.number steps count = before ++ n :: after ∧ (∀ m ∈ before, 0 ≤ m) ∧
        n < 0 ∧ fault = .value (.pitch (wholeText n)) := by
  obtain ⟨stop, _, same, inside, _⟩ := reached_eq_map scale.tonic.number steps count
  have low (n : Int) (member : n ∈ reached scale.tonic.number steps count) : n ≤ Pitch.highest := by
    rw [same, List.mem_map] at member
    obtain ⟨place, lower, rfl⟩ := member
    exact inside place (List.mem_range.mp lower)
  rw [take_eq whole octave, Outcome.mapM_eq_error]
  constructor
  · rintro ⟨before, n, after, split, earlier, failed⟩
    obtain ⟨outside, shown⟩ := Pitch.ofInt_eq_error_iff.mp failed
    have notAbove := low n (by simp [split])
    refine ⟨before, n, after, split, fun m member => ?_, outside.resolve_right (by omega), shown⟩
    obtain ⟨pitch, made⟩ := earlier m member
    exact Pitch.number_of_ofInt made ▸ pitch.number_nonneg
  · rintro ⟨before, n, after, split, earlier, below, shown⟩
    refine ⟨before, n, after, split, fun m member => ?_, Pitch.ofInt_eq_error_iff.mpr ⟨.inl below, shown⟩⟩
    exact ⟨⟨.plain m, earlier m member, low m (by simp [split, member])⟩, (Pitch.ofInt_eq_ok_iff _ _).mpr rfl⟩

/-- A scale is refused exactly when a number below the lowest pitch is reached. -/
theorem take_refused_iff (count : Nat) :
    (∃ fault, scale.take count = .error fault) ↔ ∃ n ∈ reached scale.tonic.number steps count, n < 0 := by
  constructor
  · rintro ⟨fault, failed⟩
    obtain ⟨before, n, after, split, _, below, _⟩ := (take_eq_error whole octave count _).mp failed
    exact ⟨n, by simp [split], below⟩
  · rintro ⟨n, member, below⟩
    cases outcome : scale.take count with
    | ok pitches =>
      have numerals := (take_eq_ok whole octave count pitches).mp outcome
      obtain ⟨pitch, _, same⟩ := List.mem_map.mp (numerals ▸ List.mem_map_of_mem member)
      have low := pitch.inRange.1
      rw [same] at low
      exact absurd low (not_le.mpr below)
    | error fault => exact ⟨fault, rfl⟩

/-- The first number below the lowest pitch has so many digits that it is not reported as a refused value, or nothing else
than refused values is reported. -/
theorem take_escapes_iff (count : Nat) :
    (∃ fault, scale.take count = .error fault ∧ ¬ fault.IsOwn) ↔
      ∃ before n after, reached scale.tonic.number steps count = before ++ n :: after ∧ (∀ m ∈ before, 0 ≤ m) ∧
        n < 0 ∧ Text.digitLimit ≤ n.natAbs := by
  constructor
  · rintro ⟨fault, failed, escaped⟩
    obtain ⟨before, n, after, split, earlier, below, rfl⟩ := (take_eq_error whole octave count _).mp failed
    exact ⟨before, n, after, split, earlier, below, Fault.not_isOwn_pitch_iff.mp escaped⟩
  · rintro ⟨before, n, after, split, earlier, below, many⟩
    exact ⟨_, (take_eq_error whole octave count _).mpr ⟨before, n, after, split, earlier, below, rfl⟩,
      Fault.not_isOwn_pitch_iff.mpr many⟩

/-- Fewer pitches are the first ones of more pitches. -/
theorem take_of_le {fewer count : Nat} (less : fewer ≤ count) {pitches : List Pitch}
    (done : scale.take count = .ok pitches) : ∃ first, scale.take fewer = .ok first ∧ first <+: pitches := by
  have front : reached scale.tonic.number steps fewer <+: reached scale.tonic.number steps count := reached_prefix less
  have numerals := (take_eq_ok whole octave count pitches).mp done
  have short : (pitches.take (reached scale.tonic.number steps fewer).length).map Pitch.numeral =
      (reached scale.tonic.number steps fewer).map .plain := by
    rw [List.map_take, numerals, ← List.map_take, ← List.prefix_iff_eq_take.mp front]
  exact ⟨_, (take_eq_ok whole octave fewer _).mpr short, List.take_prefix _ _⟩

/-- A pitch for each step and one more end an octave above the tonic. -/
theorem getLast?_take {pitches : List Pitch} (done : scale.take (steps.length + 1) = .ok pitches)
    (uncut : pitches.length = steps.length + 1) :
    ∃ last, pitches.getLast? = some last ∧ last.number = scale.tonic.number + 12 := by
  have numerals := (take_eq_ok whole octave _ pitches).mp done
  obtain ⟨stop, _, same, _⟩ := reached_eq_map scale.tonic.number steps (steps.length + 1)
  have length : stop = steps.length + 1 := by
    have counted := congrArg List.length numerals
    simp only [same, List.length_map, List.length_range, uncut] at counted
    exact counted.symm
  have top : reach scale.tonic.number steps steps.length = scale.tonic.number + 12 := by
    rw [reach_of_le le_rfl, List.take_length, octave]
  rw [same, length, List.range_succ, List.map_append, List.map_append, List.map_singleton, List.map_singleton,
    List.map_eq_append_iff] at numerals
  obtain ⟨front, last, rfl, _, final⟩ := numerals
  obtain ⟨pitch, rfl, own⟩ := List.map_eq_singleton_iff.mp final
  exact ⟨pitch, by simp, by rw [Pitch.number, own, Numeral.value_plain, top]⟩

end

/-- What can be taken of a scale is decided by the numbers that these steps lead to. -/
structure Follows (scale : Scale) (steps : List Int) : Prop where
  /-- There are degrees, so that the place of a pitch can be divided by their number. -/
  degrees : ∃ offsets, scale.type.offsets? = some offsets ∧ 0 < offsets.length
  /-- The pitches that are taken are those with the numbers that are reached. -/
  taken (count : Nat) (pitches : List Pitch) : scale.take count = .ok pitches ↔
    pitches.map Pitch.numeral = (reached scale.tonic.number steps count).map .plain
  /-- They are refused exactly when a number that is reached lies below the lowest pitch. -/
  refused (count : Nat) : (∃ fault, scale.take count = .error fault) ↔
    ∃ n ∈ reached scale.tonic.number steps count, n < 0
  /-- The first such number is refused as a value. -/
  refusal (count : Nat) (fault : Fault) : scale.take count = .error fault ↔
    ∃ before n after, reached scale.tonic.number steps count = before ++ n :: after ∧ (∀ m ∈ before, 0 ≤ m) ∧
      n < 0 ∧ fault = .value (.pitch (wholeText n))
  /-- It is reported as a refused value unless it has too many digits. -/
  escapes (count : Nat) : (∃ fault, scale.take count = .error fault ∧ ¬ fault.IsOwn) ↔
    ∃ before n after, reached scale.tonic.number steps count = before ++ n :: after ∧ (∀ m ∈ before, 0 ≤ m) ∧
      n < 0 ∧ Text.digitLimit ≤ n.natAbs
  /-- Where pitches can be taken, fewer can be taken, too, and are the first ones of them. -/
  shortened (fewer count : Nat) (less : fewer ≤ count) (pitches : List Pitch) (done : scale.take count = .ok pitches) :
    ∃ first, scale.take fewer = .ok first ∧ first <+: pitches
  /-- An octave with a pitch for each step and one more ends an octave above the tonic. -/
  octave (pitches : List Pitch) (done : scale.octave = .ok pitches)
    (uncut : pitches.length = scale.type.steps.length + 1) :
    ∃ last, pitches.getLast? = some last ∧ last.number = scale.tonic.number + 12

/-- Steps that add up to an octave decide what can be taken of a scale. -/
theorem follows_of_sum {scale : Scale} (whole : scale.type.HasSteps steps) (sum : steps.sum = 12) :
    scale.Follows steps := by
  have length : scale.type.steps.length = steps.length := whole.length_eq
  constructor
  case degrees =>
    refine ⟨_, whole.offsets?_eq sum, ?_⟩
    rw [List.length_map, List.length_range]
    exact ScaleType.length_pos sum
  case taken => exact take_eq_ok whole sum
  case refused => exact take_refused_iff whole sum
  case refusal => exact take_eq_error whole sum
  case escapes => exact take_escapes_iff whole sum
  case shortened => exact fun fewer count less pitches => take_of_le whole sum less
  case octave =>
    intro pitches done uncut
    rw [Scale.octave, length] at done
    exact getLast?_take whole sum done (length ▸ uncut)

/-- What can be taken of a scale, on any tonic, is decided by the numbers that the steps of its type lead to. -/
theorem follows_steps {type : ScaleType} {data : List Datum} {name : Datum} (tonic : Pitch)
    (made : ScaleType.ofData data name = .ok type) (whole : type.HasSteps steps) : Follows ⟨tonic, type⟩ steps :=
  follows_of_sum whole (whole.sum_eq made)

/-- Two steps that make up an octave together. -/
theorem ofData_two (first : Int) :
    ScaleType.ofData [.number (.ofInt first), .number (.ofInt (12 - first))] (.text "") =
      .ok ⟨[.ofInt first, .ofInt (12 - first)], .text ""⟩ := by
  have added (total n : Int) : (Number.ofInt total).add? (.ofInt n) = some (.ofInt (total + n)) :=
    Number.ofInt_add?_of_toInt? total rfl
  simp [ScaleType.ofData, ScaleType.addUp, added, bind, Except.bind, pure, Except.pure]

/-- Where the first step leads from the lowest pitch down to a number of too many digits, the refusal of the number is not
reported as one. -/
theorem Follows.exists_escape {scale : Scale} {first : Int} (follows : scale.Follows [first, 12 - first])
    (bottom : scale.tonic.number = 0) (below : first < 0) (many : Text.digitLimit ≤ first.natAbs) :
    ∃ fault, scale.take 2 = .error fault ∧ ¬ fault.IsOwn := by
  have low : first ≤ Pitch.highest := by
    rw [Pitch.highest]
    omega
  have numbers : reached scale.tonic.number [first, 12 - first] 2 = [0, first] := by
    have steps : (List.range 2).map (reach scale.tonic.number [first, 12 - first]) = [0, first] := by
      simp [reach, List.range_succ, bottom]
    have lowest : (0 : Int) ≤ Pitch.highest := by decide
    rw [reached, steps]
    simp [low, lowest]
  exact (follows.escapes 2).mpr ⟨[0], first, [], numbers, by simp, below, many⟩

/-- Two steps, of which the first one leads up beyond the octave, or down by as much as has too many digits: then the
refusal of the first number below the lowest pitch is not reported as one. -/
theorem leap_follows_steps :
    let type (first : Int) : ScaleType := ⟨[.ofInt first, .ofInt (12 - first)], .text ""⟩
    let bottom : Pitch := ⟨.plain 0, by decide⟩
    ScaleType.ofData [.number (.ofInt 14), .number (.ofInt (12 - 14))] (.text "") = .ok (type 14) ∧
      (type 14).HasSteps [14, 12 - 14] ∧ Follows ⟨bottom, type 14⟩ [14, 12 - 14] ∧
        Follows ⟨bottom, type (-Text.digitLimit)⟩ [-Text.digitLimit, 12 - -Text.digitLimit] ∧
          ∃ fault, take ⟨bottom, type (-Text.digitLimit)⟩ 2 = .error fault ∧ ¬ fault.IsOwn := by
  intro type bottom
  have whole (first : Int) : (type first).HasSteps [first, 12 - first] := .cons rfl (.cons rfl .nil)
  have deep := follows_steps bottom (ofData_two (-Text.digitLimit)) (whole (-Text.digitLimit))
  have limit : 0 < (Text.digitLimit : Int) := Int.natCast_pos.mpr Text.digitLimit_pos
  have many : Text.digitLimit ≤ (-(Text.digitLimit : Int)).natAbs := by rw [Int.natAbs_neg, Int.natAbs_natCast]
  exact ⟨ofData_two 14, whole 14, follows_steps bottom (ofData_two 14) (whole 14), deep,
    deep.exists_escape rfl (Int.neg_neg_of_pos limit) many⟩

end Scale

end MusicScore
