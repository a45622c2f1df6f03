import Mathlib.Data.List.Perm.Basic
import MusicScore.Event.Given
import MusicScore.Midi.Stroke
import MusicScore.Proofs.Outcome

/-!
# Chords from pitches

What stands for a pitch is the pitch, its note number or one of its names. Pitches make a chord when there is one at
least and no two of them are the same, in whatever way they were given. The chord has just these pitches in strictly
ascending order. Of pitches that are all different there is only one such order, so that it does not matter in which
order they were given.
-/
namespace MusicScore

/-- The datum stands for the pitch: it is the pitch itself, its note number, or a name of it. -/
inductive Datum.IsPitch : Datum → Pitch → Prop where
  | pitch (p : Pitch) : IsPitch (.pitch p) p
  | number (p : Pitch) : IsPitch (.number (.whole p.numeral)) p
  | name {s : String} {p : Pitch} (named : Pitch.parse s = .ok p) : IsPitch (.text s) p

/-- A whole number is taken for the pitch with this note number. -/
theorem Pitch.ofNumeral_eq_ok_iff {n : Numeral} {p : Pitch} : ofNumeral n = .ok p ↔ p.numeral = n := by
  unfold ofNumeral
  constructor
  · intro done
    split at done <;> cases done
    rfl
  · rintro rfl
    exact dif_pos p.inRange

/-- A datum is taken for just the pitch that it stands for. -/
theorem Pitch.given_eq_ok_iff {value : Datum} {p : Pitch} : given value = .ok p ↔ value.IsPitch p := by
  constructor
  · intro done
    cases value with
    | pitch p => cases done; exact .pitch p
    | text s => exact .name done
    | number n =>
      cases n with
      | whole n =>
        obtain rfl := ofNumeral_eq_ok_iff.mp done
        exact .number p
      | _ => cases done
    | _ => cases done
  · rintro (_ | _ | named)
    · rfl
    · exact ofNumeral_eq_ok_iff.mpr rfl
    · exact named

namespace Harmony

variable {pitches : List Pitch} {h : Harmony} {shown : Shown}

/-- Harmonies with the same pitches are one. -/
theorem ext_pitches {g : Harmony} (same : h.pitches = g.pitches) : h = g := by
  cases h
  cases g
  cases same
  rfl

/-- Harmonies with the same pitches in some order are one, as there is one ascending order of them. -/
theorem eq_of_perm {g : Harmony} (same : h.pitches.Perm g.pitches) : h = g :=
  ext_pitches (same.eq_of_pairwise (fun _ _ _ _ below above => absurd above (Int.lt_asymm below))
    h.ascending g.ascending)

/-- There is a harmony of pitches that are all different, if there is a pitch. -/
theorem exists_perm (some : pitches ≠ []) (apart : pitches.Pairwise (·.number ≠ ·.number)) :
    ∃ h : Harmony, h.pitches.Perm pitches :=
  have perm := List.mergeSort_perm pitches atMost
  ⟨⟨pitches.mergeSort atMost, fun none => some (none ▸ perm.symm).eq_nil, ascending_mergeSort apart⟩, perm⟩

/-- Among pitches that are all different, and different from those seen before, none is found to be repeated. -/
theorem firstRepeated?_go_of_apart {seen : List Int} (apart : pitches.Pairwise (·.number ≠ ·.number))
    (unseen : ∀ p ∈ pitches, p.number ∉ seen) : firstRepeated?.go seen pitches = none := by
  induction pitches generalizing seen with
  | nil => rfl
  | cons p rest inductionHypothesis =>
    obtain ⟨own, others⟩ := List.pairwise_cons.mp apart
    obtain ⟨fresh, unseenRest⟩ := List.forall_mem_cons.mp unseen
    have next : ∀ q ∈ rest, q.number ∉ p.number :: seen := by
      intro q member repeated
      rcases List.mem_cons.mp repeated with same | earlier
      · exact own q member same.symm
      · exact unseenRest q member earlier
    rw [firstRepeated?.go, if_neg (by simpa using fresh)]
    exact inductionHypothesis others next

/-- A pitch is found to be repeated unless all are different. -/
theorem firstRepeated?_eq_none_iff : firstRepeated? pitches = none ↔ pitches.Pairwise (·.number ≠ ·.number) :=
  ⟨fun none => (firstRepeated?_go_eq_none none).1, fun apart => firstRepeated?_go_of_apart apart (by simp)⟩

/-- Pitches make the harmony that has just them, if there is one at least and no two are the same. -/
theorem ofPitches_eq_ok_iff : ofPitches pitches = .ok h ↔
    pitches ≠ [] ∧ pitches.Pairwise (·.number ≠ ·.number) ∧ h.pitches.Perm pitches := by
  unfold ofPitches
  constructor
  · intro done
    split at done
    next => cases done
    next some =>
      split at done <;> cases done
      next none => exact ⟨some, firstRepeated?_eq_none_iff.mp none, List.mergeSort_perm pitches atMost⟩
  · rintro ⟨some, apart, perm⟩
    rw [dif_neg some]
    split
    next p repeated =>
      rw [firstRepeated?_eq_none_iff.mpr apart] at repeated
      cases repeated
    next =>
      exact congrArg Except.ok (eq_of_perm ((List.mergeSort_perm pitches atMost).trans perm.symm))

/-- A pitch is refused as repeated only where two of the pitches are the same. -/
theorem not_apart_of_duplicatePitch (refused : ofPitches pitches = .error (.value (.duplicatePitch shown))) :
    ¬ pitches.Pairwise (·.number ≠ ·.number) := by
  intro apart
  unfold ofPitches at refused
  split at refused
  next => cases refused
  next =>
    split at refused
    next p repeated =>
      rw [firstRepeated?_eq_none_iff.mpr apart] at repeated
      cases repeated
    next => cases refused

end Harmony

namespace Chord

variable {sequence duration dynamic : Datum} {values : List Datum} {pitches : List Pitch} {d : Duration} {v : Dynamic}
  {chord : Chord}

/-- With a duration and a dynamic that are taken, pitches make the chord of their harmony. -/
theorem ofPitches_eq (lasting : Duration.given duration = .ok d) (struck : Dynamic.given dynamic = .ok v) :
    ofPitches pitches duration dynamic = Harmony.ofPitches pitches >>= fun h => .ok ⟨h, d, v⟩ := by
  simp only [ofPitches, lasting, struck]
  rfl

/-- With a duration and a dynamic that are taken, a sequence makes the chord that has just the pitches it stands for,
if there is one at least and no two are the same. -/
theorem ofData_eq_ok_iff (listed : sequence.items = .ok values) (lasting : Duration.given duration = .ok d)
    (struck : Dynamic.given dynamic = .ok v) : ofData sequence duration dynamic = .ok chord ↔
      ∃ pitches, List.Forall₂ Datum.IsPitch values pitches ∧ pitches ≠ [] ∧
        pitches.Pairwise (·.number ≠ ·.number) ∧ chord.harmony.pitches.Perm pitches ∧
          chord.duration = d ∧ chord.dynamic = v := by
  have each : ∀ pitches, values.mapM Pitch.given = .ok pitches ↔ List.Forall₂ Datum.IsPitch values pitches := by
    intro pitches
    simp only [Outcome.mapM_eq_ok, Pitch.given_eq_ok_iff]
  have whole : ofData sequence duration dynamic = values.mapM Pitch.given >>= fun pitches =>
      Harmony.ofPitches pitches >>= fun h => .ok ⟨h, d, v⟩ := by
    simp only [ofData, listed, ← ofPitches_eq lasting struck]
    rfl
  rw [whole]
  simp only [Outcome.bind_eq_ok, each, Harmony.ofPitches_eq_ok_iff]
  constructor
  · rintro ⟨pitches, stand, h, ⟨some, apart, perm⟩, same⟩
    cases same
    exact ⟨pitches, stand, some, apart, perm, rfl, rfl⟩
  · rintro ⟨pitches, stand, some, apart, perm, rfl, rfl⟩
    exact ⟨pitches, stand, chord.harmony, ⟨some, apart, perm⟩, rfl⟩

/-- The values of a sequence make the same chord in another order, wherever they are kept. -/
theorem ofData_of_perm {other : Datum} {others : List Datum} (listed : sequence.items = .ok values)
    (again : other.items = .ok others) (perm : others.Perm values) (lasting : Duration.given duration = .ok d)
    (struck : Dynamic.given dynamic = .ok v) (done : ofData sequence duration dynamic = .ok chord) :
    ofData other duration dynamic = .ok chord := by
  obtain ⟨pitches, stand, some, apart, same, lasts, loudness⟩ := (ofData_eq_ok_iff listed lasting struck).mp done
  obtain ⟨moved, standToo, permToo⟩ := List.perm_comp_forall₂ perm stand
  have someToo : moved ≠ [] := fun none => some (none ▸ permToo.symm).eq_nil
  have apartToo : moved.Pairwise (·.number ≠ ·.number) := permToo.symm.pairwise apart fun differ => differ.symm
  exact (ofData_eq_ok_iff again lasting struck).mpr
    ⟨moved, standToo, someToo, apartToo, same.trans permToo.symm, lasts, loudness⟩

/-- What comes of a sequence where the pitches of a chord are asked for, with a duration and a dynamic that are taken. -/
structure GivenAsPitches (sequence : Datum) (values : List Datum) (duration dynamic : Datum) (d : Duration)
    (v : Dynamic) : Prop where
  /-- It makes a chord when there is a value, each stands for a pitch, and no two stand for the same. -/
  accepted : (∃ chord, ofData sequence duration dynamic = .ok chord) ↔
    values ≠ [] ∧ ∃ pitches, List.Forall₂ Datum.IsPitch values pitches ∧ pitches.Pairwise (·.number ≠ ·.number)
  /-- The chord has just these pitches, in strictly ascending order. -/
  formed : ∀ chord, ofData sequence duration dynamic = .ok chord →
    (∃ pitches, List.Forall₂ Datum.IsPitch values pitches ∧ chord.harmony.pitches.Perm pitches) ∧
      chord.harmony.pitches.Pairwise (·.number < ·.number) ∧ chord.duration = d ∧ chord.dynamic = v
  /-- The values make the same chord in any order, wherever they are kept. -/
  reordered : ∀ other others, other.items = .ok others → others.Perm values →
    ∀ chord, ofData other duration dynamic = .ok chord ↔ ofData sequence duration dynamic = .ok chord
  /-- In any timeline the chord has the same strokes. -/
  flattened : ∀ other others, other.items = .ok others → others.Perm values →
    ∀ chord again, ofData sequence duration dynamic = .ok chord → ofData other duration dynamic = .ok again →
      ∀ ticksPerQuarter before after start finish order,
        Midi.Stroke.ofTimeline ticksPerQuarter (before ++ ⟨start, finish, .chord again, order⟩ :: after) =
          Midi.Stroke.ofTimeline ticksPerQuarter (before ++ ⟨start, finish, .chord chord, order⟩ :: after)

/-- A sequence of values that stand for pitches has one chord, in normal form. -/
theorem givenAsPitches (listed : sequence.items = .ok values) (lasting : Duration.given duration = .ok d)
    (struck : Dynamic.given dynamic = .ok v) : GivenAsPitches sequence values duration dynamic d v := by
  have empty {pitches : List Pitch} (stand : List.Forall₂ Datum.IsPitch values pitches) :
      pitches ≠ [] ↔ values ≠ [] := by
    rw [← List.length_pos_iff, ← List.length_pos_iff, stand.length_eq]
  constructor
  case accepted =>
    simp only [ofData_eq_ok_iff listed lasting struck]
    constructor
    · rintro ⟨_, pitches, stand, some, apart, _⟩
      exact ⟨(empty stand).mp some, pitches, stand, apart⟩
    · rintro ⟨some, pitches, stand, apart⟩
      obtain ⟨h, perm⟩ := Harmony.exists_perm ((empty stand).mpr some) apart
      exact ⟨⟨h, d, v⟩, pitches, stand, (empty stand).mpr some, apart, perm, rfl, rfl⟩
  case formed =>
    intro chord done
    obtain ⟨pitches, stand, _, _, perm, rfl, rfl⟩ := (ofData_eq_ok_iff listed lasting struck).mp done
    exact ⟨⟨pitches, stand, perm⟩, chord.harmony.ascending, rfl, rfl⟩
  case reordered =>
    intro other others again perm chord
    exact ⟨ofData_of_perm again listed perm.symm lasting struck, ofData_of_perm listed again perm lasting struck⟩
  case flattened =>
    intro other others again perm chord second done doneToo
    have same := ofData_of_perm listed again perm lasting struck done
    obtain rfl := Except.ok.inj (same.symm.trans doneToo)
    intros
    rfl

end Chord

end MusicScore
