import Mathlib
import MusicScore.Chord.Quality
import MusicScore.Proofs.Chord.Harmony

/-!
# Chords from qualities

The intervals of a quality that stand for the same whole number are kept once, so that the pitches that they lead to
from a root are all different. Such a chord is never refused for a pitch that is repeated: it is refused when there is
no interval, or when one of them leads out of the range.
-/
namespace MusicScore

/-- The datum is a number that stands for the whole number. -/
def Datum.IsWhole (value : Datum) (n : Int) : Prop := ∃ a, value = .number a ∧ a.toInt? = some n

/-- Data that stand for whole numbers are the same just when the numbers are. -/
theorem Datum.IsWhole.same_iff {value other : Datum} {m n : Int} (meant : value.IsWhole m) (also : other.IsWhole n) :
    value.same other = true ↔ m = n := by
  obtain ⟨a, rfl, own⟩ := meant
  obtain ⟨b, rfl, others⟩ := also
  have first : a.place? = (Number.ofInt m).place? := Number.place?_of_toInt? own
  have second : b.place? = (Number.ofInt n).place? := Number.place?_of_toInt? others
  have places : a.same b = (Number.ofInt m).same (.ofInt n) := by
    simp only [Number.same, first, second]
  rw [Datum.same, places, Number.same_ofInt, decide_eq_true_iff]

/-- A whole number is the note number of a pitch when it is in the range. -/
theorem Pitch.exists_ofInt_iff {n : Int} : (∃ q, ofInt n = .ok q) ↔ 0 ≤ n ∧ n ≤ highest := by
  simp only [ofInt_eq_ok_iff]
  constructor
  · rintro ⟨q, same⟩
    have inside := q.inRange
    rwa [same, Numeral.value_plain] at inside
  · intro inside
    exact ⟨⟨.plain n, inside⟩, rfl⟩

/-- A pitch is moved by a number that stands for a whole one as by that. -/
theorem Pitch.transpose_of_toInt? {root : Pitch} {a : Number} {n : Int} (meant : a.toInt? = some n) :
    root.transpose a = ofInt (root.number + n) := by
  have own : (Number.whole root.numeral).toInt? = some root.number := rfl
  have moved : (Number.whole root.numeral).add? a = some (.ofInt (root.number + n)) := by
    simp only [Number.add?, Number.combine?, own, meant]
  simp only [transpose, moved]
  rfl

namespace ChordQuality

variable {kept data : List Datum} {value : Datum} {seen ints : List Int} {n : Int} {quality : ChordQuality}

/-! ## The intervals -/

/-- The data stand for just these whole numbers, each for another one. -/
def Covers (kept : List Datum) (ints : List Int) : Prop :=
  ∃ own, List.Forall₂ Datum.IsWhole kept own ∧ own.Nodup ∧ ∀ n, n ∈ own ↔ n ∈ ints

/-- One of the data is the same as another when they stand for its number. -/
theorem any_same_iff {own : List Int} (stand : List.Forall₂ Datum.IsWhole kept own) (meant : value.IsWhole n) :
    kept.any (·.same value) = true ↔ n ∈ own := by
  induction stand with
  | nil => simp
  | cons first _ inductionHypothesis =>
    rw [List.any_cons, Bool.or_eq_true, first.same_iff meant, inductionHypothesis, List.mem_cons, eq_comm]

/-- A further number is kept unless it was seen. -/
theorem Covers.next (covers : Covers kept seen) (meant : value.IsWhole n) :
    Covers (if kept.any (·.same value) then kept else kept ++ [value]) (seen ++ [n]) := by
  obtain ⟨own, stand, apart, same⟩ := covers
  by_cases known : n ∈ own
  · rw [if_pos ((any_same_iff stand meant).mpr known)]
    refine ⟨own, stand, apart, fun m => ?_⟩
    rw [List.mem_append, List.mem_singleton, same]
    refine ⟨.inl, fun inside => inside.elim id ?_⟩
    rintro rfl
    exact (same m).mp known
  · rw [if_neg (mt (any_same_iff stand meant).mp known)]
    refine ⟨own ++ [n], List.rel_append stand (.cons meant .nil), ?_, fun m => ?_⟩
    · exact List.nodup_append_comm.mp (List.nodup_cons.mpr ⟨known, apart⟩)
    · rw [List.mem_append, List.mem_append, same]

/-- Intervals that stand for whole numbers are kept once for each. -/
theorem covers_distinct (stand : List.Forall₂ Datum.IsWhole data ints) : Covers (distinct data) ints := by
  have onward : ∀ kept seen, Covers kept seen →
      Covers (data.foldl (fun kept n => if kept.any (·.same n) then kept else kept ++ [n]) kept) (seen ++ ints) := by
    induction stand with
    | nil =>
      intro kept seen covers
      simpa using covers
    | cons meant _ inductionHypothesis =>
      intro kept seen covers
      simpa using inductionHypothesis _ _ (covers.next meant)
  exact onward [] [] ⟨[], .nil, List.nodup_nil, fun n => Iff.rfl⟩

/-- The numbers of data that stand for whole numbers stand for them. -/
theorem exists_numbers {own : List Int} (stand : List.Forall₂ Datum.IsWhole kept own) :
    ∃ numbers, kept.mapM numberOf = .ok numbers ∧ List.Forall₂ (fun a n => Number.toInt? a = some n) numbers own := by
  induction stand with
  | nil => exact ⟨[], rfl, .nil⟩
  | cons meant _ inductionHypothesis =>
    obtain ⟨a, rfl, first⟩ := meant
    obtain ⟨numbers, done, others⟩ := inductionHypothesis
    refine ⟨a :: numbers, ?_, .cons first others⟩
    simp only [List.mapM_cons, done, numberOf]
    rfl

/-- The pitches of a quality above a root are those at its whole numbers, each taken once. -/
theorem exists_pitches_eq (root : Pitch) (covers : Covers quality.intervals ints) :
    ∃ own : List Int, own.Nodup ∧ (∀ n, n ∈ own ↔ n ∈ ints) ∧
      quality.pitches root = own.mapM fun n => Pitch.ofInt (root.number + n) := by
  obtain ⟨own, stand, apart, same⟩ := covers
  obtain ⟨numbers, done, meant⟩ := exists_numbers stand
  obtain ⟨sorted, meantToo, perm⟩ := List.perm_comp_forall₂ (List.mergeSort_perm numbers notAfter) meant
  refine ⟨sorted, perm.nodup_iff.mpr apart, fun n => perm.mem_iff.trans (same n), ?_⟩
  have moved : ∀ {numbers : List Number} {own : List Int},
      List.Forall₂ (fun a n => Number.toInt? a = some n) numbers own →
        numbers.mapM root.transpose = own.mapM fun n => Pitch.ofInt (root.number + n) := by
    intro numbers own meant
    induction meant with
    | nil => rfl
    | cons first _ inductionHypothesis =>
      rw [List.mapM_cons, List.mapM_cons, Pitch.transpose_of_toInt? first, inductionHypothesis]
  rw [← moved meantToo, pitches, done]
  rfl

end ChordQuality

/-! ## The chords -/

namespace Chord

variable {own ints : List Int} {pitches : List Pitch} {p : Pitch} {root duration dynamic name : Datum} {d : Duration}
  {v : Dynamic} {quality : ChordQuality} {data : List Datum}

/-- The pitches above one have their note numbers. -/
theorem map_number_of_mapM (done : (own.mapM fun n => Pitch.ofInt (p.number + n)) = .ok pitches) :
    pitches.map (·.number) = own.map (p.number + ·) := by
  have related := Outcome.mapM_eq_ok.mp done
  induction related with
  | nil => rfl
  | cons first _ inductionHypothesis =>
    rw [List.map_cons, List.map_cons, Pitch.number_of_ofInt first, inductionHypothesis (Outcome.mapM_eq_ok.mpr ‹_›)]

/-- Pitches at different whole numbers above one are different. -/
theorem apart_of_mapM (apart : own.Nodup) (done : (own.mapM fun n => Pitch.ofInt (p.number + n)) = .ok pitches) :
    pitches.Pairwise (·.number ≠ ·.number) := by
  have numbers : (pitches.map (·.number)).Nodup := by
    rw [map_number_of_mapM done]
    exact apart.map fun _ _ same => Int.add_left_cancel same
  exact List.pairwise_map.mp numbers

/-- With a root, a duration and a dynamic that are taken, a quality makes the chord of the pitches at its whole numbers,
each taken once. -/
theorem exists_ofQuality_eq (based : root.IsPitch p) (lasting : Duration.given duration = .ok d)
    (struck : Dynamic.given dynamic = .ok v) (built : ChordQuality.ofData data name = .ok quality)
    (stand : List.Forall₂ Datum.IsWhole data ints) :
    ∃ own : List Int, own.Nodup ∧ (∀ n, n ∈ own ↔ n ∈ ints) ∧ ofQuality root quality duration dynamic =
      (own.mapM fun n => Pitch.ofInt (p.number + n)) >>= fun pitches =>
        Harmony.ofPitches pitches >>= fun h => .ok ⟨h, d, v⟩ := by
  have covers : ChordQuality.Covers quality.intervals ints := by
    unfold ChordQuality.ofData at built
    split at built <;> cases built
    exact ChordQuality.covers_distinct stand
  obtain ⟨own, apart, same, found⟩ := ChordQuality.exists_pitches_eq p covers
  refine ⟨own, apart, same, ?_⟩
  simp only [ofQuality, Pitch.given_eq_ok_iff.mpr based, ← found, ← ofPitches_eq lasting struck]
  rfl

/-- What comes of a root and a quality with these whole numbers for intervals, with a duration and a dynamic that are
taken. -/
structure GivenAsQuality (root : Datum) (p : Pitch) (quality : ChordQuality) (ints : List Int)
    (duration dynamic : Datum) (d : Duration) (v : Dynamic) : Prop where
  /-- They make a chord when there is an interval and all of them stay in the range. -/
  accepted : (∃ chord, ofQuality root quality duration dynamic = .ok chord) ↔
    ints ≠ [] ∧ ∀ n ∈ ints, 0 ≤ p.number + n ∧ p.number + n ≤ Pitch.highest
  /-- The chord has just the note numbers at these intervals above the root, in strictly ascending order. -/
  formed : ∀ chord, ofQuality root quality duration dynamic = .ok chord →
    (∀ m, m ∈ chord.harmony.pitches.map (·.number) ↔ ∃ n ∈ ints, p.number + n = m) ∧
      chord.harmony.pitches.Pairwise (·.number < ·.number) ∧ chord.duration = d ∧ chord.dynamic = v
  /-- No pitch is refused as repeated. -/
  unrepeated : ∀ shown, ofQuality root quality duration dynamic ≠ .error (.value (.duplicatePitch shown))

/-- A quality has one chord above a root, whose pitches are not repeated. -/
theorem givenAsQuality (based : root.IsPitch p) (lasting : Duration.given duration = .ok d)
    (struck : Dynamic.given dynamic = .ok v) (built : ChordQuality.ofData data name = .ok quality)
    (stand : List.Forall₂ Datum.IsWhole data ints) : GivenAsQuality root p quality ints duration dynamic d v := by
  obtain ⟨own, apart, same, whole⟩ := exists_ofQuality_eq based lasting struck built stand
  have none_iff : own = [] ↔ ints = [] := by
    rw [List.eq_nil_iff_forall_not_mem, List.eq_nil_iff_forall_not_mem]
    exact forall_congr' fun n => not_congr (same n)
  constructor
  case accepted =>
    have within : (∃ pitches, (own.mapM fun n => Pitch.ofInt (p.number + n)) = .ok pitches) ↔
        ∀ n ∈ ints, 0 ≤ p.number + n ∧ p.number + n ≤ Pitch.highest := by
      simp only [Outcome.exists_mapM_eq_ok, Pitch.exists_ofInt_iff, same]
    rw [whole, ← within]
    constructor
    · rintro ⟨chord, done⟩
      obtain ⟨pitches, found, made⟩ := Outcome.bind_eq_ok.mp done
      obtain ⟨h, harmonic, _⟩ := Outcome.bind_eq_ok.mp made
      refine ⟨fun none => ?_, pitches, found⟩
      obtain rfl := none_iff.mpr none
      cases found
      cases harmonic
    · rintro ⟨some, pitches, found⟩
      have heard : pitches ≠ [] := by
        rintro rfl
        exact some (none_iff.mp (List.map_eq_nil_iff.mp (map_number_of_mapM found).symm))
      obtain ⟨h, perm⟩ := Harmony.exists_perm heard (apart_of_mapM apart found)
      have harmonic := Harmony.ofPitches_eq_ok_iff.mpr ⟨heard, apart_of_mapM apart found, perm⟩
      exact ⟨⟨h, d, v⟩, Outcome.bind_eq_ok.mpr ⟨pitches, found, Outcome.bind_eq_ok.mpr ⟨h, harmonic, rfl⟩⟩⟩
  case formed =>
    intro chord done
    rw [whole] at done
    obtain ⟨pitches, found, made⟩ := Outcome.bind_eq_ok.mp done
    obtain ⟨h, harmonic, made⟩ := Outcome.bind_eq_ok.mp made
    cases made
    obtain ⟨_, _, perm⟩ := Harmony.ofPitches_eq_ok_iff.mp harmonic
    refine ⟨fun m => ?_, h.ascending, rfl, rfl⟩
    rw [(perm.map _).mem_iff, map_number_of_mapM found, List.mem_map]
    exact exists_congr fun n => and_congr_left' (same n)
  case unrepeated =>
    intro shown refused
    rw [whole] at refused
    obtain outside | ⟨pitches, found, refused⟩ := Outcome.bind_eq_error.mp refused
    · obtain ⟨_, _, _, _, _, beyond⟩ := Outcome.mapM_eq_error.mp outside
      obtain ⟨_, never⟩ := Pitch.ofInt_eq_error_iff.mp beyond
      cases never
    · obtain repeated | ⟨h, _, never⟩ := Outcome.bind_eq_error.mp refused
      · exact Harmony.not_apart_of_duplicatePitch repeated (apart_of_mapM apart found)
      · cases never

/-- With a duration and a dynamic that are taken, the chord of a sequence and that of a quality are in normal form. -/
theorem normal_form (lasting : Duration.given duration = .ok d) (struck : Dynamic.given dynamic = .ok v) :
    (∀ sequence values, sequence.items = .ok values → GivenAsPitches sequence values duration dynamic d v) ∧
      ∀ root p data name quality ints, root.IsPitch p → ChordQuality.ofData data name = .ok quality →
        List.Forall₂ Datum.IsWhole data ints → GivenAsQuality root p quality ints duration dynamic d v :=
  ⟨fun _ _ listed => givenAsPitches listed lasting struck,
    fun _ _ _ _ _ _ based built stand => givenAsQuality based lasting struck built stand⟩

/-- A triad is a chord by the names and the numbers of its pitches, and by its quality. -/
theorem triad_normal_form :
    (∃ chord, ofData (.ofList [.text "G4", .text " c4 ", .ofInt 64]) (.ofInt 1) (.text "mf") = .ok chord) ∧
      ∃ chord, ofQuality (.text "C4") (.ofInts [0, 4, 7] "major") (.ofInt 1) (.text "mf") = .ok chord := by
  have lasting : Duration.given (.ofInt 1) = .ok ⟨1, by decide⟩ := rfl
  have struck : Dynamic.given (.text "mf") = .ok .standard := rfl
  obtain ⟨sequences, qualities⟩ := normal_form lasting struck
  let pitch (n : Int) (inside : 0 ≤ n ∧ n ≤ 127) : Pitch := ⟨.plain n, inside⟩
  have high : Datum.IsPitch (.text "G4") (pitch 67 (by decide)) := .name (by cbv)
  have low : Datum.IsPitch (.text " c4 ") (pitch 60 (by decide)) := .name (by cbv)
  have middle : Datum.IsPitch (.ofInt 64) (pitch 64 (by decide)) := .number (pitch 64 (by decide))
  have root : Datum.IsPitch (.text "C4") (pitch 60 (by decide)) := .name (by cbv)
  have whole (n : Int) : Datum.IsWhole (.ofInt n) n := ⟨_, rfl, rfl⟩
  refine ⟨(sequences _ _ rfl).accepted.mpr ⟨List.cons_ne_nil _ _, _, .cons high (.cons low (.cons middle .nil)), ?_⟩,
    (qualities _ _ _ _ _ _ root rfl (.cons (whole 0) (.cons (whole 4) (.cons (whole 7) .nil)))).accepted.mpr ?_⟩
  · decide
  · decide

end Chord

end MusicScore
