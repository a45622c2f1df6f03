import MusicScore.Proofs.Number.Rounding
import MusicScore.Proofs.Score.Escapes
import MusicScore.Proofs.Score.Music

/-!
# The listing of a timeline

Where no two events of a timeline bear the same order, the strokes in order depend on the events alone, and not on
how they are listed. Strokes of different events are never level: at one tick and in one touch the order decides.
Those of one event are level, and sorting is stable, so that the pitches of a chord stay in ascending order. A
timeline is accepted in every listing or in none. What it is refused for is the first event in it that is too short,
so that another listing may be refused for another event; each refusal is a failure of the encoding unless a number
in its text has too many digits.
-/
namespace MusicScore

open Midi

namespace Midi.Stroke

variable {resolution : Int} {timeline other : List Resolved} {strokes : List Stroke}

/-- Strokes of one order that touch their keys in the same way come in ascending order of their pitches. -/
def PitchesAscend (strokes : List Stroke) : Prop :=
  strokes.Pairwise fun a b => a.touch = b.touch → a.order = b.order → a.pitch.value < b.pitch.value

/-- Two timelines are written alike: both have strokes, which are the same in order, or both are refused with a
failure of the encoding. -/
inductive WrittenAlike (resolution : Int) (timeline other : List Resolved) : Prop where
  | accepted {strokes others : List Stroke} (first : ofTimeline resolution timeline = .ok strokes)
      (second : ofTimeline resolution other = .ok others) (same : sort others = sort strokes)
      (ascending : PitchesAscend (sort strokes))
  | refused {fault otherFault : Fault} (first : ofTimeline resolution timeline = .error fault)
      (second : ofTimeline resolution other = .error otherFault) (encoding : fault.IsEncoding)
      (otherEncoding : otherFault.IsEncoding)

/-! ## Strokes that are level -/

/-- Where two strokes touch their keys in the same way for events of one order, they are at one tick, the lower
pitch first. -/
def Ascends (a b : Stroke) : Prop :=
  a.touch = b.touch → a.order = b.order → a.tick = b.tick ∧ a.pitch.value < b.pitch.value

/-- Every stroke of an event bears its order. -/
theorem order_of_mem_strokes {r : Resolved} {s : Stroke} (member : s ∈ r.strokes resolution) : s.order = r.order := by
  obtain ⟨p, _, paired⟩ := List.mem_flatMap.mp member
  rcases List.mem_pair.mp paired with rfl | rfl <;> rfl

/-- The strokes of one event ascend. -/
theorem ascends_strokes (resolution : Int) (r : Resolved) : (r.strokes resolution).Pairwise Ascends := by
  unfold Resolved.strokes
  rw [List.pairwise_flatMap]
  constructor
  · intro p _
    simp [pair, Ascends]
  · refine r.event.pitches_ascending.imp ?_
    intro p q below x ofP y ofQ
    have numbers : p.numeral.value < q.numeral.value := below
    rcases List.mem_pair.mp ofP with rfl | rfl <;> rcases List.mem_pair.mp ofQ with rfl | rfl <;>
      simp [Ascends, numbers]

/-- Where no two events bear the same order, all strokes ascend as they are listed. -/
theorem ascends_timeline (apart : timeline.Pairwise fun a b => a.order ≠ b.order) :
    (timeline.flatMap (Resolved.strokes resolution)).Pairwise Ascends := by
  rw [List.pairwise_flatMap]
  refine ⟨fun r _ => ascends_strokes resolution r, apart.imp ?_⟩
  intro a b differ x ofA y ofB _ same
  rw [order_of_mem_strokes ofA, order_of_mem_strokes ofB] at same
  exact absurd same differ

/-- Sorting leaves strokes as they are listed that touch their keys in one way for events of one order, where these
are at one tick: they are level, and sorting is stable. -/
theorem filter_sort (ascends : strokes.Pairwise Ascends) (touch : Touch) (order : Int) :
    (sort strokes).filter (fun s => s.touch = touch && s.order = order) =
      strokes.filter fun s => s.touch = touch && s.order = order := by
  set own : Stroke → Bool := fun s => s.touch = touch && s.order = order with same
  have level : (strokes.filter own).Pairwise fun a b => a.atMost b = true := by
    refine (ascends.sublist List.filter_sublist).imp_of_mem ?_
    intro a b inA inB tied
    have ownA := (List.mem_filter.mp inA).2
    have ownB := (List.mem_filter.mp inB).2
    simp only [same, Bool.and_eq_true, decide_eq_true_eq] at ownA ownB
    have sameTouch : a.touch = b.touch := ownA.1.trans ownB.1.symm
    have sameOrder : a.order = b.order := ownA.2.trans ownB.2.symm
    rw [atMost_iff]
    exact .inr ⟨(tied sameTouch sameOrder).1, .inr ⟨congrArg Touch.rank sameTouch, le_of_eq sameOrder⟩⟩
  have inside : (strokes.filter own).Sublist ((sort strokes).filter own) := by
    have kept := (List.sublist_mergeSort atMost_trans atMost_total level List.filter_sublist).filter own
    simp only [List.filter_filter, Bool.and_self] at kept
    exact kept
  exact (inside.eq_of_length ((sort_perm strokes).filter own).length_eq.symm).symm

/-- Strokes that ascend as they are listed have ascending pitches when they are in order. -/
theorem pitchesAscend_sort (ascends : strokes.Pairwise Ascends) : PitchesAscend (sort strokes) := by
  refine List.pairwise_iff_forall_sublist.mpr ?_
  intro a b inOrder sameTouch sameOrder
  have own := inOrder.filter fun s => s.touch = a.touch && s.order = a.order
  rw [filter_sort ascends] at own
  have listed : [a, b].Sublist strokes := by simpa [sameTouch, sameOrder] using own.trans List.filter_sublist
  exact (List.pairwise_iff_forall_sublist.mp ascends listed sameTouch sameOrder).2

/-- The same strokes in two listings, both of which ascend, are in one order. -/
theorem sort_eq_of_perm {others : List Stroke} (same : others.Perm strokes) (ascends : strokes.Pairwise Ascends)
    (otherAscends : others.Pairwise Ascends) : sort others = sort strokes := by
  have perm : (sort others).Perm (sort strokes) := (sort_perm others).trans (same.trans (sort_perm strokes).symm)
  refine perm.eq_of_pairwise ?_ ((sort_ordered others).and (pitchesAscend_sort otherAscends))
    ((sort_ordered strokes).and (pitchesAscend_sort ascends))
  rintro a b _ _ ⟨first, below⟩ ⟨second, above⟩
  rw [atMost_iff] at first second
  have sameTouch : a.touch = b.touch := by
    have ranks : a.touch.rank = b.touch.rank := by omega
    cases touch : a.touch <;> cases otherTouch : b.touch <;> simp_all [Touch.rank]
  have sameOrder : a.order = b.order := by omega
  have lower := below sameTouch sameOrder
  have higher := above sameTouch.symm sameOrder.symm
  omega

/-! ## Listings of a timeline -/

/-- A timeline is accepted in every listing or in none. -/
theorem exists_ofTimeline_iff (relisted : other.Perm timeline) :
    (∃ strokes, ofTimeline resolution other = .ok strokes) ↔ ∃ strokes, ofTimeline resolution timeline = .ok strokes := by
  simp only [ofTimeline_eq_ok, exists_and_left, exists_eq, and_true, relisted.mem_iff]

/-- What a timeline is refused with is a failure of the encoding, where every event that is too short can be named. -/
theorem isEncoding_of_shown {fault : Fault}
    (shown : ∀ r ∈ timeline, r.TooShort resolution → (r.shortness resolution).message ≠ .lost)
    (refused : ofTimeline resolution timeline = .error fault) : fault.IsEncoding := by
  obtain ⟨done, r, rest, rfl, _, short, rfl⟩ := ofTimeline_eq_error.mp refused
  exact Fault.isEncoding_iff.mpr ⟨_, rfl, shown r (by simp) short⟩

/-- A timeline in which no two events bear the same order is written alike in every listing, where every event that is
too short can be named. -/
theorem writtenAlike_of_perm (apart : timeline.Pairwise fun a b => a.order ≠ b.order) (relisted : other.Perm timeline)
    (shown : ∀ r ∈ timeline, r.TooShort resolution → (r.shortness resolution).message ≠ .lost) :
    WrittenAlike resolution timeline other := by
  have same : (∃ strokes, ofTimeline resolution other = .ok strokes) ↔
      ∃ strokes, ofTimeline resolution timeline = .ok strokes := exists_ofTimeline_iff relisted
  cases written : ofTimeline resolution timeline with
  | ok strokes =>
    obtain ⟨others, again⟩ := same.mpr ⟨strokes, written⟩
    obtain ⟨_, rfl⟩ := ofTimeline_eq_ok.mp written
    obtain ⟨_, rfl⟩ := ofTimeline_eq_ok.mp again
    have otherApart : other.Pairwise fun a b => a.order ≠ b.order :=
      relisted.symm.pairwise apart fun differ => differ.symm
    have ordered := sort_eq_of_perm (relisted.flatMap_right (Resolved.strokes resolution)) (ascends_timeline apart)
      (ascends_timeline otherApart)
    exact .accepted written again ordered (pitchesAscend_sort (ascends_timeline apart))
  | error fault =>
    cases again : ofTimeline resolution other with
    | ok others =>
      obtain ⟨strokes, accepted⟩ := same.mp ⟨others, again⟩
      cases written.symm.trans accepted
    | error otherFault =>
      have otherShown : ∀ r ∈ other, r.TooShort resolution → (r.shortness resolution).message ≠ .lost :=
        fun r member => shown r (relisted.mem_iff.mp member)
      exact .refused written again (isEncoding_of_shown shown written) (isEncoding_of_shown otherShown again)

/-- The strokes of a timeline in which no two events bear the same order do not depend on its listing, and neither
does whether it is refused. Each listing is written alike exactly when every event that is too short can be named in
the text of a failure. -/
theorem ofTimeline_relisted_iff (apart : timeline.Pairwise fun a b => a.order ≠ b.order) :
    (∀ other : List Resolved, other.Perm timeline →
        ((∃ strokes, ofTimeline resolution other = .ok strokes) ↔
          ∃ strokes, ofTimeline resolution timeline = .ok strokes)) ∧
      ((∀ other : List Resolved, other.Perm timeline → WrittenAlike resolution timeline other) ↔
        ∀ r ∈ timeline, r.TooShort resolution → (r.shortness resolution).message ≠ .lost) := by
  refine ⟨fun other relisted => exists_ofTimeline_iff relisted, ?_, ?_⟩
  · intro alike r member short lost
    -- the listing that starts with the event is refused for it
    obtain ⟨before, after, rfl⟩ := List.append_of_mem member
    have first : ofTimeline resolution (r :: (before ++ after)) = .error (.encoding (r.shortness resolution)) :=
      ofTimeline_eq_error.mpr ⟨[], r, before ++ after, rfl, by simp, short, rfl⟩
    cases alike (r :: (before ++ after)) List.perm_middle.symm with
    | accepted _ second => cases first.symm.trans second
    | refused _ second _ encoding =>
      cases first.symm.trans second
      obtain ⟨cause, same, shown⟩ := Fault.isEncoding_iff.mp encoding
      exact shown (Fault.encoding.inj same ▸ lost)
  · intro shown other relisted
    exact writtenAlike_of_perm apart relisted shown

/-! ## An event without a text -/

/-- A unit over a number that has no text has none either. -/
theorem fractionText_reciprocal {n : Nat} (many : Text.digitLimit ≤ n) : fractionText (1 / n) = .lost := by
  have ten : 10 ^ 1 ≤ n := Nat.le_trans (Text.pow_le_digitLimit (by decide)) many
  have lowest : ((1 : Rat) / n).den = n := by
    rw [one_div]
    exact Rat.inv_natCast_den_of_pos (by omega)
  have lost : wholeText n = .lost := if_neg (by simpa using many)
  unfold fractionText
  rw [if_neg (by omega), lowest, lost, Shown.append_lost]

/-- A duration that is shorter than every note value with a name is told by the number of its beats. -/
theorem name_of_brief {d : Duration} (brief : d.beats < 1 / 8) : d.name = fractionText d.beats ++ " beats" := by
  have named : ∀ entry ∈ Duration.named, 1 / 8 ≤ entry.1 := by decide +kernel
  have unnamed : Duration.named.lookup d.beats = none := by
    rw [List.lookup_eq_none_iff]
    intro entry member
    have shorter : d.beats ≠ entry.1 := (lt_of_lt_of_le brief (named entry member)).ne
    simpa using shorter
  unfold Duration.name
  rw [unnamed]

theorem reciprocal_pos {n : Nat} (positive : 0 < n) : 0 < (1 : Rat) / n := by positivity

/-- A middle C from beat zero on that lasts a unit over so many beats. -/
def sliver (n : Nat) (positive : 0 < n) : Resolved :=
  ⟨0, 1 / n, .note ⟨⟨.plain 60, Workspace.middleC_inRange⟩, ⟨1 / n, reciprocal_pos positive⟩, .standard⟩, 0⟩

/-- Where the number has no text, the note is too short, and the failure to write it has no text. -/
theorem sliver_lost {n : Nat} (positive : 0 < n) (many : Text.digitLimit ≤ n) :
    (sliver n positive).TooShort 960 ∧ ((sliver n positive).shortness 960).message = .lost := by
  have large : 10 ^ 4 ≤ n := Nat.le_trans (Text.pow_le_digitLimit (by decide)) many
  have wide : (10 ^ 4 : Rat) ≤ n := by exact_mod_cast large
  have brief : (1 : Rat) / n ≤ 1 / 10 ^ 4 := one_div_le_one_div_of_le (by positivity) wide
  constructor
  · refine ⟨List.cons_ne_nil _ _, ?_⟩
    have finish : ticks (1 / n) 960 = 0 := by
      have near : |(1 / n : Rat) * (960 : Int) - (0 : Int)| < 1 / 2 := by
        rw [Int.cast_zero, sub_zero, abs_of_nonneg (by positivity)]
        push_cast
        linarith
      exact roundHalfEven_eq_iff.mpr (.inl near)
    have start : ticks 0 960 = 0 := by decide +kernel
    change ticks (1 / n) 960 ≤ ticks 0 960
    rw [finish, start]
  · have told : (sliver n positive).event.duration.name = .lost := by
      rw [name_of_brief (lt_of_le_of_lt brief (by norm_num)), sliver]
      exact (congrArg (· ++ Shown.text " beats") (fractionText_reciprocal many)).trans (Shown.lost_append _)
    have text : (sliver n positive).event.text = .lost := by
      change _ ++ _ ++ (sliver n positive).event.duration.name ++ _ ++ _ = _
      rw [told, Shown.append_lost, Shown.lost_append, Shown.lost_append]
    change (sliver n positive).event.text ++ _ ++ _ ++ _ ++ _ ++ _ = _
    rw [text]
    simp only [Shown.lost_append]

/-- A note over the least number without a text is refused with what is no failure of the encoding. -/
theorem sliver_unlike :
    [sliver _ Text.digitLimit_pos].Pairwise (fun a b => a.order ≠ b.order) ∧
      ¬ ∀ other : List Resolved, other.Perm [sliver _ Text.digitLimit_pos] →
        WrittenAlike 960 [sliver _ Text.digitLimit_pos] other := by
  have apart : [sliver _ Text.digitLimit_pos].Pairwise fun a b => a.order ≠ b.order := List.pairwise_singleton _ _
  refine ⟨apart, ?_⟩
  rw [(ofTimeline_relisted_iff apart).2]
  obtain ⟨short, lost⟩ := sliver_lost Text.digitLimit_pos (Nat.le_refl _)
  intro shown
  exact shown _ List.mem_cons_self short lost

end Midi.Stroke

end MusicScore
