import Mathlib
import MusicScore.Proofs.Phrase.Schedule
import MusicScore.Proofs.Workspace.Reachable

/-!
# The phrases of a workspace

A number stands for the phrase that was kept or put under it last; keeping another phrase, or changing the one
under another number, makes no difference to it. What a command does to a phrase is what the addition does, and
the reply is the answer of the addition. As every phrase that is kept can be made by additions, copies and the
phrases of parts included, its clock is in order and every command to it does what the reply says.
-/
namespace MusicScore.Workspace

variable {w : Workspace} {id other : PhraseId} {p : Phrase}

/-- A phrase is read back under the number it was kept under. -/
theorem phrase_keepPhrase_self (w : Workspace) (p : Phrase) :
    (w.keepPhrase p).2.phrase (w.keepPhrase p).1 = p := by
  simp [phrase, keepPhrase]

/-- A phrase that takes the place of another is read back. -/
theorem phrase_setPhrase_self (p : Phrase) (kept : id.number < w.phrases.length) :
    (w.setPhrase id p).phrase id = p := by
  simp [phrase, setPhrase, kept]

/-- A phrase under another number is not touched. -/
theorem phrase_setPhrase_of_ne (p : Phrase) (apart : other ≠ id) :
    (w.setPhrase id p).phrase other = w.phrase other := by
  have numbers : id.number ≠ other.number := by
    intro same
    exact apart (congrArg PhraseId.mk same.symm)
  simp [phrase, setPhrase, List.getElem?_set_ne numbers]

/-- The clock of every phrase of a workspace is in order, and whatever is asked of the phrase next, the phrase
and the reply are those that the clock allows. -/
theorem Reachable.phrases_scheduled (reachable : w.Reachable) (kept : id.number < w.phrases.length) :
    (w.phrase id).Scheduled ∧ ∀ addition, ∃ answer : Except Fault (Option Resolved),
      (w.run (.grow id addition)).2 = answer.map Reply.ofPlaced ∧
        (w.phrase id).Answers addition ((w.run (.grow id addition)).1.phrase id) answer := by
  have scheduled : (w.phrase id).Scheduled := (phrase_reachable reachable.invariant.1 id).scheduled
  refine ⟨scheduled, ?_⟩
  intro addition
  refine ⟨((w.phrase id).grow addition).2, ?_, ?_⟩
  · rw [run_grow]
  · rw [run_grow, phrase_setPhrase_self _ kept]
    exact scheduled.answers addition

/-- A phrase with an event of every rule, and a copy of it. -/
def ringing : Workspace :=
  let long := middleC TimeSignature.common.barDuration
  let short := middleC TimeSignature.common.beatUnit
  .after [.newPhrase (.text "Ringing"),
    .grow ⟨0⟩ (.trailing long (.ofInt 1)),
    .grow ⟨0⟩ (.event short),
    .grow ⟨0⟩ (.late short (.ofInt (-1))),
    .copyPhrase ⟨0⟩]

/-- The last event starts before the trailing one has ended, and takes the cursor to its end. -/
theorem ringing_scheduled :
    ((ringing.phrase ⟨1⟩).lastStart, (ringing.phrase ⟨1⟩).cursor, (ringing.phrase ⟨1⟩).length) = (1, 4, 4) ∧
      (ringing.phrase ⟨1⟩).Scheduled ∧ ∀ addition, ∃ answer : Except Fault (Option Resolved),
        (ringing.run (.grow ⟨1⟩ addition)).2 = answer.map Reply.ofPlaced ∧
          (ringing.phrase ⟨1⟩).Answers addition ((ringing.run (.grow ⟨1⟩ addition)).1.phrase ⟨1⟩) answer := by
  have reachable : ringing.Reachable := reachable_iff.mpr ⟨_, rfl⟩
  have kept : (⟨1⟩ : PhraseId).number < ringing.phrases.length := by
    have two : ringing.phrases.length = 2 := by cbv
    exact two ▸ Nat.lt_succ_self 1
  exact ⟨by cbv, reachable.phrases_scheduled kept⟩

end MusicScore.Workspace
