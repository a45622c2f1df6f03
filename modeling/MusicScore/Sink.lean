import MusicScore.Datum.Order

/-!
# Sinks

A sink is a place that bytes are written to, in as many writes as it asks for. Each write offers all
bytes that are left. The answer may be a count of the bytes that were taken, which need not be true, or
nothing, which means that all bytes were taken; or the sink fails. A count of zero or below means that
the sink is stalled, and nothing is tried again. Every whole count above zero leaves fewer bytes, so that
there are never more writes than bytes.

A failure of the sink is told by its text. Where the text cannot be made, what fails in making it comes out
in the place of the failure.

A count that is a number and not whole can only be the last one: if it does not complete the file, no
byte is left to start from.
-/
namespace MusicScore

/-- What a sink answers to a write. -/
inductive Answer where
  | returned (value : Datum)
  /-- A failure of some kind with its text, or the fault that comes of asking for the text. -/
  | failed (kind : String) (shown : Except Fault String)

/-- What is told of a failure of a sink. -/
def Answer.told (kind : String) : Except Fault String → Fault
  | .ok text => .sink (.failed kind text)
  | .error fault => fault

/-- A sink: what it answers to each write, by its number and the bytes that it is offered. -/
abbrev Sink := (write : Nat) → (offered : List UInt8) → Answer

/-- What came of writing to a sink: the number of bytes or the fault, and the bytes of each write. -/
structure Delivery where
  outcome : Except Fault Nat
  writes : List (List UInt8)

namespace Sink

/-- What follows a count that is a number and not whole, when `done` of `total` bytes are written. -/
def afterInexact (count : Number) (done total : Nat) : Except Fault Nat :=
  match (Number.ofInt done).add? count with
  | some sum => if sum.lt (.ofInt total) then .error (.sink .inexact) else .ok total
  | none => .error .overflow

/-- Write the bytes that are left of `total`, from the write with the given number on. -/
def writeFrom (sink : Sink) (total write : Nat) : List UInt8 → Delivery
  | [] => ⟨.ok total, []⟩
  | first :: others =>
    let left := first :: others
    match sink write left with
    | .failed kind shown => ⟨.error (Answer.told kind shown), [left]⟩
    | .returned .nothing => ⟨.ok total, [left]⟩
    | .returned (.number count) =>
      if count.le (.ofInt 0) then ⟨.error (.sink (.stalled (total - left.length) total)), [left]⟩
      else
        match count.toInt? with
        | some taken =>
          if positive : 0 < taken then
            let rest := writeFrom sink total (write + 1) ((first :: others).drop taken.toNat)
            { rest with writes := left :: rest.writes }
          else ⟨.error .wrongKind, [left]⟩
        | none => ⟨afterInexact count (total - left.length) total, [left]⟩
    | .returned _ => ⟨.error .wrongKind, [left]⟩
  termination_by left => left.length
  decreasing_by
    simp only [List.length_drop, List.length_cons]
    omega

/-- Write all bytes. -/
def writeAll (sink : Sink) (bytes : List UInt8) : Delivery := writeFrom sink bytes.length 0 bytes

end Sink

end MusicScore
