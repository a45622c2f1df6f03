/-!
# Shown text

A value is shown by its text, for instance in a message. A whole number of too many digits has no text,
and then no text that quotes it has one: what is put together from parts is lost as soon as one of the
parts is.
-/
namespace MusicScore

/-- The text by which something is shown, or that there is none. -/
inductive Shown where
  | text (s : String)
  | lost
  deriving DecidableEq, Repr

namespace Shown

instance : Coe String Shown := ⟨text⟩

/-- One text after another. -/
def append : Shown → Shown → Shown
  | text a, text b => text (a ++ b)
  | _, _ => lost

instance : Append Shown := ⟨append⟩

/-- Texts with a separator between them. -/
def join (separator : String) : List Shown → Shown
  | [] => text ""
  | [s] => s
  | s :: rest => s ++ text separator ++ join separator rest

/-- The text, where there is one. -/
def get? : Shown → Option String
  | text s => some s
  | lost => none

/-- There is a text. -/
def isShown : Shown → Bool
  | text _ => true
  | lost => false

@[simp] theorem text_append (a b : String) : text a ++ text b = text (a ++ b) := rfl

@[simp] theorem lost_append (b : Shown) : lost ++ b = lost := rfl

@[simp] theorem append_lost (a : Shown) : a ++ lost = lost := by cases a <;> rfl

end Shown

end MusicScore
