import MusicScore.Number.Double.Shortest
import MusicScore.Number.Numeral

/-!
# Numbers of every kind

Where the library asks for a number, a truth value, a whole number, a fraction or a binary64 number may
be given. Numbers of different kinds are compared by the quantities they stand for, exactly. A sum is
as exact as its less exact part: whole numbers, then fractions, then binary64.
-/
namespace MusicScore

/-- A number of any kind. -/
inductive Number where
  | truth (b : Bool)
  | whole (n : Numeral)
  | ratio (q : Rat)
  | float (x : Double)

/-- A point of the rational line with both ends added. -/
inductive Extended where
  | minusInfinity
  | rational (q : Rat)
  | plusInfinity

namespace Extended

/-- The order of the line: `true` when the first point lies before the second. -/
def before : Extended → Extended → Bool
  | minusInfinity, minusInfinity => false
  | minusInfinity, _ => true
  | _, minusInfinity => false
  | rational a, rational b => a < b
  | rational _, plusInfinity => true
  | plusInfinity, _ => false

/-- The two points are the same. -/
def same : Extended → Extended → Bool
  | minusInfinity, minusInfinity => true
  | rational a, rational b => a = b
  | plusInfinity, plusInfinity => true
  | _, _ => false

end Extended

namespace Number

/-- A plain whole number. -/
def ofInt (n : Int) : Number := .whole (.plain n)

/-- The place on the line; a binary64 number that is not a number has none. -/
def place? : Number → Option Extended
  | truth b => some (.rational (if b then 1 else 0))
  | whole n => some (.rational n.value)
  | ratio q => some (.rational q)
  | float (.infinite true) => some .minusInfinity
  | float (.infinite false) => some .plusInfinity
  | float (.nan _) => none
  | float (.finite q) => some (.rational q)
  | float .negativeZero => some (.rational 0)

/-- The first number is smaller; false when one of them is not a number. -/
def lt (a b : Number) : Bool :=
  match a.place?, b.place? with
  | some x, some y => x.before y
  | _, _ => false

/-- The numbers stand for the same quantity; false when one of them is not a number. -/
def same (a b : Number) : Bool :=
  match a.place?, b.place? with
  | some x, some y => x.same y
  | _, _ => false

/-- The first number is at most the second; false when one of them is not a number. -/
def le (a b : Number) : Bool := a.lt b || a.same b

/-- The numbers are equal, or one and the same thing that is not a number. -/
def alike (a b : Number) : Bool :=
  a.same b ||
    match a, b with
    | float x, float y => x.sameNan y
    | _, _ => false

/-- The number has a place on the line. -/
def isOrdered (a : Number) : Bool := a.place?.isSome

/-- The number that a truth value or a whole number stands for. -/
def toInt? : Number → Option Int
  | truth b => some (if b then 1 else 0)
  | whole n => some n.value
  | _ => none

/-- The fraction that a truth value, a whole number or a fraction stands for. -/
def toRat? : Number → Option Rat
  | ratio q => some q
  | a => a.toInt?.map fun n => (n : Rat)

/-- The number in binary64, unless it is too large. -/
def toDouble? : Number → Option Double
  | float x => some x
  | a => a.toRat?.bind Double.ofRat?

/-- Combine two numbers by the operation of the least exact of their kinds. Nothing when a part is too
large for binary64. -/
def combine? (onInt : Int → Int → Int) (onRat : Rat → Rat → Rat) (onDouble : Double → Double → Double)
    (a b : Number) : Option Number :=
  match a.toInt?, b.toInt? with
  | some m, some n => some (ofInt (onInt m n))
  | _, _ =>
    match a.toRat?, b.toRat? with
    | some p, some q => some (ratio (onRat p q))
    | _, _ =>
      match a.toDouble?, b.toDouble? with
      | some x, some y => some (float (onDouble x y))
      | _, _ => none

/-- The sum of two numbers. -/
def add? : Number → Number → Option Number := combine? (· + ·) (· + ·) Double.add

/-- The difference of two numbers. -/
def sub? : Number → Number → Option Number := combine? (· - ·) (· - ·) fun x y => x.add y.neg

/-- The product of two numbers. -/
def mul? : Number → Number → Option Number := combine? (· * ·) (· * ·) Double.mul

/-- The number is zero, or false. -/
def isZero (a : Number) : Bool := a.same (ofInt 0)

/-- The text of a number in a message. -/
def text : Number → Shown
  | truth b => .text (if b then "True" else "False")
  | whole n => wholeText n.value
  | ratio q => fractionText q
  | float x => x.plainText

@[simp] theorem add?_ofInt (m n : Int) : add? (ofInt m) (ofInt n) = some (ofInt (m + n)) := rfl

@[simp] theorem mul?_ofInt (m n : Int) : mul? (ofInt m) (ofInt n) = some (ofInt (m * n)) := rfl

@[simp] theorem lt_ofInt (m n : Int) : lt (ofInt m) (ofInt n) = decide (m < n) := by
  simp only [lt, place?, ofInt, Extended.before, Numeral.value_plain, Rat.intCast_lt_intCast]

@[simp] theorem same_ofInt (m n : Int) : same (ofInt m) (ofInt n) = decide (m = n) := by
  simp [same, place?, ofInt, Extended.same]

/-- Whole numbers are compared by their values. -/
theorem lt_whole {m n : Numeral} : lt (.whole m) (.whole n) = true ↔ m.value < n.value := by
  simp only [lt, place?, Extended.before, Rat.intCast_lt_intCast, decide_eq_true_eq]

/-- A whole number is at most another when its value is. -/
theorem le_whole {m n : Numeral} : le (.whole m) (.whole n) = true ↔ m.value ≤ n.value := by
  have same : Number.same (.whole m) (.whole n) = true ↔ m.value = n.value := by
    simp [Number.same, place?, Extended.same]
  rw [le, Bool.or_eq_true, lt_whole, same]
  omega

/-- A number that stands for a whole one has the place of that. -/
theorem place?_of_toInt? {a : Number} {n : Int} (meant : a.toInt? = some n) : a.place? = some (.rational n) := by
  cases a with
  | truth b => cases meant; cases b <;> rfl
  | whole m => cases meant; rfl
  | ratio q => cases meant
  | float x => cases meant

/-- A number that stands for a whole one is at most zero when that is. -/
theorem le_zero_iff {a : Number} {n : Int} (meant : a.toInt? = some n) : a.le (.ofInt 0) = true ↔ n ≤ 0 := by
  have place : a.place? = (ofInt n).place? := place?_of_toInt? meant
  have ranked : a.le (.ofInt 0) = (ofInt n).le (.ofInt 0) := by simp only [le, lt, same, place]
  rw [ranked, le, lt_ofInt, same_ofInt, Bool.or_eq_true, decide_eq_true_iff, decide_eq_true_iff]
  exact Int.le_iff_lt_or_eq.symm

/-- A number that stands for a whole one is a fraction as well. -/
theorem toRat?_of_toInt? {a : Number} {n : Int} (meant : a.toInt? = some n) : a.toRat? = some (n : Rat) := by
  cases a with
  | ratio q => cases meant
  | _ =>
    simp only [toRat?, meant]
    rfl

/-- A number that stands for a whole one is added as that. -/
theorem ofInt_add?_of_toInt? (m : Int) {a : Number} {n : Int} (meant : a.toInt? = some n) :
    (ofInt m).add? a = some (.ofInt (m + n)) := by
  have own : (ofInt m).toInt? = some m := rfl
  simp only [add?, combine?, own, meant]

/-- A fraction is multiplied by a number that stands for a whole one as by that. -/
theorem ratio_mul?_of_toInt? (q : Rat) {a : Number} {n : Int} (meant : a.toInt? = some n) :
    (ratio q).mul? a = some (.ratio (q * n)) := by
  have noInt : (ratio q).toInt? = none := rfl
  have own : (ratio q).toRat? = some q := rfl
  have factor : a.toRat? = some (n : Rat) := toRat?_of_toInt? meant
  simp only [mul?, combine?, noInt, own, factor]

end Number

end MusicScore
