import MusicScore.Fault

/-!
# Moments in scalars

A day is a year of four digits, a month and a day, with dashes between them. A time follows a letter or
blanks: hours, minutes and seconds with colons, a part of a second, and a zone, which is the common one or
hours and minutes east or west of it.
-/
namespace MusicScore.Yaml.Time

/-- The digits at the front of a text, at least `least` and at most `most`, and what follows them. -/
def digits? (least most : Nat) (s : List Char) : Option (Nat × List Char) :=
  let found := (s.take most).takeWhile fun c => '0' ≤ c && c ≤ '9'
  if found.length < least then none
  else some (Text.ofDigits (found.map fun c => c.toNat - 48), s.drop found.length)

/-- A sign at the front of a text, and then digits. -/
def after? (sign : Char) (least most : Nat) : List Char → Option (Nat × List Char)
  | c :: rest => if c = sign then digits? least most rest else none
  | [] => none

/-- A blank between a day and a time, or before a zone. -/
def isGap (c : Char) : Bool := c = ' ' || c = '\t'

/-- A part of a second in microseconds, further digits being left out. -/
def microseconds (digits : List Char) : Nat :=
  let kept := digits.take 6
  Text.ofDigits (kept.map fun c => c.toNat - 48) * Nat.pow 10 (6 - kept.length)

/-- The part of a second at the front of a text, if there is one, and what follows it. -/
def secondPart : List Char → Nat × List Char
  | '.' :: rest =>
    let found := rest.takeWhile fun c => '0' ≤ c && c ≤ '9'
    (microseconds found, rest.drop found.length)
  | rest => (0, rest)

/-- A zone in hours and minutes, which is the whole of a text. -/
def distance? (s : List Char) : Option Int := do
  let (hours, rest) ← digits? 1 2 s
  match rest with
  | [] => return hours * 60
  | _ =>
    let (minutes, rest) ← after? ':' 2 2 rest
    if rest.isEmpty then return hours * 60 + minutes else none

/-- The zone that is the rest of a text, if there is one. -/
def zone? (s : List Char) : Option (Option Int) :=
  if s.isEmpty then some none
  else
    match s.dropWhile isGap with
    | ['Z'] => some (some 0)
    | '+' :: rest => (distance? rest).map some
    | '-' :: rest => (distance? rest).map fun minutes => some (-minutes)
    | _ => none

/-- The text after what separates a day from a time. -/
def separated? : List Char → Option (List Char)
  | c :: rest =>
    if c = 'T' || c = 't' then some rest
    else if isGap c then some (rest.dropWhile isGap)
    else none
  | [] => none

/-- The time that is the rest of a text. -/
def clock? (s : List Char) : Option Clock := do
  let (hour, rest) ← digits? 1 2 (← separated? s)
  let (minute, rest) ← after? ':' 2 2 rest
  let (second, rest) ← after? ':' 2 2 rest
  let (part, rest) := secondPart rest
  return ⟨hour, minute, second, part, ← zone? rest⟩

/-- The numbers of a moment. -/
def parts? (s : List Char) : Option (Day × Option Clock) := do
  let (year, rest) ← digits? 4 4 s
  let (month, rest) ← after? '-' 1 2 rest
  let (day, rest) ← after? '-' 1 2 rest
  if rest.isEmpty then return (⟨year, month, day⟩, none)
  else return (⟨year, month, day⟩, some (← clock? rest))

/-- The text without a line break at its end. -/
def withoutBreak (s : List Char) : List Char :=
  if s.getLast? = some '\n' then s.dropLast else s

/-- The moment of a scalar, which has to be the text of one. -/
def read (s : List Char) : Except Fault Moment :=
  match parts? (withoutBreak s) with
  | none => .error .noSuchMember
  | some (day, clock) =>
    match Moment.ofParts day clock with
    | .ok m => .ok m
    | .error cause => .error (.range (.moment cause))

end MusicScore.Yaml.Time
