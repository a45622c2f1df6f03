import MusicScore.Text.Digit

/-!
# Moments

A moment is a day, or a time on a day. A time may say how far its zone is from the common one, in
minutes; times with a zone are compared in the common zone, and those without one as they are given. Days,
times with a zone and times without one are never equal, nor is there an order between them.
-/
namespace MusicScore

/-- Why numbers do not make a moment. -/
inductive MomentFault where
  | year (given : Nat)
  | month
  | day
  | hour
  | minute
  | second
  | zone (minutes : Int)
  deriving DecidableEq

namespace MomentFault

/-- A length of time, in whole days and the seconds that are left. -/
def lengthText (minutes : Int) : String :=
  let days := minutes / 1440
  let seconds := minutes % 1440 * 60
  let parts := (if days = 0 then [] else [s!"days={days}"]) ++
    if seconds = 0 then [] else [s!"seconds={seconds}"]
  "datetime.timedelta(" ++ ", ".intercalate parts ++ ")"

/-- The text of a fault. -/
def message : MomentFault → String
  | year given => s!"year {given} is out of range"
  | month => "month must be in 1..12"
  | day => "day is out of range for month"
  | hour => "hour must be in 0..23"
  | minute => "minute must be in 0..59"
  | second => "second must be in 0..59"
  | zone minutes =>
    "offset must be a timedelta strictly between -timedelta(hours=24) and timedelta(hours=24), not " ++
      lengthText minutes ++ "."

end MomentFault

/-- A day of the calendar. -/
structure Day where
  year : Nat
  month : Nat
  day : Nat
  deriving DecidableEq

/-- A time of a day, and how far east its zone is, in minutes, where that is known. -/
structure Clock where
  hour : Nat
  minute : Nat
  second : Nat
  microsecond : Nat
  zone? : Option Int
  deriving DecidableEq

/-- A day, or a time on a day. -/
inductive Moment where
  | day (d : Day)
  | time (d : Day) (c : Clock)
  deriving DecidableEq

namespace Day

/-- The year has a day more. -/
def isLeap (year : Nat) : Bool := year % 4 = 0 && (year % 100 ≠ 0 || year % 400 = 0)

/-- The number of days of a month. -/
def daysOf (year month : Nat) : Nat :=
  if month = 2 then (if isLeap year then 29 else 28)
  else if [4, 6, 9, 11].contains month then 30
  else 31

/-- The days before a year, counted from the first day of the first year. -/
def daysBefore (year : Nat) : Nat :=
  let past := year - 1
  past * 365 + past / 4 - past / 100 + past / 400

/-- The number of the day, counted from the first day of the first year. -/
def number (d : Day) : Nat :=
  (List.range (d.month - 1)).foldl (fun total m => total + daysOf d.year (m + 1))
    (daysBefore d.year) + d.day

/-- The numbers are those of a day. -/
def check (d : Day) : Except MomentFault Unit :=
  if d.year = 0 then .error (.year d.year)
  else if d.month = 0 ∨ 12 < d.month then .error .month
  else if d.day = 0 ∨ daysOf d.year d.month < d.day then .error .day
  else .ok ()

end Day

namespace Clock

/-- The minutes of a whole day. -/
def dayMinutes : Int := 1440

/-- The zone is less than a day away. -/
def checkZone (c : Clock) : Except MomentFault Unit :=
  match c.zone? with
  | some minutes =>
    if -dayMinutes < minutes ∧ minutes < dayMinutes then .ok () else .error (.zone minutes)
  | none => .ok ()

/-- The numbers are those of a time. -/
def check (c : Clock) : Except MomentFault Unit :=
  if 23 < c.hour then .error .hour
  else if 59 < c.minute then .error .minute
  else if 59 < c.second then .error .second
  else .ok ()

/-- Microseconds from midnight in the common zone, or in the zone that is not known. -/
def microseconds (c : Clock) : Int :=
  let minutes : Int := (c.hour * 60 + c.minute : Nat) - c.zone?.getD 0
  (minutes * 60 + c.second) * 1000000 + c.microsecond

end Clock

namespace Moment

/-- The moment with these numbers: the zone is looked at first, then the day, then the time. -/
def ofParts (d : Day) (c : Option Clock) : Except MomentFault Moment := do
  match c with
  | none =>
    d.check
    return day d
  | some c =>
    c.checkZone
    d.check
    c.check
    return time d c

/-- A number with zeros in front of it. -/
def padded (width n : Nat) : String :=
  let digits := Text.digitsOf n
  String.ofList (List.replicate (width - digits.length) '0' ++ digits)

/-- The text of a day. -/
def dayText (d : Day) : String := padded 4 d.year ++ "-" ++ padded 2 d.month ++ "-" ++ padded 2 d.day

/-- The text of a zone. -/
def zoneText (minutes : Int) : String :=
  let size := minutes.natAbs
  (if minutes < 0 then "-" else "+") ++ padded 2 (size / 60) ++ ":" ++ padded 2 (size % 60)

/-- The text of a time; a part of a second is written only where there is one. -/
def clockText (c : Clock) : String :=
  padded 2 c.hour ++ ":" ++ padded 2 c.minute ++ ":" ++ padded 2 c.second ++
    (if c.microsecond = 0 then "" else "." ++ padded 6 c.microsecond) ++
    (c.zone?.map zoneText).getD ""

/-- The text of a moment. -/
def text : Moment → String
  | day d => dayText d
  | time d c => dayText d ++ " " ++ clockText c

/-- A day, a time without a zone, or a time with one. -/
def rank : Moment → Nat
  | day _ => 0
  | time _ c => if c.zone?.isSome then 2 else 1

/-- The place among the moments of one rank. -/
def place : Moment → Int
  | day d => d.number
  | time d c => (d.number : Int) * 86400000000 + c.microseconds

/-- The two moments are the same. -/
def same (a b : Moment) : Bool := a.rank = b.rank && a.place = b.place

/-- The first moment comes before the second; nothing where there is no order between them. -/
def before? (a b : Moment) : Option Bool :=
  if a.rank = b.rank then some (a.place < b.place) else none

end Moment

end MusicScore
