import Scaffold.Text

/-!
# Moments

A date and a time of day, to the microsecond, as the clock shows it, and perhaps how far the clock
is ahead of universal time. Names of migrations and of history entries carry a moment; so do the
records of the manifest.
-/

namespace Scaffold
set_option autoImplicit false

structure Moment where
  year : Nat
  month : Nat
  day : Nat
  hour : Nat
  minute : Nat
  second : Nat
  microsecond : Nat
  /-- The microseconds by which the clock is ahead of universal time, if that is known. -/
  offset : Option Int := none
  deriving DecidableEq, Repr, Inhabited

namespace Moment

def isLeap (year : Nat) : Bool := year % 4 == 0 && (year % 100 != 0 || year % 400 == 0)

def daysIn (year month : Nat) : Nat :=
  match month with
  | 2 => if isLeap year then 29 else 28
  | 4 | 6 | 9 | 11 => 30
  | _ => 31

/-- The last year that the calendar holds. -/
def lastYear : Nat := 9999

/-- The same time on the next day, unless the calendar ends. -/
def nextDay? (m : Moment) : Option Moment :=
  if m.day < daysIn m.year m.month then some { m with day := m.day + 1 }
  else if m.month < 12 then some { m with month := m.month + 1, day := 1 }
  else if m.year < lastYear then some { m with year := m.year + 1, month := 1, day := 1 }
  else none

def plusDays? : Nat → Moment → Option Moment
  | 0, m => some m
  | days + 1, m => m.nextDay?.bind (plusDays? days)

/-- The moment some seconds later, unless the calendar ends before. -/
def plusSeconds? (m : Moment) (seconds : Nat) : Option Moment :=
  let total := (m.hour * 60 + m.minute) * 60 + m.second + seconds
  let time := total % 86400
  plusDays? (total / 86400)
    { m with hour := time / 3600, minute := time / 60 % 60, second := time % 60 }

/-- Year, month and day between separators. -/
def date (m : Moment) (separator year : String) : String :=
  year ++ separator ++ Text.digits 2 m.month ++ separator ++ Text.digits 2 m.day

/-- Hour, minute and second between separators. -/
def time (m : Moment) (separator : String) : String :=
  Text.digits 2 m.hour ++ separator ++ Text.digits 2 m.minute ++ separator ++ Text.digits 2 m.second

/-- The form `2024_01_31_120000`. -/
def underscored (m : Moment) : String := m.date "_" (toString m.year) ++ "_" ++ m.time ""

/-- The form `2024-01-31_12-00-00-000000`. -/
def dashed (m : Moment) : String :=
  m.date "-" (toString m.year) ++ "_" ++ m.time "-" ++ "-" ++ Text.digits 6 m.microsecond

/-- Microseconds after a point, unless they are zero. -/
def fractionText (microseconds : Nat) : String :=
  if microseconds = 0 then "" else "." ++ Text.digits 6 microseconds

/-- An offset with its sign, as hours and minutes, and as far as they are not zero seconds too. -/
def offsetText (offset : Int) : String :=
  let whole := offset.natAbs / 1000000
  let fraction := offset.natAbs % 1000000
  let seconds := if whole % 60 = 0 && fraction = 0 then "" else ":" ++ Text.digits 2 (whole % 60)
  (if offset < 0 then "-" else "+") ++ Text.digits 2 (whole / 3600) ++ ":" ++
    Text.digits 2 (whole / 60 % 60) ++ seconds ++ fractionText fraction

/-- The form `2024-01-31T12:00:00`, with the microseconds after a point unless they are zero, and
the offset if there is one. -/
def iso (m : Moment) : String :=
  m.date "-" (Text.digits 4 m.year) ++ "T" ++ m.time ":" ++ fractionText m.microsecond ++
    (m.offset.map offsetText).getD ""

/-- The form `2024-01-31T12:00:00+00:00`, to the second. -/
def isoUtc (m : Moment) : String :=
  m.date "-" (Text.digits 4 m.year) ++ "T" ++ m.time ":" ++ "+00:00"

end Moment
end Scaffold
