import Scaffold.Moment
import Scaffold.Text.Quoted

/-!
# Reading moments

The standard forms of a date and a time: a calendar date or a date by week and weekday, with or
without hyphens; any single character; and a time with or without colons, whose seconds may have a
fraction, with an offset behind it.
-/

namespace Scaffold.Moment
set_option autoImplicit false

/-- Why a text names no moment. -/
inductive Invalid where
  | form (text : String)
  | year (number : Nat)
  | month
  | day
  | hour
  | minute
  | second
  | offset (microseconds : Int)
  deriving DecidableEq, Repr

/-- The microseconds of a day. -/
def dayLength : Int := 86400000000

/-- A duration by days, seconds and microseconds, of which only the days may be negative. -/
def durationText (microseconds : Int) : String :=
  let rest := microseconds.fmod dayLength
  let part (name : String) (count : Int) : List String :=
    if count = 0 then [] else [name ++ "=" ++ toString count]
  "datetime.timedelta(" ++ Text.join ", " (part "days" (microseconds.fdiv dayLength) ++
    part "seconds" (rest / 1000000) ++ part "microseconds" (rest % 1000000)) ++ ")"

def Invalid.message : Invalid → String
  | .form text => "Invalid isoformat string: " ++ Text.quoted text
  | .year number => "year " ++ toString number ++ " is out of range"
  | .month => "month must be in 1..12"
  | .day => "day is out of range for month"
  | .hour => "hour must be in 0..23"
  | .minute => "minute must be in 0..59"
  | .second => "second must be in 0..59"
  | .offset microseconds =>
    "offset must be a timedelta strictly between -timedelta(hours=24) and timedelta(hours=24), not " ++
      durationText microseconds ++ "."

/-- The number of the first `count` characters, which have to be digits, and the rest. -/
def figures? (count : Nat) (chars : List Char) : Option (Nat × List Char) :=
  let figures := chars.take count
  if figures.length = count && figures.all Char.isDigit then
    some (figures.foldl (fun n c => 10 * n + (c.toNat - '0'.toNat)) 0, chars.drop count)
  else none

/-! Dates -/

/-- The weekday of the first of January, zero for Monday. -/
def firstWeekday (year : Nat) : Nat :=
  let before := year - 1
  (before * 365 + before / 4 - before / 100 + before / 400) % 7

/-- How many weeks a year has: one more than 52 if it begins on a Thursday, or on a Wednesday and
has a day more. -/
def weeksIn (year : Nat) : Nat :=
  if firstWeekday year = 3 || (firstWeekday year = 2 && isLeap year) then 53 else 52

/-- How many days a year has. -/
def yearLength (year : Nat) : Nat := if isLeap year then 366 else 365

/-- The day of a week: the first week is the one with the first Thursday. It may lie at the end of
the year before or at the start of the year after. The weeks of the year zero lie before the
calendar, and no month is theirs. -/
def ofWeek? (year week weekday : Nat) : Option Moment :=
  let start : Moment := ⟨year, 1, 1, 0, 0, 0, 0, none⟩
  if week = 0 || weeksIn year < week || weekday = 0 || 7 < weekday then none
  else if year = 0 then some { start with year := 1, month := 0 }
  else
    let first := firstWeekday year
    let days := (week - 1) * 7 + (weekday - 1) + (if first ≤ 3 then 0 else 7)
    if days < first then some { start with year := year - 1, month := 12, day := 32 + days - first }
    else if days - first < yearLength year then plusDays? (days - first) start
    else some { start with year := year + 1, day := days - first - yearLength year + 1 }

/-- The date that a text spells. -/
def date? (chars : List Char) : Option Moment := do
  let (year, rest) ← figures? 4 chars
  let hyphens := rest.head? = some '-'
  let cut (chars : List Char) : Option (List Char) :=
    if !hyphens then some chars else if chars.head? = some '-' then some chars.tail else none
  match ← cut rest with
  | 'W' :: rest =>
    let (week, rest) ← figures? 2 rest
    if rest.isEmpty then ofWeek? year week 1
    else
      let (weekday, rest) ← figures? 1 (← cut rest)
      if rest.isEmpty then ofWeek? year week weekday else none
  | rest =>
    let (month, rest) ← figures? 2 rest
    let (day, rest) ← figures? 2 (← cut rest)
    if rest.isEmpty then some ⟨year, month, day, 0, 0, 0, 0, none⟩ else none

/-- How many characters the date in front of a text has. Of digits that follow a week without
hyphens one is the weekday if the number of them is odd. -/
def dateLength (chars : List Char) : Nat :=
  match chars.drop 4 with
  | '-' :: 'W' :: _ :: _ :: '-' :: rest =>
    match rest with
    | _ :: c :: _ => if c.isDigit then 8 else 10
    | _ => 10
  | '-' :: 'W' :: _ => 8
  | '-' :: _ => 10
  | 'W' :: rest =>
    let figures := ((rest.drop 2).takeWhile Char.isDigit).length
    if figures < 2 then 7 + figures else if figures % 2 = 1 then 7 else 8
  | _ => 8

/-! Times -/

/-- A time of day, and whether characters are left behind it. -/
structure Clock where
  /-- Hours, minutes and seconds, as far as they are given. -/
  parts : List Nat
  microsecond : Nat := 0
  open_ : Bool := false

namespace Clock

def hour (clock : Clock) : Nat := clock.parts.getD 0 0
def minute (clock : Clock) : Nat := clock.parts.getD 1 0
def second (clock : Clock) : Nat := clock.parts.getD 2 0

def seconds (clock : Clock) : Nat := (clock.hour * 60 + clock.minute) * 60 + clock.second

end Clock

/-- Whether a text goes on: a NUL ends it. -/
def goesOn : List Char → Bool
  | [] => false
  | c :: _ => c != '\x00'

/-- Whether a rest is too short to hold anything more of a time. -/
def isShort : List Char → Bool
  | [] => true
  | [c] => c.utf8Size = 1
  | _ => false

/-- The fraction of a second, of which six digits count. -/
def fraction? (chars : List Char) : Option Clock := do
  let places := Nat.min 6 chars.length
  let (number, rest) ← figures? places chars
  return { parts := [], microsecond := number * Nat.pow 10 (6 - places)
           open_ := goesOn (rest.dropWhile Char.isDigit) }

/-- The numbers of two digits that a text begins with, as many as asked for, and the fraction behind
them. Without colons the fraction needs no mark. A mark may follow any of the numbers, and the
fraction is one of a second all the same. -/
def numbers? (colons : Bool) : Nat → List Char → Option Clock
  | 0, chars => fraction? chars
  | count + 1, chars => do
    let (number, rest) ← figures? 2 chars
    let clock ←
      if isShort rest then some { parts := [], open_ := goesOn rest }
      else if colons && rest.head? = some ':' then numbers? colons count rest.tail
      else if rest.head? = some '.' || rest.head? = some ',' then fraction? rest.tail
      else if colons then none
      else numbers? colons count rest
    return { clock with parts := number :: clock.parts }

/-- The time that a text spells. Its first separator tells whether it has colons. -/
def clock? (chars : List Char) : Option Clock := numbers? (chars[2]? = some ':') 3 chars

def isZoneMark (c : Char) : Bool := c = '+' || c = '-' || c = 'Z'

/-- The offset that a text spells behind a time. -/
def zone? : List Char → Option Int
  | 'Z' :: rest => if goesOn rest then none else some 0
  | sign :: rest => do
    let clock ← clock? rest
    if clock.open_ then none
    else
      let total : Int :=
        if clock.seconds = 0 then 0 else clock.seconds * 1000000 + clock.microsecond
      return if sign = '-' then -total else total
  | [] => none

/-- The date at the time that a text spells. -/
def atTime? (date : Moment) (chars : List Char) : Option Moment := do
  let clock ← clock? (chars.takeWhile (!isZoneMark ·))
  let zone := chars.dropWhile (!isZoneMark ·)
  if zone.isEmpty && clock.open_ then none
  else
    let offset ← if zone.isEmpty then some none else (zone? zone).map some
    return { date with hour := clock.hour, minute := clock.minute, second := clock.second
                       microsecond := clock.microsecond, offset }

/-- The moment, if the calendar and the clock have it. -/
def checked (m : Moment) : Except Invalid Moment :=
  match m.offset.filter fun offset => dayLength ≤ offset.natAbs with
  | some offset => .error (.offset offset)
  | none =>
    if m.year = 0 || lastYear < m.year then .error (.year m.year)
    else if m.month = 0 || 12 < m.month then .error .month
    else if m.day = 0 || daysIn m.year m.month < m.day then .error .day
    else if 23 < m.hour then .error .hour
    else if 59 < m.minute then .error .minute
    else if 59 < m.second then .error .second
    else .ok m

/-- The moment that a text spells. -/
def ofIso (text : String) : Except Invalid Moment :=
  let chars := text.toList
  let length := dateLength chars
  let moment : Option Moment :=
    if chars.length < 7 then none
    else
      match date? (chars.take length), chars.drop length with
      | some date, [] => some date
      | some date, _ :: time => atTime? date time
      | none, _ => none
  match moment with
  | some moment => checked moment
  | none => .error (.form text)

end Scaffold.Moment
