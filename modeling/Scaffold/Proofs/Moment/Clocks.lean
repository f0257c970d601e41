import Scaffold.Artifact
import Scaffold.Moment.Iso
import Scaffold.Proofs.Manifest.Entries

/-!
# Moments and clocks

When a moment is, counted in microseconds of universal time. Clocks that are equally far ahead show
moments in the order in which they are: `Moment.reading_lt_iff`. Others need not.

Counting seconds from a moment carries over minutes, hours, days, months and years and misses none:
`Moment.plusSeconds?_eq_some`. The name of a migration begins with its moment in a text of one
length, so migrations that are named for later seconds stand later, whatever follows in their names:
`Artifact.migrationName_lt`.

The reader of moments takes the form in which the manifest keeps them: `Moment.ofIso_iso`.
-/

namespace Scaffold
set_option autoImplicit false

namespace Moment

/-- The days of the calendar before a year. -/
def daysBeforeYear (year : Nat) : Nat := ((List.range year).map yearLength).sum

/-- The days of a year before a month. -/
def daysBeforeMonth (year month : Nat) : Nat :=
  ((List.range (month - 1)).map fun i => daysIn year (i + 1)).sum

/-- The days of the calendar up to a date. -/
def days (m : Moment) : Nat := daysBeforeYear m.year + daysBeforeMonth m.year m.month + m.day

/-- The microseconds that a clock has counted. -/
def ticks (m : Moment) : Nat :=
  (((m.days * 24 + m.hour) * 60 + m.minute) * 60 + m.second) * 1000000 + m.microsecond

/-- The microseconds of universal time, where it is known how far the clock is ahead of it. -/
def instant (m : Moment) : Int := m.ticks - m.offset.getD 0

variable {m other : Moment} {year month later : Nat}

theorem sum_range_lt {f : Nat → Nat} {i j : Nat} (lt : i < j) :
    ((List.range i).map f).sum + f i ≤ ((List.range j).map f).sum := by
  induction j with
  | zero => exact absurd lt (Nat.not_lt_zero i)
  | succ j ih =>
    have last : ((List.range (j + 1)).map f).sum = ((List.range j).map f).sum + f j := by
      rw [List.range_succ, List.map_append, List.sum_append, List.map_singleton, List.sum_singleton]
    rcases Nat.lt_succ_iff_lt_or_eq.1 lt with before | rfl
    · have := ih before
      omega
    · exact last.ge

/-- A month ends before the next one begins. -/
theorem daysBeforeMonth_lt (start : 1 ≤ month) (lt : month < later) :
    daysBeforeMonth year month + daysIn year month ≤ daysBeforeMonth year later := by
  have order : month - 1 < later - 1 := by omega
  have sum := sum_range_lt (f := fun i => daysIn year (i + 1)) order
  rwa [Nat.sub_add_cancel start] at sum

/-- A year ends with its last month. -/
theorem daysBeforeMonth_le (start : 1 ≤ month) (le : month ≤ 12) :
    daysBeforeMonth year month + daysIn year month ≤ yearLength year := by
  have all : daysBeforeMonth year 13 = yearLength year := by
    cases leap : isLeap year <;> simp [daysBeforeMonth, yearLength, daysIn, leap, List.range_succ]
  exact all ▸ daysBeforeMonth_lt start (Nat.lt_succ_of_le le)

theorem daysBeforeYear_lt (lt : year < later) :
    daysBeforeYear year + yearLength year ≤ daysBeforeYear later := sum_range_lt lt

/-- Days are counted in the order of the calendar. -/
theorem days_lt (h : m.IsRegular) (h' : other.IsRegular)
    (lt : [m.year, m.month, m.day] < [other.year, other.month, other.day]) :
    m.days < other.days := by
  have day := h.day
  have day' := h'.day
  simp only [List.cons_lt_cons_iff, List.not_lt_nil, and_false, or_false] at lt
  unfold days
  rcases lt with year | ⟨sameYear, month | ⟨sameMonth, day⟩⟩
  · have := daysBeforeYear_lt year
    have := @daysBeforeMonth_le m.year m.month h.month.1 h.month.2
    omega
  · have := @daysBeforeMonth_lt m.year m.month other.month h.month.1 month
    rw [← sameYear]
    omega
  · rw [← sameYear, ← sameMonth]
    omega

theorem ticks_lt (h : m.IsRegular) (h' : other.IsRegular) (lt : m.reading < other.reading) :
    m.ticks < other.ticks := by
  have whole : [m.year, m.month, m.day] < [other.year, other.month, other.day] ∨
      m.days = other.days ∧ [m.hour, m.minute, m.second, m.microsecond] < [other.hour, other.minute,
        other.second, other.microsecond] := by
    simp only [reading, List.cons_lt_cons_iff, List.not_lt_nil, and_false, or_false] at lt ⊢
    rcases lt with year | ⟨sameYear, month | ⟨sameMonth, day | ⟨sameDay, time⟩⟩⟩
    · exact .inl (.inl year)
    · exact .inl (.inr ⟨sameYear, .inl month⟩)
    · exact .inl (.inr ⟨sameYear, .inr ⟨sameMonth, day⟩⟩)
    · exact .inr ⟨by rw [days, days, sameYear, sameMonth, sameDay], time⟩
  obtain ⟨hour, minute, second, microsecond⟩ := h.time
  obtain ⟨hour', minute', second', microsecond'⟩ := h'.time
  unfold ticks
  rcases whole with date | ⟨sameDay, time⟩
  · have := days_lt h h' date
    omega
  · simp only [List.cons_lt_cons_iff, List.not_lt_nil, and_false, or_false] at time
    omega

/-- Clocks that are equally far ahead of universal time show an earlier time at an earlier
moment. -/
theorem reading_lt_iff (h : m.IsRegular) (h' : other.IsRegular) (same : m.offset = other.offset) :
    m.reading < other.reading ↔ m.instant < other.instant := by
  have apart : m.instant < other.instant ↔ m.ticks < other.ticks := by
    rw [instant, instant, same]
    omega
  rw [apart]
  refine ⟨ticks_lt h h', fun lt => ?_⟩
  rcases lt_trichotomy m.reading other.reading with before | equal | after
  · exact before
  · have parts := equal
    simp only [reading, List.cons.injEq, and_true] at parts
    obtain ⟨year, month, day, hour, minute, second, microsecond⟩ := parts
    have ticks : m.ticks = other.ticks := by
      simp only [ticks, days, year, month, day, hour, minute, second, microsecond]
    exact absurd lt ticks.not_lt
  · exact absurd lt (Nat.lt_asymm (ticks_lt h' h after))

end Moment
/-! ## Seconds of the calendar -/

namespace Moment

variable {m after other : Moment} {days seconds more year month : Nat}

theorem daysBeforeMonth_one (year : Nat) : daysBeforeMonth year 1 = 0 := rfl

/-- A month begins where the one before it has ended. -/
theorem daysBeforeMonth_succ (start : 1 ≤ month) :
    daysBeforeMonth year (month + 1) = daysBeforeMonth year month + daysIn year month := by
  obtain ⟨before, rfl⟩ := Nat.exists_eq_add_of_le' start
  simp [daysBeforeMonth, List.range_succ]

/-- A year has the days of its months. -/
theorem daysBeforeMonth_thirteen (year : Nat) : daysBeforeMonth year 13 = yearLength year := by
  cases leap : isLeap year <;> simp [daysBeforeMonth, yearLength, daysIn, leap, List.range_succ]

theorem daysBeforeYear_succ (year : Nat) :
    daysBeforeYear (year + 1) = daysBeforeYear year + yearLength year := by
  simp [daysBeforeYear, List.range_succ]

theorem one_le_daysIn (year month : Nat) : 1 ≤ daysIn year month := by
  unfold daysIn
  split <;> try split
  all_goals decide

/-- The next day is at the same time on a day of the calendar that is counted one higher. -/
theorem nextDay?_eq_some (h : m.IsRegular) (next : m.nextDay? = some after) :
    after.IsRegular ∧ after.days = m.days + 1 ∧
      after = { m with year := after.year, month := after.month, day := after.day } := by
  obtain ⟨firstYear, lastYear⟩ := h.year
  obtain ⟨firstMonth, lastMonth⟩ := h.month
  obtain ⟨firstDay, lastDay⟩ := h.day
  unfold nextDay? at next
  split at next
  · rename_i within
    obtain rfl := Option.some.inj next
    exact ⟨⟨h.year, h.month, ⟨Nat.succ_pos _, within⟩, h.time⟩, rfl, rfl⟩
  · rename_i ends
    have last : m.day = daysIn m.year m.month := le_antisymm lastDay (Nat.not_lt.1 ends)
    split at next
    · rename_i within
      obtain rfl := Option.some.inj next
      refine ⟨⟨h.year, ⟨Nat.succ_pos _, within⟩, ⟨le_rfl, one_le_daysIn _ _⟩, h.time⟩, ?_, rfl⟩
      simp only [Moment.days, daysBeforeMonth_succ firstMonth, last, Nat.add_assoc]
    · rename_i ends
      have december : m.month = 12 := le_antisymm lastMonth (Nat.not_lt.1 ends)
      split at next
      · rename_i within
        obtain rfl := Option.some.inj next
        refine ⟨⟨⟨firstYear.trans (Nat.le_succ _), within⟩, ⟨le_rfl, Nat.le_of_ble_eq_true rfl⟩,
          ⟨le_rfl, one_le_daysIn _ _⟩, h.time⟩, ?_, rfl⟩
        have whole := daysBeforeMonth_thirteen m.year
        rw [daysBeforeMonth_succ (by decide)] at whole
        simp only [Moment.days, daysBeforeYear_succ, daysBeforeMonth_one, last, december]
        omega
      · cases next

theorem plusDays?_eq_some (h : m.IsRegular) (later : plusDays? days m = some after) :
    after.IsRegular ∧ after.days = m.days + days ∧
      after = { m with year := after.year, month := after.month, day := after.day } := by
  induction days generalizing m with
  | zero =>
    obtain rfl := Option.some.inj later
    exact ⟨h, rfl, rfl⟩
  | succ days ih =>
    obtain ⟨next, isNext, later⟩ := Option.bind_eq_some_iff.1 later
    obtain ⟨regular, counted, same⟩ := nextDay?_eq_some h isNext
    obtain ⟨regular', counted', same'⟩ := ih regular later
    refine ⟨regular', by omega, ?_⟩
    rw [same] at same'
    exact same'

/-- Seconds after a moment of the calendar lead to a moment of the calendar, so many seconds
later. -/
theorem plusSeconds?_eq_some (h : m.IsRegular) (later : m.plusSeconds? seconds = some after) :
    after.IsRegular ∧ after.ticks = m.ticks + seconds * 1000000 ∧
    after.microsecond = m.microsecond ∧
      after.offset = m.offset := by
  obtain ⟨hour, minute, second, microsecond⟩ := h.time
  dsimp only [plusSeconds?] at later
  obtain ⟨regular, counted, same⟩ := plusDays?_eq_some
    (m := { m with
      hour := ((m.hour * 60 + m.minute) * 60 + m.second + seconds) % 86400 / 3600
      minute := ((m.hour * 60 + m.minute) * 60 + m.second + seconds) % 86400 / 60 % 60
      second := ((m.hour * 60 + m.minute) * 60 + m.second + seconds) % 86400 % 60 })
    ⟨h.year, h.month, h.day,
      by dsimp only; omega, by dsimp only; omega, by dsimp only; omega, microsecond⟩ later
  refine ⟨regular, ?_, by rw [same], by rw [same]⟩
  have days :
    after.days = m.days + ((m.hour * 60 + m.minute) * 60 + m.second + seconds) / 86400 := counted
  have hour' := congrArg Moment.hour same
  have minute' := congrArg Moment.minute same
  have second' := congrArg Moment.second same
  have microsecond' := congrArg Moment.microsecond same
  dsimp only at hour' minute' second' microsecond'
  unfold ticks
  omega

/-- What the calendar and the clock show, from the year to the second. -/
def clock (m : Moment) : List Nat := [m.year, m.month, m.day, m.hour, m.minute, m.second]

/-- Later seconds are shown as later. -/
theorem clock_lt_of_plusSeconds (h : m.IsRegular) (first : m.plusSeconds? seconds = some after)
    (second : m.plusSeconds? more = some other) (lt : seconds < more) :
    after.clock < other.clock := by
  obtain ⟨regular, ticks, fraction, offset⟩ := plusSeconds?_eq_some h first
  obtain ⟨regular', ticks', fraction', offset'⟩ := plusSeconds?_eq_some h second
  have earlier : after.reading < other.reading := by
    rw [reading_lt_iff regular regular' (offset.trans offset'.symm), instant, instant,
      offset, offset']
    omega
  simp only [reading, clock, List.cons_lt_cons_iff, List.not_lt_nil, and_false,
    or_false] at earlier ⊢
  rcases earlier with year | ⟨sameYear,
    month | ⟨sameMonth, day | ⟨sameDay, hour | ⟨sameHour, minute | ⟨sameMinute, second |
      ⟨sameSecond, microsecond⟩⟩⟩⟩⟩⟩
  · exact .inl year
  · exact .inr ⟨sameYear, .inl month⟩
  · exact .inr ⟨sameYear, .inr ⟨sameMonth, .inl day⟩⟩
  · exact .inr ⟨sameYear, .inr ⟨sameMonth, .inr ⟨sameDay, .inl hour⟩⟩⟩
  · exact .inr ⟨sameYear, .inr ⟨sameMonth, .inr ⟨sameDay, .inr ⟨sameHour, .inl minute⟩⟩⟩⟩
  · exact .inr ⟨sameYear,
      .inr ⟨sameMonth, .inr ⟨sameDay, .inr ⟨sameHour, .inr ⟨sameMinute, second⟩⟩⟩⟩⟩
  · exact absurd microsecond (fraction.trans fraction'.symm).not_lt

/-- The widths of the numbers in the name of a migration, with what separates them. -/
def underscoredShape : List (Nat × List Char) :=
  [(4, ['_']), (2, ['_']), (2, ['_']), (2, []), (2, []), (2, [])]

theorem fits_underscoredShape (h : m.IsRegular) :
    List.Forall₂ (fun part n => n < 10 ^ part.1) underscoredShape m.clock := by
  have year : m.year < 10 ^ 4 := Nat.lt_succ_of_le h.year.2
  have month : m.month < 10 ^ 2 := Nat.lt_of_le_of_lt h.month.2 (by decide)
  have day : m.day < 10 ^ 2 := Nat.lt_of_le_of_lt (h.day.2.trans (daysIn_le _ _)) (by decide)
  obtain ⟨hour, minute, second, -⟩ := h.time
  exact .cons year (.cons month
    (.cons day (.cons (by dsimp only; omega) (.cons (by dsimp only; omega)
      (.cons (by dsimp only; omega) .nil)))))

theorem toList_two {n : Nat} (small : n < 10 ^ 2) :
    (Text.digits 2 n).toList = Chars.lastDigits 2 n :=
  Text.toList_digits (by decide) small

theorem toList_underscored (h : m.IsRegular) :
    m.underscored.toList = Text.spelled underscoredShape m.clock := by
  have year : (toString m.year).toList = Chars.lastDigits 4 m.year :=
    Text.toList_toString h.year.1 (Nat.lt_succ_of_le h.year.2)
  have month : m.month < 10 ^ 2 := Nat.lt_of_le_of_lt h.month.2 (by decide)
  have day : m.day < 10 ^ 2 := Nat.lt_of_le_of_lt (h.day.2.trans (daysIn_le _ _)) (by decide)
  obtain ⟨hour, minute, second, -⟩ := h.time
  simp only [underscored, date, time, String.toList_append, year, toList_two month, toList_two day,
    toList_two (Nat.lt_trans hour (by decide : 24 < 10 ^ 2)),
    toList_two (Nat.lt_trans minute (by decide : 60 < 10 ^ 2)),
    toList_two (Nat.lt_trans second (by decide : 60 < 10 ^ 2)), clock, underscoredShape,
    Text.spelled, List.append_assoc, List.append_nil]
  rfl

theorem length_underscored (h : m.IsRegular) : m.underscored.toList.length = 17 := by
  rw [toList_underscored h, Text.length_spelled rfl]
  rfl

end Moment

namespace Artifact

variable {now moment other : Moment} {suffix suffix' : String} {named later : Nat}

/-- The name of the migration of an ending, made at a moment. -/
def migrationName (moment : Moment) (suffix : String) : String := moment.underscored ++ suffix

/-- The path that a migration with a name has. -/
def pathOfMigration (name : String) : String := migrationsDirectory ++ "/" ++ name

theorem migrationPath_eq (moment : Moment) (suffix : String) :
    migrationPath moment suffix = pathOfMigration (migrationName moment suffix) := by
  simp only [migrationPath, pathOfMigration, migrationName, String.append_assoc]

/-- Moments of the calendar take up as much of every name, so a name tells its ending. -/
theorem suffix_eq_of_migrationName (h : moment.IsRegular) (h' : other.IsRegular)
    (same : migrationName moment suffix = migrationName other suffix') : suffix = suffix' := by
  have chars := congrArg String.toList same
  rw [migrationName, migrationName, String.toList_append, String.toList_append] at chars
  have lengths := (Moment.length_underscored h).trans (Moment.length_underscored h').symm
  exact String.toList_inj.1 (List.append_inj chars lengths).2

/-- Migrations that are named for later seconds of a run stand later. -/
theorem migrationName_lt (h : now.IsRegular) (first : now.plusSeconds? named = some moment)
    (second : now.plusSeconds? later = some other) (lt : named < later) (suffix suffix' : String) :
    migrationName moment suffix < migrationName other suffix' := by
  have regular := (Moment.plusSeconds?_eq_some h first).1
  have regular' := (Moment.plusSeconds?_eq_some h second).1
  rw [migrationName, migrationName, Text.lt_iff_toList, String.toList_append, String.toList_append,
    Moment.toList_underscored regular, Moment.toList_underscored regular']
  refine Chars.append_lt_append ?_ (Text.spelled_lt (Moment.fits_underscoredShape regular)
    (Moment.fits_underscoredShape regular') (Moment.clock_lt_of_plusSeconds h first second lt)) _ _
  rw [Text.length_spelled rfl, Text.length_spelled rfl]

end Artifact
/-! ## Written forms are read back -/

namespace Chars

theorem digitChar_spec {d : Nat} (small : d < 10) :
    (Nat.digitChar d).isDigit = true ∧ (Nat.digitChar d).toNat - '0'.toNat = d := by
  have all : ∀ d < 10, (Nat.digitChar d).isDigit = true ∧
    (Nat.digitChar d).toNat - '0'.toNat = d := by decide
  exact all d small

theorem isDigit_of_mem_lastDigits {width n : Nat} {c : Char} (mem : c ∈ lastDigits width n) :
    c.isDigit = true := by
  induction width generalizing n with
  | zero => exact absurd mem List.not_mem_nil
  | succ width ih =>
    rcases List.mem_append.1 mem with mem | mem
    · exact ih mem
    · obtain rfl := List.mem_singleton.1 mem
      exact (digitChar_spec (Nat.mod_lt n (by decide))).1

/-- The digits of a number have its value. -/
theorem foldl_lastDigits {width n : Nat} (small : n < 10 ^ width) :
    (lastDigits width n).foldl (fun n c => 10 * n + (c.toNat - '0'.toNat)) 0 = n := by
  induction width generalizing n with
  | zero => exact (Nat.lt_one_iff.1 small).symm
  | succ width ih =>
    have fewer : n / 10 < 10 ^ width :=
      Nat.div_lt_of_lt_mul (by rwa [Nat.pow_succ, Nat.mul_comm] at small)
    rw [lastDigits, List.foldl_append, ih fewer, List.foldl_cons, List.foldl_nil,
      (digitChar_spec (Nat.mod_lt n (by decide))).2]
    exact Nat.div_add_mod n 10

end Chars

namespace Moment

open Chars (lastDigits)

variable {m : Moment} {n count : Nat} {rest : List Char}

theorem figures?_lastDigits {width : Nat} (small : n < 10 ^ width) (rest : List Char) :
    figures? width (lastDigits width n ++ rest) = some (n, rest) := by
  have taken : (lastDigits width n ++ rest).take width = lastDigits width n :=
    List.take_left' (Chars.length_lastDigits width n)
  have dropped : (lastDigits width n ++ rest).drop width = rest :=
    List.drop_left' (Chars.length_lastDigits width n)
  have digits : (lastDigits width n).all Char.isDigit = true :=
    List.all_eq_true.2 fun c mem => Chars.isDigit_of_mem_lastDigits mem
  simp only [figures?, taken, dropped, Chars.length_lastDigits, digits,
    Chars.foldl_lastDigits small, decide_true, Bool.and_self, if_true]

/-- A colon opens a further number of a time. -/
theorem numbers?_colon {clock : Clock} (small : n < 10 ^ 2) (filled : rest ≠ [])
    (further : numbers? true count rest = some clock) :
    numbers? true (count + 1) (lastDigits 2 n ++ ':' :: rest) =
      some { clock with parts := n :: clock.parts } := by
  obtain ⟨c, rest, rfl⟩ := List.exists_cons_of_ne_nil filled
  simp [numbers?, figures?_lastDigits small, isShort, further]

/-- The microseconds close a time. -/
theorem numbers?_fractionText {microsecond : Nat} (small : n < 10 ^ 2)
    (fine : microsecond < 10 ^ 6) :
    numbers? true (count + 1) (lastDigits 2 n ++ (fractionText microsecond).toList) =
      some { parts := [n], microsecond } := by
  by_cases whole : microsecond = 0
  · have last := figures?_lastDigits small []
    rw [List.append_nil] at last
    simp [numbers?, last, fractionText, whole, isShort, goesOn]
  · have figures := figures?_lastDigits fine []
    have length := Chars.length_lastDigits 6 microsecond
    rw [List.append_nil] at figures
    have fraction : fraction? (lastDigits 6 microsecond) = some { parts := [], microsecond } := by
      simp [fraction?, length, figures, goesOn]
    have text : (fractionText microsecond).toList = '.' :: lastDigits 6 microsecond := by
      rw [fractionText, if_neg whole, String.toList_append, Text.toList_digits (by decide) fine]
      rfl
    have long : isShort ('.' :: lastDigits 6 microsecond) = false := by
      cases more : lastDigits 6 microsecond with
      | nil => simp [more] at length
      | cons c others => rfl
    simp [numbers?, figures?_lastDigits small, text, long, fraction]

theorem clock?_eq {parts : List Char} :
    clock? (lastDigits 2 n ++ ':' :: parts) = numbers? true 3 (lastDigits 2 n ++ ':' :: parts) := by
  have mark : (lastDigits 2 n ++ ':' :: parts)[2]? = some ':' := by
    rw [List.getElem?_append_right (by simp), Chars.length_lastDigits]
    rfl
  rw [clock?, mark, decide_eq_true rfl]

theorem filled_lastDigits (n : Nat) (rest : List Char) : lastDigits 2 n ++ rest ≠ [] := by
  intro empty
  have length := congrArg List.length empty
  simp at length

/-- Hours and minutes are read, and seconds with their fraction. -/
theorem clock?_text {hour minute second microsecond : Nat} (hours : hour < 10 ^ 2)
    (minutes : minute < 10 ^ 2) (seconds : second < 10 ^ 2) (fine : microsecond < 10 ^ 6) :
    clock? (lastDigits 2 hour ++ ':' :: lastDigits 2 minute) = some { parts := [hour, minute] } ∧
      clock? (lastDigits 2 hour ++ ':' :: (lastDigits 2 minute ++
        ':' :: (lastDigits 2 second ++ (fractionText microsecond).toList))) =
        some { parts := [hour, minute, second], microsecond } := by
  have short := @numbers?_fractionText minute 1 0 minutes (by decide)
  rw [show (fractionText 0).toList = [] from rfl, List.append_nil] at short
  have filled := filled_lastDigits minute []
  rw [List.append_nil] at filled
  constructor
  · rw [clock?_eq, numbers?_colon hours filled short]
  · rw [clock?_eq, numbers?_colon hours (filled_lastDigits _ _)
      (numbers?_colon minutes (filled_lastDigits _ _)
        (numbers?_fractionText seconds fine))]

/-- What stands behind the sign of an offset is a time. -/
theorem exists_clock_of_offset {span : Nat} (short : span < dayLength.toNat) : ∃ chars clock,
    (Text.digits 2 (span / 1000000 / 3600) ++ ":" ++ Text.digits 2 (span / 1000000 / 60 % 60) ++
      (if span / 1000000 % 60 = 0 && span % 1000000 = 0 then ""
        else ":" ++ Text.digits 2 (span / 1000000 % 60)) ++
        fractionText (span % 1000000)).toList = chars ∧
    clock? chars = some clock ∧ clock.open_ = false ∧ clock.seconds = span / 1000000 ∧
    clock.microsecond = span % 1000000 := by
  have day : span / 1000000 < 86400 := by
    have length : dayLength.toNat = 86400 * 1000000 := by decide
    omega
  have hours : span / 1000000 / 3600 < 10 ^ 2 := by omega
  have minutes : span / 1000000 / 60 % 60 < 10 ^ 2 := by omega
  have seconds : span / 1000000 % 60 < 10 ^ 2 := by omega
  obtain ⟨bare, full⟩ :=
    clock?_text hours minutes seconds (Nat.mod_lt span (by decide : 0 < 10 ^ 6))
  by_cases round : span / 1000000 % 60 = 0 ∧ span % 1000000 = 0
  · refine ⟨_, _, ?_, bare, rfl, ?_, round.2.symm⟩
    · simp [round, fractionText, toList_two hours, toList_two minutes]
    · simp only [Clock.seconds, Clock.hour, Clock.minute, Clock.second, List.getD_cons_zero,
        List.getD_cons_succ, List.getD_nil]
      omega
  · refine ⟨_, _, ?_, full, rfl, ?_, rfl⟩
    · simp [round, toList_two hours, toList_two minutes, toList_two seconds, List.append_assoc]
    · simp only [Clock.seconds, Clock.hour, Clock.minute, Clock.second, List.getD_cons_zero,
        List.getD_cons_succ]
      omega

/-- An offset that is shorter than a day, and zero or a second at least, is read back by its
sign. -/
theorem exists_zone {offset : Int} (short : offset.natAbs < dayLength.toNat)
    (whole : offset = 0 ∨ 1000000 ≤ offset.natAbs) :
    ∃ sign rest, (offsetText offset).toList = sign :: rest ∧ isZoneMark sign = true ∧
    zone? (sign :: rest) = some offset := by
  obtain ⟨chars, clock, text, read, closed, seconds, microsecond⟩ := exists_clock_of_offset short
  have total : (if clock.seconds = 0 then 0
      else (clock.seconds : Int) * 1000000 + clock.microsecond) = offset.natAbs := by
    rw [seconds, microsecond]
    split <;> omega
  by_cases negative : offset < 0
  · have size : (offset.natAbs : Int) = -offset := by omega
    refine ⟨'-', chars, ?_, rfl, ?_⟩
    · rw [← text, offsetText, if_pos negative]
      simp
    · simp [zone?, read, closed, total.trans size]
  · have size : (offset.natAbs : Int) = offset := by omega
    refine ⟨'+', chars, ?_, rfl, ?_⟩
    · rw [← text, offsetText, if_neg negative]
      simp
    · simp [zone?, read, closed, total.trans size]

/-- The characters of a date. -/
def dateChars (m : Moment) : List Char :=
  lastDigits 4 m.year ++ '-' :: (lastDigits 2 m.month ++ '-' :: lastDigits 2 m.day)

/-- What the calendar and the clock have, with numbers that have their places. -/
theorem bounds_of_checked (valid : checked m = .ok m) :
    m.year < 10 ^ 4 ∧ m.month < 10 ^ 2 ∧ m.day < 10 ^ 2 ∧ m.hour < 10 ^ 2 ∧
    m.minute < 10 ^ 2 ∧ m.second < 10 ^ 2 ∧ ∀ offset ∈ m.offset,
    offset.natAbs < dayLength.toNat := by
  unfold checked at valid
  split at valid
  · cases valid
  · rename_i short
    have days := daysIn_le m.year m.month
    have last : lastYear = 9999 := rfl
    repeat' split at valid
    all_goals cases valid
    simp only [Bool.or_eq_true, decide_eq_true_eq, not_or, Nat.not_lt] at *
    refine ⟨by omega, by omega, by omega, by omega, by omega, by omega, fun offset is => ?_⟩
    have apart := Option.filter_eq_none_iff.1 short offset is
    rw [decide_eq_true_eq] at apart
    omega

/-- Digits are no mark of a week. -/
theorem exists_digits (n : Nat) :
    ∃ first second, lastDigits 2 n = [first, second] ∧ first ≠ 'W' := by
  refine ⟨_, _, rfl, fun week => ?_⟩
  have digit : ('W' : Char).isDigit = true :=
    week ▸ (Chars.digitChar_spec (Nat.mod_lt (n / 10) (by decide))).1
  exact absurd digit (by decide)

theorem date?_dateChars (year : m.year < 10 ^ 4) (month : m.month < 10 ^ 2) (day : m.day < 10 ^ 2) :
    date? (dateChars m) = some ⟨m.year, m.month, m.day, 0, 0, 0, 0, none⟩ := by
  obtain ⟨first, second, digits, noWeek⟩ := exists_digits m.month
  have last := figures?_lastDigits day []
  rw [List.append_nil] at last
  have next := figures?_lastDigits month ('-' :: lastDigits 2 m.day)
  rw [digits, List.cons_append, List.singleton_append] at next
  simp only [date?, dateChars, digits, List.cons_append, List.nil_append, figures?_lastDigits year,
    Bool.not_eq_true', decide_eq_false_iff_not, ite_not, List.isEmpty_iff, Option.bind_eq_bind,
    Option.bind_some, List.head?_cons, if_true, List.tail_cons]
  split
  · rename_i same
    exact absurd (List.cons.inj same).1 noWeek
  · simp [next, last]

theorem dateLength_dateChars (m : Moment) (rest : List Char) :
    dateLength (dateChars m ++ rest) = 10 := by
  obtain ⟨first, second, digits, noWeek⟩ := exists_digits m.month
  have dropped : (dateChars m ++ rest).drop 4 = '-' :: first :: second :: '-' ::
      (lastDigits 2 m.day ++ rest) := by
    rw [dateChars, List.append_assoc, List.drop_left' (Chars.length_lastDigits 4 m.year), digits]
    simp
  rw [dateLength, dropped]
  split
  all_goals simp_all

/-- The characters of a time, with the fraction of its seconds. -/
def timeChars (m : Moment) : List Char :=
  lastDigits 2 m.hour ++ ':' :: (lastDigits 2 m.minute ++
    ':' :: (lastDigits 2 m.second ++ (fractionText m.microsecond).toList))

theorem not_isZoneMark_of_mem (fine : m.microsecond < 10 ^ 6) {c : Char} (mem : c ∈ timeChars m) :
    isZoneMark c = false := by
  have digit (digit : c.isDigit = true) : isZoneMark c = false := by
    by_contra mark
    simp only [isZoneMark, Bool.not_eq_false, Bool.or_eq_true, decide_eq_true_eq] at mark
    rcases mark with (rfl | rfl) | rfl <;> exact absurd digit (by decide)
  have fraction (mem : c ∈ (fractionText m.microsecond).toList) : isZoneMark c = false := by
    by_cases whole : m.microsecond = 0
    · simp [fractionText, whole] at mem
    · rw [fractionText, if_neg whole, String.toList_append,
        Text.toList_digits (by decide) fine] at mem
      rcases List.mem_append.1 mem with point | mem
      · obtain rfl : c = '.' := by simpa using point
        rfl
      · exact digit (Chars.isDigit_of_mem_lastDigits mem)
  simp only [timeChars, List.mem_append, List.mem_cons] at mem
  rcases mem with mem | rfl | mem | rfl | mem | mem
  · exact digit (Chars.isDigit_of_mem_lastDigits mem)
  · rfl
  · exact digit (Chars.isDigit_of_mem_lastDigits mem)
  · rfl
  · exact digit (Chars.isDigit_of_mem_lastDigits mem)
  · exact fraction mem

/-- A moment that the calendar and the clock have is read back from its written form, unless its
offset is a mere fraction of a second. -/
theorem ofIso_iso (valid : checked m = .ok m) (fine : m.microsecond < 10 ^ 6)
    (whole : ∀ offset ∈ m.offset, offset = 0 ∨ 1000000 ≤ offset.natAbs) : ofIso m.iso = .ok m := by
  obtain ⟨year, month, day, hour, minute, second, short⟩ := bounds_of_checked valid
  have text : m.iso.toList = dateChars m ++
      'T' :: (timeChars m ++ ((m.offset.map offsetText).getD "").toList) := by
    simp [iso, date, time, dateChars, timeChars, Text.toList_digits (by decide) year,
      toList_two month, toList_two day, toList_two hour, toList_two minute, toList_two second]
  have length : (dateChars m).length = 10 := by simp [dateChars]
  have read := (clock?_text hour minute second fine).2
  have timed : atTime? ⟨m.year, m.month, m.day, 0, 0, 0, 0, none⟩
      (timeChars m ++ ((m.offset.map offsetText).getD "").toList) = some m := by
    have front : ∀ c ∈ timeChars m, (!isZoneMark c) = true := fun c mem => by
      rw [not_isZoneMark_of_mem fine mem]; rfl
    rw [atTime?, List.takeWhile_append_of_pos front, List.dropWhile_append_of_pos front]
    cases zone : m.offset with
    | none =>
      simp only [timeChars, Option.map_none, Option.getD_none, String.toList_empty,
        List.takeWhile_nil, List.append_nil, read, List.dropWhile_nil, List.isEmpty_nil,
        Bool.true_and, if_true, Option.pure_def, Option.bind_eq_bind, Option.bind_some,
        Bool.false_eq_true, if_false, Option.some.injEq]
      rw [← zone]
      rfl
    | some offset =>
      obtain ⟨sign, rest, signed, mark, back⟩ := exists_zone (short offset zone) (whole offset zone)
      simp only [timeChars, Option.map_some, Option.getD_some, signed, mark, Bool.not_true,
        Bool.false_eq_true, not_false_eq_true, List.takeWhile_cons_of_neg, List.append_nil, read,
        List.dropWhile_cons_of_neg, List.isEmpty_cons,
        Bool.false_and, if_false, back, Option.pure_def, Option.bind_eq_bind, Option.bind_some,
        Option.some.injEq]
      rw [← zone]
      rfl
  have many : ¬ m.iso.toList.length < 7 := by
    rw [text, List.length_append, length]
    omega
  rw [ofIso, text, dateLength_dateChars, ← text, if_neg many, text, List.take_left' length,
    List.drop_left' length, date?_dateChars year month day]
  dsimp only
  rw [timed]
  exact valid

end Moment
end Scaffold
