/-!
# Instants

A point of time is a day of the Gregorian calendar, a second of that day and a fraction of a second, all in UTC. The
last second of a minute may be a leap second: its fraction then runs on from one to two seconds.
-/

namespace AddressSpace

/-- Whether February of the year has 29 days. -/
def leapYear (year : Int) : Bool := year % 4 == 0 && (year % 100 != 0 || year % 400 == 0)

/-- The number of days of a month. -/
def daysIn (year : Int) (month : Nat) : Nat :=
  if month = 2 then (if leapYear year then 29 else 28)
  else if month = 4 ∨ month = 6 ∨ month = 9 ∨ month = 11 then 30
  else 31

/-- A day of the calendar. -/
structure Date where
  year : Int
  month : Nat
  day : Nat
  month_le : 1 ≤ month ∧ month ≤ 12
  day_le : 1 ≤ day ∧ day ≤ daysIn year month
  deriving DecidableEq

namespace Date

/-- The day with these numbers, if the calendar has it. -/
def ofFields? (year : Int) (month day : Nat) : Option Date :=
  if h : (1 ≤ month ∧ month ≤ 12) ∧ 1 ≤ day ∧ day ≤ daysIn year month then some ⟨year, month, day, h.1, h.2⟩ else none

/-- Every month has a day. -/
theorem one_le_daysIn (year : Int) (month : Nat) : 1 ≤ daysIn year month := by
  unfold daysIn
  repeat' split
  all_goals omega

/-- The day after. -/
def next (d : Date) : Date :=
  if h : d.day < daysIn d.year d.month then ⟨d.year, d.month, d.day + 1, d.month_le, by omega⟩
  else if h' : d.month < 12 then ⟨d.year, d.month + 1, 1, by omega, by have := one_le_daysIn d.year (d.month + 1); omega⟩
  else ⟨d.year + 1, 1, 1, by omega, by have := one_le_daysIn (d.year + 1) 1; omega⟩

/-- The day before. -/
def previous (d : Date) : Date :=
  if h : 1 < d.day then ⟨d.year, d.month, d.day - 1, d.month_le, by have := d.day_le; omega⟩
  else if h' : 1 < d.month then
    ⟨d.year, d.month - 1, daysIn d.year (d.month - 1), by have := d.month_le; omega,
      by have := one_le_daysIn d.year (d.month - 1); omega⟩
  else ⟨d.year - 1, 12, 31, by omega, by simp [daysIn]⟩

end Date

/-- The nanoseconds of a second. -/
def nanosPerSecond : Nat := 1000000000

/-- A point of time. -/
structure Instant where
  date : Date
  /-- The second of the day. -/
  second : Nat
  /-- The fraction, in nanoseconds. -/
  nanos : Nat
  second_lt : second < 86400
  nanos_lt : nanos < nanosPerSecond ∨ second % 60 = 59 ∧ nanos < 2 * nanosPerSecond
  deriving DecidableEq

namespace Instant

instance : Inhabited Instant := ⟨⟨⟨1970, 1, 1, by decide, by decide⟩, 0, 0, by decide, by decide⟩⟩

/-- The same point of time, given the reading of a clock that is `hours` and `minutes` ahead of UTC, or behind it. -/
def ofLocal? (t : Instant) (behind : Bool) (hours minutes : Nat) : Option Instant :=
  let offset := (hours * 60 + minutes) * 60
  if h : offset < 86400 then
    have hs := t.second_lt
    have hn := t.nanos_lt
    some <|
      if behind then
        if h' : t.second + offset < 86400 then ⟨t.date, t.second + offset, t.nanos, h', by omega⟩
        else ⟨t.date.next, t.second + offset - 86400, t.nanos, by omega, by omega⟩
      else
        if h' : offset ≤ t.second then ⟨t.date, t.second - offset, t.nanos, by omega, by omega⟩
        else ⟨t.date.previous, t.second + 86400 - offset, t.nanos, by omega, by omega⟩
  else none

end Instant

end AddressSpace
