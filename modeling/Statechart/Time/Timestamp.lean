import Statechart.Time.Duration

/-! Moments in UTC on the proleptic Gregorian calendar, to the nanosecond. -/
namespace Statechart

def isLeapYear (year : Int) : Bool :=
  year % 4 == 0 && (year % 100 != 0 || year % 400 == 0)

def daysInMonth (year : Int) (month : Nat) : Nat :=
  if month = 2 then if isLeapYear year then 29 else 28
  else if month ∈ [4, 6, 9, 11] then 30
  else 31

structure Date where
  year : Int
  month : Nat
  day : Nat
  valid : (-262143 ≤ year ∧ year ≤ 262142) ∧ (1 ≤ month ∧ month ≤ 12) ∧
    (1 ≤ day ∧ day ≤ daysInMonth year month)
deriving DecidableEq, Repr

namespace Date

def of? (year : Int) (month day : Nat) : Option Date :=
  if h : (-262143 ≤ year ∧ year ≤ 262142) ∧ (1 ≤ month ∧ month ≤ 12) ∧
      (1 ≤ day ∧ day ≤ daysInMonth year month) then
    some ⟨year, month, day, h⟩
  else none

/-- Days since 1 January 1970. Years are counted from March, so that a leap day ends its year. -/
def dayNumber (d : Date) : Int :=
  let year := if d.month ≤ 2 then d.year - 1 else d.year
  let month := (d.month + 9) % 12
  365 * year + year / 4 - year / 100 + year / 400 + (153 * month + 2) / 5 + d.day - 719469

/-- The day of that number, if the calendar reaches it. -/
def ofDayNumber? (n : Int) : Option Date :=
  let n := n + 719468
  let inEra := n % 146097
  let yearOfEra := (inEra - inEra / 1460 + inEra / 36524 - inEra / 146096) / 365
  let dayOfYear := inEra - (365 * yearOfEra + yearOfEra / 4 - yearOfEra / 100)
  let month := (5 * dayOfYear + 2) / 153
  let day := dayOfYear - (153 * month + 2) / 5 + 1
  let month := if month < 10 then month + 3 else month - 9
  let year := yearOfEra + 400 * (n / 146097)
  of? (if month ≤ 2 then year + 1 else year) month.toNat day.toNat

end Date

/-- A second of 60 is a leap second. -/
structure Timestamp where
  date : Date
  hour : Nat
  minute : Nat
  second : Nat
  nanos : Nat
  valid : hour < 24 ∧ minute < 60 ∧ second ≤ 60 ∧ nanos < 1000000000
deriving DecidableEq, Repr

namespace Timestamp

def of? (date : Date) (hour minute second nanos : Nat) : Option Timestamp :=
  if h : hour < 24 ∧ minute < 60 ∧ second ≤ 60 ∧ nanos < 1000000000 then
    some ⟨date, hour, minute, second, nanos, h⟩
  else none

def epoch : Timestamp := ⟨⟨1970, 1, 1, by decide⟩, 0, 0, 0, 0, by decide⟩

/-- The moment so many seconds and nanoseconds after the epoch. A second and more of nanoseconds runs
into the leap second at the end of a minute. -/
def ofEpoch? (secs : Int) (nanos : Nat) : Option Timestamp := do
  let date ← Date.ofDayNumber? (secs / 86400)
  let second := (secs % 86400).toNat
  if second % 60 = 59 ∧ 1000000000 ≤ nanos then
    of? date (second / 3600) (second / 60 % 60) 60 (nanos - 1000000000)
  else of? date (second / 3600) (second / 60 % 60) (second % 60) nanos

def secondOfDay (t : Timestamp) : Nat := t.hour * 3600 + t.minute * 60 + min t.second 59

def isLeapSecond (t : Timestamp) : Bool := t.second == 60

def subsecond (t : Timestamp) : Nat := t.nanos + if t.isLeapSecond then 1000000000 else 0

/-- Nanoseconds from `s` to `t`; a leap second at either end is counted, one in between is not. -/
def nanosSince (t s : Timestamp) : Int :=
  let leap : Int :=
    if s.secondOfDay < t.secondOfDay then if s.isLeapSecond then 1 else 0
    else if t.secondOfDay < s.secondOfDay then if t.isLeapSecond then -1 else 0
    else 0
  ((t.date.dayNumber - s.date.dayNumber) * 86400 + t.secondOfDay - s.secondOfDay + leap)
    * 1000000000 + t.subsecond - s.subsecond

/-- The span from `s` to `t`, if `t` is not the earlier. -/
def since? (t s : Timestamp) : Option Duration :=
  if 0 ≤ t.nanosSince s then some (.ofNanos (t.nanosSince s).toNat) else none

/-- The moment that a clock set ahead of UTC by so many minutes shows as `t`. -/
def aheadOfUtc? (t : Timestamp) (minutes : Int) : Option Timestamp :=
  if minutes = 0 then some t
  else do
    let total := t.date.dayNumber * 1440 + t.hour * 60 + t.minute - minutes
    let date ← Date.ofDayNumber? (total / 1440)
    let minute := (total % 1440).toNat
    of? date (minute / 60) (minute % 60) t.second t.nanos

end Timestamp
end Statechart
