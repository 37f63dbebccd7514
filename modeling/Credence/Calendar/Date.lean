/-!
# Dates

A date is a day of the Gregorian calendar, carried backwards before its introduction, with a year 0
between 1 BC and 1 AD.  Years run from `minYear` to `maxYear`.  The type holds only days that exist;
`Date.of?` checks, and `Date.dayNumber` counts the days so that dates can be subtracted.
-/

namespace Credence

namespace Calendar

/-- The first year that a date may have. -/
def minYear : Int := -262143

/-- The last year that a date may have. -/
def maxYear : Int := 262142

def isLeap (year : Int) : Bool := year % 4 = 0 && (year % 100 ≠ 0 || year % 400 = 0)

/-- The number of days of a month, zero if there is no such month. -/
def daysInMonth (year : Int) (month : Nat) : Nat :=
  match month with
  | 1 | 3 | 5 | 7 | 8 | 10 | 12 => 31
  | 4 | 6 | 9 | 11 => 30
  | 2 => if isLeap year then 29 else 28
  | _ => 0

/-- Whether year, month and day name a day that exists and is in range. -/
def exists? (year : Int) (month day : Nat) : Bool :=
  minYear ≤ year && year ≤ maxYear && 1 ≤ day && day ≤ daysInMonth year month

end Calendar

open Calendar

structure Date where
  /-- The year; 0 is the year before 1. -/
  year : Int
  /-- The month, from 1. -/
  month : Nat
  /-- The day of the month, from 1. -/
  day : Nat
  valid : exists? year month day = true
deriving DecidableEq

namespace Date

/-- The date of a year, month and day, if that day exists. -/
def of? (year : Int) (month day : Nat) : Option Date :=
  if h : exists? year month day = true then some ⟨year, month, day, h⟩ else none

@[simp] theorem of?_self (d : Date) : of? d.year d.month d.day = some d := by
  simp [of?, d.valid]

/-- Dates compare by year, then month, then day. -/
def compare (a b : Date) : Ordering :=
  (Ord.compare a.year b.year).then ((Ord.compare a.month b.month).then (Ord.compare a.day b.day))

instance : Ord Date := ⟨compare⟩

/-- The days from the start of March to the start of a month, the year beginning in March. -/
def daysBeforeMonth (month : Nat) : Nat := (153 * ((month + 9) % 12) + 2) / 5

/-- The number of a day: consecutive days have consecutive numbers, and the first of March of the
year 0 has number 0. -/
def dayNumber (d : Date) : Int :=
  let y := if d.month ≤ 2 then d.year - 1 else d.year
  365 * y + y / 4 - y / 100 + y / 400 + daysBeforeMonth d.month + (d.day - 1 : Nat)

def daysUntil (a b : Date) : Int := b.dayNumber - a.dayNumber

/-- The day of the week, from Monday = 0; the first of March of the year 0 was a Wednesday. -/
def weekday (d : Date) : Nat := ((d.dayNumber + 2) % 7).toNat

end Date

end Credence
