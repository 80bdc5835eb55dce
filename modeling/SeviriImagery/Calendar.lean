/-!
# The Gregorian calendar

Days are counted from the first of January of the year 0 of the Gregorian calendar carried back
without end.  `Date.dayNumber` counts the days before a date, `Date.ofDay` walks the other way: it
takes whole years off a day count, then whole months.  Both rest on the same two tables,
`daysInYear` and `daysInMonth`.
-/

namespace SeviriImagery

/-- A year, a month and a day of the month, counted from one; not every such triple is a date. -/
structure Date where
  year : Nat
  month : Nat
  day : Nat
deriving DecidableEq, Repr

namespace Calendar

/-- Every fourth year is a leap year, but of the hundredths only every fourth. -/
def isLeap (year : Nat) : Bool :=
  year % 4 == 0 && (year % 100 != 0 || year % 400 == 0)

/-- The length of a year. -/
def daysInYear (year : Nat) : Nat := if isLeap year then 366 else 365

/-- The length of a month of a year; what is no month has no days. -/
def daysInMonth (year : Nat) : (month : Nat) → Nat
  | 1 | 3 | 5 | 7 | 8 | 10 | 12 => 31
  | 4 | 6 | 9 | 11 => 30
  | 2 => if isLeap year then 29 else 28
  | _ => 0

/-- The days before the first of January of a year: each year before it has 365, and each leap
year among them one more. -/
def daysBeforeYear (year : Nat) : Nat :=
  365 * year + (year + 3) / 4 - (year + 99) / 100 + (year + 399) / 400

/-- The days of a year before the first of a month. -/
def daysBeforeMonth (year : Nat) : (month : Nat) → Nat
  | 0 => 0
  | month + 1 => daysBeforeMonth year month + daysInMonth year month

/-- No year is without a day. -/
theorem daysInYear_pos (year : Nat) : 0 < daysInYear year := by
  unfold daysInYear; split <;> decide

/-- The year that holds the day `days` days after the first of January of `year`, and the days of
it before that day. -/
def yearOf (year days : Nat) : Nat × Nat :=
  if days < daysInYear year then (year, days)
  else yearOf (year + 1) (days - daysInYear year)
termination_by days
decreasing_by
  have hpos := daysInYear_pos year
  omega

/-- The month that holds the day `days` days after the first of `month`, and the day of that
month; `fuel` bounds the months still to come. -/
def monthOf (year : Nat) : (fuel month days : Nat) → Nat × Nat
  | 0, month, days => (month, days + 1)
  | fuel + 1, month, days =>
      if days < daysInMonth year month then (month, days + 1)
      else monthOf year fuel (month + 1) (days - daysInMonth year month)

end Calendar

open Calendar

/-- Whether the triple names a day. -/
def Date.isValid (d : Date) : Bool :=
  1 ≤ d.month && d.month ≤ 12 && 1 ≤ d.day && d.day ≤ daysInMonth d.year d.month

/-- The days before a date. -/
def Date.dayNumber (d : Date) : Nat :=
  daysBeforeYear d.year + daysBeforeMonth d.year d.month + (d.day - 1)

/-- The date `days` days after the first of January of `year`. -/
def Date.after (year days : Nat) : Date :=
  let (y, rest) := yearOf year days
  let (m, d) := monthOf y 11 1 rest
  ⟨y, m, d⟩

end SeviriImagery
