import SeviriImagery.Calendar
import SeviriImagery.Text.Pad

/-!
# Times of acquisition

A time stamp of the format is a day segmented code: the days since the first of January 1958 and
the milliseconds of the day.  A `UtcTime` is the calendar reading of such a code, cut to whole
seconds.  `UtcTime.ofCode` reads a code and `UtcTime.toCode` finds the code of a calendar time, and
each may fail: a day has 86400000 milliseconds and no more, and a calendar time may be no time at
all or lie outside the days that 16 bits can count.

The days of a code are whole days of the difference to 1958, cut toward zero.  So the last day of
1957 has, but for its first moment, the day count 0.
-/

namespace SeviriImagery

/-- A date and a time of day, in whole seconds. -/
structure UtcTime where
  year : Nat
  month : Nat
  day : Nat
  hour : Nat
  minute : Nat
  second : Nat
deriving DecidableEq, Repr, Inhabited

/-- A day segmented time code. -/
structure DayCode where
  /-- Days since the first of January 1958. -/
  days : Nat
  /-- Milliseconds since midnight. -/
  millis : Nat
deriving DecidableEq, Repr

/-- Why a time cannot be converted. -/
inductive TimeError where
  | millisOfDay (millis : Nat)
  | noSuchTime (time : UtcTime)
  | outsideCode (time : UtcTime)
deriving DecidableEq, Repr

/-- The milliseconds of a day. -/
def millisPerDay : Nat := 86400000

/-- The seconds of a day. -/
def secondsPerDay : Nat := 86400

/-- The year whose first of January is day 0 of the codes. -/
def epochYear : Nat := 1958

/-- The greatest day count of a code. -/
def lastCodeDay : Nat := 65535

namespace UtcTime

/-- The time with every field zero, which no calendar has. -/
def zero : UtcTime := ⟨0, 0, 0, 0, 0, 0⟩

/-- The date of a time. -/
def date (t : UtcTime) : Date := ⟨t.year, t.month, t.day⟩

/-- The seconds since midnight. -/
def secondOfDay (t : UtcTime) : Nat := t.hour * 3600 + t.minute * 60 + t.second

/-- Whether the fields name a moment of the calendar. -/
def isValid (t : UtcTime) : Bool :=
  t.date.isValid && t.hour < 24 && t.minute < 60 && t.second < 60

/-- The calendar time of a code, without its milliseconds. -/
def ofCode (code : DayCode) : Except TimeError UtcTime :=
  if millisPerDay ≤ code.millis then .error (.millisOfDay code.millis)
  else
    let date := Date.after epochYear code.days
    let s := code.millis / 1000
    .ok ⟨date.year, date.month, date.day, s / 3600, s / 60 % 60, s % 60⟩

/-- The seconds from the beginning of 1958 to a time. -/
def secondsSinceEpoch (t : UtcTime) : Int :=
  ((t.date.dayNumber : Int) - Calendar.daysBeforeYear epochYear) * secondsPerDay + t.secondOfDay

/-- The code of a calendar time. -/
def toCode (t : UtcTime) : Except TimeError DayCode :=
  if !t.isValid then .error (.noSuchTime t)
  else
    let days := t.secondsSinceEpoch.tdiv secondsPerDay
    if 0 ≤ days ∧ days ≤ lastCodeDay then .ok ⟨days.toNat, t.secondOfDay * 1000⟩
    else .error (.outsideCode t)

/-- The fields of a time, without a time zone. -/
def fieldsText (t : UtcTime) : String :=
  Text.zeroPadded 4 t.year ++ "-" ++ Text.zeroPadded 2 t.month ++ "-" ++ Text.zeroPadded 2 t.day ++
    " " ++ Text.zeroPadded 2 t.hour ++ ":" ++ Text.zeroPadded 2 t.minute ++ ":" ++
    Text.zeroPadded 2 t.second

/-- A time as it is shown. -/
def text (t : UtcTime) : String := t.fieldsText ++ " UTC"

/-- A time as it stands in file names, to the minute. -/
def timing (t : UtcTime) : String :=
  Text.zeroPadded 4 t.year ++ Text.zeroPadded 2 t.month ++ Text.zeroPadded 2 t.day ++
    Text.zeroPadded 2 t.hour ++ Text.zeroPadded 2 t.minute

end UtcTime

/-- What a failed conversion says. -/
def TimeError.message : TimeError → String
  | .millisOfDay ms => "invalid CDS time of day: " ++ toString ms ++ " ms"
  | .noSuchTime t => "invalid date time: " ++ t.fieldsText
  | .outsideCode t => t.text ++ " cannot be coded as CDS"

end SeviriImagery
