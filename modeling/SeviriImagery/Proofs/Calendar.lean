import Mathlib
import SeviriImagery.Time

/-!
# Days of the calendar

Times rely on little in a calendar, and `Calendar.IsDayCount` says what it is: a day has a date, a date
has the number of its day, and a later date has a greater one.  All that is used of dates follows from
that, as that two dates of one day are one date (`Calendar.IsDayCount.inj`).

The calendar here counts days in this way (`Calendar.isDayCount`).  It counts the days before a date by
a formula and finds the date of a day by walking over years and months.  The formula grows from year
to year by the length of the year (`Calendar.daysBeforeYear_succ`), which is what the walk takes off at
each of its steps, so that no day is lost on the way (`Calendar.yearOf_spec`, `Calendar.monthOf_spec`).

A time of day is counted in seconds and taken apart again, so that a calendar time from the
beginning of 1958 on is the reading of its own code (`UtcTime.ofCode_of_toCode`).
-/

namespace SeviriImagery

namespace Calendar

/-- Counting up to the next number, a quotient rounded up grows just where its divisor divides. -/
theorem div_up_succ {n m : Nat} (hm : 0 < m) :
    (n + 1 + (m - 1)) / m = (n + (m - 1)) / m + if n % m = 0 then 1 else 0 := by
  obtain ⟨k, rfl⟩ : ∃ k, m = k + 1 := ⟨m - 1, by omega⟩
  rw [Nat.add_sub_cancel, Nat.add_right_comm, Nat.succ_div]
  by_cases hdvd : n % (k + 1) = 0
  · rw [if_pos hdvd, if_pos]
    exact (Nat.dvd_add_left (Nat.dvd_refl _)).mpr (Nat.dvd_of_mod_eq_zero hdvd)
  · rw [if_neg hdvd, if_neg]
    intro h
    exact hdvd (Nat.mod_eq_zero_of_dvd ((Nat.dvd_add_left (Nat.dvd_refl _)).mp h))

/-- The days before a year are those before the last one and the days of that. -/
theorem daysBeforeYear_succ (year : Nat) :
    daysBeforeYear (year + 1) = daysBeforeYear year + daysInYear year := by
  have h4 := div_up_succ (n := year) (m := 4) (by decide)
  have h100 := div_up_succ (n := year) (m := 100) (by decide)
  have h400 := div_up_succ (n := year) (m := 400) (by decide)
  have hless : (year + 99) / 100 ≤ (year + 3) / 4 := by omega
  have hfour : year % 100 = 0 → year % 4 = 0 := by omega
  have hhundred : year % 400 = 0 → year % 100 = 0 := by omega
  simp only [Nat.reduceSub] at h4 h100 h400
  simp only [daysBeforeYear, daysInYear, isLeap, h4, h100, h400]
  by_cases hleap : year % 400 = 0
  · simp only [hleap, hhundred hleap, hfour (hhundred hleap), if_true]
    simp
    omega
  · by_cases hcentury : year % 100 = 0
    · simp only [hleap, hcentury, hfour hcentury, if_true, if_false]
      simp [hleap]
      omega
    · by_cases hfourth : year % 4 = 0
      · simp only [hleap, hcentury, hfourth, if_true, if_false]
        simp [hcentury]
        omega
      · simp only [hleap, hcentury, hfourth, if_false]
        simp [hfourth]
        omega

/-- Before a later year there are no fewer days. -/
theorem daysBeforeYear_mono {a b : Nat} (hle : a ≤ b) : daysBeforeYear a ≤ daysBeforeYear b := by
  induction hle with
  | refl => exact Nat.le_refl _
  | step _ ih =>
      rw [Nat.succ_eq_add_one, daysBeforeYear_succ]
      exact Nat.le_trans ih (Nat.le_add_right _ _)

/-- Nor are there before a later month. -/
theorem daysBeforeMonth_mono {year a b : Nat} (hle : a ≤ b) :
    daysBeforeMonth year a ≤ daysBeforeMonth year b := by
  induction hle with
  | refl => exact Nat.le_refl _
  | step _ ih => exact Nat.le_trans ih (Nat.le_add_right _ _)

/-- All the months make up the year. -/
theorem daysBeforeMonth_thirteen (year : Nat) : daysBeforeMonth year 13 = daysInYear year := by
  simp only [daysBeforeMonth, daysInMonth, daysInYear]
  split <;> rfl

/-- A month ends within its year. -/
theorem daysBeforeMonth_add_le (year : Nat) {month : Nat} (hlast : month ≤ 12) :
    daysBeforeMonth year month + daysInMonth year month ≤ daysInYear year := by
  rw [← daysBeforeMonth_thirteen]
  exact daysBeforeMonth_mono (show month + 1 ≤ 13 by omega)

/-- The walk over the years stops in a year that has the days left over, and loses none of them. -/
theorem yearOf_spec (start days : Nat) :
    start ≤ (yearOf start days).1 ∧
      (yearOf start days).2 < daysInYear (yearOf start days).1 ∧
      daysBeforeYear (yearOf start days).1 + (yearOf start days).2 =
        daysBeforeYear start + days := by
  fun_induction yearOf start days with
  | case1 start days hlast => exact ⟨Nat.le_refl _, hlast, rfl⟩
  | case2 start days hlast ih =>
      obtain ⟨hle, hrest, hdays⟩ := ih
      have hnext := daysBeforeYear_succ start
      exact ⟨by omega, hrest, by omega⟩

/-- The walk over the months stops in a month that has the day, and loses none on its way. -/
theorem monthOf_spec {year fuel month days : Nat} (hmonths : month + fuel = 12)
    (hdays : daysBeforeMonth year month + days < daysInYear year) :
    month ≤ (monthOf year fuel month days).1 ∧ (monthOf year fuel month days).1 ≤ 12 ∧
      1 ≤ (monthOf year fuel month days).2 ∧
      (monthOf year fuel month days).2 ≤ daysInMonth year (monthOf year fuel month days).1 ∧
      daysBeforeMonth year (monthOf year fuel month days).1 +
          ((monthOf year fuel month days).2 - 1) = daysBeforeMonth year month + days := by
  induction fuel generalizing month days with
  | zero =>
      obtain rfl : month = 12 := hmonths
      rw [← daysBeforeMonth_thirteen] at hdays
      have hdecember : days < daysInMonth year 12 := Nat.lt_of_add_lt_add_left hdays
      simp only [monthOf]
      omega
  | succ fuel ih =>
      have hnext : daysBeforeMonth year (month + 1) =
          daysBeforeMonth year month + daysInMonth year month := rfl
      unfold monthOf
      split
      · simp only
        omega
      · obtain ⟨hle, hrest⟩ := @ih (month + 1) (days - daysInMonth year month)
          (by omega) (by omega)
        exact ⟨by omega, by omega⟩

/-- No month is longer than this. -/
theorem daysInMonth_le (year month : Nat) : daysInMonth year month ≤ 31 := by
  unfold daysInMonth
  split <;> first | decide | (split <;> decide)

end Calendar

open Calendar

/-- One date comes before another, by the first of year, month and day in which they differ. -/
def Date.Precedes (d e : Date) : Prop :=
  d.year < e.year ∨ d.year = e.year ∧
    (d.month < e.month ∨ d.month = e.month ∧ d.day < e.day)

/-- Of two dates one comes before the other, unless they are the same. -/
theorem Date.precedes_trichotomy (d e : Date) : d.Precedes e ∨ d = e ∨ e.Precedes d := by
  obtain ⟨dy, dm, dd⟩ := d
  obtain ⟨ey, em, ed⟩ := e
  simp only [Date.Precedes, Date.mk.injEq]
  omega

/-- What times rely on in a calendar, which says what is a date, how many days there are before a date,
and which date comes some days after the beginning of a year. -/
structure Calendar.IsDayCount (isDate : Date → Bool) (number : Date → Nat)
    (after : Nat → Nat → Date) : Prop where
  /-- A day has a date, and the date has the number of the day. -/
  after : ∀ start days, isDate (after start days) ∧
    number (after start days) = daysBeforeYear start + days
  /-- A year begins with its first of January. -/
  newYear : ∀ year, isDate ⟨year, 1, 1⟩ ∧ number ⟨year, 1, 1⟩ = daysBeforeYear year
  /-- A later date has more days before it. -/
  increasing : ∀ {d e : Date}, isDate d → isDate e → d.Precedes e → number d < number e
  /-- Months and days are counted from one, and no month is longer than January. -/
  fields : ∀ {d : Date}, isDate d → 1 ≤ d.month ∧ d.month ≤ 12 ∧ 1 ≤ d.day ∧ d.day ≤ 31

namespace Calendar.IsDayCount

variable {isDate : Date → Bool} {number : Date → Nat} {after : Nat → Nat → Date} {d e : Date}

/-- Two dates of one day are one date. -/
theorem inj (hcount : IsDayCount isDate number after) (hd : isDate d) (he : isDate e)
    (hsame : number d = number e) : d = e := by
  rcases Date.precedes_trichotomy d e with hbefore | heq | hbehind
  · exact absurd hsame (Nat.ne_of_lt (hcount.increasing hd he hbefore))
  · exact heq
  · exact absurd hsame (Nat.ne_of_gt (hcount.increasing he hd hbehind))

/-- The days before a date begin with those before its year. -/
theorem daysBeforeYear_le (hcount : IsDayCount isDate number after) (hd : isDate d) :
    daysBeforeYear d.year ≤ number d := by
  obtain ⟨hfirst, hnumber⟩ := hcount.newYear d.year
  rw [← hnumber]
  rcases Date.precedes_trichotomy ⟨d.year, 1, 1⟩ d with hbefore | heq | hbehind
  · exact Nat.le_of_lt (hcount.increasing hfirst hd hbefore)
  · exact Nat.le_of_eq (congrArg number heq)
  · have hfields := hcount.fields hd
    simp only [Date.Precedes] at hbehind
    omega

/-- The day of a date comes before the next year. -/
theorem lt_nextYear (hcount : IsDayCount isDate number after) (hd : isDate d) :
    number d < daysBeforeYear (d.year + 1) := by
  obtain ⟨hfirst, hnumber⟩ := hcount.newYear (d.year + 1)
  rw [← hnumber]
  exact hcount.increasing hd hfirst (.inl (Nat.lt_succ_self d.year))

/-- The date of a day that was counted is the date that it was counted for. -/
theorem after_number (hcount : IsDayCount isDate number after) (hd : isDate d) {start : Nat}
    (hstart : start ≤ d.year) : after start (number d - daysBeforeYear start) = d := by
  obtain ⟨hdate, hnumber⟩ := hcount.after start (number d - daysBeforeYear start)
  have hbefore := Nat.le_trans (daysBeforeYear_mono hstart) (hcount.daysBeforeYear_le hd)
  exact hcount.inj hdate hd (by omega)

end Calendar.IsDayCount

/-- The date some days after the beginning of a year is a date, with as many days before it. -/
theorem Date.after_spec (start days : Nat) :
    (Date.after start days).isValid ∧
      (Date.after start days).dayNumber = daysBeforeYear start + days := by
  obtain ⟨-, hrest, hyear⟩ := yearOf_spec start days
  have hbefore : daysBeforeMonth (yearOf start days).1 1 = 0 := rfl
  obtain ⟨hjanuary, hdecember, hfirst, hlast, hmonth⟩ :=
    @monthOf_spec (yearOf start days).1 11 1 (yearOf start days).2 rfl (by omega)
  have hdate : Date.after start days = ⟨(yearOf start days).1,
      (monthOf (yearOf start days).1 11 1 (yearOf start days).2).1,
      (monthOf (yearOf start days).1 11 1 (yearOf start days).2).2⟩ := rfl
  rw [hdate]
  constructor
  · simp only [Date.isValid, Bool.and_eq_true, decide_eq_true_eq]
    exact ⟨⟨⟨hjanuary, hdecember⟩, hfirst⟩, hlast⟩
  · simp only [Date.dayNumber]
    omega

/-- The day of a date comes before the next year. -/
theorem Date.dayNumber_lt {d : Date} (hvalid : d.isValid) : d.dayNumber < daysBeforeYear (d.year + 1) := by
  simp only [Date.isValid, Bool.and_eq_true, decide_eq_true_eq] at hvalid
  obtain ⟨⟨⟨-, hdecember⟩, hfirst⟩, hlast⟩ := hvalid
  have hyear := daysBeforeMonth_add_le d.year hdecember
  rw [Date.dayNumber, daysBeforeYear_succ]
  omega

/-- **A later date has more days before it.** -/
theorem Date.dayNumber_lt_of_precedes {d e : Date} (hd : d.isValid) (he : e.isValid)
    (hprecedes : d.Precedes e) : d.dayNumber < e.dayNumber := by
  have hyear := Date.dayNumber_lt hd
  obtain ⟨dy, dm, dd⟩ := d
  obtain ⟨ey, em, ed⟩ := e
  simp only [Date.isValid, Bool.and_eq_true, decide_eq_true_eq] at hd he
  simp only [Date.Precedes, Date.dayNumber] at hprecedes hyear ⊢
  rcases hprecedes with hyears | ⟨rfl, hmonths | ⟨rfl, hdays⟩⟩
  · have hmono := daysBeforeYear_mono (show dy + 1 ≤ ey from hyears)
    omega
  · have hmono : daysBeforeMonth dy (dm + 1) ≤ daysBeforeMonth dy em := daysBeforeMonth_mono hmonths
    have hmonth : daysBeforeMonth dy (dm + 1) =
        daysBeforeMonth dy dm + daysInMonth dy dm := rfl
    omega
  · omega

/-- **The calendar counts days.** -/
theorem Calendar.isDayCount : IsDayCount Date.isValid Date.dayNumber Date.after where
  after := Date.after_spec
  newYear := fun _ => ⟨rfl, rfl⟩
  increasing := Date.dayNumber_lt_of_precedes
  fields := by
    intro d hvalid
    simp only [Date.isValid, Bool.and_eq_true, decide_eq_true_eq] at hvalid
    have hmonth := daysInMonth_le d.year d.month
    omega

namespace UtcTime

/-- A valid time is on a valid date. -/
theorem date_isValid {t : UtcTime} (hvalid : t.isValid) : t.date.isValid := by
  simp only [isValid, Bool.and_eq_true] at hvalid
  exact hvalid.1.1.1

/-- A valid time is before the end of its day. -/
theorem secondOfDay_lt {t : UtcTime} (hvalid : t.isValid) : t.secondOfDay < secondsPerDay := by
  simp only [isValid, Bool.and_eq_true, decide_eq_true_eq] at hvalid
  unfold secondOfDay secondsPerDay
  omega

/-- What a code is made of: a day that 16 bits can count, and the seconds of a day. -/
theorem of_toCode {t : UtcTime} {code : DayCode} (hcode : t.toCode = .ok code) :
    t.isValid ∧ (code.days : Int) = t.secondsSinceEpoch.tdiv secondsPerDay ∧
      code.days ≤ lastCodeDay ∧ code.millis = t.secondOfDay * 1000 := by
  unfold toCode at hcode
  split at hcode
  · cases hcode
  · rename_i hvalid
    simp only at hcode
    split at hcode
    · rename_i hdays
      cases hcode
      refine ⟨by simpa using hvalid, Int.toNat_of_nonneg hdays.1, ?_, rfl⟩
      have := Int.toNat_of_nonneg hdays.1
      simp only
      omega
    · cases hcode

/-- A code that was made of a time fits its words and is read. -/
theorem exists_ofCode_of_toCode {t : UtcTime} {code : DayCode} (hcode : t.toCode = .ok code) :
    code.days < 256 ^ 2 ∧ code.millis < 256 ^ 4 ∧ ∃ read, UtcTime.ofCode code = .ok read := by
  obtain ⟨hvalid, -, hlast, hmillis⟩ := of_toCode hcode
  have hday := secondOfDay_lt hvalid
  simp only [secondsPerDay, lastCodeDay] at hday hlast
  refine ⟨by omega, by omega, ?_⟩
  rw [UtcTime.ofCode, if_neg (by unfold millisPerDay; omega)]
  exact ⟨_, rfl⟩

/-- **A code is read as the time that it was made of**, from the beginning of 1958 on. -/
theorem ofCode_of_toCode {t : UtcTime} {code : DayCode} (hyear : epochYear ≤ t.year)
    (hcode : t.toCode = .ok code) : UtcTime.ofCode code = .ok t := by
  obtain ⟨hvalid, hdays, -, hmillis⟩ := of_toCode hcode
  have hday := secondOfDay_lt hvalid
  have hepoch : daysBeforeYear epochYear ≤ t.date.dayNumber :=
    Nat.le_trans (daysBeforeYear_mono hyear) (isDayCount.daysBeforeYear_le (date_isValid hvalid))
  have hcount : code.days = t.date.dayNumber - daysBeforeYear epochYear := by
    have hseconds : t.secondsSinceEpoch =
        (((t.date.dayNumber - daysBeforeYear epochYear) * secondsPerDay + t.secondOfDay : Nat) :
          Int) := by
      unfold secondsSinceEpoch
      push_cast [hepoch]
      rfl
    rw [hseconds, ← Int.ofNat_tdiv] at hdays
    have hquotient : ((t.date.dayNumber - daysBeforeYear epochYear) * secondsPerDay +
        t.secondOfDay) / secondsPerDay = t.date.dayNumber - daysBeforeYear epochYear := by
      rw [Nat.mul_comm, Nat.mul_add_div (by decide), Nat.div_eq_of_lt hday, Nat.add_zero]
    rw [hquotient] at hdays
    exact_mod_cast hdays
  simp only [isValid, Bool.and_eq_true, decide_eq_true_eq] at hvalid
  obtain ⟨⟨⟨hdate, hhour⟩, hminute⟩, hsecond⟩ := hvalid
  have hafter : Date.after epochYear code.days = t.date := by
    rw [hcount]
    exact isDayCount.after_number hdate hyear
  have hshort : ¬millisPerDay ≤ code.millis := by
    rw [hmillis]
    simp only [secondsPerDay, millisPerDay] at hday ⊢
    omega
  have hclock : code.millis / 1000 = t.secondOfDay := by rw [hmillis, Nat.mul_div_cancel _ (by decide)]
  have hhours : t.secondOfDay / 3600 = t.hour := by unfold secondOfDay; omega
  have hminutes : t.secondOfDay / 60 % 60 = t.minute := by unfold secondOfDay; omega
  have hseconds : t.secondOfDay % 60 = t.second := by unfold secondOfDay; omega
  rw [UtcTime.ofCode, if_neg hshort]
  simp only [hafter, hclock, hhours, hminutes, hseconds, UtcTime.date]

end UtcTime

end SeviriImagery
