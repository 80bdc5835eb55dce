import SeviriImagery.Proofs.Calendar

/-!
# Times that have a code

A code counts the whole days from the beginning of 1958 to a time, and whole days are cut toward
zero.  From 1958 on nothing but the time of day is cut off, so that the count is the day of the time
and the code is read as that time.  Before 1958 the count is one day too late, for every time but
midnight.  For almost all of these times that does not matter, as their count is negative with or
without the day.  The last day of 1957 is the exception: its times after midnight count as day 0,
so they have a code, which is read as the same time of the following day.

`UtcTime.toCode_eq` says which times have which code, and `UtcTime.codes_read_back` what becomes of
them.
-/

namespace SeviriImagery

open Calendar

namespace UtcTime

variable {t : UtcTime}

/-- The days from the first of January 1958 to the date of a time. -/
def daysSinceEpoch (t : UtcTime) : Int :=
  (t.date.dayNumber : Int) - daysBeforeYear epochYear

/-- The last day before the days of the codes. -/
def epochEve : Date := ⟨1957, 12, 31⟩

/-- A time of the last day of 1957 after its midnight. -/
def IsAfterMidnightOfEve (t : UtcTime) : Prop := t.date = epochEve ∧ 0 < t.secondOfDay

instance (t : UtcTime) : Decidable t.IsAfterMidnightOfEve :=
  inferInstanceAs (Decidable (_ ∧ _))

/-- The same time of the first day of 1958. -/
def onFirstDay (t : UtcTime) : UtcTime := { t with year := epochYear, month := 1, day := 1 }

/-- A time of day, cut off toward zero, moves a negative count of days by one. -/
theorem tdiv_of_days (days : Int) {second : Nat} (hsecond : second < secondsPerDay) :
    (days * secondsPerDay + second).tdiv secondsPerDay =
      if days < 0 ∧ 0 < second then days + 1 else days := by
  simp only [secondsPerDay, Nat.cast_ofNat] at hsecond ⊢
  by_cases hbefore : days < 0
  · have hnegative : days * 86400 + second = -(-(days * 86400) - second) := by omega
    rw [hnegative, Int.neg_tdiv, Int.tdiv_eq_ediv_of_nonneg (by omega)]
    split <;> omega
  · rw [if_neg (by omega), Int.tdiv_eq_ediv_of_nonneg (by omega)]
    omega

/-- The days of the codes begin with the year 1958. -/
theorem daysSinceEpoch_nonneg_iff (hvalid : t.isValid) :
    0 ≤ t.daysSinceEpoch ↔ epochYear ≤ t.year := by
  have hdate : daysBeforeYear t.year ≤ t.date.dayNumber :=
    isDayCount.daysBeforeYear_le (date_isValid hvalid)
  unfold daysSinceEpoch
  constructor
  · intro hdays
    by_contra hyear
    have hnext : t.date.dayNumber < daysBeforeYear (t.year + 1) :=
      isDayCount.lt_nextYear (date_isValid hvalid)
    have hmono := daysBeforeYear_mono (show t.year + 1 ≤ epochYear by omega)
    omega
  · intro hyear
    have hmono := daysBeforeYear_mono hyear
    omega

/-- The day before the days of the codes is the last one of 1957. -/
theorem daysSinceEpoch_eq_neg_one_iff (hvalid : t.isValid) :
    t.daysSinceEpoch = -1 ↔ t.date = epochEve := by
  have heve : (epochEve.dayNumber : Int) - daysBeforeYear epochYear = -1 := by decide
  unfold daysSinceEpoch
  constructor
  · intro hdays
    exact isDayCount.inj (date_isValid hvalid) (by decide) (by omega)
  · intro hdate
    rw [hdate, heve]

/-- **The code of a time.**  A time of the calendar has a code if its day is one of those that 16
bits count from 1958 on, and has then that day; or else if it is a time of the last day of 1957
after midnight, and has then day 0. -/
theorem toCode_eq (t : UtcTime) :
    t.toCode =
      if ¬t.isValid then .error (.noSuchTime t)
      else if 0 ≤ t.daysSinceEpoch ∧ t.daysSinceEpoch ≤ lastCodeDay then
        .ok ⟨t.daysSinceEpoch.toNat, t.secondOfDay * 1000⟩
      else if t.IsAfterMidnightOfEve then .ok ⟨0, t.secondOfDay * 1000⟩
      else .error (.outsideCode t) := by
  by_cases hvalid : t.isValid
  · have hcount : t.secondsSinceEpoch.tdiv secondsPerDay =
        if t.daysSinceEpoch < 0 ∧ 0 < t.secondOfDay then t.daysSinceEpoch + 1
        else t.daysSinceEpoch := tdiv_of_days t.daysSinceEpoch (secondOfDay_lt hvalid)
    have heve : t.IsAfterMidnightOfEve ↔ t.daysSinceEpoch = -1 ∧ 0 < t.secondOfDay := by
      rw [IsAfterMidnightOfEve, daysSinceEpoch_eq_neg_one_iff hvalid]
    rw [toCode, if_neg (by simpa using hvalid), if_neg (not_not.mpr hvalid)]
    simp only [hcount, heve]
    by_cases hcut : t.daysSinceEpoch < 0 ∧ 0 < t.secondOfDay
    · simp only [if_pos hcut]
      rw [if_neg (show ¬(0 ≤ t.daysSinceEpoch ∧ t.daysSinceEpoch ≤ lastCodeDay) by omega)]
      by_cases hlast : t.daysSinceEpoch = -1
      · rw [if_pos (show t.daysSinceEpoch = -1 ∧ 0 < t.secondOfDay from ⟨hlast, hcut.2⟩), hlast]
        rfl
      · rw [if_neg (by omega), if_neg (fun hgiven => hlast hgiven.1)]
    · simp only [if_neg hcut]
      rw [if_neg (show ¬(t.daysSinceEpoch = -1 ∧ 0 < t.secondOfDay) by omega)]
  · rw [toCode, if_pos (by simpa using hvalid), if_pos hvalid]

/-- The code of a time that is taken for one of the first day of 1958 is read as that. -/
theorem ofCode_first_day (hvalid : t.isValid) :
    ofCode ⟨0, t.secondOfDay * 1000⟩ = .ok t.onFirstDay := by
  have hfirst : t.onFirstDay.isValid := by
    simp only [isValid, Bool.and_eq_true, decide_eq_true_eq] at hvalid ⊢
    exact ⟨⟨⟨(by decide : (⟨epochYear, 1, 1⟩ : Date).isValid), hvalid.1.1.2⟩, hvalid.1.2⟩, hvalid.2⟩
  have hdays : t.onFirstDay.daysSinceEpoch = 0 := by
    show ((⟨epochYear, 1, 1⟩ : Date).dayNumber : Int) - daysBeforeYear epochYear = 0
    decide
  have hcode : t.onFirstDay.toCode = .ok ⟨0, t.secondOfDay * 1000⟩ := by
    rw [toCode_eq, if_neg (not_not.mpr hfirst), hdays]
    rfl
  exact ofCode_of_toCode (Nat.le_refl epochYear) hcode

/-- **Which times have a code, and what it is read as.**  No code is found for what is no time of
the calendar, and for a time whose day is not one of those that 16 bits count from 1958 on, but for
the times of the last day of 1957 after midnight.  These have the codes of the same times of the
following day, and are read as such; every other code is read as the time that it was made of. -/
theorem codes_read_back (t : UtcTime) :
    ((∃ e, t.toCode = .error e) ↔
      ¬t.isValid ∨ ¬(0 ≤ t.daysSinceEpoch ∧ t.daysSinceEpoch ≤ lastCodeDay) ∧
        ¬t.IsAfterMidnightOfEve) ∧
    ∀ code, t.toCode = .ok code →
      UtcTime.ofCode code = .ok (if t.IsAfterMidnightOfEve then t.onFirstDay else t) := by
  have htime := toCode_eq t
  refine ⟨?_, ?_⟩
  · rw [htime]
    by_cases hvalid : t.isValid <;>
      by_cases hdays : 0 ≤ t.daysSinceEpoch ∧ t.daysSinceEpoch ≤ lastCodeDay <;>
        by_cases heve : t.IsAfterMidnightOfEve <;>
          simp [hvalid, hdays, heve]
  · intro code hcode
    have hvalid := (of_toCode hcode).1
    rw [htime, if_neg (not_not.mpr hvalid)] at hcode
    by_cases hdays : 0 ≤ t.daysSinceEpoch ∧ t.daysSinceEpoch ≤ lastCodeDay
    · have hyear := (daysSinceEpoch_nonneg_iff hvalid).mp hdays.1
      have heve : ¬t.IsAfterMidnightOfEve := by
        intro hgiven
        have hbefore := (daysSinceEpoch_eq_neg_one_iff hvalid).mpr hgiven.1
        omega
      rw [if_neg heve]
      refine ofCode_of_toCode hyear ?_
      rw [htime, if_neg (not_not.mpr hvalid), hcode]
    · rw [if_neg hdays] at hcode
      by_cases heve : t.IsAfterMidnightOfEve
      · rw [if_pos heve] at hcode ⊢
        cases hcode
        exact ofCode_first_day hvalid
      · rw [if_neg heve] at hcode
        cases hcode

/-- Noon of the last day of 1957 has a code, which is read as noon of the following day. -/
theorem noon_of_eve :
    (⟨1957, 12, 31, 12, 0, 0⟩ : UtcTime).toCode = .ok ⟨0, 43200000⟩ ∧
      ofCode ⟨0, 43200000⟩ = .ok ⟨1958, 1, 1, 12, 0, 0⟩ := by
  have hcode : (⟨1957, 12, 31, 12, 0, 0⟩ : UtcTime).toCode = .ok ⟨0, 43200000⟩ := by
    rw [toCode_eq, if_neg (by decide), if_neg (by decide), if_pos (by decide)]
    rfl
  refine ⟨hcode, ?_⟩
  rw [(codes_read_back _).2 _ hcode, if_pos (by decide)]
  rfl

end UtcTime

end SeviriImagery
