import SeviriImagery.Header.Record
import SeviriImagery.Proofs.Calendar.TimeCode

/-!
# Codes in the order of their times

A code that 16 and 32 bits can hold is the code of a time if its milliseconds are those of a day.
The date of a day has the number of the day again, and the time has its code again, but for the
milliseconds of its last second.

Times are compared field by field, the longest unit first.  A later date has more days before it, so
that this order is the one of the seconds that have passed (`UtcTime.lt_iff`), and with it the order of
the codes (`TimeStamp.times_of_codes`).
-/

namespace SeviriImagery

open Calendar

namespace UtcTime

/-- The fields of a time, the longest unit first. -/
def fields (t : UtcTime) : List Nat := [t.year, t.month, t.day, t.hour, t.minute, t.second]

/-- Times are compared field by field. -/
instance : LT UtcTime := ⟨fun t t' => t.fields < t'.fields⟩

theorem lt_def (t t' : UtcTime) : t < t' ↔ t.fields < t'.fields := Iff.rfl

theorem fields_inj {t t' : UtcTime} (hsame : t.fields = t'.fields) : t = t' := by
  cases t
  cases t'
  simp only [fields, List.cons.injEq] at hsame
  simp only [UtcTime.mk.injEq]
  tauto

/-- A time is before another if its date is, or if it is earlier on the same date. -/
theorem lt_iff_date (t t' : UtcTime) :
    t < t' ↔ t.date.Precedes t'.date ∨ t.date = t'.date ∧
      [t.hour, t.minute, t.second] < [t'.hour, t'.minute, t'.second] := by
  simp only [lt_def, fields, date, Date.Precedes, Date.mk.injEq, List.cons_lt_cons_iff]
  tauto

/-- **A later time has more seconds before it.** -/
theorem secondsSinceEpoch_lt_of_lt {t t' : UtcTime} (ht : t.isValid) (ht' : t'.isValid)
    (hlt : t < t') : t.secondsSinceEpoch < t'.secondsSinceEpoch := by
  have hday := secondOfDay_lt ht
  rcases (lt_iff_date t t').mp hlt with hdate | ⟨hdate, hclock⟩
  · have hdays := isDayCount.increasing (date_isValid ht) (date_isValid ht') hdate
    unfold secondsSinceEpoch
    simp only [secondsPerDay] at hday ⊢
    omega
  · have hseconds : t.secondOfDay < t'.secondOfDay := by
      simp only [isValid, Bool.and_eq_true, decide_eq_true_eq] at ht ht'
      simp only [List.cons_lt_cons_iff, lt_irrefl, and_false, or_false] at hclock
      unfold secondOfDay
      omega
    unfold secondsSinceEpoch
    rw [hdate]
    omega

/-- The order of the fields is the order of the seconds that have passed. -/
theorem lt_iff {t t' : UtcTime} (ht : t.isValid) (ht' : t'.isValid) :
    t < t' ↔ t.secondsSinceEpoch < t'.secondsSinceEpoch := by
  refine ⟨secondsSinceEpoch_lt_of_lt ht ht', fun hseconds => ?_⟩
  rcases lt_trichotomy t.fields t'.fields with hlt | hsame | hgt
  · exact hlt
  · rw [fields_inj hsame] at hseconds
    exact absurd hseconds (lt_irrefl _)
  · exact absurd (secondsSinceEpoch_lt_of_lt ht' ht hgt) (not_lt_of_gt hseconds)

/-- A code is read as a time if its milliseconds are those of a day, and as no time otherwise. -/
theorem ofCode_eq (code : DayCode) :
    (code.millis < millisPerDay → ∃ t, ofCode code = .ok t ∧ t.isValid ∧
      t.daysSinceEpoch = code.days ∧ t.secondOfDay = code.millis / 1000) ∧
    (millisPerDay ≤ code.millis → ofCode code = .error (.millisOfDay code.millis)) := by
  constructor
  · intro hmillis
    obtain ⟨hdate, hdays⟩ := isDayCount.after epochYear code.days
    rw [ofCode, if_neg (Nat.not_le_of_lt hmillis)]
    unfold millisPerDay at hmillis
    refine ⟨_, rfl, ?_, ?_, ?_⟩
    · simp only [isValid, Bool.and_eq_true, decide_eq_true_eq]
      exact ⟨⟨⟨hdate, by omega⟩, by omega⟩, by omega⟩
    · have hsame : ((Date.after epochYear code.days).dayNumber : Int) -
          daysBeforeYear epochYear = code.days := by omega
      exact hsame
    · simp only [secondOfDay]
      omega
  · intro hmillis
    rw [ofCode, if_pos hmillis]

end UtcTime

/-- The year of the greatest day count of a code. -/
def lastCodeYear : Nat := 2137

namespace TimeStamp

variable {s later : TimeStamp} {t t' : UtcTime}

/-- What a stamp is read as: a time on its day, with the seconds of its milliseconds. -/
theorem of_time (htime : s.time = .ok t) :
    s.millis.toNat < millisPerDay ∧ t.isValid ∧ t.daysSinceEpoch = s.days.toNat ∧
      t.secondOfDay = s.millis.toNat / 1000 := by
  obtain ⟨hread, hrefused⟩ := UtcTime.ofCode_eq ⟨s.days.toNat, s.millis.toNat⟩
  unfold time at htime
  rcases Nat.lt_or_ge s.millis.toNat millisPerDay with hmillis | hmillis
  · obtain ⟨read, hok, hvalid, hdays, hseconds⟩ := hread hmillis
    rw [hok] at htime
    cases htime
    exact ⟨hmillis, hvalid, hdays, hseconds⟩
  · rw [hrefused hmillis] at htime
    cases htime

theorem exists_error_iff : (∃ e, s.time = .error e) ↔ millisPerDay ≤ s.millis.toNat := by
  obtain ⟨hread, hrefused⟩ := UtcTime.ofCode_eq ⟨s.days.toNat, s.millis.toNat⟩
  constructor
  · intro hfails
    obtain ⟨e, he⟩ := hfails
    by_contra hmillis
    obtain ⟨read, hok, -⟩ := hread (Nat.lt_of_not_le hmillis)
    rw [time, hok] at he
    cases he
  · intro hmillis
    exact ⟨_, hrefused hmillis⟩

/-- A stamp counts the seconds that have passed up to its time. -/
theorem secondsSinceEpoch_of_time (htime : s.time = .ok t) :
    t.secondsSinceEpoch =
      ((s.days.toNat * secondsPerDay + s.millis.toNat / 1000 : Nat) : Int) := by
  obtain ⟨-, -, hdays, hseconds⟩ := of_time htime
  have hcount : t.secondsSinceEpoch = t.daysSinceEpoch * secondsPerDay + t.secondOfDay := rfl
  rw [hcount, hdays, hseconds]
  push_cast
  rfl

/-- A time that was read has its stamp for code again, but for the milliseconds of its second. -/
theorem toCode_of_time (htime : s.time = .ok t) :
    t.toCode = .ok ⟨s.days.toNat, s.millis.toNat - s.millis.toNat % 1000⟩ := by
  obtain ⟨-, hvalid, hdays, hseconds⟩ := of_time htime
  have hword := s.days.toNat_lt
  have hcut : s.millis.toNat / 1000 * 1000 = s.millis.toNat - s.millis.toNat % 1000 := by omega
  rw [UtcTime.toCode_eq, if_neg (not_not.mpr hvalid), hdays, if_pos, hseconds, hcut]
  · rfl
  · unfold lastCodeDay
    omega

/-- The years of the times that are read. -/
theorem year_of_time (htime : s.time = .ok t) : epochYear ≤ t.year ∧ t.year ≤ lastCodeYear := by
  obtain ⟨-, hvalid, hdays, -⟩ := of_time htime
  have hword := s.days.toNat_lt
  refine ⟨(UtcTime.daysSinceEpoch_nonneg_iff hvalid).mp (by omega), ?_⟩
  by_contra hyear
  -- the days of the codes end before the year that follows
  have hmono := daysBeforeYear_mono (show lastCodeYear + 1 ≤ t.year by omega)
  have hend : daysBeforeYear epochYear + 65536 ≤ daysBeforeYear (lastCodeYear + 1) := by decide
  have hdate : daysBeforeYear t.year ≤ t.date.dayNumber :=
    isDayCount.daysBeforeYear_le (UtcTime.date_isValid hvalid)
  unfold UtcTime.daysSinceEpoch at hdays
  omega

/-- The fields of a time but for its year are small. -/
theorem field_lt_of_isValid (hvalid : t.isValid) {n : Nat} (hn : n ∈ t.fields.tail) :
    n < 2 ^ 8 := by
  obtain ⟨-, hmonth, -, hday⟩ := isDayCount.fields (UtcTime.date_isValid hvalid)
  simp only [UtcTime.date] at hmonth hday
  simp only [UtcTime.isValid, Bool.and_eq_true, decide_eq_true_eq] at hvalid
  simp only [UtcTime.fields, List.tail_cons, List.mem_cons, List.not_mem_nil, or_false] at hn
  rcases hn with rfl | rfl | rfl | rfl | rfl <;> omega

/-- The order of two stamps is the order of the seconds that they count. -/
theorem lt_iff_seconds (htime : s.time = .ok t) (hlater : later.time = .ok t') :
    toLex (s.days.toNat, s.millis.toNat / 1000) <
        toLex (later.days.toNat, later.millis.toNat / 1000) ↔
      t.secondsSinceEpoch < t'.secondsSinceEpoch := by
  have hmillis := (of_time htime).1
  have hmillis' := (of_time hlater).1
  rw [secondsSinceEpoch_of_time htime, secondsSinceEpoch_of_time hlater, Prod.Lex.toLex_lt_toLex]
  simp only [millisPerDay, secondsPerDay] at hmillis hmillis' ⊢
  omega

/-- **Stamps and their times.**  A stamp is refused if its milliseconds are more than a day has, and
only then.  Otherwise it is read as a time of the calendar, between the first year of the codes and
the last, whose other fields are small enough for a byte each; and that time has the stamp for code
again, cut to whole seconds.  Of two stamps the one with the earlier second is read as the earlier
time, where times are compared field by field. -/
theorem times_of_codes (s : TimeStamp) :
    ((∃ e, s.time = .error e) ↔ millisPerDay ≤ s.millis.toNat) ∧
    (∀ t, s.time = .ok t →
      t.isValid ∧ (epochYear ≤ t.year ∧ t.year ≤ lastCodeYear) ∧ (∀ n ∈ t.fields.tail, n < 2 ^ 8) ∧
        t.toCode = .ok ⟨s.days.toNat, s.millis.toNat - s.millis.toNat % 1000⟩) ∧
    ∀ (later : TimeStamp) t t', s.time = .ok t → later.time = .ok t' →
      (toLex (s.days.toNat, s.millis.toNat / 1000) <
        toLex (later.days.toNat, later.millis.toNat / 1000) ↔ t < t') := by
  refine ⟨exists_error_iff, ?_, ?_⟩
  · intro t htime
    have hvalid := (of_time htime).2.1
    exact ⟨hvalid, year_of_time htime, fun n hn => field_lt_of_isValid hvalid hn,
      toCode_of_time htime⟩
  · intro later t t' htime hlater
    rw [lt_iff_seconds htime hlater, UtcTime.lt_iff (of_time htime).2.1 (of_time hlater).2.1]

/-- The year 2100 is no leap year: the last second of its 28th of February comes right before the
first of March. -/
theorem times_at_end_of_february :
    (⟨51923, 86399999⟩ : TimeStamp).time = .ok ⟨2100, 2, 28, 23, 59, 59⟩ ∧
      (⟨51924, 0⟩ : TimeStamp).time = .ok ⟨2100, 3, 1, 0, 0, 0⟩ ∧
      (⟨2100, 2, 28, 23, 59, 59⟩ : UtcTime).toCode = .ok ⟨51923, 86399000⟩ ∧
      (⟨2100, 2, 28, 23, 59, 59⟩ : UtcTime) < ⟨2100, 3, 1, 0, 0, 0⟩ := by
  have hbefore : (⟨51923, 86399999⟩ : TimeStamp).time = .ok ⟨2100, 2, 28, 23, 59, 59⟩ := by cbv
  have hafter : (⟨51924, 0⟩ : TimeStamp).time = .ok ⟨2100, 3, 1, 0, 0, 0⟩ := by cbv
  obtain ⟨-, hback, horder⟩ := times_of_codes ⟨51923, 86399999⟩
  exact ⟨hbefore, hafter, (hback _ hbefore).2.2.2,
    (horder ⟨51924, 0⟩ _ _ hbefore hafter).mp (by decide)⟩

end TimeStamp

end SeviriImagery
