import TelnetServ.Time.Zone
/-!
# UTC

`toUtcTime` shows a time as a date and a time of the day, also one before
1970, and `fromUtcTime` finds the time behind what is shown. So each undoes
the other (`utc_roundTrip`).
-/

namespace TelnetServ

open Gregorian

/-- **What a broken-down time shows.** -/
structure Shows (tm : StructTm) (t : ℤ) (d : Civil) : Prop where
  year : tm.year = d.year - 1900
  mon : tm.mon = d.month - 1
  mday : tm.mday = d.day
  hour : 0 ≤ tm.hour ∧ tm.hour < 24
  min : 0 ≤ tm.min ∧ tm.min < 60
  sec : 0 ≤ tm.sec ∧ tm.sec < 60
  time : t = (julianOf d - kJulianDayOf1970) * 86400 + (tm.hour * 3600 + tm.min * 60 + tm.sec)

/-- The day of a time has a number that is valid, and not too large. -/
def InDates (t : ℤ) : Prop :=
  1 ≤ t / 86400 + kJulianDayOf1970 ∧ t / 86400 + kJulianDayOf1970 ≤ lastJulian

instance (t : ℤ) : Decidable (InDates t) := by unfold InDates; infer_instance

variable {t t' : ℤ} {tm tm' : StructTm} {d d' : Civil}

/-- The day a time is shown on. -/
theorem Shows.julianOf_eq (h : Shows tm t d) : julianOf d = t / 86400 + kJulianDayOf1970 := by
  have hhour := h.hour
  have hmin := h.min
  have hsec := h.sec
  have htime := h.time
  omega

/-- **A time is shown in one way.** -/
theorem Shows.unique (h : Shows tm t d) (h' : Shows tm' t d') :
    tm.year = tm'.year ∧ tm.mon = tm'.mon ∧ tm.mday = tm'.mday ∧ tm.hour = tm'.hour ∧
      tm.min = tm'.min ∧ tm.sec = tm'.sec := by
  have hd : d = d' := julianOf_injective (h.julianOf_eq.trans h'.julianOf_eq.symm)
  subst hd
  have htime := h.time.symm.trans h'.time
  have hhour := h.hour
  have hmin := h.min
  have hsec := h.sec
  have hhour' := h'.hour
  have hmin' := h'.min
  have hsec' := h'.sec
  refine ⟨h.year.trans h'.year.symm, h.mon.trans h'.mon.symm, h.mday.trans h'.mday.symm, ?_, ?_, ?_⟩
  · omega
  · omega
  · omega

/-! ## `toUtcTime` -/

theorem castInt_eq {x : ℤ} (h : FitsInt x) : castInt x = x := by
  unfold FitsInt at h
  rw [castInt, Int.bmod_def]
  split_ifs <;> omega

/-- C rounds the days towards zero, and the seconds make up for it. -/
theorem days_and_seconds (t : ℤ) :
    (if t.tmod kSecondsPerDay < 0 then
        (t.tmod kSecondsPerDay + kSecondsPerDay, t.tdiv kSecondsPerDay - 1)
      else (t.tmod kSecondsPerDay, t.tdiv kSecondsPerDay)) = (t % 86400, t / 86400) := by
  have hday : kSecondsPerDay = 86400 := rfl
  have hsplit := Int.tmod_add_mul_tdiv t 86400
  have hlt := Int.tmod_lt_of_pos t (show (0 : ℤ) < 86400 by decide)
  have hgt := Int.lt_tmod_of_pos t (show (0 : ℤ) < 86400 by decide)
  rw [hday]
  split_ifs with hneg
  · refine Prod.ext ?_ ?_ <;> dsimp only <;> omega
  · refine Prod.ext ?_ ?_ <;> dsimp only <;> omega

theorem dayNumber_startOfYear (year : ℤ) :
    (startOfYear year).dayNumber = daysBeforeYear year + 1 := by
  rw [Civil.dayNumber]
  show daysBeforeYear year + 0 + 1 = _
  omega

/-- Behind the first valid day is the whole year it is in. -/
theorem startOfYear_bounds (hlo : 1 ≤ julianOf d) (hhi : julianOf d ≤ lastJulian) :
    -32044 ≤ julianOf (startOfYear d.year) ∧ julianOf (startOfYear d.year) ≤ lastJulian := by
  obtain ⟨hbelow, habove⟩ := d.dayNumber_mem_year
  rw [daysBeforeYear_succ] at habove
  rw [julianOf] at hlo hhi ⊢
  rw [dayNumber_startOfYear]
  split_ifs at habove <;> omega

theorem weekDay_eq {n : ℤ} (hlo : 1 ≤ n) (hhi : n ≤ lastJulian) :
    weekDay n = some ((n + 1) % 7) := by
  have hlast : lastJulian = 536838867 := rfl
  have hfits : ∀ x ∈ [n + 1], FitsInt x := by
    rw [List.forall_mem_singleton, FitsInt]
    omega
  rw [weekDay, ifInts_of_forall hfits, Int.tmod_eq_emod_of_nonneg (by omega)]

/-- What is computed of a time, and of its date. -/
structure UtcOf (t : ℤ) (yday : Bool) (tm : StructTm) (d : Civil) : Prop where
  shows : Shows tm t d
  /-- The first of January 1970 was a Thursday. -/
  wday : tm.wday = (t / 86400 + 4) % 7
  yday : yday = true → tm.yday = d.dayNumber - (startOfYear d.year).dayNumber

/-- **`toUtcTime` shows the time**, with the day of the week and of the
year. -/
theorem toUtcTime_eq (h : InDates t) (yday : Bool) :
    ∃ tm d, toUtcTime t yday = some tm ∧ UtcOf t yday tm d := by
  obtain ⟨hlo, hhi⟩ := h
  have hday : kSecondsPerDay = 86400 := rfl
  have hlast : lastJulian = 536838867 := rfl
  have hepoch : kJulianDayOf1970 = 2440588 := rfl
  obtain ⟨d, hd, hymd⟩ := getYearMonthDay_eq (by omega) hhi
  have hdays := days_and_seconds t
  have hfits : FitsInt (t.tmod kSecondsPerDay) ∧ FitsInt (t.tdiv kSecondsPerDay) := by
    rw [hday] at hdays ⊢
    unfold FitsInt
    split_ifs at hdays <;> rw [Prod.mk.injEq] at hdays <;> omega
  have hints : ∀ x ∈ [t / 86400, t / 86400 + kJulianDayOf1970], FitsInt x := by
    simp only [List.forall_mem_cons, List.not_mem_nil, false_imp_iff, implies_true, and_true,
      FitsInt]
    omega
  have hutc : ∀ tm : StructTm, tm.year = d.year - 1900 → tm.mon = d.month - 1 → tm.mday = d.day →
      tm.sec = t % 86400 % 60 → tm.min = t % 86400 / 60 % 60 → tm.hour = t % 86400 / 60 / 60 →
      Shows tm t d := by
    intro tm hyear hmon hmday hsec hmin hhour
    refine ⟨hyear, hmon, hmday, ?_, ?_, ?_, ?_⟩ <;> omega
  have hwday : (t / 86400 + kJulianDayOf1970 + 1) % 7 = (t / 86400 + 4) % 7 := by omega
  have hstart := startOfYear_bounds (d := d) (by omega) (by omega)
  have hjanuary : getJulianDayNumber d.year 1 1 = some (julianOf (startOfYear d.year)) :=
    getJulianDayNumber_eq hstart.1 hstart.2
  unfold toUtcTime
  simp only [castInt_eq hfits.1, castInt_eq hfits.2, hdays, ifInts_of_forall hints, hymd,
    weekDay_eq hlo hhi, ymdOf]
  cases yday with
  | false =>
    refine ⟨_, d, rfl, hutc _ rfl rfl rfl rfl rfl rfl, hwday, fun hfalse => ?_⟩
    cases hfalse
  | true =>
    rw [hjanuary]
    refine ⟨_, d, rfl, hutc _ rfl rfl rfl rfl rfl rfl, hwday, fun _ => ?_⟩
    show t / 86400 + kJulianDayOf1970 - julianOf (startOfYear d.year) = _
    rw [← hd, julianOf, julianOf]
    omega

/-! ## `fromUtcTime` -/

/-- **`fromUtcTime` finds the time shown.** -/
theorem fromUtcTime_eq (h : InDates t) (hs : Shows tm t d) : fromUtcTime tm = some t := by
  obtain ⟨hlo, hhi⟩ := h
  have hlast : lastJulian = 536838867 := rfl
  have hepoch : kJulianDayOf1970 = 2440588 := rfl
  have hday : kSecondsPerDay = 86400 := rfl
  have hd := hs.julianOf_eq
  have hyear := hs.year
  have hmon := hs.mon
  have hhour := hs.hour
  have hmin := hs.min
  have hsec := hs.sec
  have htime := hs.time
  have hbounds := year_bounds (d := d) (by omega) (by omega)
  have hpos := d.month_pos
  have hle := d.month_le
  have hmarch : 0 ≤ marchYears d.month := by
    unfold marchYears
    split_ifs <;> omega
  have hints : ∀ x ∈ [tm.year + 1900, tm.mon + 1], FitsInt x := by
    simp only [List.forall_mem_cons, List.not_mem_nil, false_imp_iff, implies_true, and_true,
      FitsInt]
    omega
  have hdate : getJulianDayNumber (tm.year + 1900) (tm.mon + 1) tm.mday = some (julianOf d) := by
    rw [hyear, hmon, hs.mday, Int.sub_add_cancel, Int.sub_add_cancel]
    exact getJulianDayNumber_eq (by omega) (by omega)
  rw [fromUtcTime, ifInts_of_forall hints]
  simp only [fromUtcParts, hdate]
  rw [ifInts_of_forall]
  · rw [htime, hday]
  · simp only [List.forall_mem_cons, List.not_mem_nil, false_imp_iff, implies_true, and_true,
      FitsInt]
    omega

/-- **UTC there and back.** What `toUtcTime` shows is a date of the calendar
and a time of the day, with the right day of the week and of the year, and
`fromUtcTime` finds the time behind it; and a date and a time of the day are
what `toUtcTime` shows of the time `fromUtcTime` makes of them. -/
theorem utc_roundTrip :
    (∀ t, InDates t → ∀ yday, ∃ tm d, toUtcTime t yday = some tm ∧ UtcOf t yday tm d ∧
      fromUtcTime tm = some t) ∧
    ∀ tm t d, InDates t → Shows tm t d → ∀ yday, ∃ tm', (fromUtcTime tm).bind (toUtcTime · yday) =
      some tm' ∧ tm.year = tm'.year ∧ tm.mon = tm'.mon ∧ tm.mday = tm'.mday ∧
        tm.hour = tm'.hour ∧ tm.min = tm'.min ∧ tm.sec = tm'.sec := by
  refine ⟨fun t h yday => ?_, fun tm t d h hs yday => ?_⟩
  · obtain ⟨tm, d, heq, hutc⟩ := toUtcTime_eq h yday
    exact ⟨tm, d, heq, hutc, fromUtcTime_eq h hutc.shows⟩
  · obtain ⟨tm', d', heq, hutc⟩ := toUtcTime_eq h yday
    refine ⟨tm', ?_, hs.unique hutc.shows⟩
    rw [fromUtcTime_eq h hs]
    exact heq

/-- The second before 1970. -/
theorem utc_roundTrip_1969 : ∃ tm d, toUtcTime (-1) true = some tm ∧ UtcOf (-1) true tm d ∧
    fromUtcTime tm = some (-1) := utc_roundTrip.1 (-1) (by decide) true

end TelnetServ
