import TelnetServ.Common.Gregorian
import Mathlib.Tactic.IntervalCases
/-!
# `Date`

`getJulianDayNumber` and `getYearMonthDay` compute with `int`, whose division
drops the remainder towards zero and which overflows. Counted from the first
of March 4801 BC on, they follow the calendar day by day until the first of
them overflows (`date_after`).
-/

namespace TelnetServ

open Gregorian

/-- An `int` has 32 bits. -/
def FitsInt (x : ℤ) : Prop := -2 ^ 31 ≤ x ∧ x < 2 ^ 31

instance (x : ℤ) : Decidable (FitsInt x) := by unfold FitsInt; infer_instance

/-- The value of an expression, if no part of it overflows. -/
def ifInts {α : Type*} (parts : List ℤ) (value : α) : Option α :=
  if ∀ x ∈ parts, FitsInt x then some value else none

/-- `YearMonthDay`. -/
structure YearMonthDay where
  year : ℤ
  month : ℤ
  day : ℤ
  deriving DecidableEq

/-- **`getJulianDayNumber`**; `none` where an `int` overflows. -/
def getJulianDayNumber (year month day : ℤ) : Option ℤ :=
  let a := (14 - month).tdiv 12
  let y := year + 4800 - a
  let m := month + 12 * a - 3
  let s₁ := day + (153 * m + 2).tdiv 5
  let s₂ := s₁ + y * 365
  let s₃ := s₂ + y.tdiv 4
  let s₄ := s₃ - y.tdiv 100
  let s₅ := s₄ + y.tdiv 400
  ifInts
    [14 - month, year + 4800, y, 12 * a, month + 12 * a, m, 153 * m, 153 * m + 2, s₁, y * 365, s₂,
      s₃, s₄, s₅, s₅ - 32045]
    (s₅ - 32045)

/-- **`getYearMonthDay`**; `none` where an `int` overflows. -/
def getYearMonthDay (julianDayNumber : ℤ) : Option YearMonthDay :=
  let a := julianDayNumber + 32044
  let b := (4 * a + 3).tdiv 146097
  let c := a - (b * 146097).tdiv 4
  let d := (4 * c + 3).tdiv 1461
  let e := c - (1461 * d).tdiv 4
  let m := (5 * e + 2).tdiv 153
  let day := e - (153 * m + 2).tdiv 5
  let year := b * 100 + d - 4800
  ifInts
    [a, 4 * a, 4 * a + 3, b * 146097, c, 4 * c, 4 * c + 3, 1461 * d, e, 5 * e, 5 * e + 2, 153 * m,
      153 * m + 2, day, day + 1, m + 3, 12 * m.tdiv 10, m + 3 - 12 * m.tdiv 10, b * 100,
      b * 100 + d, year, year + m.tdiv 10]
    { day := day + 1, month := m + 3 - 12 * m.tdiv 10, year := year + m.tdiv 10 }

/-- `Date::kJulianDayOf1970_01_01`. -/
abbrev kJulianDayOf1970 : ℤ := 2440588

example : getJulianDayNumber 1970 1 1 = some kJulianDayOf1970 := by decide

/-- `Date::weekDay`, from Sunday on; `none` where the `int` overflows. -/
def weekDay (julianDayNumber : ℤ) : Option ℤ :=
  ifInts [julianDayNumber + 1] ((julianDayNumber + 1).tmod 7)

/-! ## The calendar -/

/-- The Julian day number of a date. -/
def julianOf (d : Civil) : ℤ := d.dayNumber + 1721425

/-- The parts of a date. -/
def ymdOf (d : Civil) : YearMonthDay := ⟨d.year, d.month, d.day⟩

/-- The first date the two functions are right about. -/
def firstDate : Civil := firstOf (-4800) 3 (by decide)

/-- The last day number whose fourfold is an `int`. -/
abbrev lastJulian : ℤ := 536838867

theorem julianOf_firstDate : julianOf firstDate = -32044 := by decide

theorem ifInts_of_forall {α : Type*} {parts : List ℤ} {value : α} (h : ∀ x ∈ parts, FitsInt x) :
    ifInts parts value = some value := if_pos h

/-- How many years the year of a date is taken to be less: the years of the
formula begin in March. -/
def marchYears (month : ℕ) : ℤ := if month ≤ 2 then 1 else 0

theorem tdiv_marchYears {month : ℕ} (h1 : 1 ≤ month) (h12 : month ≤ 12) :
    (14 - (month : ℤ)).tdiv 12 = marchYears month := by
  unfold marchYears
  split_ifs <;> rw [Int.tdiv_eq_ediv_of_nonneg (by omega)] <;> omega

/-- **The months of the formula**: counted from March their lengths are those
of a straight line. -/
theorem daysOfMonths_march (year : ℤ) {month : ℕ} (h1 : 1 ≤ month) (h12 : month ≤ 12) :
    daysOfMonths year (month - 1) = (153 * (month + 12 * marchYears month - 3) + 2) / 5 +
      if month ≤ 2 then -306 else if IsLeap year then 60 else 59 := by
  by_cases hleap : IsLeap year <;> interval_cases month <;>
    simp [daysOfMonths, monthLength, marchYears, hleap]

/-- **The years of the formula**, each with its leap day at its end. -/
theorem daysBeforeYear_march (year : ℤ) (month : ℕ) :
    let y := year + 4800 - marchYears month
    y * 365 + y / 4 - y / 100 + y / 400 =
      daysBeforeYear year + 1753470 +
          if month ≤ 2 then -306 else if IsLeap year then 60 else 59 := by
  dsimp only
  unfold daysBeforeYear marchYears IsLeap
  split_ifs <;> omega

/-- The year of a date of the formula, and of one it does not overflow for. -/
theorem year_bounds {d : Civil} (hlo : -32044 ≤ julianOf d) (hhi : julianOf d ≤ lastJulian) :
    0 ≤ d.year + 4800 - marchYears d.month ∧ d.year + 4800 ≤ 1470000 := by
  obtain ⟨hbelow, habove⟩ := d.dayNumber_mem_year
  rw [julianOf] at hlo hhi
  refine ⟨?_, ?_⟩
  · by_contra hneg
    have hfirst : d.dayNumber < firstDate.dayNumber := by
      have hpos := d.month_pos
      have hyear : firstDate.year = -4800 := rfl
      have hmonth : firstDate.month = 3 := rfl
      rw [Civil.dayNumber_lt_iff, hyear, hmonth]
      unfold marchYears at hneg
      split_ifs at hneg <;> omega
    have hnumber : firstDate.dayNumber = -1753469 := by decide
    omega
  · have hlast : lastJulian = 536838867 := rfl
    rw [daysBeforeYear] at hbelow
    omega

/-- **`getJulianDayNumber` counts the days of the calendar.** -/
theorem getJulianDayNumber_eq {d : Civil} (hlo : -32044 ≤ julianOf d)
    (hhi : julianOf d ≤ lastJulian) :
    getJulianDayNumber d.year d.month d.day = some (julianOf d) := by
  obtain ⟨hy, hyear⟩ := year_bounds hlo hhi
  have hmonths := daysOfMonths_march d.year d.month_pos d.month_le
  have hyears := daysBeforeYear_march d.year d.month
  have hpos := d.month_pos
  have hle := d.month_le
  have hdpos := d.day_pos
  have hday : d.day ≤ 31 := d.day_le.trans (monthLength_le _ _)
  have hm : 0 ≤ (d.month : ℤ) + 12 * marchYears d.month - 3 ∧
      (d.month : ℤ) + 12 * marchYears d.month - 3 ≤ 11 := by
    unfold marchYears
    split_ifs <;> omega
  have ha : 0 ≤ marchYears d.month ∧ marchYears d.month ≤ 1 := by
    unfold marchYears
    split_ifs <;> omega
  rw [julianOf, Civil.dayNumber, hmonths]
  unfold getJulianDayNumber
  rw [tdiv_marchYears hpos hle]
  dsimp only at hyears ⊢
  generalize marchYears d.month = a at *
  generalize (if d.month ≤ 2 then (-306 : ℤ) else if IsLeap d.year then 60 else 59) = x at *
  rw [Int.tdiv_eq_ediv_of_nonneg hy, Int.tdiv_eq_ediv_of_nonneg hy, Int.tdiv_eq_ediv_of_nonneg hy,
    Int.tdiv_eq_ediv_of_nonneg (show 0 ≤ 153 * ((d.month : ℤ) + 12 * a - 3) + 2 by omega)]
  rw [ifInts_of_forall]
  · refine congrArg some ?_
    omega
  · simp only [List.forall_mem_cons, List.not_mem_nil, false_imp_iff, implies_true, and_true,
      FitsInt]
    omega

/-! ## And back -/

/-- **The formula from behind**: the centuries, the years in the century, the
months and the days, all counted from March. -/
structure MarchDate (a b d m day : ℤ) : Prop where
  century : 0 ≤ b
  year : 0 ≤ d ∧ d ≤ 99
  month : 0 ≤ m ∧ m ≤ 11
  day_pos : 0 ≤ day
  /-- The days of the month, the last one being cut off by the next year. -/
  day_lt : day < (153 * (m + 1) + 2) / 5 - (153 * m + 2) / 5
  feb : m = 11 → day ≤ 28 ∧ (day = 28 → (d + 1) % 4 = 0 ∧ (d = 99 → (b + 1) % 4 = 0))
  eq : a = b * 146097 / 4 + 1461 * d / 4 + (153 * m + 2) / 5 + day

/-- What is left of a century. -/
theorem century_spec {a : ℤ} (ha : 0 ≤ a) :
    0 ≤ (4 * a + 3) / 146097 ∧ 0 ≤ a - (4 * a + 3) / 146097 * 146097 / 4 ∧
      a - (4 * a + 3) / 146097 * 146097 / 4 ≤ 36524 ∧
      (a - (4 * a + 3) / 146097 * 146097 / 4 = 36524 → ((4 * a + 3) / 146097 + 1) % 4 = 0) := by
  have hb : 0 ≤ (4 * a + 3) / 146097 := Int.ediv_nonneg (by omega) (by decide)
  have hlo : 146097 * ((4 * a + 3) / 146097) ≤ 4 * a + 3 := Int.mul_ediv_self_le (by decide)
  have hhi : 4 * a + 3 < 146097 * ((4 * a + 3) / 146097) + 146097 :=
    Int.lt_mul_ediv_self_add (by decide)
  generalize (4 * a + 3) / 146097 = b at *
  -- a century has 36524 days, and every fourth one more
  have hsplit : b * 146097 / 4 = 36524 * b + b / 4 := by omega
  rw [hsplit]
  omega

/-- What is left of a year. -/
theorem year_spec {c : ℤ} (hc : 0 ≤ c) (hlt : c ≤ 36524) :
    0 ≤ (4 * c + 3) / 1461 ∧ (4 * c + 3) / 1461 ≤ 99 ∧ 0 ≤ c - 1461 * ((4 * c + 3) / 1461) / 4 ∧
      c - 1461 * ((4 * c + 3) / 1461) / 4 ≤ 365 ∧
      (c - 1461 * ((4 * c + 3) / 1461) / 4 = 365 →
        ((4 * c + 3) / 1461 + 1) % 4 = 0 ∧ ((4 * c + 3) / 1461 = 99 → c = 36524)) := by
  omega

/-- What is left of a month. -/
theorem month_spec {e : ℤ} (he : 0 ≤ e) (hle : e ≤ 365) :
    0 ≤ (5 * e + 2) / 153 ∧ (5 * e + 2) / 153 ≤ 11 ∧
      0 ≤ e - (153 * ((5 * e + 2) / 153) + 2) / 5 ∧
      e < (153 * ((5 * e + 2) / 153 + 1) + 2) / 5 := by
  omega

theorem marchDate {a : ℤ} (ha : 0 ≤ a) :
    let b := (4 * a + 3) / 146097
    let c := a - b * 146097 / 4
    let d := (4 * c + 3) / 1461
    let e := c - 1461 * d / 4
    let m := (5 * e + 2) / 153
    MarchDate a b d m (e - (153 * m + 2) / 5) := by
  intro b c d e m
  obtain ⟨hb, hc, hc', hlast⟩ := century_spec ha
  obtain ⟨hd, hd', he, he', hleap⟩ := year_spec hc hc'
  obtain ⟨hm, hm', hday, hday'⟩ := month_spec he he'
  refine ⟨hb, ⟨hd, hd'⟩, ⟨hm, hm'⟩, hday, ?_, fun h11 => ⟨?_, fun h28 => ?_⟩, ?_⟩
  · show e - (153 * m + 2) / 5 < _
    change e < (153 * (m + 1) + 2) / 5 at hday'
    omega
  · change e ≤ 365 at he'
    rw [h11]
    omega
  · rw [h11] at h28
    have h365 : e = 365 := by omega
    obtain ⟨hquad, hcent⟩ := hleap h365
    exact ⟨hquad, fun h99 => hlast (hcent h99)⟩
  · show a = b * 146097 / 4 + 1461 * d / 4 + (153 * m + 2) / 5 + (e - (153 * m + 2) / 5)
    have hce : e = c - 1461 * d / 4 := rfl
    have hac : c = a - b * 146097 / 4 := rfl
    omega

/-- The month of a date, and its year, which begins in January. -/
theorem march_month {m : ℤ} (h : 0 ≤ m ∧ m ≤ 11) :
    ∃ month : ℕ, (month : ℤ) = m + 3 - 12 * (m / 10) ∧ 1 ≤ month ∧ month ≤ 12 ∧
      marchYears month = m / 10 := by
  refine ⟨(m + 3 - 12 * (m / 10)).toNat, by omega, by omega, by omega, ?_⟩
  unfold marchYears
  split_ifs <;> omega

/-- The day is one of the month. -/
theorem MarchDate.day_le {a b d m day : ℤ} (h : MarchDate a b d m day) {month : ℕ}
    (hmonth : (month : ℤ) = m + 3 - 12 * (m / 10)) :
    day + 1 ≤ monthLength (b * 100 + d - 4800 + m / 10) month := by
  obtain ⟨h0, h11⟩ := h.month
  have hlt := h.day_lt
  have hfeb := h.feb
  have hd := h.year
  unfold monthLength
  split_ifs with h2 hleap h4
  · have hm : m = 11 := by omega
    have := (hfeb hm).1
    omega
  · have hm : m = 11 := by omega
    obtain ⟨hday, hquad⟩ := hfeb hm
    by_contra hlong
    obtain ⟨hquad, hcent⟩ := hquad (by omega)
    refine hleap ⟨by omega, fun h100 => ?_⟩
    have := hcent (by omega)
    omega
  · rcases h4 with h | h | h | h <;> omega
  · omega

/-- The days of `b` centuries and `d` years. -/
theorem days_of_years (b : ℤ) {d : ℤ} (hd : 0 ≤ d ∧ d ≤ 99) :
    (b * 100 + d) * 365 + (b * 100 + d) / 4 - (b * 100 + d) / 100 + (b * 100 + d) / 400 =
      b * 146097 / 4 + 1461 * d / 4 := by
  have h4 : (b * 100 + d) / 4 = 25 * b + d / 4 := by omega
  have h100 : (b * 100 + d) / 100 = b := by omega
  have h400 : (b * 100 + d) / 400 = b / 4 := by omega
  have hcenturies : b * 146097 / 4 = 36524 * b + b / 4 := by omega
  have hyears : 1461 * d / 4 = 365 * d + d / 4 := by omega
  rw [h4, h100, h400, hcenturies, hyears]
  omega

/-- **The formula from behind makes a date**, the one of its day. -/
theorem MarchDate.exists_civil {a b d m day : ℤ} (h : MarchDate a b d m day) :
    ∃ date : Civil, julianOf date = a - 32044 ∧ date.year = b * 100 + d - 4800 + m / 10 ∧
      (date.month : ℤ) = m + 3 - 12 * (m / 10) ∧ date.day = day + 1 := by
  obtain ⟨month, hmonth, h1, h12, hmarch⟩ := march_month h.month
  have hpos := h.day_pos
  refine ⟨⟨b * 100 + d - 4800 + m / 10, month, day + 1, h1, h12, by omega, h.day_le hmonth⟩, ?_,
    rfl, hmonth, rfl⟩
  have hmonths := daysOfMonths_march (b * 100 + d - 4800 + m / 10) h1 h12
  have hyears := daysBeforeYear_march (b * 100 + d - 4800 + m / 10) month
  have heq := h.eq
  have hd := h.year
  have hm := h.month
  rw [hmarch] at hmonths hyears
  have hy : b * 100 + d - 4800 + m / 10 + 4800 - m / 10 = b * 100 + d := by omega
  have hline : (month : ℤ) + 12 * (m / 10) - 3 = m := by omega
  rw [hline] at hmonths
  dsimp only at hyears
  rw [hy] at hyears
  have hleaps := days_of_years b hd
  rw [julianOf, Civil.dayNumber]
  dsimp only
  generalize (if month ≤ 2 then (-306 : ℤ)
    else if IsLeap (b * 100 + d - 4800 + m / 10) then 60 else 59) = x at *
  omega

/-- **`getYearMonthDay` makes a date of every day number** until it overflows. -/
theorem getYearMonthDay_eq {n : ℤ} (hlo : -32044 ≤ n) (hhi : n ≤ lastJulian) :
    ∃ d : Civil, julianOf d = n ∧ getYearMonthDay n = some (ymdOf d) := by
  have hlast : lastJulian = 536838867 := rfl
  have ha : 0 ≤ n + 32044 := by omega
  have hmarch := marchDate ha
  dsimp only at hmarch
  obtain ⟨date, hjulian, hyear, hmonth, hday⟩ := hmarch.exists_civil
  refine ⟨date, by omega, ?_⟩
  have hb := hmarch.century
  have hd := hmarch.year
  have hm := hmarch.month
  obtain ⟨-, hc, hc', -⟩ := century_spec ha
  obtain ⟨-, -, he, he', -⟩ := year_spec hc hc'
  have hbhi : 146097 * ((4 * (n + 32044) + 3) / 146097) ≤ 4 * (n + 32044) + 3 :=
    Int.mul_ediv_self_le (by decide)
  have hdd := hmarch.day_pos
  unfold getYearMonthDay ymdOf
  dsimp only
  rw [Int.tdiv_eq_ediv_of_nonneg (show 0 ≤ 4 * (n + 32044) + 3 by omega)]
  generalize (4 * (n + 32044) + 3) / 146097 = b at *
  rw [Int.tdiv_eq_ediv_of_nonneg (show 0 ≤ b * 146097 by omega)]
  generalize hcdef : n + 32044 - b * 146097 / 4 = c at *
  rw [Int.tdiv_eq_ediv_of_nonneg (show 0 ≤ 4 * c + 3 by omega)]
  generalize (4 * c + 3) / 1461 = d at *
  rw [Int.tdiv_eq_ediv_of_nonneg (show 0 ≤ 1461 * d by omega)]
  generalize hedef : c - 1461 * d / 4 = e at *
  rw [Int.tdiv_eq_ediv_of_nonneg (show 0 ≤ 5 * e + 2 by omega)]
  generalize (5 * e + 2) / 153 = m at *
  rw [Int.tdiv_eq_ediv_of_nonneg (show 0 ≤ 153 * m + 2 by omega),
    Int.tdiv_eq_ediv_of_nonneg (show 0 ≤ m by omega)]
  rw [ifInts_of_forall]
  · rw [hyear, hmonth, hday]
  · simp only [List.forall_mem_cons, List.not_mem_nil, false_imp_iff, implies_true, and_true,
      FitsInt]
    omega

/-! ## Day by day -/

theorem julianOf_injective : Function.Injective julianOf := fun d d' h =>
  Civil.dayNumber_injective (by unfold julianOf at h; omega)

theorem julianOf_after (d : Civil) (k : ℕ) : julianOf (d.after k) = julianOf d + k := by
  rw [julianOf, Civil.dayNumber_after, julianOf]
  omega

/-- **The two functions follow the calendar.** Going from the first of March
4801 BC day by day, `getJulianDayNumber` counts the days and `getYearMonthDay`
names them, up to the day that is the last whose number does not overflow; from
the next day on there is no answer. -/
theorem date_after (k : ℕ) :
    (k ≤ 536870911 → getYearMonthDay (-32044 + (k : ℤ)) = some (ymdOf (firstDate.after k)) ∧
      getJulianDayNumber (firstDate.after k).year (firstDate.after k).month
        (firstDate.after k).day = some (-32044 + (k : ℤ))) ∧
    (536870911 < k → getYearMonthDay (-32044 + (k : ℤ)) = none) := by
  have hfirst := julianOf_firstDate
  have hk : julianOf (firstDate.after k) = -32044 + k := by rw [julianOf_after, hfirst]
  have hlast : lastJulian = 536838867 := rfl
  refine ⟨fun hle => ⟨?_, ?_⟩, fun hlt => ?_⟩
  · obtain ⟨d, hd, heq⟩ := getYearMonthDay_eq (n := -32044 + k) (by omega) (by omega)
    rw [heq, julianOf_injective (hd.trans hk.symm)]
  · rw [getJulianDayNumber_eq (by omega) (by omega), hk]
  · refine if_neg fun hall => ?_
    have hfour : FitsInt (4 * (-32044 + (k : ℤ) + 32044)) :=
      hall _ (List.mem_cons_of_mem _ List.mem_cons_self)
    unfold FitsInt at hfour
    omega

/-- The first of January 1970, and the day that is too far. -/
theorem date_after_1970 :
    (getYearMonthDay (-32044 + (2472632 : ℕ)) = some (ymdOf (firstDate.after 2472632))) ∧
      getYearMonthDay (-32044 + (536870912 : ℕ)) = none :=
  ⟨((date_after 2472632).1 (by decide)).1, (date_after 536870912).2 (by decide)⟩

end TelnetServ
