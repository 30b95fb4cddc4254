import Mathlib.Algebra.Order.Ring.Int
import Mathlib.Data.Int.ConditionallyCompleteOrder
import Mathlib.Algebra.Order.SuccPred
import Mathlib.Order.Monotone.Basic
import Mathlib.Order.Nat
/-!
# The Gregorian calendar

A date is a year, a month and a day of that month, the years going back
without an end. `next` is the rule the calendar is made of; `dayNumber` counts
the days, and goes up by one with each `next` (`dayNumber_next`). It tells the
dates apart and puts them in their order (`dayNumber_lt_iff`), so a function
that computes dates has only to be compared with it.
-/

namespace Gregorian

/-- Every fourth year, but of the hundredth years every fourth. -/
def IsLeap (year : ℤ) : Prop := 4 ∣ year ∧ (100 ∣ year → 400 ∣ year)

instance (year : ℤ) : Decidable (IsLeap year) := by unfold IsLeap; infer_instance

/-- How many days a month has; the months are numbered from 1. -/
def monthLength (year : ℤ) (month : ℕ) : ℤ :=
  if month = 2 then if IsLeap year then 29 else 28
  else if month = 4 ∨ month = 6 ∨ month = 9 ∨ month = 11 then 30
  else 31

theorem monthLength_pos (year : ℤ) (month : ℕ) : 0 < monthLength year month := by
  unfold monthLength
  split_ifs <;> omega

theorem monthLength_le (year : ℤ) (month : ℕ) : monthLength year month ≤ 31 := by
  unfold monthLength
  split_ifs <;> omega

/-- **A date.** -/
@[ext] structure Civil where
  year : ℤ
  month : ℕ
  day : ℤ
  month_pos : 1 ≤ month
  month_le : month ≤ 12
  day_pos : 1 ≤ day
  day_le : day ≤ monthLength year month
  deriving DecidableEq

/-! ## Counting days -/

/-- The days of the years before. -/
def daysBeforeYear (year : ℤ) : ℤ :=
  365 * (year - 1) + (year - 1) / 4 - (year - 1) / 100 + (year - 1) / 400

/-- The days of the first months of a year. -/
def daysOfMonths (year : ℤ) : ℕ → ℤ
  | 0 => 0
  | month + 1 => daysOfMonths year month + monthLength year (month + 1)

theorem daysBeforeYear_succ (year : ℤ) :
    daysBeforeYear (year + 1) = daysBeforeYear year + if IsLeap year then 366 else 365 := by
  unfold daysBeforeYear IsLeap
  split_ifs <;> omega

theorem daysOfMonths_twelve (year : ℤ) :
    daysOfMonths year 12 = if IsLeap year then 366 else 365 := by
  by_cases h : IsLeap year <;> simp [daysOfMonths, monthLength, h]

/-- A later month comes behind the whole of an earlier one. -/
theorem daysOfMonths_mono (year : ℤ) {m m' : ℕ} (h : m ≤ m') :
    daysOfMonths year m ≤ daysOfMonths year m' := by
  induction m', h using Nat.le_induction with
  | base => exact Int.le_refl _
  | succ m' _ ih =>
    have hpos := monthLength_pos year (m' + 1)
    rw [daysOfMonths]
    omega

theorem daysBeforeYear_strictMono : StrictMono daysBeforeYear := by
  refine strictMono_int_of_lt_succ fun year => ?_
  rw [daysBeforeYear_succ]
  split_ifs <;> omega

/-- The first day of a month. -/
def firstOf (year : ℤ) (month : ℕ) (h : 1 ≤ month ∧ month ≤ 12) : Civil where
  year := year
  month := month
  day := 1
  month_pos := h.1
  month_le := h.2
  day_pos := Int.le_refl 1
  day_le := monthLength_pos ..

/-- The first of January. -/
def startOfYear (year : ℤ) : Civil := firstOf year 1 (by decide)

namespace Civil

variable (d : Civil)

/-- **The number of a date**, the first of January of the year 1 being the
first. -/
def dayNumber : ℤ := daysBeforeYear d.year + daysOfMonths d.year (d.month - 1) + d.day

/-- **The day after.** -/
def next : Civil :=
  if hday : d.day < monthLength d.year d.month then
    { d with
      day := d.day + 1
      day_pos := by have := d.day_pos; omega
      day_le := hday }
  else if hmonth : d.month < 12 then
    firstOf d.year (d.month + 1) ⟨Nat.le_add_left 1 d.month, hmonth⟩
  else startOfYear (d.year + 1)

/-- The days up to the end of the month. -/
theorem daysOfMonths_month : daysOfMonths d.year d.month =
    daysOfMonths d.year (d.month - 1) + monthLength d.year d.month := by
  obtain ⟨m, hm⟩ : ∃ m, d.month = m + 1 := ⟨d.month - 1, by have := d.month_pos; omega⟩
  rw [hm, daysOfMonths, Nat.add_sub_cancel]

/-- **The day after has the next number.** -/
theorem dayNumber_next : d.next.dayNumber = d.dayNumber + 1 := by
  have hmonths := d.daysOfMonths_month
  have hle := d.day_le
  unfold next dayNumber
  split_ifs with hday hmonth
  · dsimp only
    omega
  · simp only [firstOf]
    rw [Nat.add_sub_cancel]
    omega
  · have h12 : d.month = 12 := by have := d.month_le; omega
    simp only [startOfYear, firstOf]
    rw [h12, daysOfMonths_twelve] at hmonths
    rw [daysBeforeYear_succ, Nat.sub_self, daysOfMonths, h12]
    rw [h12] at hle hday
    omega

/-- The day lies in its year. -/
theorem dayNumber_mem_year :
    daysBeforeYear d.year < d.dayNumber ∧ d.dayNumber ≤ daysBeforeYear (d.year + 1) := by
  have hmonths := d.daysOfMonths_month
  have h0 := daysOfMonths_mono d.year (Nat.zero_le (d.month - 1))
  have h12 := daysOfMonths_mono d.year d.month_le
  have hpos := d.day_pos
  have hle := d.day_le
  rw [daysOfMonths] at h0
  rw [daysOfMonths_twelve] at h12
  rw [daysBeforeYear_succ, dayNumber]
  omega

variable {d} {d' : Civil}

/-- Of two dates the one with the smaller number has the earlier year, or the
earlier month of the same, or the earlier day of the same. -/
theorem dayNumber_lt_iff : d.dayNumber < d'.dayNumber ↔
    d.year < d'.year ∨
      d.year = d'.year ∧ (d.month < d'.month ∨ d.month = d'.month ∧ d.day < d'.day) := by
  have hearlier : ∀ {e e' : Civil}, e.year < e'.year → e.dayNumber < e'.dayNumber := by
    intro e e' hlt
    have hmono : daysBeforeYear (e.year + 1) ≤ daysBeforeYear e'.year :=
      daysBeforeYear_strictMono.monotone hlt
    exact (e.dayNumber_mem_year.2.trans hmono).trans_lt e'.dayNumber_mem_year.1
  have hmonth : ∀ {e e' : Civil}, e.year = e'.year → e.month < e'.month →
      e.dayNumber < e'.dayNumber := by
    intro e e' hyear hlt
    have hmonths := e.daysOfMonths_month
    have hmono := daysOfMonths_mono e.year (show e.month ≤ e'.month - 1 by omega)
    have hle := e.day_le
    have hpos := e'.day_pos
    rw [dayNumber, dayNumber, ← hyear]
    omega
  rcases lt_trichotomy d.year d'.year with hyear | hyear | hyear
  · exact iff_of_true (hearlier hyear) (Or.inl hyear)
  · rcases Nat.lt_trichotomy d.month d'.month with hm | hm | hm
    · exact iff_of_true (hmonth hyear hm) (Or.inr ⟨hyear, Or.inl hm⟩)
    · rw [dayNumber, dayNumber, hyear, hm]
      omega
    · have := hmonth hyear.symm hm
      omega
  · have := hearlier hyear
    omega

/-- **Different dates have different numbers.** -/
theorem dayNumber_injective : Function.Injective dayNumber := by
  intro d d' h
  have hlt : ¬ d.dayNumber < d'.dayNumber := by omega
  have hgt : ¬ d'.dayNumber < d.dayNumber := by omega
  rw [dayNumber_lt_iff] at hlt hgt
  ext <;> omega

/-- The date `n` days later. -/
def after (d : Civil) : ℕ → Civil
  | 0 => d
  | n + 1 => (d.after n).next

theorem dayNumber_after (d : Civil) (n : ℕ) : (d.after n).dayNumber = d.dayNumber + n := by
  induction n with
  | zero => simp [after]
  | succ n ih =>
    rw [after, dayNumber_next, ih]
    omega

end Civil

end Gregorian
