import TelnetServ.Common.CStr
import TelnetServ.Common.Decimal
import Mathlib.Algebra.Order.Ring.Nat
import Mathlib.Tactic.Ring
/-!
# Broken-down time as C prints it

`Tm` is `struct tm` with the ranges the C library promises for it. Its
numbers are printed with a fixed width, and texts of digits of one length
sort as their values do: `strncmp_ymd` says that `strncmp` tells which of two
printed dates is the earlier.
-/

namespace Decimal

/-- **`%wd`** of a number that is not negative; with the fill `'0'`,
`%0wd`. -/
def padLeft (fill : UInt8) (w n : ℕ) : List UInt8 :=
  List.replicate (w - (natDigits n).length) fill ++ natDigits n

variable {fill : UInt8} {w n : ℕ} {ds es : List UInt8}

theorem length_natDigits_le (hw : 0 < w) (h : n < 10 ^ w) : (natDigits n).length ≤ w := by
  rw [natDigits, List.length_map]
  exact (Nat.length_toDigits_le_iff (by decide) hw).mpr h

theorem length_padLeft (hw : 0 < w) (h : n < 10 ^ w) : (padLeft fill w n).length = w := by
  have := length_natDigits_le hw h
  rw [padLeft, List.length_append, List.length_replicate]
  omega

theorem mem_padLeft {c : UInt8} (h : c ∈ padLeft fill w n) : c = fill ∨ IsDigit c := by
  rcases List.mem_append.mp h with h | h
  · exact Or.inl (List.eq_of_mem_replicate h)
  · exact Or.inr (isDigit_of_mem_natDigits h)

theorem isDigit_of_mem_padLeft {c : UInt8} (h : c ∈ padLeft 48 w n) : IsDigit c := by
  rcases mem_padLeft h with rfl | h
  · decide
  · exact h

theorem zero_notMem_padLeft (hfill : fill ≠ 0) : 0 ∉ padLeft fill w n := fun h =>
  (mem_padLeft h).elim hfill.symm fun h => absurd h (by decide)

/-- Further digits shift the value. -/
theorem digitsVal_append :
    digitsVal (ds ++ es) = digitsVal ds * 10 ^ es.length + digitsVal es := by
  have key : ∀ (es : List UInt8) (acc : ℕ),
      es.foldl (fun acc d => 10 * acc + (d.toNat - 48)) acc =
        acc * 10 ^ es.length + digitsVal es := by
    intro es
    induction es with
    | nil => intro acc; simp [digitsVal]
    | cons d es ih =>
      intro acc
      rw [digitsVal, List.foldl_cons, List.foldl_cons, ih, ih (10 * 0 + _), List.length_cons]
      ring
  rw [digitsVal, List.foldl_append, key]
  rfl

theorem digitsVal_cons (d : UInt8) :
    digitsVal (d :: ds) = (d.toNat - 48) * 10 ^ ds.length + digitsVal ds := by
  rw [← List.singleton_append, digitsVal_append]
  simp [digitsVal]

/-- Leading zeros do not count. -/
theorem digitsVal_padLeft : digitsVal (padLeft 48 w n) = n := by
  have hzeros : ∀ k, digitsVal (List.replicate k 48) = 0 := by
    intro k
    induction k with
    | zero => rfl
    | succ k ih => rw [List.replicate_succ, digitsVal_cons, ih]; simp
  rw [padLeft, digitsVal_append, hzeros, Nat.zero_mul, Nat.zero_add, digitsVal_natDigits]

theorem digitsVal_lt (h : ∀ c ∈ ds, IsDigit c) : digitsVal ds < 10 ^ ds.length := by
  induction ds with
  | nil => decide
  | cons d ds ih =>
    have hd := h d List.mem_cons_self
    have hlt := ih fun c hc => h c (List.mem_cons_of_mem _ hc)
    have hdigit : d.toNat - 48 ≤ 9 := by
      have := UInt8.le_iff_toNat_le.mp hd.2
      simp only [UInt8.reduceToNat] at this
      omega
    have hmul := Nat.mul_le_mul_right (10 ^ ds.length) hdigit
    rw [digitsVal_cons, List.length_cons, Nat.pow_succ]
    omega

open CStr in
/-- **Digits of one length sort as their values.** -/
theorem strncmp_digits (hlen : ds.length = es.length) (hds : ∀ c ∈ ds, IsDigit c)
    (hes : ∀ c ∈ es, IsDigit c) (p q : List UInt8) :
    strncmp ds.length (ds ++ p) (es ++ q) < 0 ↔ digitsVal ds < digitsVal es := by
  induction ds generalizing es with
  | nil =>
    rw [List.eq_nil_of_length_eq_zero hlen.symm, List.length_nil, strncmp]
    exact ⟨fun h => absurd h (lt_irrefl _), fun h => absurd h (lt_irrefl _)⟩
  | cons d ds ih =>
    cases es with
    | nil => cases hlen
    | cons e es =>
      have hd := hds d List.mem_cons_self
      have he := hes e List.mem_cons_self
      have htail := ih (Nat.succ.inj hlen) (fun c hc => hds c (List.mem_cons_of_mem _ hc))
        fun c hc => hes c (List.mem_cons_of_mem _ hc)
      have hvd := digitsVal_lt fun c hc => hds c (List.mem_cons_of_mem _ hc)
      have hve := digitsVal_lt fun c hc => hes c (List.mem_cons_of_mem _ hc)
      rw [← Nat.succ.inj hlen] at hve
      rw [List.length_cons, List.cons_append, List.cons_append, digitsVal_cons, digitsVal_cons,
        ← Nat.succ.inj hlen]
      by_cases heq : d = e
      · subst heq
        rw [strncmp_cons (by rintro rfl; exact absurd hd (by decide)), htail]
        omega
      · have hne : d.toNat ≠ e.toNat := fun h => heq (UInt8.toNat_inj.mp h)
        have hd0 := UInt8.le_iff_toNat_le.mp hd.1
        have he0 := UInt8.le_iff_toNat_le.mp he.1
        simp only [UInt8.reduceToNat] at hd0 he0
        rw [strncmp_cons_ne heq]
        -- the first digit outweighs the rest
        rcases Nat.lt_or_gt_of_ne hne with hlt | hgt
        · have hmul := Nat.mul_le_mul_right (10 ^ ds.length)
            (show d.toNat - 48 + 1 ≤ e.toNat - 48 by omega)
          rw [Nat.add_mul, Nat.one_mul] at hmul
          exact ⟨fun _ => by omega, fun _ => by omega⟩
        · have hmul := Nat.mul_le_mul_right (10 ^ ds.length)
            (show e.toNat - 48 + 1 ≤ d.toNat - 48 by omega)
          rw [Nat.add_mul, Nat.one_mul] at hmul
          exact ⟨fun _ => by omega, fun _ => by omega⟩

open CStr in
/-- **Numbers printed with one width** are compared first, and by value. -/
theorem strncmp_padLeft {a b n : ℕ} (hw : 0 < w) (ha : a < 10 ^ w) (hb : b < 10 ^ w)
    (p q : List UInt8) :
    strncmp (w + n) (padLeft 48 w a ++ p) (padLeft 48 w b ++ q) < 0 ↔
      a < b ∨ a = b ∧ strncmp n p q < 0 := by
  have hlen : (padLeft 48 w a).length = w := length_padLeft hw ha
  have hlen' : (padLeft 48 w b).length = w := length_padLeft hw hb
  have hzero : 0 ∉ padLeft 48 w a := zero_notMem_padLeft (by decide)
  have hvalues := strncmp_digits (hlen.trans hlen'.symm) (fun _ => isDigit_of_mem_padLeft)
    (fun _ => isDigit_of_mem_padLeft) [] []
  have hfirst := strncmp_append_lt_iff (n := n) (p := p) (q := q) (hlen.trans hlen'.symm) hzero
  have hsame : padLeft 48 w a = padLeft 48 w b ↔ a = b := by
    refine ⟨fun h => ?_, fun h => by rw [h]⟩
    rw [← digitsVal_padLeft (w := w) (n := a), h, digitsVal_padLeft]
  rw [digitsVal_padLeft, digitsVal_padLeft] at hvalues
  rw [hvalues, hsame, hlen] at hfirst
  exact hfirst

end Decimal

namespace Calendar

open Decimal CStr

/-- **`struct tm`**, for the years that have four digits. -/
structure Tm where
  /-- Since 1900. -/
  year : ℕ
  /-- Since January. -/
  mon : ℕ
  mday : ℕ
  hour : ℕ
  min : ℕ
  sec : ℕ
  year_lt : year + 1900 < 10 ^ 4
  mon_lt : mon < 12
  mday_le : mday ≤ 31
  hour_lt : hour < 24
  min_lt : min < 60
  /-- Leap seconds count. -/
  sec_le : sec ≤ 60

namespace Tm

variable (s t : Tm)

/-- `%Y%m%d`. -/
def ymd : List UInt8 := padLeft 48 4 (t.year + 1900) ++ padLeft 48 2 (t.mon + 1) ++
  padLeft 48 2 t.mday

/-- `%H%M%S`. -/
def hms : List UInt8 := padLeft 48 2 t.hour ++ padLeft 48 2 t.min ++ padLeft 48 2 t.sec

/-- The date of the first is earlier than the date of the second. -/
def Earlier : Prop :=
  s.year < t.year ∨ s.year = t.year ∧ (s.mon < t.mon ∨ s.mon = t.mon ∧ s.mday < t.mday)

instance : Decidable (s.Earlier t) := by unfold Earlier; infer_instance

/-- A number below 100 takes two digits. -/
theorem length_two {fill : UInt8} {n : ℕ} (h : n < 100) : (padLeft fill 2 n).length = 2 :=
  length_padLeft (by decide) h

theorem length_ymd : t.ymd.length = 8 := by
  have hmon := t.mon_lt
  have hmday := t.mday_le
  rw [ymd, List.length_append, List.length_append, length_padLeft (by decide) t.year_lt,
    length_two (by omega), length_two (by omega)]

theorem isDigit_of_mem_ymd {c : UInt8} (h : c ∈ t.ymd) : IsDigit c := by
  rcases List.mem_append.mp h with h | h
  · rcases List.mem_append.mp h with h | h <;> exact isDigit_of_mem_padLeft h
  · exact isDigit_of_mem_padLeft h

theorem digitsVal_ymd :
    digitsVal t.ymd = (t.year + 1900) * 10000 + (t.mon + 1) * 100 + t.mday := by
  have hmon := t.mon_lt
  have hmday := t.mday_le
  rw [ymd, digitsVal_append, digitsVal_append, digitsVal_padLeft, digitsVal_padLeft,
    digitsVal_padLeft, length_two (by omega), length_two (by omega)]
  omega

/-- **`strncmp` of two printed dates tells the earlier.** -/
theorem strncmp_ymd (p q : List UInt8) : strncmp 8 (s.ymd ++ p) (t.ymd ++ q) < 0 ↔ s.Earlier t := by
  have h := strncmp_digits (s.length_ymd.trans t.length_ymd.symm) (fun _ => s.isDigit_of_mem_ymd)
    (fun _ => t.isDigit_of_mem_ymd) p q
  have hmon := s.mon_lt
  have hmon' := t.mon_lt
  have hmday := s.mday_le
  have hmday' := t.mday_le
  rw [s.length_ymd] at h
  rw [h, digitsVal_ymd, digitsVal_ymd, Earlier]
  omega

end Tm

end Calendar
