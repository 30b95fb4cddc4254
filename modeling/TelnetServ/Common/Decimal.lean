import Mathlib.Data.List.TakeWhile
import Mathlib.Data.Int.Order.Basic
import Mathlib.Algebra.Group.Int.Defs
import Mathlib.Algebra.Group.Nat.Defs
/-!
# Decimal numbers as C reads and prints them

`decimal` is what `%d` prints, `strtol` and `atoi` what the C library
reads: blanks and a sign are skipped, the digits are read up to the first
other byte, the value saturates at 64 bits and `atoi` narrows it to 32.
`atoi_decimal` is the round trip over the range of an `int`.
-/

namespace Decimal

/-- `isdigit`, in the C locale. -/
def IsDigit (c : UInt8) : Prop := 48 ≤ c ∧ c ≤ 57

instance (c : UInt8) : Decidable (IsDigit c) := by unfold IsDigit; infer_instance

/-- `isspace`, in the C locale. -/
def IsSpace (c : UInt8) : Prop := c = 32 ∨ (9 ≤ c ∧ c ≤ 13)

instance (c : UInt8) : Decidable (IsSpace c) := by unfold IsSpace; infer_instance

/-- The decimal digits of a natural number. -/
def natDigits (n : ℕ) : List UInt8 := (Nat.toDigits 10 n).map fun c => UInt8.ofNat c.toNat

/-- **`%d`.** -/
def decimal (v : ℤ) : List UInt8 := (if v < 0 then [45] else []) ++ natDigits v.natAbs

/-- The value of a list of digits. -/
def digitsVal (ds : List UInt8) : ℕ := ds.foldl (fun acc d => 10 * acc + (d.toNat - 48)) 0

/-- The digits at the front of a string. -/
def leadingDigits (p : List UInt8) : List UInt8 := p.takeWhile fun c => IsDigit c

/-- The value `strtol` reads behind the blanks, before it saturates. -/
def signedVal : List UInt8 → ℤ
  | 45 :: p => - (digitsVal (leadingDigits p) : ℤ)
  | 43 :: p => digitsVal (leadingDigits p)
  | p => digitsVal (leadingDigits p)

/-- **`strtol(p, NULL, 10)`**, with a 64-bit `long`. -/
def strtol (p : List UInt8) : ℤ :=
  max (-2 ^ 63) (min (2 ^ 63 - 1) (signedVal (p.dropWhile fun c => IsSpace c)))

/-- **`atoi`**: `strtol`, narrowed to `int`. -/
def atoi (p : List UInt8) : ℤ := (strtol p).bmod (2 ^ 32)

/-! ## Digits -/

theorem toNat_ofNat_digit {c : Char} (h : c.isDigit) : (UInt8.ofNat c.toNat).toNat = c.toNat := by
  have := Char.isDigit_iff_toNat.mp h
  have h9 : '9'.toNat = 57 := rfl
  rw [UInt8.toNat_ofNat', Nat.mod_eq_of_lt (by omega)]

theorem isDigit_of_mem_natDigits {n : ℕ} {c : UInt8} (h : c ∈ natDigits n) : IsDigit c := by
  obtain ⟨d, hd, rfl⟩ := List.mem_map.mp h
  have hdig := Nat.isDigit_of_mem_toDigits (by decide) (by decide) hd
  have := Char.isDigit_iff_toNat.mp hdig
  have h0 : '0'.toNat = 48 := rfl
  have h9 : '9'.toNat = 57 := rfl
  rw [IsDigit, UInt8.le_iff_toNat_le, UInt8.le_iff_toNat_le, toNat_ofNat_digit hdig]
  simp only [UInt8.reduceToNat]
  omega

theorem natDigits_ne_nil (n : ℕ) : natDigits n ≠ [] := by
  simp [natDigits]

theorem digitsVal_natDigits (n : ℕ) : digitsVal (natDigits n) = n := by
  have key : ∀ (cs : List Char) (acc : ℕ), (∀ c ∈ cs, c.isDigit) →
      (cs.map fun c => UInt8.ofNat c.toNat).foldl (fun acc d => 10 * acc + (d.toNat - 48)) acc =
        Nat.ofDigitChars 10 cs acc := by
    intro cs
    induction cs with
    | nil => intro acc _; simp
    | cons c cs ih =>
      intro acc h
      rw [List.map_cons, List.foldl_cons, Nat.ofDigitChars_cons,
        toNat_ofNat_digit (h c List.mem_cons_self)]
      exact ih _ fun d hd => h d (List.mem_cons_of_mem _ hd)
  rw [digitsVal, natDigits, key _ _ fun c hc =>
    Nat.isDigit_of_mem_toDigits (by decide) (by decide) hc]
  exact Nat.ofDigitChars_ten_toDigits

/-- Digits are read up to the first byte that is none. -/
theorem leadingDigits_append {ds r : List UInt8} (h : ∀ c ∈ ds, IsDigit c)
    (hr : ∀ c ∈ r.head?, ¬ IsDigit c) : leadingDigits (ds ++ r) = ds := by
  rw [leadingDigits, List.takeWhile_append_of_pos fun c hc => by simpa using h c hc]
  cases r with
  | nil => simp
  | cons c r => simpa using hr c (by simp)

/-! ## The round trip -/

/-- What `%d` prints starts with a sign or a digit. -/
theorem decimal_cases (v : ℤ) :
    (v < 0 ∧ decimal v = 45 :: natDigits v.natAbs) ∨ (0 ≤ v ∧ decimal v = natDigits v.natAbs) := by
  rcases lt_or_ge v 0 with h | h
  · exact Or.inl ⟨h, by rw [decimal, if_pos h]; rfl⟩
  · exact Or.inr ⟨h, by rw [decimal, if_neg (by omega)]; rfl⟩

theorem mem_decimal {v : ℤ} {c : UInt8} (h : c ∈ decimal v) : c = 45 ∨ IsDigit c := by
  rcases decimal_cases v with ⟨-, he⟩ | ⟨-, he⟩
  · rw [he, List.mem_cons] at h
    exact h.imp id isDigit_of_mem_natDigits
  · rw [he] at h
    exact Or.inr (isDigit_of_mem_natDigits h)

theorem decimal_ne_nil (v : ℤ) : decimal v ≠ [] := by
  rcases decimal_cases v with ⟨-, he⟩ | ⟨-, he⟩
  · simp [he]
  · simpa [he] using natDigits_ne_nil _

theorem signedVal_digits {ds r : List UInt8} (hne : ds ≠ []) (h : ∀ c ∈ ds, IsDigit c)
    (hr : ∀ c ∈ r.head?, ¬ IsDigit c) : signedVal (ds ++ r) = digitsVal ds := by
  obtain ⟨c, ds, rfl⟩ := List.exists_cons_of_ne_nil hne
  have hc := h c List.mem_cons_self
  have h45 : c ≠ 45 := by rintro rfl; exact absurd hc (by decide)
  have h43 : c ≠ 43 := by rintro rfl; exact absurd hc (by decide)
  rw [List.cons_append, signedVal.eq_3 _ (fun _ he => h45 (List.cons.inj he).1)
    (fun _ he => h43 (List.cons.inj he).1), ← List.cons_append, leadingDigits_append h hr]

/-- **The round trip**: `atoi` reads back any `int` that `%d` printed. -/
theorem atoi_decimal {v : ℤ} (hlo : -2 ^ 31 ≤ v) (hhi : v < 2 ^ 31) {r : List UInt8}
    (hr : ∀ c ∈ r.head?, ¬ IsDigit c) : atoi (decimal v ++ r) = v := by
  have hspace : (decimal v ++ r).dropWhile (fun c => IsSpace c) = decimal v ++ r := by
    obtain ⟨c, t, hct⟩ := List.exists_cons_of_ne_nil (decimal_ne_nil v)
    have hns : ¬ IsSpace c := by
      have hc : c = 45 ∨ IsDigit c := mem_decimal (by rw [hct]; exact List.mem_cons_self)
      rcases hc with rfl | hc
      · decide
      · simp only [IsDigit, IsSpace, UInt8.le_iff_toNat_le, ← UInt8.toNat_inj,
          UInt8.reduceToNat] at hc ⊢
        omega
    rw [hct, List.cons_append, List.dropWhile_cons_of_neg (by simpa using hns)]
  have hval : signedVal (decimal v ++ r) = v := by
    rcases decimal_cases v with ⟨hneg, he⟩ | ⟨hpos, he⟩
    · rw [he, List.cons_append, signedVal, leadingDigits_append
        (fun c hc => isDigit_of_mem_natDigits hc) hr, digitsVal_natDigits]
      omega
    · rw [he, signedVal_digits (natDigits_ne_nil _) (fun c hc => isDigit_of_mem_natDigits hc) hr,
        digitsVal_natDigits]
      omega
  rw [atoi, strtol, hspace, hval, min_eq_right (by omega), max_eq_right (by omega)]
  exact Int.bmod_eq_of_le (by omega) (by omega)

/-! ## What is read of a string -/

/-- A word that starts with no blank, sign or digit is read as 0. -/
theorem atoi_of_head {p : List UInt8}
    (h : ∀ c ∈ p.head?, ¬ IsSpace c ∧ ¬ IsDigit c ∧ c ≠ 45 ∧ c ≠ 43) : atoi p = 0 := by
  cases p with
  | nil => rfl
  | cons c p =>
    obtain ⟨hs, hd, h45, h43⟩ := h c rfl
    have hspace : (c :: p).dropWhile (fun c => IsSpace c) = c :: p :=
      List.dropWhile_cons_of_neg (by simpa using hs)
    have hdigits : leadingDigits (c :: p) = [] := List.takeWhile_cons_of_neg (by simpa using hd)
    rw [atoi, strtol, hspace, signedVal.eq_3 _ (fun _ he => h45 (List.cons.inj he).1)
      (fun _ he => h43 (List.cons.inj he).1), hdigits]
    rfl

/-- At the end of a string there is nothing to read. -/
theorem atoi_nul (r : List UInt8) : atoi (0 :: r) = 0 := by
  refine atoi_of_head fun c hc => ?_
  rw [← Option.some_inj.mp hc]
  decide

theorem leadingDigits_append_zero (p r : List UInt8) :
    leadingDigits (p ++ 0 :: r) = leadingDigits p := by
  have hzero : leadingDigits (0 :: r) = [] := List.takeWhile_cons_of_neg (by decide)
  rw [leadingDigits, List.takeWhile_append, ← leadingDigits, ← leadingDigits, hzero,
    List.append_nil]
  split_ifs with h
  · exact ((List.takeWhile_prefix _).eq_of_length h).symm
  · rfl

theorem signedVal_append_zero (p r : List UInt8) : signedVal (p ++ 0 :: r) = signedVal p := by
  cases p with
  | nil =>
    have hzero : leadingDigits (0 :: r) = [] := List.takeWhile_cons_of_neg (by decide)
    rw [List.nil_append, signedVal.eq_3 _ (fun _ he => absurd (List.cons.inj he).1 (by decide))
      (fun _ he => absurd (List.cons.inj he).1 (by decide)), hzero]
    rfl
  | cons c p =>
    rw [List.cons_append]
    by_cases h45 : c = 45
    · subst h45
      rw [signedVal, signedVal, leadingDigits_append_zero]
    by_cases h43 : c = 43
    · subst h43
      rw [signedVal, signedVal, leadingDigits_append_zero]
    · rw [signedVal.eq_3 _ (fun _ he => h45 (List.cons.inj he).1)
        (fun _ he => h43 (List.cons.inj he).1),
        signedVal.eq_3 _ (fun _ he => h45 (List.cons.inj he).1)
        (fun _ he => h43 (List.cons.inj he).1), ← List.cons_append, leadingDigits_append_zero]

/-- **Nothing behind a NUL is read.** -/
theorem atoi_append_zero (p r : List UInt8) : atoi (p ++ 0 :: r) = atoi p := by
  have hzero : (0 :: r).dropWhile (fun c => IsSpace c) = 0 :: r :=
    List.dropWhile_cons_of_neg (by decide)
  have hspace : (p ++ 0 :: r).dropWhile (fun c => IsSpace c) =
      p.dropWhile (fun c => IsSpace c) ++ 0 :: r := by
    rw [List.dropWhile_append]
    split_ifs with hempty
    · rw [List.isEmpty_iff.mp hempty, hzero, List.nil_append]
    · rfl
  rw [atoi, atoi, strtol, strtol, hspace, signedVal_append_zero]

/-! ## Decimal literals -/

/-- The sign of a literal. -/
inductive Sign where
  | none
  | plus
  | minus
  deriving DecidableEq

/-- How it is written. -/
def Sign.text : Sign → List UInt8
  | .none => []
  | .plus => [43]
  | .minus => [45]

/-- **A decimal literal**: an optional sign and one digit or more. -/
structure Literal where
  sign : Sign
  digits : List UInt8
  digits_ne : digits ≠ []
  isDigit : ∀ c ∈ digits, IsDigit c

namespace Literal

/-- The literal as it is written. -/
def text (l : Literal) : List UInt8 := l.sign.text ++ l.digits

/-- The number it stands for. -/
def value (l : Literal) : ℤ :=
  match l.sign with
  | .none | .plus => digitsVal l.digits
  | .minus => - (digitsVal l.digits : ℤ)

theorem leadingDigits_digits (l : Literal) : leadingDigits l.digits = l.digits := by
  have h := leadingDigits_append (r := []) l.isDigit fun c hc => absurd hc nofun
  rwa [List.append_nil] at h

theorem signedVal_text (l : Literal) : signedVal l.text = l.value := by
  cases hsign : l.sign with
  | none =>
    have h := signedVal_digits (r := []) l.digits_ne l.isDigit fun c hc => absurd hc nofun
    rw [List.append_nil] at h
    rw [text, value, hsign, Sign.text, List.nil_append, h]
  | plus =>
    rw [text, value, hsign, Sign.text, List.singleton_append, signedVal, l.leadingDigits_digits]
  | minus =>
    rw [text, value, hsign, Sign.text, List.singleton_append, signedVal, l.leadingDigits_digits]

/-- A literal starts with a sign or a digit. -/
theorem head_text (l : Literal) : ∃ c t, l.text = c :: t ∧ (c = 43 ∨ c = 45 ∨ IsDigit c) := by
  obtain ⟨c, t, hdigits⟩ := List.exists_cons_of_ne_nil l.digits_ne
  cases hsign : l.sign with
  | none =>
    have hc := l.isDigit c (by rw [hdigits]; exact List.mem_cons_self)
    exact ⟨c, t, by rw [text, hsign, hdigits]; rfl, Or.inr (Or.inr hc)⟩
  | plus => exact ⟨43, l.digits, by rw [text, hsign]; rfl, Or.inl rfl⟩
  | minus => exact ⟨45, l.digits, by rw [text, hsign]; rfl, Or.inr (Or.inl rfl)⟩

/-- **`atoi` of a literal** a `long` can hold is its value, narrowed. -/
theorem atoi_text (l : Literal) (hlo : -2 ^ 63 ≤ l.value) (hhi : l.value < 2 ^ 63) :
    atoi l.text = l.value.bmod (2 ^ 32) := by
  have hspace : l.text.dropWhile (fun c => IsSpace c) = l.text := by
    obtain ⟨c, t, htext, hc⟩ := l.head_text
    have hns : ¬ IsSpace c := by
      rcases hc with rfl | rfl | hc
      · decide
      · decide
      · simp only [IsDigit, IsSpace, UInt8.le_iff_toNat_le, ← UInt8.toNat_inj,
          UInt8.reduceToNat] at hc ⊢
        omega
    rw [htext, List.dropWhile_cons_of_neg (by simpa using hns)]
  rw [atoi, strtol, hspace, signedVal_text, min_eq_right (by omega), max_eq_right (by omega)]

end Literal

end Decimal
