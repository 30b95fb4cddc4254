import TelnetServ.Command.Model
import Mathlib.Data.List.GetD
/-!
# Commands — the value of a word

A word outside the quote marks is passed through `WordParse`, which tells
numbers from names by what `atoi` reads: a 0 that is not written with a
leading `0` counts as a name, and a name is passed as its address narrowed
to `int`. `keepsValue_iff` is what that makes of a decimal literal.
-/

namespace TelnetServ

open CStr Decimal

/-- What `WordParse` makes of the word `w` at the address `addr`. -/
def wordValue (addr : UInt64) (w : List UInt8) : ℤ :=
  if atoi w = 0 ∧ w.headD 0 ≠ 48 then (addr.toNat : ℤ).bmod (2 ^ 32) else atoi w

variable {base : UInt64} {szCmd : List UInt8} {i : ℕ}

theorem atoi_cstr (p : List UInt8) : atoi (cstr p) = atoi p := by
  by_cases h0 : 0 ∈ p
  · obtain ⟨rest, hrest⟩ := exists_eq_cstr_append h0
    have h := atoi_append_zero (cstr p) rest
    rw [← hrest] at h
    exact h.symm
  · rw [cstr_eq_self h0]

theorem headD_cstr (p : List UInt8) : (cstr p).headD 0 = p.headD 0 := by
  cases p with
  | nil => rfl
  | cons c p =>
    by_cases hc : c = 0
    · rw [hc, cstr_zero_cons]
      rfl
    · rw [cstr_cons hc]
      rfl

/-- **`WordParse` reads the string at the pointer** and nothing else. -/
theorem wordParse_eq (base : UInt64) (szCmd : List UInt8) (i : ℕ) :
    wordParse base szCmd i = wordValue (base + UInt64.ofNat i) (cstr (szCmd.drop i)) := by
  have hfirst : szCmd.getD i 0 = (szCmd.drop i).headD 0 := by
    rw [List.headD_eq_head?_getD, List.head?_drop, List.getD_eq_getElem?_getD]
  rw [wordParse, wordValue, atoi_cstr, headD_cstr, hfirst]

/-- The parameter of a word outside the quote marks. -/
theorem paraValue_bare {w : List UInt8} (hw : cstr (szCmd.drop i) = w) :
    paraValue base szCmd { paraStr := some i } =
      UInt64.ofInt (wordValue (base + UInt64.ofNat i) w) := by
  rw [← hw, ← wordParse_eq]
  rfl

/-! ## Decimal literals -/

/-- **A decimal literal keeps its value**, wherever the word is stored. -/
structure KeepsValue (l : Literal) : Prop where
  congruent : ∀ base szCmd i, cstr (szCmd.drop i) = l.text →
    ((paraValue base szCmd { paraStr := some i }).toNat : ℤ) % 2 ^ 32 = l.value % 2 ^ 32
  exact : -2 ^ 31 ≤ l.value → l.value < 2 ^ 31 → ∀ base szCmd i, cstr (szCmd.drop i) = l.text →
    paraValue base szCmd { paraStr := some i } = UInt64.ofInt l.value
  fixed : ∀ base szCmd i base' szCmd' i', cstr (szCmd.drop i) = l.text →
    cstr (szCmd'.drop i') = l.text →
    paraValue base szCmd { paraStr := some i } = paraValue base' szCmd' { paraStr := some i' }

theorem zero_notMem_literal (l : Literal) : 0 ∉ l.text := by
  intro h
  rcases List.mem_append.mp h with h | h
  · cases hsign : l.sign with
    | none =>
      rw [hsign] at h
      exact absurd h List.not_mem_nil
    | plus =>
      rw [hsign] at h
      exact absurd (List.mem_singleton.mp h) (by decide)
    | minus =>
      rw [hsign] at h
      exact absurd (List.mem_singleton.mp h) (by decide)
  · exact absurd (l.isDigit 0 h) (by decide)

/-- A parameter is an `int` widened to 64 bits. -/
theorem toNat_ofInt_emod (x : ℤ) : ((UInt64.ofInt x).toNat : ℤ) % 2 ^ 32 = x % 2 ^ 32 := by
  simp only [UInt64.ofInt, UInt64.toNat_ofNat']
  omega

/-- Narrowing keeps the residue. -/
theorem bmod_emod_int (x : ℤ) : x.bmod (2 ^ 32) % 2 ^ 32 = x % 2 ^ 32 := Int.bmod_emod

theorem bmod_eq_zero_iff (x : ℤ) : x.bmod (2 ^ 32) = 0 ↔ x % 2 ^ 32 = 0 := by
  rw [← Int.dvd_iff_bmod_eq_zero]
  exact Int.dvd_iff_emod_eq_zero

/-- **A literal is passed as its value exactly if** the value does not
vanish modulo `2 ^ 32`, or is written with a leading `0`. -/
theorem keepsValue_iff (l : Literal) (hlo : -2 ^ 63 ≤ l.value) (hhi : l.value < 2 ^ 63) :
    KeepsValue l ↔ l.value % 2 ^ 32 ≠ 0 ∨ l.text.head? = some 48 := by
  have hatoi := l.atoi_text hlo hhi
  constructor
  · intro h
    by_contra hnot
    rw [not_or, not_not] at hnot
    obtain ⟨hval, hhead⟩ := hnot
    have hzero : atoi l.text = 0 := by rw [hatoi, bmod_eq_zero_iff, hval]
    have hfirst : l.text.headD 0 ≠ 48 := by
      obtain ⟨c, t, htext, -⟩ := l.head_text
      rw [htext] at hhead ⊢
      exact fun hc => hhead (congrArg some hc)
    have hstored : cstr ((l.text ++ 0 :: []).drop 0) = l.text := by
      rw [List.drop_zero, cstr_append_zero (zero_notMem_literal l)]
    -- the address is passed, and it differs
    have hfixed := h.fixed 0 _ 0 1 _ 0 hstored hstored
    rw [paraValue_bare hstored, paraValue_bare hstored, wordValue, wordValue,
      if_pos ⟨hzero, hfirst⟩, if_pos ⟨hzero, hfirst⟩] at hfixed
    exact absurd hfixed (by decide)
  · intro h
    have hvalue : ∀ addr, wordValue addr l.text = l.value.bmod (2 ^ 32) := by
      intro addr
      rw [wordValue, if_neg, hatoi]
      rintro ⟨hzero, hfirst⟩
      rcases h with hval | hhead
      · rw [hatoi, bmod_eq_zero_iff] at hzero
        exact hval hzero
      · rw [List.headD_eq_head?_getD, hhead] at hfirst
        exact hfirst rfl
    refine ⟨fun base szCmd i hw => ?_, fun hlo' hhi' base szCmd i hw => ?_,
      fun base szCmd i base' szCmd' i' hw hw' => ?_⟩
    · rw [paraValue_bare hw, hvalue, toNat_ofInt_emod, bmod_emod_int]
    · rw [paraValue_bare hw, hvalue, Int.bmod_eq_of_le (by omega) (by omega)]
    · rw [paraValue_bare hw, paraValue_bare hw', hvalue, hvalue]

theorem isDigit_seven : ∀ c ∈ [(55 : UInt8)], IsDigit c :=
  List.forall_mem_singleton.mpr (by decide)

theorem isDigit_zero : ∀ c ∈ [(48 : UInt8)], IsDigit c :=
  List.forall_mem_singleton.mpr (by decide)

/-- The literal `-7`. -/
abbrev minusSeven : Literal := ⟨.minus, [55], List.cons_ne_nil 55 [], isDigit_seven⟩

/-- The literal `+0`. -/
abbrev plusZero : Literal := ⟨.plus, [48], List.cons_ne_nil 48 [], isDigit_zero⟩

theorem keepsValue_minusSeven : KeepsValue minusSeven :=
  (keepsValue_iff minusSeven (by decide) (by decide)).mpr (Or.inl (by decide))

/-- **`+0` is passed as its address.** -/
theorem not_keepsValue_plusZero : ¬ KeepsValue plusZero := by
  intro h
  have hfixed := h.fixed 0 [43, 48, 0] 0 1 [43, 48, 0] 0 (by decide) (by decide)
  exact absurd hfixed (by decide)

end TelnetServ
