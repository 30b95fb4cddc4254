import Mathlib.Data.List.TakeWhile
import Mathlib.Order.Basic
/-!
# C strings and zero-padded arrays

A `char*` is modelled by the bytes from the pointer to the end of the
array it points into. `cstr` is the string such a pointer is read as, and
`padded` the array that holds a string and zeros after it. The lemmas are
the ones code that edits such an array needs: write behind the string,
erase its last byte, read it back. `strncmp` compares two strings.
-/

namespace CStr

/-- **The string at a pointer**: the bytes before the first NUL. -/
def cstr (p : List UInt8) : List UInt8 := p.takeWhile (· ≠ 0)

/-- The byte a pointer points at. -/
def deref (p : List UInt8) : UInt8 := p.headD 0

/-- An array of `n` bytes holding `l`, the rest zero. -/
def padded (n : ℕ) (l : List UInt8) : List UInt8 := l ++ List.replicate (n - l.length) 0

variable {n : ℕ} {l r : List UInt8} {c : UInt8}

/-! ## Strings -/

@[simp] theorem deref_cons : deref (c :: r) = c := rfl

@[simp] theorem cstr_zero_cons : cstr (0 :: r) = [] := by simp [cstr]

theorem cstr_cons (hc : c ≠ 0) : cstr (c :: r) = c :: cstr r := by simp [cstr, hc]

/-- A string ends at the first NUL after it. -/
theorem cstr_append_zero (h : 0 ∉ l) : cstr (l ++ 0 :: r) = l := by
  induction l with
  | nil => exact cstr_zero_cons
  | cons c l ih =>
    simp only [List.mem_cons, not_or] at h
    rw [List.cons_append, cstr_cons (Ne.symm h.1), ih h.2]

theorem cstr_eq_self (h : 0 ∉ l) : cstr l = l := by
  rw [cstr, List.takeWhile_eq_self_iff]
  intro b hb
  simpa using fun h0 : b = 0 => h (h0 ▸ hb)

theorem zero_notMem_cstr : 0 ∉ cstr l := by
  intro h
  have := List.mem_takeWhile_imp h
  simp at this

/-- Only a string without a NUL is read back whole. -/
theorem cstr_eq_self_iff : cstr l = l ↔ 0 ∉ l :=
  ⟨fun h => h ▸ zero_notMem_cstr, cstr_eq_self⟩

/-- An array with a NUL in it is the string, the NUL and what is behind. -/
theorem exists_eq_cstr_append (h : 0 ∈ l) : ∃ rest, l = cstr l ++ 0 :: rest := by
  induction l with
  | nil => exact absurd h List.not_mem_nil
  | cons c l ih =>
    by_cases hc : c = 0
    · exact ⟨l, by rw [hc, cstr_zero_cons, List.nil_append]⟩
    · obtain ⟨rest, hrest⟩ := ih ((List.mem_cons.mp h).resolve_left (Ne.symm hc))
      exact ⟨rest, by rw [cstr_cons hc, List.cons_append, ← hrest]⟩

/-- What stands behind the NUL is not read. -/
theorem cstr_append_of_mem (h : 0 ∈ l) : cstr (l ++ r) = cstr l := by
  obtain ⟨rest, hrest⟩ := exists_eq_cstr_append h
  have happend : l ++ r = cstr l ++ 0 :: (rest ++ r) := by
    rw [← List.cons_append, ← List.append_assoc, ← hrest]
  rw [happend, cstr_append_zero zero_notMem_cstr]

/-- The string ends at or before any NUL. -/
theorem length_cstr_le {i : ℕ} (h : l[i]? = some 0) : (cstr l).length ≤ i := by
  induction l generalizing i with
  | nil => simp at h
  | cons c l ih =>
    by_cases hc : c = 0
    · simp [hc]
    · rcases i with _ | i
      · exact absurd (by simpa using h) hc
      · rw [cstr_cons hc, List.length_cons]
        have := ih (i := i) (by simpa using h)
        omega

theorem mem_of_mem_cstr (h : c ∈ cstr l) : c ∈ l := (List.takeWhile_prefix _).subset h

/-! ## Padded arrays -/

@[simp] theorem padded_nil : padded n [] = List.replicate n 0 := by simp [padded]

theorem take_padded : (padded n l).take l.length = l := by simp [padded]

theorem drop_padded : (padded n l).drop l.length = List.replicate (n - l.length) 0 := by
  simp [padded]

/-- Writing just behind the string appends to it. -/
theorem set_padded (h : l.length < n) : (padded n l).set l.length c = padded n (l ++ [c]) := by
  obtain ⟨k, hk⟩ : ∃ k, n - l.length = k + 1 := ⟨n - l.length - 1, by omega⟩
  have hk' : n - (l ++ [c]).length = k := by
    simp only [List.length_append, List.length_singleton]; omega
  rw [padded, padded, hk, hk', List.set_append_right _ _ le_rfl, Nat.sub_self,
    List.replicate_succ, List.set_cons_zero, List.append_assoc, List.singleton_append]

/-- Zeroing the last byte of the string removes it. -/
theorem set_zero_padded (h : l.length < n) :
    (padded n (l ++ [c])).set l.length 0 = padded n l := by
  have hlen : n - (l ++ [(0 : UInt8)]).length + 1 = n - l.length := by
    simp only [List.length_append, List.length_singleton]; omega
  rw [← set_padded h, List.set_set, set_padded h, padded, padded, List.append_assoc,
    List.singleton_append, ← List.replicate_succ, hlen]

/-- An array is padded exactly when its front is the string and the rest
zero. -/
theorem eq_padded_iff {a : List UInt8} (ha : a.length = n) :
    a = padded n l ↔ a.take l.length = l ∧ ∀ b ∈ a.drop l.length, b = 0 := by
  constructor
  · rintro rfl
    refine ⟨take_padded, fun b hb => ?_⟩
    rw [drop_padded] at hb
    exact List.eq_of_mem_replicate hb
  · rintro ⟨htake, hdrop⟩
    have hrest : a.drop l.length = List.replicate (n - l.length) 0 :=
      List.eq_replicate_iff.mpr ⟨by rw [List.length_drop, ha], hdrop⟩
    rw [← List.take_append_drop l.length a, htake, hrest, padded]

/-- A string shorter than its array has its terminator in it. -/
theorem padded_eq (h : l.length < n) :
    padded n l = l ++ 0 :: List.replicate (n - l.length - 1) 0 := by
  obtain ⟨k, hk⟩ : ∃ k, n - l.length = k + 1 := ⟨n - l.length - 1, by omega⟩
  rw [padded, hk, List.replicate_succ, Nat.add_sub_cancel]

/-- Writing the terminator where it is changes nothing. -/
theorem set_terminator (h : l.length < n) : (padded n l).set l.length 0 = padded n l := by
  rw [padded_eq h, List.set_append_right _ _ le_rfl, Nat.sub_self, List.set_cons_zero]

/-- The zeros behind a string are no part of it. -/
theorem cstr_padded : cstr (padded n l) = cstr l := by
  have hzeros : (List.replicate (n - l.length) (0 : UInt8)).takeWhile (· ≠ 0) = [] := by
    rcases n - l.length with _ | k
    · rfl
    · rw [List.replicate_succ]
      exact cstr_zero_cons
  rw [cstr, padded, List.takeWhile_append, hzeros, List.append_nil]
  split_ifs with h
  · exact ((List.takeWhile_prefix _).eq_of_length h).symm
  · rfl

theorem length_padded (h : l.length ≤ n) : (padded n l).length = n := by
  rw [padded, List.length_append, List.length_replicate]
  omega

theorem deref_padded : deref (padded n l) = deref l := by
  cases l with
  | nil => cases n <;> rfl
  | cons => rfl

/-! ## Comparison -/

/-- **`strncmp`**, by unsigned bytes; behind the end of a list there is its
NUL. -/
def strncmp : ℕ → List UInt8 → List UInt8 → ℤ
  | 0, _, _ => 0
  | n + 1, p, q =>
    if deref p ≠ deref q then (deref p).toNat - (deref q).toNat
    else if deref p = 0 then 0
    else strncmp n p.tail q.tail

variable {p q : List UInt8}

/-- A common beginning is skipped. -/
theorem strncmp_append (h : 0 ∉ l) :
    strncmp (l.length + n) (l ++ p) (l ++ q) = strncmp n p q := by
  induction l with
  | nil => rw [List.length_nil, Nat.zero_add, List.nil_append, List.nil_append]
  | cons c l ih =>
    simp only [List.mem_cons, not_or] at h
    rw [List.length_cons, Nat.add_right_comm, List.cons_append, List.cons_append, strncmp,
      deref_cons, deref_cons, if_neg (not_not_intro rfl), if_neg (Ne.symm h.1), List.tail_cons,
      List.tail_cons, ih h.2]

/-- The first byte that is not the same decides. -/
theorem strncmp_cons_ne {d : UInt8} (h : c ≠ d) :
    strncmp (n + 1) (c :: p) (d :: q) = (c.toNat : ℤ) - d.toNat := by
  rw [strncmp, deref_cons, deref_cons, if_pos h]

theorem strncmp_cons (hc : c ≠ 0) : strncmp (n + 1) (c :: p) (c :: q) = strncmp n p q := by
  rw [strncmp, deref_cons, deref_cons, if_neg (not_not_intro rfl), if_neg hc, List.tail_cons,
    List.tail_cons]

/-- **Strings of one length that begin two texts** are compared first. -/
theorem strncmp_append_lt_iff {r : List UInt8} (hlen : l.length = r.length) (hl : 0 ∉ l) :
    strncmp (l.length + n) (l ++ p) (r ++ q) < 0 ↔
      strncmp l.length (l ++ []) (r ++ []) < 0 ∨ l = r ∧ strncmp n p q < 0 := by
  induction l generalizing r with
  | nil =>
    rw [List.eq_nil_of_length_eq_zero hlen.symm, List.length_nil, Nat.zero_add, List.nil_append,
      List.nil_append]
    simp [strncmp]
  | cons c l ih =>
    cases r with
    | nil => cases hlen
    | cons d r =>
      simp only [List.mem_cons, not_or] at hl
      rw [List.length_cons, Nat.add_right_comm, List.cons_append, List.cons_append,
        List.cons_append, List.cons_append]
      by_cases heq : c = d
      · subst heq
        rw [strncmp_cons (Ne.symm hl.1), strncmp_cons (Ne.symm hl.1), ih (Nat.succ.inj hlen) hl.2,
          List.cons.injEq]
        simp only [true_and]
      · rw [strncmp_cons_ne heq, strncmp_cons_ne heq, List.cons.injEq]
        simp only [heq, false_and, or_false]

end CStr
