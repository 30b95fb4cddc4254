import Mathlib.Data.List.Basic
import Mathlib.Algebra.Group.Nat.Even
import Mathlib.Data.List.Count
import Mathlib.Data.List.Induction
/-!
# Marks taken in pairs

A mark that opens and closes by turns: of its occurrences in a text the
first opens, the second closes, the third opens again. `OpenAt` says where
the mark left open stands, and `PairedWithin` that no pair is further apart
than a bound. Both are statements about splittings of the text; the lemmas
say what one more element does to them, which is what a scan from the left
needs.
-/

namespace Pairing

variable {α : Type*} [DecidableEq α]

/-- A mark has been opened and not yet closed. -/
def isOpen (a : α) (l : List α) : Bool := decide (¬ Even (l.count a))

/-- `front` ends where a mark opens, and `mid` follows it to the end of the
text without closing it. -/
structure OpenAt (a : α) (l front mid : List α) : Prop where
  split : l = front ++ a :: mid
  even : Even (front.count a)
  inside : a ∉ mid

/-- **Between the marks of a pair stand at most `d` elements.** -/
def PairedWithin (a : α) (d : ℕ) (l : List α) : Prop :=
  ∀ front mid back, l = front ++ a :: (mid ++ a :: back) → Even (front.count a) → a ∉ mid →
    mid.length ≤ d

variable {a c : α} {d : ℕ} {l r front mid front' mid' : List α}

/-! ## Open or not -/

theorem isOpen_eq_false_iff : isOpen a l = false ↔ Even (l.count a) := by simp [isOpen]

@[simp] theorem isOpen_nil : isOpen a [] = false := by simp [isOpen]

/-- Each mark changes it. -/
@[simp] theorem isOpen_concat_self : isOpen a (l ++ [a]) = !isOpen a l := by
  simp only [isOpen, List.count_append, List.count_singleton_self, Nat.even_add_one, not_not,
    decide_not, Bool.not_not]

/-- Nothing else does. -/
theorem isOpen_concat_of_ne (hc : c ≠ a) : isOpen a (l ++ [c]) = isOpen a l := by
  rw [isOpen, isOpen, List.count_append, List.count_singleton, if_neg (by simpa using hc),
    add_zero]

theorem isOpen_append_of_notMem (hr : a ∉ r) : isOpen a (l ++ r) = isOpen a l := by
  rw [isOpen, isOpen, List.count_append, List.count_eq_zero_of_not_mem hr, add_zero]

/-- Behind marks that are all closed a text is read as if it stood alone. -/
theorem isOpen_append_of_closed (hl : isOpen a l = false) : isOpen a (l ++ r) = isOpen a r := by
  rw [isOpen_eq_false_iff] at hl
  simp only [isOpen, List.count_append, Nat.even_add, hl, true_iff]

theorem isOpen_of_notMem (h : a ∉ l) : isOpen a l = false := by
  rw [isOpen_eq_false_iff, List.count_eq_zero_of_not_mem h]
  exact Even.zero

/-! ## The open mark -/

theorem OpenAt.isOpen_eq (h : OpenAt a l front mid) : isOpen a l = true := by
  rw [← Bool.not_eq_false, isOpen_eq_false_iff, h.split, List.count_append,
    List.count_cons_self, List.count_eq_zero_of_not_mem h.inside, zero_add, Nat.even_add_one,
    not_not]
  exact h.even

/-- Another element leaves the open mark where it is. -/
theorem OpenAt.concat (h : OpenAt a l front mid) (hc : c ≠ a) :
    OpenAt a (l ++ [c]) front (mid ++ [c]) := by
  refine ⟨by rw [h.split, List.append_assoc]; rfl, h.even, ?_⟩
  rw [List.mem_append, List.mem_singleton, not_or]
  exact ⟨h.inside, Ne.symm hc⟩

/-- **Where a mark is open, there is one that opened it.** -/
theorem exists_openAt (h : isOpen a l = true) : ∃ front mid, OpenAt a l front mid := by
  induction l using List.reverseRecOn with
  | nil => exact absurd h (by simp)
  | append_singleton l c ih =>
    by_cases hc : c = a
    · subst hc
      rw [isOpen_concat_self, Bool.not_eq_true', isOpen_eq_false_iff] at h
      exact ⟨l, [], rfl, h, List.not_mem_nil⟩
    · rw [isOpen_concat_of_ne hc] at h
      obtain ⟨front, mid, ho⟩ := ih h
      exact ⟨front, mid ++ [c], ho.concat hc⟩

/-- The mark that is open is the last one. -/
theorem OpenAt.unique (h : OpenAt a l front mid) (h' : OpenAt a l front' mid') :
    front = front' ∧ mid = mid' := by
  have hsplit : front ++ a :: mid = front' ++ a :: mid' := h.split.symm.trans h'.split
  rcases List.append_eq_append_iff.mp hsplit with ⟨m, hf, hm⟩ | ⟨m, hf, hm⟩
  · cases m with
    | nil =>
      rw [List.append_nil] at hf
      rw [List.nil_append, List.cons.injEq] at hm
      exact ⟨hf.symm, hm.2⟩
    | cons b m =>
      rw [List.cons_append, List.cons.injEq] at hm
      exact absurd (hm.2 ▸ by simp) h.inside
  · cases m with
    | nil =>
      rw [List.append_nil] at hf
      rw [List.nil_append, List.cons.injEq] at hm
      exact ⟨hf, hm.2.symm⟩
    | cons b m =>
      rw [List.cons_append, List.cons.injEq] at hm
      exact absurd (hm.2 ▸ by simp) h'.inside

/-- Before the last element of a text, if it is not the mark. -/
theorem OpenAt.of_concat (h : OpenAt a (l ++ [c]) front mid) (hc : c ≠ a) :
    ∃ mid', OpenAt a l front mid' := by
  rcases List.eq_nil_or_concat' mid with rfl | ⟨m, b, rfl⟩
  · have := List.append_inj_right' h.split rfl
    exact absurd (List.singleton_injective this) hc
  · have hsplit : l ++ [c] = (front ++ a :: m) ++ [b] := by
      rw [h.split, List.append_assoc, List.cons_append]
    refine ⟨m, List.append_inj_left' hsplit rfl, h.even, fun hm => h.inside ?_⟩
    exact List.mem_append_left _ hm

/-! ## Pairs -/

theorem pairedWithin_nil : PairedWithin a d [] := by
  intro front mid back h
  exact absurd h (by simp)

/-- What holds of a text holds of its beginnings. -/
theorem PairedWithin.of_append (h : PairedWithin a d (l ++ r)) : PairedWithin a d l := by
  intro front mid back hl
  refine h front mid (back ++ r) ?_
  rw [hl]
  simp

/-- An element that is not the mark closes no pair. -/
theorem PairedWithin.concat_of_ne (h : PairedWithin a d l) (hc : c ≠ a) :
    PairedWithin a d (l ++ [c]) := by
  intro front mid back hl heven hmid
  rcases List.eq_nil_or_concat' back with rfl | ⟨back, b, rfl⟩
  · have hl' : l ++ [c] = (front ++ a :: mid) ++ [a] := by rw [hl]; simp
    exact absurd (List.singleton_injective (List.append_inj_right' hl' rfl)) hc
  · have hl' : l ++ [c] = (front ++ a :: (mid ++ a :: back)) ++ [b] := by rw [hl]; simp
    exact h front mid back (List.append_inj_left' hl' rfl) heven hmid

/-- Nor does a mark that opens one. -/
theorem PairedWithin.concat_of_closed (h : PairedWithin a d l) (he : isOpen a l = false) :
    PairedWithin a d (l ++ [a]) := by
  intro front mid back hl heven hmid
  rcases List.eq_nil_or_concat' back with rfl | ⟨back, b, rfl⟩
  · have hl' : l ++ [a] = (front ++ a :: mid) ++ [a] := by rw [hl]; simp
    have ho : OpenAt a l front mid := ⟨List.append_inj_left' hl' rfl, heven, hmid⟩
    rw [ho.isOpen_eq] at he
    exact absurd he Bool.noConfusion
  · have hl' : l ++ [a] = (front ++ a :: (mid ++ a :: back)) ++ [b] := by rw [hl]; simp
    exact h front mid back (List.append_inj_left' hl' rfl) heven hmid

/-- **A mark that closes one** is in time or not. -/
theorem OpenAt.pairedWithin_iff (ho : OpenAt a l front mid) (h : PairedWithin a d l) :
    PairedWithin a d (l ++ [a]) ↔ mid.length ≤ d := by
  constructor
  · intro hp
    refine hp front mid [] ?_ ho.even ho.inside
    rw [ho.split]
    simp
  · intro hle front' mid' back hl heven hmid
    rcases List.eq_nil_or_concat' back with rfl | ⟨back, b, rfl⟩
    · have hl' : l ++ [a] = (front' ++ a :: mid') ++ [a] := by rw [hl]; simp
      rw [← (ho.unique ⟨List.append_inj_left' hl' rfl, heven, hmid⟩).2]
      exact hle
    · have hl' : l ++ [a] = (front' ++ a :: (mid' ++ a :: back)) ++ [b] := by rw [hl]; simp
      exact h front' mid' back (List.append_inj_left' hl' rfl) heven hmid

/-- **Two texts put together**, where the first leaves no mark open. -/
theorem PairedWithin.append (h : PairedWithin a d l) (hl : isOpen a l = false)
    (hr : PairedWithin a d r) : PairedWithin a d (l ++ r) := by
  induction r using List.reverseRecOn with
  | nil => rwa [List.append_nil]
  | append_singleton r c ih =>
    have hboth := ih hr.of_append
    rw [← List.append_assoc]
    by_cases hc : c = a
    · subst hc
      cases ho : isOpen c r with
      | false => exact hboth.concat_of_closed ((isOpen_append_of_closed hl).trans ho)
      | true =>
        obtain ⟨front, mid, hopen⟩ := exists_openAt ho
        have hopen' : OpenAt c (l ++ r) (l ++ front) mid := by
          refine ⟨by rw [hopen.split, List.append_assoc], ?_, hopen.inside⟩
          rw [List.count_append]
          exact (isOpen_eq_false_iff.mp hl).add hopen.even
        exact (hopen'.pairedWithin_iff hboth).mpr ((hopen.pairedWithin_iff hr.of_append).mp hr)
    · exact hboth.concat_of_ne hc

theorem pairedWithin_of_notMem (h : a ∉ l) : PairedWithin a d l := by
  intro front mid back hl
  exact absurd (by rw [hl]; simp) h

end Pairing
