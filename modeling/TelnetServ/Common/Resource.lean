import Mathlib.Data.Finset.Basic
import Mathlib.Data.List.Count
/-!
# Resources

A trace acquires and releases resources named by `ι`. `held` is what it
leaves acquired, `Sound` says that nothing is acquired twice or released
without being held, and `Sound.count` draws the consequence for a whole
trace: each name is released as often as it was acquired, once less while
it is held.
-/

/-- One use of a resource. -/
inductive Use (ι : Type*) where
  | acquire (i : ι)
  | release (i : ι)
  deriving DecidableEq

namespace Use

variable {ι : Type*} [DecidableEq ι] {s : Finset ι} {t u : List (Use ι)}

/-- What is held after a trace that starts with `s` held. -/
def held (s : Finset ι) : List (Use ι) → Finset ι
  | [] => s
  | acquire i :: t => held (insert i s) t
  | release i :: t => held (s.erase i) t

/-- **Every acquired resource was free and every released one held.** -/
def Sound (s : Finset ι) : List (Use ι) → Prop
  | [] => True
  | acquire i :: t => i ∉ s ∧ Sound (insert i s) t
  | release i :: t => i ∈ s ∧ Sound (s.erase i) t

@[simp] theorem held_nil : held s ([] : List (Use ι)) = s := rfl

@[simp] theorem held_acquire (i : ι) : held s (acquire i :: t) = held (insert i s) t := rfl

@[simp] theorem held_release (i : ι) : held s (release i :: t) = held (s.erase i) t := rfl

@[simp] theorem sound_nil : Sound s ([] : List (Use ι)) := trivial

@[simp] theorem sound_acquire {i : ι} :
    Sound s (acquire i :: t) ↔ i ∉ s ∧ Sound (insert i s) t := Iff.rfl

@[simp] theorem sound_release {i : ι} :
    Sound s (release i :: t) ↔ i ∈ s ∧ Sound (s.erase i) t := Iff.rfl

theorem held_append : held s (t ++ u) = held (held s t) u := by
  induction t generalizing s with
  | nil => rfl
  | cons a t ih => cases a <;> exact ih

/-- What was held besides only adds to what is held. -/
theorem held_mono {s s' : Finset ι} (h : s ⊆ s') (t : List (Use ι)) : held s t ⊆ held s' t := by
  induction t generalizing s s' with
  | nil => exact h
  | cons a t ih =>
    cases a with
    | acquire i => exact ih (Finset.insert_subset_insert i h)
    | release i => exact ih (Finset.erase_subset_erase i h)

theorem sound_append : Sound s (t ++ u) ↔ Sound s t ∧ Sound (held s t) u := by
  induction t generalizing s with
  | nil => simp
  | cons a t ih =>
    cases a with
    | acquire i => rw [List.cons_append, sound_acquire, ih, sound_acquire, held_acquire, and_assoc]
    | release i => rw [List.cons_append, sound_release, ih, sound_release, held_release, and_assoc]

/-- **The balance of a sound trace.** What was held or acquired is what was
released or is still held. -/
theorem Sound.count (h : Sound s t) (i : ι) :
    t.count (acquire i) + (if i ∈ s then 1 else 0) =
      t.count (release i) + (if i ∈ held s t then 1 else 0) := by
  induction t generalizing s with
  | nil => rfl
  | cons a t ih =>
    cases a with
    | acquire j =>
      have ht := ih h.2
      rw [held_acquire]
      by_cases hij : j = i
      · subst hij
        simp only [Finset.mem_insert_self, if_true] at ht
        simp only [List.count_cons, if_neg h.1]
        simpa using ht
      · simp only [Finset.mem_insert, Ne.symm hij, false_or] at ht
        simpa [List.count_cons, hij] using ht
    | release j =>
      have ht := ih h.2
      rw [held_release]
      by_cases hij : j = i
      · subst hij
        simp only [Finset.mem_erase, ne_eq, not_true_eq_false, false_and, if_false] at ht
        simp only [List.count_cons, if_pos h.1]
        simp only [beq_self_eq_true, if_true, reduceCtorEq, beq_iff_eq, if_false]
        omega
      · simp only [Finset.mem_erase, ne_eq, Ne.symm hij, not_false_eq_true, true_and] at ht
        simpa [List.count_cons, hij] using ht

end Use
