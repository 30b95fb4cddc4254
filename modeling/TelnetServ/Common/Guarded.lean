import TelnetServ.Common.Monitor
/-!
# Code behind a lock

An operation of a monitor does its work at once. Real code does it statement
by statement, and gives the lock back at its end or where it waits. `Leads`
says what a turn of such code comes to, and `Implements` that this is what the
operation of the monitor does. A signal is sent in the middle of a turn, while
the monitor sends it at the end; `Woken` is what it makes of the callers, and
is kept by all that others can do in between.
-/

namespace Monitor

/-- **A statement** of an operation that has the lock. -/
inductive Statement (κ σ π ρ : Type*) where
  | goOn (pc : π) (shared : σ)
  | sends (signal : Signal κ) (pc : π)
  /-- Waits, and begins again when it has been woken. -/
  | waits (c : κ)
  | returns (result : ρ)
  /-- An assertion fails. -/
  | fails

/-- **The code of the operations.** -/
structure Code (κ σ ο π ρ : Type*) where
  enter : ο → π
  statement : π → σ → Statement κ σ π ρ

section Code

variable {κ σ ο π ρ : Type*} {P : Code κ σ ο π ρ} {x y : σ} {pc : π} {sent : Signal κ}
variable {a : Attempt κ σ ρ}

/-- **What a turn comes to** that found the object as `x`, has made `y` of it
and has sent a signal, if it has sent one. -/
inductive Code.Leads (P : Code κ σ ο π ρ) (x : σ) : π → σ → Signal κ → Attempt κ σ ρ → Prop
  | goOn {pc pc' : π} {y y' : σ} {sent : Signal κ} {a : Attempt κ σ ρ}
      (h : P.statement pc y = .goOn pc' y') (hl : P.Leads x pc' y' sent a) :
      P.Leads x pc y sent a
  | sends {pc pc' : π} {y : σ} {signal : Signal κ} {a : Attempt κ σ ρ}
      (h : P.statement pc y = .sends signal pc') (hl : P.Leads x pc' y signal a) :
      P.Leads x pc y .silent a
  | waits {pc : π} {c : κ} (h : P.statement pc x = .waits c) : P.Leads x pc x .silent (.waits c)
  | returns {pc : π} {y : σ} {result : ρ} {sent : Signal κ}
      (h : P.statement pc y = .returns result) : P.Leads x pc y sent (.returns y result sent)

/-- **The code does in a turn what the monitor does at once.** -/
def Code.Implements (P : Code κ σ ο π ρ) (M : Monitor κ σ ο ρ) : Prop :=
  ∀ o x, P.Leads x (P.enter o) x .silent (M.attempt o x)

/-- A turn goes on as its next statement says. -/
theorem Code.Leads.next (h : P.Leads x pc y sent a) :
    match P.statement pc y with
    | .goOn pc' y' => P.Leads x pc' y' sent a
    | .sends signal pc' => sent = .silent ∧ P.Leads x pc' y signal a
    | .waits c => y = x ∧ sent = .silent ∧ a = .waits c
    | .returns result => a = .returns y result sent
    | .fails => False := by
  cases h with
  | goOn h hl =>
    rw [h]
    exact hl
  | sends h hl =>
    rw [h]
    exact ⟨rfl, hl⟩
  | waits h =>
    rw [h]
    exact ⟨rfl, rfl, rfl⟩
  | returns h =>
    rw [h]

end Code

/-! ## Signals -/

section Woken

variable {κ ο : Type*} [DecidableEq κ] {signal : Signal κ} {c : κ} {o : ο}
variable {ts ts' : List (Caller κ ο)} {t : Caller κ ο} {i k : ℕ}

/-- **What a signal may make of the callers.** -/
def Woken (signal : Signal κ) (ts ts' : List (Caller κ ο)) : Prop :=
  ∃ pick, signalled pick signal ts = ts'

theorem woken_silent : Woken .silent ts ts' ↔ ts' = ts :=
  ⟨fun ⟨_, h⟩ => h.symm, fun h => ⟨0, h.symm⟩⟩

theorem woken_notifyAll : Woken (.notifyAll c) ts ts' ↔
    ts' = ts.map fun t => if t.waitsFor = some c then ⟨t.op, none⟩ else t :=
  ⟨fun ⟨_, h⟩ => h.symm, fun h => ⟨0, h.symm⟩⟩

theorem wakeNth_waiters (pre post : List (Caller κ ο)) (o : ο) :
    wakeNth c (waiters c pre) (pre ++ ⟨o, some c⟩ :: post) = pre ++ ⟨o, none⟩ :: post := by
  induction pre with
  | nil => simp [wakeNth, waiters]
  | cons t pre ih =>
    have hcount : waiters c (t :: pre) = waiters c pre + if t.waitsFor = some c then 1 else 0 := by
      simp [waiters, List.countP_cons]
    rw [List.cons_append, wakeNth, hcount]
    by_cases ht : t.waitsFor = some c
    · rw [if_pos ht, if_pos ht, if_neg (Nat.succ_ne_zero _), Nat.add_sub_cancel, ih]
      rfl
    · rw [if_neg ht, if_neg ht, Nat.add_zero, ih]
      rfl

/-- **`notify` wakes any one of those that wait.** -/
theorem woken_notify : Woken (.notify c) ts ts' ↔ (waiters c ts = 0 ∧ ts' = ts) ∨
    ∃ k o, ts[k]? = some ⟨o, some c⟩ ∧ ts' = ts.set k ⟨o, none⟩ := by
  constructor
  · rintro ⟨pick, rfl⟩
    rcases notify_cases pick c ts with hnone | ⟨pre, o, post, hts, hwoken⟩
    · exact Or.inl hnone
    · refine Or.inr ⟨pre.length, o, ?_, ?_⟩
      · rw [hts, List.getElem?_append_right (Nat.le_refl _), Nat.sub_self]
        rfl
      · rw [hwoken, hts]
        simp
  · rintro (⟨hnone, rfl⟩ | ⟨k, o, hk, rfl⟩)
    · exact ⟨0, wakeNth_of_none hnone⟩
    · obtain ⟨pre, post, hsplit, -, hset⟩ := exists_split hk
      refine ⟨waiters c pre, ?_⟩
      have hlt : waiters c pre < waiters c ts := by
        rw [hsplit, waiters_split, if_pos rfl, waiters, waiters, List.countP_append]
        omega
      rw [signalled, Nat.mod_eq_of_lt hlt, hset, hsplit, wakeNth_waiters]

/-- **Another call comes.** -/
theorem Woken.append (h : Woken signal ts ts') (o : ο) :
    Woken signal (ts ++ [⟨o, none⟩]) (ts' ++ [⟨o, none⟩]) := by
  cases signal with
  | silent =>
    rw [woken_silent] at h ⊢
    rw [h]
  | notify c =>
    rw [woken_notify] at h ⊢
    rcases h with ⟨hnone, rfl⟩ | ⟨k, o', hk, rfl⟩
    · refine Or.inl ⟨?_, rfl⟩
      rw [waiters_split, List.append_nil, hnone]
      rfl
    · have hlt := (List.getElem?_eq_some_iff.mp hk).1
      refine Or.inr ⟨k, o', ?_, ?_⟩
      · rwa [List.getElem?_append_left hlt]
      · rw [List.set_append_left _ _ hlt]
  | notifyAll c =>
    rw [woken_notifyAll] at h ⊢
    rw [h, List.map_append]
    rfl

/-- **Another wakes without a signal.** -/
theorem Woken.wake (h : Woken signal ts ts') (hi : ts'[i]? = some ⟨o, some c⟩) :
    ts[i]? = some ⟨o, some c⟩ ∧ Woken signal (ts.set i ⟨o, none⟩) (ts'.set i ⟨o, none⟩) := by
  cases signal with
  | silent =>
    rw [woken_silent] at h
    subst h
    exact ⟨hi, woken_silent.mpr rfl⟩
  | notify d =>
    rcases woken_notify.mp h with ⟨hnone, rfl⟩ | ⟨k, o', hk, rfl⟩
    · refine ⟨hi, woken_notify.mpr (Or.inl ⟨?_, rfl⟩)⟩
      rw [waiters_eq_zero_iff] at hnone ⊢
      intro t ht
      rcases List.mem_or_eq_of_mem_set ht with hmem | rfl
      · exact hnone t hmem
      · exact (Option.some_ne_none d).symm
    · have hlt := (List.getElem?_eq_some_iff.mp hk).1
      have hne : k ≠ i := by
        rintro rfl
        rw [List.getElem?_set_self hlt] at hi
        cases Option.some_inj.mp hi
      rw [List.getElem?_set_ne hne] at hi
      refine ⟨hi, woken_notify.mpr (Or.inr ⟨k, o', ?_, List.set_comm _ _ hne⟩)⟩
      rwa [List.getElem?_set_ne hne.symm]
  | notifyAll d =>
    rw [woken_notifyAll] at h
    subst h
    rw [List.getElem?_map] at hi
    obtain ⟨t, ht, heq⟩ := Option.map_eq_some_iff.mp hi
    split_ifs at heq with hd
    · cases heq
    · subst heq
      refine ⟨ht, woken_notifyAll.mpr ?_⟩
      rw [List.map_set]
      rfl

/-- **The one that signals returns.** -/
theorem Woken.eraseIdx (h : Woken signal ts ts') (hi : ts[i]? = some t) (ht : t.waitsFor = none) :
    Woken signal (ts.eraseIdx i) (ts'.eraseIdx i) := by
  cases signal with
  | silent =>
    rw [woken_silent] at h ⊢
    rw [h]
  | notify c =>
    rcases woken_notify.mp h with ⟨hnone, rfl⟩ | ⟨k, o, hk, rfl⟩
    · refine woken_notify.mpr (Or.inl ⟨?_, rfl⟩)
      rw [waiters_eq_zero_iff] at hnone ⊢
      exact fun u hu => hnone u (List.mem_of_mem_eraseIdx hu)
    · have hne : k ≠ i := by
        rintro rfl
        rw [hk] at hi
        obtain rfl := Option.some_inj.mp hi
        cases ht
      refine woken_notify.mpr (Or.inr ?_)
      rcases Nat.lt_or_gt_of_ne hne with hlt | hgt
      · refine ⟨k, o, ?_, List.eraseIdx_set_gt hlt⟩
        rwa [List.getElem?_eraseIdx_of_lt hlt]
      · refine ⟨k - 1, o, ?_, List.eraseIdx_set_lt hgt⟩
        rwa [List.getElem?_eraseIdx_of_ge (by omega), Nat.sub_add_cancel (by omega)]
  | notifyAll c =>
    rw [woken_notifyAll] at h ⊢
    rw [h, List.eraseIdx_map]

end Woken

end Monitor
