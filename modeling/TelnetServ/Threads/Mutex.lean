import TelnetServ.Common.Guarded
import Mathlib.Data.List.Nodup
/-!
# `MutexLock` and `Condition`

The lock everything else rests on, with each statement of `lock`, `unlock` and
`wait` a step of its own, and so each statement behind a `MutexLockGuard`. The
threads take their steps in any order. `holder_` is read without the lock, by
any thread, and tells each of them the truth (`isLockedByThisThread_iff`).
-/

namespace TelnetServ

open Monitor

/-! ## Model -/

/-- How a thread leaves a guarded section. -/
inductive Leave (κ ρ : Type*) where
  | waits (c : κ)
  | returns (result : ρ)

/-- The statement a thread leaves by. -/
def Leave.statement {κ σ π ρ : Type*} : Leave κ ρ → Statement κ σ π ρ
  | waits c => .waits c
  | returns result => .returns result

/-- Where a thread is in its call. -/
inductive GuardPc (κ π ρ : Type*) where
  /-- Before `pthread_mutex_lock`, or woken in `pthread_cond_wait`. -/
  | locking
  /-- Before `assignHolder`, in `lock` or in `~UnassignGuard`. -/
  | assigning
  | inside (pc : π)
  /-- Before `unassignHolder`, in `unlock` or in `UnassignGuard`. -/
  | unassigning (leave : Leave κ ρ)
  /-- Before `pthread_mutex_unlock` or `pthread_cond_wait`. -/
  | unlocking (leave : Leave κ ρ)
  | sleeping (c : κ)

namespace GuardPc

variable {κ π ρ : Type*}

/-- The condition a thread sleeps for. -/
@[simp] def waitsFor : GuardPc κ π ρ → Option κ
  | sleeping c => some c
  | locking | assigning | inside _ | unassigning _ | unlocking _ => none

/-- Whether a thread has `mutex_`. -/
@[simp] def holds : GuardPc κ π ρ → Bool
  | assigning | inside _ | unassigning _ | unlocking _ => true
  | locking | sleeping _ => false

/-- Whether a thread is behind `assignHolder` and before `unassignHolder`. -/
@[simp] def assigned : GuardPc κ π ρ → Bool
  | inside _ | unassigning _ => true
  | locking | assigning | unlocking _ | sleeping _ => false

end GuardPc

/-- A thread and its call. -/
structure GuardedThread (κ ο π ρ : Type*) where
  tid : ℤ
  op : ο
  pc : GuardPc κ π ρ

/-- **A `MutexLock`, what it guards and who calls.** -/
structure GuardState (κ σ ο π ρ : Type*) where
  shared : σ
  /-- The thread that has `mutex_`. -/
  mutex : Option ℤ := none
  /-- `holder_`. -/
  holder : ℤ := 0
  threads : List (GuardedThread κ ο π ρ) := []
  aborted : Bool := false

/-- A step: a thread calls, goes on by a statement, or wakes without a signal.
`woken` is the thread that `pthread_cond_signal` wakes. -/
inductive GuardStep (ο : Type*) where
  | call (tid : ℤ) (o : ο)
  | run (i woken : ℕ)
  | wake (i : ℕ)

section Model

variable {κ σ ο π ρ : Type*}

namespace GuardState

variable (s : GuardState κ σ ο π ρ)

/-- `isLockedByThisThread`, of the thread `tid`. -/
def isLockedByThisThread (tid : ℤ) : Bool := s.holder = tid

def goTo (i : ℕ) (t : GuardedThread κ ο π ρ) (pc : GuardPc κ π ρ) : GuardState κ σ ο π ρ :=
  { s with threads := s.threads.set i { t with pc := pc } }

@[simp] theorem goTo_holder (i : ℕ) (t : GuardedThread κ ο π ρ) (pc : GuardPc κ π ρ) :
    (s.goTo i t pc).holder = s.holder := rfl

@[simp] theorem goTo_mutex (i : ℕ) (t : GuardedThread κ ο π ρ) (pc : GuardPc κ π ρ) :
    (s.goTo i t pc).mutex = s.mutex := rfl

end GuardState

variable [DecidableEq κ]

/-- The thread goes on if it sleeps for `c`. -/
def wokenBy (c : κ) (t : GuardedThread κ ο π ρ) : GuardedThread κ ο π ρ :=
  if t.pc.waitsFor = some c then { t with pc := .locking } else t

/-- **`notify` and `notifyAll`.** -/
def sendSignal (woken : ℕ) : Signal κ → List (GuardedThread κ ο π ρ) →
    List (GuardedThread κ ο π ρ)
  | .silent, threads => threads
  | .notify c, threads =>
    match threads[woken]? with
    | none => threads
    | some t => threads.set woken (wokenBy c t)
  | .notifyAll c, threads => threads.map (wokenBy c)

namespace GuardState

variable (P : Code κ σ ο π ρ) (s : GuardState κ σ ο π ρ)

/-- **The next statement of a thread.** -/
def runThread (i : ℕ) (t : GuardedThread κ ο π ρ) (woken : ℕ) :
    List (ο × ρ) × GuardState κ σ ο π ρ :=
  match t.pc with
  | .locking =>
    match s.mutex with
    | none => ([], { s.goTo i t .assigning with mutex := some t.tid })
    | some _ => ([], s)
  | .assigning => ([], { s.goTo i t (.inside (P.enter t.op)) with holder := t.tid })
  | .inside pc =>
    match P.statement pc s.shared with
    | .goOn pc' shared => ([], { s.goTo i t (.inside pc') with shared := shared })
    | .sends signal pc' =>
      ([], { s with
        threads := sendSignal woken signal (s.threads.set i { t with pc := .inside pc' }) })
    | .waits c => ([], s.goTo i t (.unassigning (.waits c)))
    | .returns result => ([], s.goTo i t (.unassigning (.returns result)))
    | .fails => ([], { s with aborted := true })
  | .unassigning leave => ([], { s.goTo i t (.unlocking leave) with holder := 0 })
  -- `pthread_cond_wait` gives the lock back and sleeps at once
  | .unlocking (.waits c) => ([], { s.goTo i t (.sleeping c) with mutex := none })
  | .unlocking (.returns result) =>
    ([(t.op, result)], { s with mutex := none, threads := s.threads.eraseIdx i })
  | .sleeping _ => ([], s)

/-- **A step.** -/
def step : GuardStep ο → List (ο × ρ) × GuardState κ σ ο π ρ
  | .call tid o => ([], { s with threads := s.threads ++ [⟨tid, o, .locking⟩] })
  | .run i woken =>
    match s.threads[i]? with
    | none => ([], s)
    | some t => s.runThread P i t woken
  | .wake i =>
    match s.threads[i]? with
    | none => ([], s)
    | some t =>
      match t.pc with
      | .sleeping _ => ([], s.goTo i t .locking)
      | .locking | .assigning | .inside _ | .unassigning _ | .unlocking _ => ([], s)

/-- The condition that a thread is about to `notify`. -/
def notifies (t : GuardedThread κ ο π ρ) : Option κ :=
  match t.pc with
  | .inside pc =>
    match P.statement pc s.shared with
    | .sends (.notify c) _ => some c
    | .sends _ _ | .goOn _ _ | .waits _ | .returns _ | .fails => none
  | .locking | .assigning | .unassigning _ | .unlocking _ | .sleeping _ => none

/-- **What is promised of the threads**: a thread has an id of its own and makes
one call at a time; and `pthread_cond_signal` wakes one that sleeps, if one
does. -/
def Enabled : GuardStep ο → Prop
  | .call tid _ => s.aborted = false ∧ tid ≠ 0 ∧ ∀ t ∈ s.threads, t.tid ≠ tid
  | .run i woken => s.aborted = false ∧ ∀ t ∈ s.threads[i]?, ∀ c ∈ s.notifies P t,
      (∃ u ∈ s.threads[woken]?, u.pc.waitsFor = some c) ∨ ∀ u ∈ s.threads, u.pc.waitsFor ≠ some c
  | .wake _ => s.aborted = false

instance : (a : GuardStep ο) → Decidable (s.Enabled P a)
  | .call tid _ =>
    inferInstanceAs (Decidable (s.aborted = false ∧ tid ≠ 0 ∧ ∀ t ∈ s.threads, t.tid ≠ tid))
  | .run i woken =>
    inferInstanceAs (Decidable (s.aborted = false ∧
      ∀ t ∈ s.threads[i]?, ∀ c ∈ s.notifies P t,
        (∃ u ∈ s.threads[woken]?, u.pc.waitsFor = some c) ∨
          ∀ u ∈ s.threads, u.pc.waitsFor ≠ some c))
  | .wake _ => inferInstanceAs (Decidable (s.aborted = false))

end GuardState

/-- **The threads at the lock as a machine.** -/
def guardMachine (P : Code κ σ ο π ρ) :
    Machine (GuardState κ σ ο π ρ) (GuardStep ο) (ο × ρ) where
  step s a := s.step P a

/-- The operation a step begins. -/
def guardCalls : GuardStep ο → List ο
  | .call _ o => [o]
  | .run _ _ | .wake _ => []

/-- **What a step does**, `called` being the call it begins and `done` the one
that returns. -/
inductive GuardMoves (P : Code κ σ ο π ρ) (s : GuardState κ σ ο π ρ) :
    List ο → List (ο × ρ) → GuardState κ σ ο π ρ → Prop
  | call {tid : ℤ} {o : ο} (hne : tid ≠ 0) (hnew : ∀ t ∈ s.threads, t.tid ≠ tid) :
      GuardMoves P s [o] [] { s with threads := s.threads ++ [⟨tid, o, .locking⟩] }
  | idle : GuardMoves P s [] [] s
  | wake {i : ℕ} {t : GuardedThread κ ο π ρ} {c : κ} (h : s.threads[i]? = some t)
      (hpc : t.pc = .sleeping c) : GuardMoves P s [] [] (s.goTo i t .locking)
  | lock {i : ℕ} {t : GuardedThread κ ο π ρ} (h : s.threads[i]? = some t) (hpc : t.pc = .locking)
      (hfree : s.mutex = none) :
      GuardMoves P s [] [] { s.goTo i t .assigning with mutex := some t.tid }
  | assign {i : ℕ} {t : GuardedThread κ ο π ρ} (h : s.threads[i]? = some t)
      (hpc : t.pc = .assigning) :
      GuardMoves P s [] [] { s.goTo i t (.inside (P.enter t.op)) with holder := t.tid }
  | goOn {i : ℕ} {t : GuardedThread κ ο π ρ} {pc pc' : π} {shared : σ} (h : s.threads[i]? = some t)
      (hpc : t.pc = .inside pc) (hst : P.statement pc s.shared = .goOn pc' shared) :
      GuardMoves P s [] [] { s.goTo i t (.inside pc') with shared := shared }
  | sends {i woken : ℕ} {t : GuardedThread κ ο π ρ} {pc pc' : π} {signal : Signal κ}
      (h : s.threads[i]? = some t) (hpc : t.pc = .inside pc)
      (hst : P.statement pc s.shared = .sends signal pc')
      (hwoken : ∀ c, signal = .notify c → (∃ u ∈ s.threads[woken]?, u.pc.waitsFor = some c) ∨
        ∀ u ∈ s.threads, u.pc.waitsFor ≠ some c) :
      GuardMoves P s [] [] { s with
        threads := sendSignal woken signal (s.threads.set i { t with pc := .inside pc' }) }
  | leave {i : ℕ} {t : GuardedThread κ ο π ρ} {pc : π} {leave : Leave κ ρ}
      (h : s.threads[i]? = some t) (hpc : t.pc = .inside pc)
      (hst : P.statement pc s.shared = leave.statement) :
      GuardMoves P s [] [] (s.goTo i t (.unassigning leave))
  | fails {i : ℕ} {t : GuardedThread κ ο π ρ} {pc : π} (h : s.threads[i]? = some t)
      (hpc : t.pc = .inside pc) (hst : P.statement pc s.shared = .fails) :
      GuardMoves P s [] [] { s with aborted := true }
  | unassign {i : ℕ} {t : GuardedThread κ ο π ρ} {leave : Leave κ ρ} (h : s.threads[i]? = some t)
      (hpc : t.pc = .unassigning leave) :
      GuardMoves P s [] [] { s.goTo i t (.unlocking leave) with holder := 0 }
  | sleep {i : ℕ} {t : GuardedThread κ ο π ρ} {c : κ} (h : s.threads[i]? = some t)
      (hpc : t.pc = .unlocking (.waits c)) :
      GuardMoves P s [] [] { s.goTo i t (.sleeping c) with mutex := none }
  | returns {i : ℕ} {t : GuardedThread κ ο π ρ} {result : ρ} (h : s.threads[i]? = some t)
      (hpc : t.pc = .unlocking (.returns result)) :
      GuardMoves P s [] [(t.op, result)]
        { s with mutex := none, threads := s.threads.eraseIdx i }

/-- **Every step is one of these.** -/
theorem guardMoves {P : Code κ σ ο π ρ} {s : GuardState κ σ ο π ρ} {a : GuardStep ο}
    (hen : s.Enabled P a) : GuardMoves P s (guardCalls a) (s.step P a).1 (s.step P a).2 := by
  cases a with
  | call tid o => exact .call hen.2.1 hen.2.2
  | wake i =>
    unfold GuardState.step
    dsimp only
    cases h : s.threads[i]? with
    | none => exact .idle
    | some t =>
      dsimp only
      cases hpc : t.pc with
      | sleeping c => exact .wake h hpc
      | locking => exact .idle
      | assigning => exact .idle
      | inside pc => exact .idle
      | unassigning leave => exact .idle
      | unlocking leave => exact .idle
  | run i woken =>
    obtain ⟨-, hwoken⟩ := hen
    unfold GuardState.step
    dsimp only
    cases h : s.threads[i]? with
    | none => exact .idle
    | some t =>
      replace hwoken := hwoken t h
      dsimp only
      unfold GuardState.runThread
      unfold GuardState.notifies at hwoken
      cases hpc : t.pc with
      | locking =>
        dsimp only
        cases hfree : s.mutex with
        | none => exact .lock h hpc hfree
        | some tid => exact .idle
      | assigning => exact .assign h hpc
      | inside pc =>
        rw [hpc] at hwoken
        dsimp only at hwoken ⊢
        cases hst : P.statement pc s.shared with
        | goOn pc' shared => exact .goOn h hpc hst
        | sends signal pc' =>
          refine .sends h hpc hst fun c hc => hwoken c ?_
          rw [hst, hc]
          rfl
        | waits c =>
          have hleave : P.statement pc s.shared = (Leave.waits c).statement := hst
          exact .leave h hpc hleave
        | returns result =>
          have hleave : P.statement pc s.shared = (Leave.returns result).statement := hst
          exact .leave h hpc hleave
        | fails => exact .fails h hpc hst
      | unassigning leave => exact .unassign h hpc
      | unlocking leave =>
        cases leave with
        | waits c => exact .sleep h hpc
        | returns result => exact .returns h hpc
      | sleeping c => exact .idle

end Model

/-! ## Who has the lock -/

/-- What the lock sees of a thread. -/
structure LockView where
  tid : ℤ
  holds : Bool
  assigned : Bool

/-- **The lock and its threads.** -/
structure LockOk (views : List LockView) (mutex : Option ℤ) (holder : ℤ) : Prop where
  nodup : (views.map LockView.tid).Nodup
  ne_zero : ∀ v ∈ views, v.tid ≠ 0
  owns : ∀ v ∈ views, v.holds = true ↔ mutex = some v.tid
  assigned : ∀ v ∈ views, v.assigned = true ↔ holder = v.tid
  holds : ∀ v ∈ views, v.assigned = true → v.holds = true
  owner : ∀ tid, mutex = some tid → tid ∈ views.map LockView.tid
  named : holder ≠ 0 → holder ∈ views.map LockView.tid

namespace LockOk

variable {views pre post : List LockView} {mutex mutex' : Option ℤ} {holder holder' : ℤ}
variable {v v' : LockView} {i : ℕ}

/-- The others have other ids. -/
theorem others (h : LockOk (pre ++ v :: post) mutex holder) {u : LockView} (hu : u ∈ pre ++ post) :
    u ∈ pre ++ v :: post ∧ u.tid ≠ v.tid := by
  have hnodup := h.nodup
  rw [List.map_append, List.map_cons, List.nodup_middle, List.nodup_cons, ← List.map_append]
    at hnodup
  refine ⟨?_, fun heq => hnodup.1 (heq ▸ List.mem_map_of_mem hu)⟩
  rcases List.mem_append.mp hu with hpre | hpost
  · exact List.mem_append_left _ hpre
  · exact List.mem_append_right _ (List.mem_cons_of_mem _ hpost)

/-- **A thread takes the lock, gives it back, or does neither.** -/
theorem set (h : LockOk views mutex holder) (hi : views[i]? = some v) (htid : v'.tid = v.tid)
    (hmutex : mutex' = if v'.holds then some v.tid else if v.holds then none else mutex)
    (hholder : holder' = if v'.assigned then v.tid else if v.assigned then 0 else holder)
    (hfree : v'.holds = true → v.holds = true ∨ mutex = none)
    (hassigned : v'.assigned = true → v'.holds = true) :
    LockOk (views.set i v') mutex' holder' := by
  obtain ⟨pre, post, rfl, -, hset⟩ := exists_split hi
  have hv : v ∈ pre ++ v :: post := List.mem_append_right _ List.mem_cons_self
  have hmem : ∀ u ∈ pre ++ v' :: post, u = v' ∨ u ∈ pre ++ post := by
    intro u hu
    rcases List.mem_append.mp hu with hpre | hpost
    · exact Or.inr (List.mem_append_left _ hpre)
    · rcases List.mem_cons.mp hpost with heq | hpost
      · exact Or.inl heq
      · exact Or.inr (List.mem_append_right _ hpost)
  have htids : (pre ++ v' :: post).map LockView.tid = (pre ++ v :: post).map LockView.tid := by
    simp [htid]
  have hown := h.owns v hv
  have hass := h.assigned v hv
  have hzero := h.ne_zero v hv
  have hvholds := h.holds v hv
  -- what the others see of the lock does not change
  have hother : ∀ u ∈ pre ++ post, (mutex' = some u.tid ↔ mutex = some u.tid) ∧
      (holder' = u.tid ↔ holder = u.tid) := by
    intro u hu
    obtain ⟨hu, hne⟩ := h.others hu
    have hne' : v.tid ≠ u.tid := hne.symm
    have huzero : 0 ≠ u.tid := (h.ne_zero u hu).symm
    have huowns := (h.owns u hu)
    have huass := (h.assigned u hu)
    have huholds := h.holds u hu
    constructor
    · rw [hmutex]
      split_ifs with h1 h2
      · rcases hfree h1 with hold | hnone
        · rw [hown.mp hold]
        · simp [hnone, hne']
      · simp [hown.mp h2, hne']
      · exact Iff.rfl
    · rw [hholder]
      split_ifs with h1 h2
      · refine iff_of_false hne' fun heq => ?_
        have hmutexu := huowns.mp (huholds (huass.mpr heq))
        rcases hfree (hassigned h1) with hold | hnone
        · rw [hown.mp hold] at hmutexu
          exact hne' (Option.some_inj.mp hmutexu)
        · rw [hnone] at hmutexu
          cases hmutexu
      · rw [hass.mp h2]
        exact iff_of_false huzero hne'
      · exact Iff.rfl
  rw [hset]
  refine ⟨htids ▸ h.nodup, fun u hu => ?_, fun u hu => ?_, fun u hu => ?_, fun u hu => ?_,
    fun tid htid' => ?_, fun hne => ?_⟩
  · rcases hmem u hu with rfl | hu
    · exact htid ▸ hzero
    · exact h.ne_zero u (h.others hu).1
  · rcases hmem u hu with rfl | hu
    · rw [hmutex, htid]
      split_ifs with h1 h2
      · simp [h1]
      · simp [h1]
      · rw [← hown]
        simp [h1, h2]
    · rw [h.owns u (h.others hu).1, (hother u hu).1]
  · rcases hmem u hu with rfl | hu
    · rw [hholder, htid]
      split_ifs with h1 h2
      · simp [h1]
      · simp [h1, hzero.symm]
      · rw [← hass]
        simp [h1, h2]
    · rw [h.assigned u (h.others hu).1, (hother u hu).2]
  · rcases hmem u hu with rfl | hu
    · exact hassigned
    · exact h.holds u (h.others hu).1
  · rw [htids]
    rw [hmutex] at htid'
    split_ifs at htid' with h1 h2
    · obtain rfl := Option.some_inj.mp htid'
      exact List.mem_map_of_mem hv
    · exact h.owner tid htid'
  · rw [htids]
    rw [hholder] at hne ⊢
    split_ifs at hne ⊢ with h1 h2
    · exact List.mem_map_of_mem hv
    · exact absurd rfl hne
    · exact h.named hne

/-- **The thread that has the lock returns.** -/
theorem eraseIdx (h : LockOk views mutex holder) (hi : views[i]? = some v)
    (hholds : v.holds = true) (hassigned : v.assigned = false) :
    LockOk (views.eraseIdx i) none holder := by
  obtain ⟨pre, post, rfl, herase, -⟩ := exists_split hi
  have hv : v ∈ pre ++ v :: post := List.mem_append_right _ List.mem_cons_self
  have hmutex := (h.owns v hv).mp hholds
  have hnot : holder ≠ v.tid := fun heq => by simp [(h.assigned v hv).mpr heq] at hassigned
  have hnodup := h.nodup
  rw [List.map_append, List.map_cons, List.nodup_middle, List.nodup_cons, ← List.map_append]
    at hnodup
  rw [herase]
  refine ⟨hnodup.2, fun u hu => h.ne_zero u (h.others hu).1, fun u hu => ?_,
    fun u hu => h.assigned u (h.others hu).1, fun u hu => h.holds u (h.others hu).1,
    fun tid htid => absurd htid.symm (Option.some_ne_none tid), fun hne => ?_⟩
  · obtain ⟨hu, hne⟩ := h.others hu
    rw [h.owns u hu, hmutex]
    simp [hne.symm]
  · have hnamed := h.named hne
    rw [List.map_append, List.map_cons, List.mem_append, List.mem_cons] at hnamed
    rw [List.map_append, List.mem_append]
    rcases hnamed with hpre | heq | hpost
    · exact Or.inl hpre
    · exact absurd heq hnot
    · exact Or.inr hpost

/-- **Another thread calls.** -/
theorem append (h : LockOk views mutex holder) {tid : ℤ} (hne : tid ≠ 0)
    (hnew : tid ∉ views.map LockView.tid) :
    LockOk (views ++ [⟨tid, false, false⟩]) mutex holder := by
  have hmem : ∀ {p : LockView → Prop}, (∀ v ∈ views, p v) → p ⟨tid, false, false⟩ →
      ∀ v ∈ views ++ [⟨tid, false, false⟩], p v := by
    intro p hviews hlast v hv
    rcases List.mem_append.mp hv with hv | hv
    · exact hviews v hv
    · rwa [List.mem_singleton.mp hv]
  refine ⟨?_, hmem h.ne_zero hne, hmem h.owns ?_, hmem h.assigned ?_,
    hmem h.holds id, fun t ht => ?_, fun hne => ?_⟩
  · rw [List.map_append]
    exact h.nodup.append (List.nodup_singleton _) (by simpa using hnew)
  · exact iff_of_false Bool.false_ne_true fun heq => hnew (h.owner tid heq)
  · refine iff_of_false Bool.false_ne_true fun heq => ?_
    change holder = tid at heq
    subst heq
    exact hnew (h.named hne)
  · rw [List.map_append]
    exact List.mem_append_left _ (h.owner t ht)
  · rw [List.map_append]
    exact List.mem_append_left _ (h.named hne)

end LockOk

section Holder

variable {κ σ ο π ρ : Type*}

theorem GuardPc.waitsFor_of_holds {pc : GuardPc κ π ρ} (h : pc.holds = true) :
    pc.waitsFor = none := by
  cases pc with
  | sleeping c => cases h
  | locking | assigning | inside _ | unassigning _ | unlocking _ => rfl

variable [DecidableEq κ] {P : Code κ σ ο π ρ} {s s' : GuardState κ σ ο π ρ}
variable {ts : List (GuardedThread κ ο π ρ)} {t : GuardedThread κ ο π ρ} {i : ℕ}

def GuardedThread.view (t : GuardedThread κ ο π ρ) : LockView := ⟨t.tid, t.pc.holds, t.pc.assigned⟩

/-- A thread that is woken has not got the lock yet. -/
theorem view_wokenBy (c : κ) (t : GuardedThread κ ο π ρ) : (wokenBy c t).view = t.view := by
  obtain ⟨tid, op, pc⟩ := t
  unfold wokenBy
  split_ifs with hc
  · cases pc with
    | sleeping c' => rfl
    | locking | assigning | inside _ | unassigning _ | unlocking _ => cases hc
  · rfl

theorem map_set_eq {α β : Type*} {f : α → β} {l : List α} {a b : α} (h : l[i]? = some a)
    (hf : f b = f a) : (l.set i b).map f = l.map f := by
  obtain ⟨pre, post, hsplit, -, hset⟩ := exists_split h
  rw [hset, hsplit]
  simp [hf]

/-- **The lock does not see a signal.** -/
theorem map_view_sendSignal (woken : ℕ) (signal : Signal κ) (ts : List (GuardedThread κ ο π ρ)) :
    (sendSignal woken signal ts).map GuardedThread.view = ts.map GuardedThread.view := by
  cases signal with
  | silent => rfl
  | notify c =>
    unfold sendSignal
    dsimp only
    cases h : ts[woken]? with
    | none => rfl
    | some t => exact map_set_eq h (view_wokenBy c t)
  | notifyAll c =>
    rw [sendSignal, List.map_map]
    exact List.map_congr_left fun t _ => view_wokenBy c t

/-- **The lock is kept.** -/
def GuardState.LockKept (s : GuardState κ σ ο π ρ) : Prop :=
  LockOk (s.threads.map GuardedThread.view) s.mutex s.holder

omit [DecidableEq κ] in
theorem GuardState.LockKept.goTo (h : s.LockKept) (hi : s.threads[i]? = some t)
    {pc : GuardPc κ π ρ} {shared : σ} {mutex : Option ℤ} {holder : ℤ}
    (hmutex : mutex = if pc.holds then some t.tid else if t.pc.holds then none else s.mutex)
    (hholder : holder = if pc.assigned then t.tid else if t.pc.assigned then 0 else s.holder)
    (hfree : pc.holds = true → t.pc.holds = true ∨ s.mutex = none) :
    GuardState.LockKept
      { s.goTo i t pc with shared := shared, mutex := mutex, holder := holder } := by
  show LockOk ((s.threads.set i { t with pc := pc }).map GuardedThread.view) mutex holder
  rw [List.map_set]
  have hv : (s.threads.map GuardedThread.view)[i]? = some t.view := by
    rw [List.getElem?_map, hi]
    rfl
  refine LockOk.set h hv rfl hmutex hholder hfree fun hassigned => ?_
  change pc.assigned = true at hassigned
  show pc.holds = true
  cases pc with
  | inside _ => rfl
  | unassigning _ => rfl
  | locking => cases hassigned
  | assigning => cases hassigned
  | unlocking _ => cases hassigned
  | sleeping _ => cases hassigned

theorem lockKept_moves {called : List ο} {done : List (ο × ρ)} (h : s.LockKept)
    (hmoves : GuardMoves P s called done s') : s'.LockKept := by
  have hown : ∀ {i : ℕ} {t : GuardedThread κ ο π ρ}, s.threads[i]? = some t →
      (t.pc.holds = true ↔ s.mutex = some t.tid) ∧
        (t.pc.assigned = true ↔ s.holder = t.tid) := by
    intro i t hi
    have hv : t.view ∈ s.threads.map GuardedThread.view :=
      List.mem_map_of_mem (List.mem_of_getElem? hi)
    exact ⟨h.owns _ hv, h.assigned _ hv⟩
  cases hmoves with
  | idle => exact h
  | fails _ _ _ => exact h
  | call hne hnew =>
    unfold GuardState.LockKept
    rw [List.map_append]
    refine LockOk.append h hne ?_
    rw [List.map_map, List.mem_map]
    rintro ⟨t, ht, heq⟩
    exact hnew t ht heq
  | wake hi hpc =>
    exact h.goTo hi (by simp [hpc]) (by simp [hpc])
      (by simp)
  | lock hi hpc hfree =>
    exact h.goTo hi rfl (by simp [hpc]) fun _ => Or.inr hfree
  | assign hi hpc =>
    have hmutex := (hown hi).1.mp (by rw [hpc]; rfl)
    exact h.goTo hi hmutex rfl fun _ => Or.inl (by rw [hpc]; rfl)
  | goOn hi hpc hst =>
    have hmutex := (hown hi).1.mp (by rw [hpc]; rfl)
    have hholder := (hown hi).2.mp (by rw [hpc]; rfl)
    exact h.goTo hi hmutex hholder fun _ => Or.inl (by rw [hpc]; rfl)
  | @sends i woken t pc pc' signal hi hpc hst hwoken =>
    have hmutex := (hown hi).1.mp (by rw [hpc]; rfl)
    have hholder := (hown hi).2.mp (by rw [hpc]; rfl)
    unfold GuardState.LockKept
    rw [map_view_sendSignal]
    have hkept : (s.goTo i t (.inside pc')).LockKept := h.goTo hi hmutex hholder
      fun _ => Or.inl (by rw [hpc]; rfl)
    exact hkept
  | leave hi hpc hst =>
    have hmutex := (hown hi).1.mp (by rw [hpc]; rfl)
    have hholder := (hown hi).2.mp (by rw [hpc]; rfl)
    exact h.goTo hi hmutex hholder fun _ => Or.inl (by rw [hpc]; rfl)
  | unassign hi hpc =>
    have hmutex := (hown hi).1.mp (by rw [hpc]; rfl)
    exact h.goTo hi hmutex (by simp [hpc])
      fun _ => Or.inl (by rw [hpc]; rfl)
  | sleep hi hpc =>
    exact h.goTo hi (by simp [hpc]) (by simp [hpc])
      (by simp)
  | returns hi hpc =>
    show LockOk ((s.threads.eraseIdx _).map GuardedThread.view) none s.holder
    rw [← List.eraseIdx_map]
    exact LockOk.eraseIdx h (by rw [List.getElem?_map, hi]; rfl)
      (by simp [GuardedThread.view, hpc]) (by simp [GuardedThread.view, hpc])

variable {shared : σ} {steps : List (GuardStep ο)}

omit [DecidableEq κ] in
theorem lockKept_init (shared : σ) :
    GuardState.LockKept ({ shared := shared } : GuardState κ σ ο π ρ) :=
  ⟨List.nodup_nil, fun _ h => absurd h List.not_mem_nil, fun _ h => absurd h List.not_mem_nil,
    fun _ h => absurd h List.not_mem_nil, fun _ h => absurd h List.not_mem_nil,
    fun tid h => absurd h.symm (Option.some_ne_none tid), fun h => absurd rfl h⟩

/-- **After every run.** -/
theorem lockKept_run
    (hv : (guardMachine P).Valid (GuardState.Enabled P) { shared := shared } steps) :
    ((guardMachine P).after { shared := shared } steps).LockKept :=
  (guardMachine P).after_induct_valid (I := GuardState.LockKept) (lockKept_init shared) hv
    fun _ _ h hen => lockKept_moves h (guardMoves hen)

omit [DecidableEq κ] in
/-- Where all threads sleep the lock is free. -/
theorem mutex_of_sleeping (h : s.LockKept) (hsleep : ∀ t ∈ s.threads, t.pc.waitsFor ≠ none) :
    s.mutex = none := by
  cases hmutex : s.mutex with
  | none => rfl
  | some tid =>
    obtain ⟨v, hv, rfl⟩ := List.mem_map.mp (h.owner tid hmutex)
    have hholds := (h.owns v hv).mpr hmutex
    obtain ⟨t, ht, rfl⟩ := List.mem_map.mp hv
    exact absurd (GuardPc.waitsFor_of_holds hholds) (hsleep t ht)

/-- **`holder_` tells the truth to every thread, at every time.** Whatever is
done behind the lock and however the statements of the threads fall: a thread
finds that it has locked the mutex if and only if it is between the two
assignments to `holder_`. At most one thread has the mutex, and where no thread
calls, `holder_` is zero, as `~MutexLock` asserts. -/
theorem isLockedByThisThread_iff
    (hv : (guardMachine P).Valid (GuardState.Enabled P) { shared := shared } steps) :
    let s := (guardMachine P).after { shared := shared } steps
    (∀ tid ≠ 0, s.isLockedByThisThread tid = true ↔
        ∃ t ∈ s.threads, t.tid = tid ∧ t.pc.assigned = true) ∧
      (∀ t ∈ s.threads, ∀ u ∈ s.threads, t.pc.holds = true → u.pc.holds = true → t.tid = u.tid) ∧
      (s.threads = [] → s.holder = 0) := by
  have h := lockKept_run hv
  generalize (guardMachine P).after { shared := shared } steps = s at h
  dsimp only
  refine ⟨fun tid hne => ?_, fun t ht u hu htholds huholds => ?_, fun hnil => ?_⟩
  · rw [GuardState.isLockedByThisThread, decide_eq_true_eq]
    constructor
    · rintro rfl
      obtain ⟨v, hv, hvtid⟩ := List.mem_map.mp (h.named hne)
      obtain ⟨t, ht, rfl⟩ := List.mem_map.mp hv
      exact ⟨t, ht, hvtid, (h.assigned _ hv).mpr hvtid.symm⟩
    · rintro ⟨t, ht, rfl, hassigned⟩
      exact (h.assigned _ (List.mem_map_of_mem ht)).mp hassigned
  · have htmutex := (h.owns _ (List.mem_map_of_mem ht)).mp htholds
    have humutex := (h.owns _ (List.mem_map_of_mem hu)).mp huholds
    exact Option.some_inj.mp (htmutex.symm.trans humutex)
  · by_contra hne
    have hnamed := h.named hne
    rw [hnil] at hnamed
    exact absurd hnamed List.not_mem_nil

/-- A call that adds one. -/
def counting : Code Unit ℕ Unit Bool Unit where
  enter _ := false
  statement
    | false, n => .goOn true (n + 1)
    | true, _ => .returns ()

/-- One thread is inside, and one waits for the lock. -/
def oneInside : List (GuardStep Unit) := [.call 11 (), .call 12 (), .run 1 0, .run 1 0, .run 0 0]

theorem isLockedByThisThread_oneInside :
    let s := (guardMachine counting).after { shared := 0 } oneInside
    (∀ tid ≠ 0, s.isLockedByThisThread tid = true ↔
        ∃ t ∈ s.threads, t.tid = tid ∧ t.pc.assigned = true) ∧
      (∀ t ∈ s.threads, ∀ u ∈ s.threads, t.pc.holds = true → u.pc.holds = true → t.tid = u.tid) ∧
      (s.threads = [] → s.holder = 0) :=
  isLockedByThisThread_iff (by decide)

end Holder

end TelnetServ
