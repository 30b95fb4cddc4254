import TelnetServ.Threads.Mutex
import TelnetServ.Threads.Queues
/-!
# What is done behind a lock is done at once

A run of threads whose calls go through a `MutexLock`, statement by statement,
has the returns of a run in which each turn is one step of a monitor, and the
same object whenever the lock is free (`atomic_run`). So what is known of the
monitor is known of the code, of the queue and of the latch.
-/

namespace TelnetServ

open Monitor

section Simulation

variable {κ σ ο π ρ : Type*} [DecidableEq κ] {P : Code κ σ ο π ρ} {M : Monitor κ σ ο ρ}
variable {s s' : GuardState κ σ ο π ρ} {m : MonitorState κ σ ο} {sent : Signal κ}
variable {ts : List (GuardedThread κ ο π ρ)} {t t' u : GuardedThread κ ο π ρ} {i j : ℕ} {x y : σ}

/-- What the monitor sees of a thread. -/
def GuardedThread.caller (t : GuardedThread κ ο π ρ) : Caller κ ο := ⟨t.op, t.pc.waitsFor⟩

/-- What the operation has come to where a thread leaves. -/
def Leave.Comes (sent : Signal κ) (x y : σ) (a : Attempt κ σ ρ) : Leave κ ρ → Prop
  | waits c => y = x ∧ sent = .silent ∧ a = .waits c
  | returns result => a = .returns y result sent

/-- **How far a thread with the lock is in its turn**, which found the object as
`x`, has made `y` of it and has sent a signal. -/
def Within (P : Code κ σ ο π ρ) (M : Monitor κ σ ο ρ) (x y : σ) (sent : Signal κ)
    (t : GuardedThread κ ο π ρ) : Prop :=
  match t.pc with
  | .locking | .sleeping _ => True
  | .assigning => y = x ∧ sent = .silent
  | .inside pc => P.Leads x pc y sent (M.attempt t.op x)
  | .unassigning leave | .unlocking leave => leave.Comes sent x y (M.attempt t.op x)

/-- **The monitor behind the code**: it is where the last turn that has ended
has left it, and `sent` is the signal of the turn that has not. -/
structure Simulates (P : Code κ σ ο π ρ) (M : Monitor κ σ ο ρ) (s : GuardState κ σ ο π ρ)
    (m : MonitorState κ σ ο) (sent : Signal κ) : Prop where
  kept : s.LockKept
  alive : s.aborted = false
  woken : Woken sent m.callers (s.threads.map GuardedThread.caller)
  free : s.mutex = none → sent = .silent ∧ s.shared = m.shared
  within : ∀ (i : ℕ) (t : GuardedThread κ ο π ρ), s.threads[i]? = some t → t.pc.holds = true →
    m.callers[i]? = some (Caller.mk t.op none) ∧ Within P M m.shared s.shared sent t

/-! ## Lists of threads -/

omit [DecidableEq κ] in
/-- Nobody but `i` has the lock. -/
theorem alone_of_holds (h : s.LockKept) (hi : s.threads[i]? = some t) (ht : t.pc.holds = true)
    (hj : s.threads[j]? = some u) (hu : u.pc.holds = true) : j = i := by
  have hview : ∀ {k : ℕ} {v : GuardedThread κ ο π ρ}, s.threads[k]? = some v →
      (s.threads.map GuardedThread.view)[k]? = some v.view := by
    intro k v hk
    rw [List.getElem?_map, hk]
    rfl
  have htid : ∀ {k : ℕ} {v : GuardedThread κ ο π ρ}, s.threads[k]? = some v →
      ((s.threads.map GuardedThread.view).map LockView.tid)[k]? = some v.tid := by
    intro k v hk
    rw [List.getElem?_map, hview hk]
    rfl
  have htmutex := (h.owns _ (List.mem_of_getElem? (hview hi))).mp ht
  have humutex := (h.owns _ (List.mem_of_getElem? (hview hj))).mp hu
  have heq : u.tid = t.tid := Option.some_inj.mp (humutex.symm.trans htmutex)
  have hlt := (List.getElem?_eq_some_iff.mp (htid hj)).1
  exact (List.getElem?_inj hlt h.nodup).mp (by rw [htid hj, htid hi, heq])

/-- A thread that has the lock is not woken. -/
theorem getElem?_sendSignal {woken : ℕ} {signal : Signal κ}
    (h : (sendSignal woken signal ts)[j]? = some u) (hu : u.pc.holds = true) :
    ts[j]? = some u := by
  have hwoken : ∀ {c : κ} {v : GuardedThread κ ο π ρ}, (wokenBy c v).pc.holds = true →
      wokenBy c v = v := by
    intro c v hv
    unfold wokenBy at hv ⊢
    split_ifs at hv ⊢
    · cases hv
    · rfl
  cases signal with
  | silent => exact h
  | notify c =>
    unfold sendSignal at h
    dsimp only at h
    cases hw : ts[woken]? with
    | none =>
      rw [hw] at h
      exact h
    | some v =>
      rw [hw] at h
      dsimp only at h
      by_cases hjw : woken = j
      · subst hjw
        rw [List.getElem?_set_self (List.getElem?_eq_some_iff.mp hw).1] at h
        obtain rfl := Option.some_inj.mp h
        rw [hwoken hu, hw]
      · rwa [List.getElem?_set_ne hjw] at h
  | notifyAll c =>
    rw [sendSignal, List.getElem?_map] at h
    obtain ⟨v, hv, rfl⟩ := Option.map_eq_some_iff.mp h
    rw [hwoken hu, hv]

/-- **What a signal of the code does to the callers** is what one of the monitor
may do. -/
theorem woken_sendSignal {woken : ℕ} {signal : Signal κ}
    (h : ∀ c, signal = .notify c → (∃ u ∈ ts[woken]?, u.pc.waitsFor = some c) ∨
      ∀ u ∈ ts, u.pc.waitsFor ≠ some c) :
    Woken signal (ts.map GuardedThread.caller)
      ((sendSignal woken signal ts).map GuardedThread.caller) := by
  have hcaller : ∀ (c : κ) (v : GuardedThread κ ο π ρ), (wokenBy c v).caller =
      if v.caller.waitsFor = some c then ⟨v.caller.op, none⟩ else v.caller := by
    intro c v
    unfold wokenBy GuardedThread.caller
    dsimp only
    split_ifs <;> rfl
  cases signal with
  | silent => exact woken_silent.mpr rfl
  | notify c =>
    refine woken_notify.mpr ?_
    rcases h c rfl with ⟨u, hu, hwaits⟩ | hnone
    · refine Or.inr ⟨woken, u.op, ?_, ?_⟩
      · rw [List.getElem?_map, hu, ← hwaits]
        rfl
      · unfold sendSignal
        dsimp only
        rw [show ts[woken]? = some u from hu, List.map_set, hcaller,
          if_pos (show u.caller.waitsFor = some c from hwaits)]
        rfl
    · refine Or.inl ⟨waiters_eq_zero_iff.mpr ?_, ?_⟩
      · rw [List.forall_mem_map]
        exact hnone
      · unfold sendSignal
        dsimp only
        cases hw : ts[woken]? with
        | none => rfl
        | some v =>
          have hnot : v.caller.waitsFor ≠ some c := hnone v (List.mem_of_getElem? hw)
          refine map_set_eq hw ?_
          rw [hcaller, if_neg hnot]
  | notifyAll c =>
    refine woken_notifyAll.mpr ?_
    rw [sendSignal, List.map_map, List.map_map]
    exact List.map_congr_left fun v _ => hcaller c v

/-! ## The simulation -/

/-- **A thread that has the lock goes on** in its turn. -/
theorem Simulates.goTo (h : Simulates P M s m sent) (hi : s.threads[i]? = some t)
    (ht : t.pc.holds = true) {pc : GuardPc κ π ρ} (hpc : pc.holds = true) {holder : ℤ}
    (hkept : GuardState.LockKept { s.goTo i t pc with shared := y, holder := holder })
    (hwithin : Within P M m.shared s.shared sent t →
      Within P M m.shared y sent { t with pc := pc }) :
    Simulates P M { s.goTo i t pc with shared := y, holder := holder } m sent := by
  obtain ⟨hcaller, hold⟩ := h.within i t hi ht
  have hmutex := (h.kept.owns _ (List.mem_map_of_mem (List.mem_of_getElem? hi))).mp ht
  have hsame : ({ t with pc := pc } : GuardedThread κ ο π ρ).caller = t.caller := by
    unfold GuardedThread.caller
    rw [GuardPc.waitsFor_of_holds ht, GuardPc.waitsFor_of_holds hpc]
  refine ⟨hkept, h.alive, ?_, fun hfree => ?_, fun j u hj hu => ?_⟩
  · show Woken sent m.callers ((s.threads.set i { t with pc := pc }).map GuardedThread.caller)
    rw [map_set_eq hi hsame]
    exact h.woken
  · change s.mutex = none at hfree
    rw [hmutex] at hfree
    cases hfree
  · change (s.threads.set i { t with pc := pc })[j]? = some u at hj
    by_cases hij : i = j
    · subst hij
      rw [List.getElem?_set_self (List.getElem?_eq_some_iff.mp hi).1] at hj
      obtain rfl := Option.some_inj.mp hj
      exact ⟨hcaller, hwithin hold⟩
    · rw [List.getElem?_set_ne hij] at hj
      exact absurd (alone_of_holds h.kept hi ht hj hu).symm hij

/-- **Where nobody has the lock** the monitor is where the code is. -/
theorem Simulates.of_free (hkept : s.LockKept) (halive : s.aborted = false)
    (hnone : s.mutex = none) (hshared : s.shared = m.shared)
    (hcallers : s.threads.map GuardedThread.caller = m.callers) :
    Simulates P M s m .silent := by
  refine ⟨hkept, halive, woken_silent.mpr hcallers, fun _ => ⟨rfl, hshared⟩, fun j u hj hu => ?_⟩
  have hmutex := (hkept.owns _ (List.mem_map_of_mem (List.mem_of_getElem? hj))).mp hu
  rw [hnone] at hmutex
  cases hmutex

/-- **Another thread calls.** -/
theorem Simulates.call (h : Simulates P M s m sent) {tid : ℤ} {o : ο}
    (hkept : GuardState.LockKept { s with threads := s.threads ++ [⟨tid, o, .locking⟩] }) :
    Simulates P M { s with threads := s.threads ++ [⟨tid, o, .locking⟩] }
      ⟨m.shared, m.callers ++ [⟨o, none⟩]⟩ sent := by
  refine ⟨hkept, h.alive, ?_, h.free, fun j u hj hu => ?_⟩
  · show Woken sent (m.callers ++ [⟨o, none⟩])
      ((s.threads ++ [GuardedThread.mk tid o .locking]).map GuardedThread.caller)
    rw [List.map_append]
    exact h.woken.append o
  · change (s.threads ++ [GuardedThread.mk tid o .locking])[j]? = some u at hj
    rcases Nat.lt_or_ge j s.threads.length with hlt | hge
    · rw [List.getElem?_append_left hlt] at hj
      obtain ⟨hcaller, hold⟩ := h.within j u hj hu
      refine ⟨?_, hold⟩
      show (m.callers ++ [Caller.mk o none])[j]? = _
      rw [List.getElem?_append_left (List.getElem?_eq_some_iff.mp hcaller).1, hcaller]
    · rw [List.getElem?_append_right hge] at hj
      obtain rfl := List.mem_singleton.mp (List.mem_of_getElem? hj)
      cases hu

/-- **A thread wakes without a signal.** -/
theorem Simulates.wake (h : Simulates P M s m sent) {c : κ} (hi : s.threads[i]? = some t)
    (hpc : t.pc = .sleeping c) (hkept : (s.goTo i t .locking).LockKept) :
    m.callers[i]? = some (Caller.mk t.op (some c)) ∧
      Simulates P M (s.goTo i t .locking) ⟨m.shared, m.callers.set i ⟨t.op, none⟩⟩ sent := by
  have hcaller : (s.threads.map GuardedThread.caller)[i]? = some ⟨t.op, some c⟩ := by
    rw [List.getElem?_map, hi, Option.map_some, GuardedThread.caller, hpc]
    rfl
  obtain ⟨hget, hwoken⟩ := h.woken.wake hcaller
  refine ⟨hget, hkept, h.alive, ?_, h.free, fun j u hj hu => ?_⟩
  · show Woken sent (m.callers.set i ⟨t.op, none⟩)
      ((s.threads.set i { t with pc := .locking }).map GuardedThread.caller)
    rw [List.map_set]
    exact hwoken
  · change (s.threads.set i { t with pc := .locking })[j]? = some u at hj
    by_cases hij : i = j
    · subst hij
      rw [List.getElem?_set_self (List.getElem?_eq_some_iff.mp hi).1] at hj
      obtain rfl := Option.some_inj.mp hj
      cases hu
    · rw [List.getElem?_set_ne hij] at hj
      obtain ⟨hcaller, hold⟩ := h.within j u hj hu
      refine ⟨?_, hold⟩
      show (m.callers.set i (Caller.mk t.op none))[j]? = _
      rw [List.getElem?_set_ne hij, hcaller]

/-- **A thread gets the lock.** -/
theorem Simulates.lock (h : Simulates P M s m sent) (hi : s.threads[i]? = some t)
    (hpc : t.pc = .locking) (hfree : s.mutex = none)
    (hkept : GuardState.LockKept { s.goTo i t .assigning with mutex := some t.tid }) :
    Simulates P M { s.goTo i t .assigning with mutex := some t.tid } m sent := by
  obtain ⟨rfl, hshared⟩ := h.free hfree
  have hcallers := woken_silent.mp h.woken
  have hsame : ({ t with pc := .assigning } : GuardedThread κ ο π ρ).caller = t.caller := by
    rw [GuardedThread.caller, GuardedThread.caller, hpc]
    rfl
  refine ⟨hkept, h.alive, ?_, fun hnone => ?_, fun j u hj hu => ?_⟩
  · show Woken .silent m.callers
      ((s.threads.set i { t with pc := .assigning }).map GuardedThread.caller)
    rw [map_set_eq hi hsame]
    exact h.woken
  · cases hnone
  · change (s.threads.set i { t with pc := .assigning })[j]? = some u at hj
    by_cases hij : i = j
    · subst hij
      rw [List.getElem?_set_self (List.getElem?_eq_some_iff.mp hi).1] at hj
      obtain rfl := Option.some_inj.mp hj
      refine ⟨?_, hshared, rfl⟩
      rw [← hcallers, List.getElem?_map, hi, Option.map_some, GuardedThread.caller, hpc]
      rfl
    · rw [List.getElem?_set_ne hij] at hj
      have hmutex := (h.kept.owns _ (List.mem_map_of_mem (List.mem_of_getElem? hj))).mp hu
      rw [hfree] at hmutex
      cases hmutex

/-- **A thread sends a signal** in its turn. -/
theorem Simulates.sends (h : Simulates P M s m sent) (hi : s.threads[i]? = some t) {pc pc' : π}
    (hpc : t.pc = .inside pc) {woken : ℕ} {signal : Signal κ}
    (hst : P.statement pc s.shared = .sends signal pc')
    (hwoken : ∀ c, signal = .notify c → (∃ u ∈ s.threads[woken]?, u.pc.waitsFor = some c) ∨
      ∀ u ∈ s.threads, u.pc.waitsFor ≠ some c)
    (hkept : GuardState.LockKept { s with
      threads := sendSignal woken signal (s.threads.set i { t with pc := .inside pc' }) }) :
    Simulates P M { s with
      threads := sendSignal woken signal (s.threads.set i { t with pc := .inside pc' }) } m
        signal := by
  have ht : t.pc.holds = true := by rw [hpc]; rfl
  obtain ⟨hcaller, hold⟩ := h.within i t hi ht
  unfold Within at hold
  rw [hpc] at hold
  have hnext := Code.Leads.next hold
  rw [hst] at hnext
  obtain ⟨rfl, hleads⟩ := hnext
  have hcallers := woken_silent.mp h.woken
  have hlt := (List.getElem?_eq_some_iff.mp hi).1
  have hsame : ({ t with pc := .inside pc' } : GuardedThread κ ο π ρ).caller = t.caller := by
    rw [GuardedThread.caller, GuardedThread.caller, hpc]
    rfl
  refine ⟨hkept, h.alive, ?_, fun hnone => ?_, fun j u hj hu => ?_⟩
  · rw [← hcallers, ← map_set_eq hi hsame]
    refine woken_sendSignal fun c hc => ?_
    rcases hwoken c hc with ⟨u, hu, hwaits⟩ | hnobody
    · refine Or.inl ⟨u, ?_, hwaits⟩
      have hne : i ≠ woken := by
        rintro rfl
        rw [Option.mem_def, hi] at hu
        obtain rfl := Option.some_inj.mp hu
        rw [hpc] at hwaits
        cases hwaits
      rwa [List.getElem?_set_ne hne]
    · refine Or.inr fun u hu => ?_
      rcases List.mem_or_eq_of_mem_set hu with hmem | rfl
      · exact hnobody u hmem
      · exact (Option.some_ne_none c).symm
  · have hmutex := (h.kept.owns _ (List.mem_map_of_mem (List.mem_of_getElem? hi))).mp ht
    change s.mutex = none at hnone
    rw [hmutex] at hnone
    cases hnone
  · replace hj := getElem?_sendSignal hj hu
    by_cases hij : i = j
    · subst hij
      rw [List.getElem?_set_self hlt] at hj
      obtain rfl := Option.some_inj.mp hj
      exact ⟨hcaller, hleads⟩
    · rw [List.getElem?_set_ne hij] at hj
      exact absurd (alone_of_holds h.kept hi ht hj hu).symm hij

/-- **A thread sleeps**: the turn of the monitor waits. -/
theorem Simulates.sleep (h : Simulates P M s m sent) {c : κ} (hi : s.threads[i]? = some t)
    (hpc : t.pc = .unlocking (.waits c))
    (hkept : GuardState.LockKept { s.goTo i t (.sleeping c) with mutex := none }) :
    M.step m (.lock i 0) = ([], ⟨m.shared, m.callers.set i ⟨t.op, some c⟩⟩) ∧
      Simulates P M { s.goTo i t (.sleeping c) with mutex := none }
        ⟨m.shared, m.callers.set i ⟨t.op, some c⟩⟩ .silent := by
  obtain ⟨hcaller, hold⟩ := h.within i t hi (by rw [hpc]; rfl)
  unfold Within at hold
  rw [hpc] at hold
  obtain ⟨hshared, rfl, hattempt⟩ := hold
  have hcallers := woken_silent.mp h.woken
  refine ⟨?_, .of_free hkept h.alive rfl hshared ?_⟩
  · simp only [Monitor.step, hcaller, hattempt]
  · show (s.threads.set i { t with pc := .sleeping c }).map GuardedThread.caller = _
    rw [List.map_set, hcallers]
    rfl

/-- **A call returns**: the turn of the monitor does what the turn of the code
has done. -/
theorem Simulates.returns (h : Simulates P M s m sent) {result : ρ} (hi : s.threads[i]? = some t)
    (hpc : t.pc = .unlocking (.returns result))
    (hkept : GuardState.LockKept { s with mutex := none, threads := s.threads.eraseIdx i }) :
    ∃ pick callers, M.step m (.lock i pick) = ([(t.op, result)], ⟨s.shared, callers⟩) ∧
      Simulates P M { s with mutex := none, threads := s.threads.eraseIdx i }
        ⟨s.shared, callers⟩ .silent := by
  obtain ⟨hcaller, hold⟩ := h.within i t hi (by rw [hpc]; rfl)
  unfold Within at hold
  rw [hpc] at hold
  change M.attempt t.op m.shared = .returns s.shared result sent at hold
  obtain ⟨pick, hpick⟩ := h.woken.eraseIdx hcaller rfl
  refine ⟨pick, signalled pick sent (m.callers.eraseIdx i), ?_, .of_free hkept h.alive rfl rfl ?_⟩
  · simp only [Monitor.step, hcaller, hold]
  · show (s.threads.eraseIdx i).map GuardedThread.caller = _
    rw [hpick, List.eraseIdx_map]

/-- **Every step is matched**: one that gives the lock back by a turn of the
monitor, and one that no turn is needed for by none. -/
theorem simulates_moves {called : List ο} {done : List (ο × ρ)} (hP : P.Implements M)
    (h : Simulates P M s m sent) (hmoves : GuardMoves P s called done s') :
    ∃ bs sent', M.machine.outs m bs = done ∧ bs.flatMap calledBy = called ∧
      Simulates P M s' (M.machine.after m bs) sent' := by
  have hkept := lockKept_moves h.kept hmoves
  cases hmoves with
  | idle => exact ⟨[], sent, rfl, rfl, h⟩
  | call hne hnew => exact ⟨[.call _], sent, rfl, rfl, h.call hkept⟩
  | @wake i t c hi hpc =>
    obtain ⟨hcaller, hsim⟩ := h.wake hi hpc hkept
    have hstep : M.step m (.wake i) = ([], ⟨m.shared, m.callers.set i ⟨t.op, none⟩⟩) := by
      simp only [Monitor.step, hcaller]
    refine ⟨[.wake i], sent, ?_, rfl, ?_⟩
    · show (M.step m (.wake i)).1 ++ [] = []
      rw [hstep]
      rfl
    · show Simulates P M _ (M.step m (.wake i)).2 sent
      rw [hstep]
      exact hsim
  | lock hi hpc hfree => exact ⟨[], sent, rfl, rfl, h.lock hi hpc hfree hkept⟩
  | assign hi hpc =>
    refine ⟨[], sent, rfl, rfl, h.goTo hi (by simp [hpc]) rfl hkept fun hold => ?_⟩
    unfold Within at hold
    rw [hpc] at hold
    obtain ⟨hshared, rfl⟩ := hold
    show P.Leads m.shared (P.enter _) s.shared .silent _
    rw [hshared]
    exact hP _ _
  | goOn hi hpc hst =>
    refine ⟨[], sent, rfl, rfl, h.goTo hi (by simp [hpc]) rfl hkept fun hold => ?_⟩
    unfold Within at hold
    rw [hpc] at hold
    have hnext := Code.Leads.next hold
    rw [hst] at hnext
    exact hnext
  | sends hi hpc hst hwoken => exact ⟨[], _, rfl, rfl, h.sends hi hpc hst hwoken hkept⟩
  | @leave i t pc leave hi hpc hst =>
    refine ⟨[], sent, rfl, rfl, h.goTo hi (by simp [hpc]) rfl hkept fun hold => ?_⟩
    unfold Within at hold
    rw [hpc] at hold
    have hnext := Code.Leads.next hold
    rw [hst] at hnext
    cases leave with
    | waits c => exact hnext
    | returns result => exact hnext
  | fails hi hpc hst =>
    obtain ⟨-, hold⟩ := h.within _ _ hi (by simp [hpc])
    unfold Within at hold
    rw [hpc] at hold
    have hnext := Code.Leads.next hold
    rw [hst] at hnext
    exact hnext.elim
  | unassign hi hpc =>
    refine ⟨[], sent, rfl, rfl, h.goTo hi (by simp [hpc]) rfl hkept fun hold => ?_⟩
    unfold Within at hold
    rw [hpc] at hold
    exact hold
  | @sleep i t c hi hpc =>
    obtain ⟨hstep, hsim⟩ := h.sleep hi hpc hkept
    refine ⟨[.lock i 0], .silent, ?_, rfl, ?_⟩
    · show (M.step m (.lock i 0)).1 ++ [] = []
      rw [hstep]
      rfl
    · show Simulates P M _ (M.step m (.lock i 0)).2 .silent
      rw [hstep]
      exact hsim
  | @returns i t result hi hpc =>
    obtain ⟨pick, callers, hstep, hsim⟩ := h.returns hi hpc hkept
    refine ⟨[.lock i pick], .silent, ?_, rfl, ?_⟩
    · show (M.step m (.lock i pick)).1 ++ [] = _
      rw [hstep]
      rfl
    · show Simulates P M _ (M.step m (.lock i pick)).2 .silent
      rw [hstep]
      exact hsim

variable {shared : σ} {steps : List (GuardStep ο)}

/-- **What is done behind the lock is done at once.** However the statements of
the threads fall, there is a run of the monitor with the same calls and the same
returns in the same order, and with the same object and the same threads waiting
whenever the lock is free. No assertion fails. -/
theorem atomic_run (hP : P.Implements M)
    (hv : (guardMachine P).Valid (GuardState.Enabled P) { shared := shared } steps) :
    let s := (guardMachine P).after { shared := shared } steps
    s.aborted = false ∧ ∃ bs : List (MonitorStep ο),
      M.machine.outs ⟨shared, []⟩ bs = (guardMachine P).outs { shared := shared } steps ∧
      bs.flatMap calledBy = steps.flatMap guardCalls ∧
      (s.mutex = none → M.machine.after ⟨shared, []⟩ bs =
        ⟨s.shared, s.threads.map GuardedThread.caller⟩) := by
  have hfirst : Simulates P M { shared := shared } ⟨shared, []⟩ .silent :=
    .of_free (lockKept_init shared) rfl rfl rfl rfl
  obtain ⟨bs, houts, hcalls, sent, hsim⟩ := (guardMachine P).exists_run (N := M.machine)
    (R := fun s m => ∃ sent, Simulates P M s m sent) (f := calledBy) (g := guardCalls)
    ⟨.silent, hfirst⟩ hv fun s m a h hen => by
      obtain ⟨sent, h⟩ := h
      obtain ⟨bs, sent', houts, hcalls, hsim⟩ := simulates_moves hP h (guardMoves hen)
      exact ⟨bs, houts, hcalls, sent', hsim⟩
  refine ⟨hsim.alive, bs, houts, hcalls, fun hfree => ?_⟩
  obtain ⟨rfl, hshared⟩ := hsim.free hfree
  rw [hshared, woken_silent.mp hsim.woken]

end Simulation

/-! ## Queues -/

/-- The statements of `put` and `take`. -/
inductive QueuePc (τ : Type*) where
  | putTest (x : τ)
  | putAssert (x : τ)
  | putPush (x : τ)
  | putNotify
  | takeTest
  | takeAssert
  | takeFront
  | takePop (front : τ)
  | takeNotify (front : τ)
  | returning (result : Option τ)

/-- **`put` and `take`, statement by statement.** A `BlockingQueue` is never
full, and its `take` signals nothing. -/
def queueCode (τ : Type*) (full : List τ → Bool) (taken : Signal QueueCond) :
    Code QueueCond (List τ) (QueueOp τ) (QueuePc τ) (Option τ) where
  enter
    | .put x => .putTest x
    | .take => .takeTest
  statement
    | .putTest x, queue => if full queue then .waits .notFull else .goOn (.putAssert x) queue
    | .putAssert x, queue => if full queue then .fails else .goOn (.putPush x) queue
    | .putPush x, queue => .goOn .putNotify (queue ++ [x])
    | .putNotify, _ => .sends (.notify .notEmpty) (.returning none)
    | .takeTest, queue => if queue.isEmpty then .waits .notEmpty else .goOn .takeAssert queue
    | .takeAssert, queue => if queue.isEmpty then .fails else .goOn .takeFront queue
    | .takeFront, [] => .fails
    | .takeFront, front :: queue => .goOn (.takePop front) (front :: queue)
    | .takePop _, [] => .fails
    | .takePop front, _ :: queue => .goOn (.takeNotify front) queue
    | .takeNotify front, _ => .sends taken (.returning (some front))
    | .returning result, _ => .returns result

/-- **The code of a queue does in a turn what the queue does.** -/
theorem queueCode_implements {τ : Type*} (full : List τ → Bool) (taken : Signal QueueCond) :
    (queueCode τ full taken).Implements (queueMonitor τ full taken) := by
  intro o queue
  cases o with
  | put x =>
    unfold queueMonitor
    dsimp only
    split_ifs with hfull
    · exact .waits (if_pos hfull)
    · exact .goOn (if_neg hfull) (.goOn (if_neg hfull) (.goOn rfl (.sends rfl (.returns rfl))))
  | take =>
    cases queue with
    | nil => exact .waits rfl
    | cons front queue =>
      exact .goOn rfl (.goOn rfl (.goOn rfl (.goOn rfl (.sends rfl (.returns rfl)))))

/-- `BoundedBlockingQueue`. -/
def boundedBlockingQueueCode (τ : Type*) (maxSize : ℕ) :
    Code QueueCond (List τ) (QueueOp τ) (QueuePc τ) (Option τ) :=
  queueCode τ (fun queue => maxSize ≤ queue.length) (.notify .notFull)

/-- **`BoundedBlockingQueue`, statement by statement.** However the statements
of the threads fall, no assertion fails, the items are taken in the order they
are put, and there is a run of the queue whose turns are each done at once with
the same calls, the same returns and, whenever the lock is free, the same buffer
and the same threads asleep: so no more than `maxSize` items are in the buffer,
and where all threads sleep, as many calls have returned as possible. -/
theorem boundedBlockingQueue_atomic {τ : Type*} {maxSize : ℕ} (hmax : 0 < maxSize)
    {steps : List (GuardStep (QueueOp τ))}
    (hv : (guardMachine (boundedBlockingQueueCode τ maxSize)).Valid
      (GuardState.Enabled (boundedBlockingQueueCode τ maxSize)) { shared := [] } steps) :
    let done := (guardMachine (boundedBlockingQueueCode τ maxSize)).outs { shared := [] } steps
    let s := (guardMachine (boundedBlockingQueueCode τ maxSize)).after { shared := [] } steps
    s.aborted = false ∧ takesOf done <+: putsOf done ∧
      (∃ bs : List (MonitorStep (QueueOp τ)),
        (boundedBlockingQueue τ maxSize).machine.outs ⟨[], []⟩ bs = done ∧
        bs.flatMap calledBy = steps.flatMap guardCalls ∧
        (s.mutex = none → (boundedBlockingQueue τ maxSize).machine.after ⟨[], []⟩ bs =
          ⟨s.shared, s.threads.map GuardedThread.caller⟩)) ∧
      (s.mutex = none → Serves maxSize (steps.flatMap guardCalls) done
        ⟨s.shared, s.threads.map GuardedThread.caller⟩) := by
  obtain ⟨halive, bs, houts, hcalls, hfree⟩ := atomic_run (queueCode_implements _ _) hv
  have hserves := serves_run (holdsUpTo_boundedBlockingQueue maxSize)
    (by exact_mod_cast hmax) bs
  rw [houts, hcalls] at hserves
  refine ⟨halive, ⟨_, hserves.order⟩, ⟨bs, houts, hcalls, hfree⟩, fun hnone => ?_⟩
  rw [hfree hnone] at hserves
  exact hserves

/-- One takes, and sleeps until another has put. -/
def handedOver : List (GuardStep (QueueOp ℕ)) :=
  .call 11 .take :: List.replicate 5 (.run 0 0) ++ .call 12 (.put 7) ::
    List.replicate 9 (.run 1 0) ++ List.replicate 10 (.run 0 0)

theorem boundedBlockingQueue_atomic_handedOver :
    let done := (guardMachine (boundedBlockingQueueCode ℕ 1)).outs { shared := [] } handedOver
    let s := (guardMachine (boundedBlockingQueueCode ℕ 1)).after { shared := [] } handedOver
    s.aborted = false ∧ takesOf done <+: putsOf done ∧
      (∃ bs : List (MonitorStep (QueueOp ℕ)),
        (boundedBlockingQueue ℕ 1).machine.outs ⟨[], []⟩ bs = done ∧
        bs.flatMap calledBy = handedOver.flatMap guardCalls ∧
        (s.mutex = none → (boundedBlockingQueue ℕ 1).machine.after ⟨[], []⟩ bs =
          ⟨s.shared, s.threads.map GuardedThread.caller⟩)) ∧
      (s.mutex = none → Serves (1 : ℕ) (handedOver.flatMap guardCalls) done
        ⟨s.shared, s.threads.map GuardedThread.caller⟩) :=
  boundedBlockingQueue_atomic Nat.one_pos (by decide)

/-! ## Latches -/

/-- The statements of `wait` and `countDown`. -/
inductive LatchPc where
  | waitTest
  | decrement
  | countTest
  | notifyAll
  | returning

/-- **`wait` and `countDown`, statement by statement.** -/
def latchCode : Code Unit ℤ LatchOp LatchPc Unit where
  enter
    | .wait => .waitTest
    | .countDown => .decrement
  statement
    | .waitTest, count => if 0 < count then .waits () else .goOn .returning count
    | .decrement, count => .goOn .countTest (count - 1)
    | .countTest, count => .goOn (if count = 0 then .notifyAll else .returning) count
    | .notifyAll, _ => .sends (.notifyAll ()) .returning
    | .returning, _ => .returns ()

/-- **The code of the latch does in a turn what the latch does.** -/
theorem latchCode_implements : latchCode.Implements countDownLatch := by
  intro o count
  cases o with
  | wait =>
    unfold countDownLatch
    dsimp only
    split_ifs with hclosed
    · exact .waits (if_pos hclosed)
    · exact .goOn (if_neg hclosed) (.returns rfl)
  | countDown =>
    unfold countDownLatch
    dsimp only
    refine .goOn rfl (.goOn rfl ?_)
    split_ifs with hopen
    · exact .sends rfl (.returns rfl)
    · exact .returns rfl

/-- **`CountDownLatch`, statement by statement.** However the statements of the
threads fall, no `wait` returns before the latch has been counted down to zero;
and when it has been, a state in which all threads sleep is one without any. -/
theorem latch_atomic {count : ℤ} {steps : List (GuardStep LatchOp)}
    (hv : (guardMachine latchCode).Valid (GuardState.Enabled latchCode) { shared := count }
      steps) :
    let ops := ((guardMachine latchCode).outs { shared := count } steps).map Prod.fst
    let s := (guardMachine latchCode).after { shared := count } steps
    (∀ i, ops[i]? = some .wait → count ≤ countDowns (ops.take i)) ∧
      ((∀ t ∈ s.threads, t.pc.waitsFor ≠ none) → count ≤ countDowns (steps.flatMap guardCalls) →
        s.threads = []) := by
  obtain ⟨-, bs, houts, hcalls, hfree⟩ := atomic_run latchCode_implements hv
  have hok := latchOk_run count bs
  rw [houts] at hok
  refine ⟨hok.waited, fun hsleep hcalled => ?_⟩
  have hstate := hfree (mutex_of_sleeping (lockKept_run hv) hsleep)
  have hquiet : Quiet (countDownLatch.machine.after ⟨count, []⟩ bs) := by
    rw [hstate]
    exact List.forall_mem_map.mpr hsleep
  have hnobody := callers_of_quiet hquiet (hcalls ▸ hcalled)
  rw [hstate] at hnobody
  exact List.map_eq_nil_iff.mp hnobody

/-- One waits, and another counts down to zero. -/
def counted : List (GuardStep LatchOp) :=
  .call 11 .wait :: List.replicate 5 (.run 0 0) ++ .call 12 .countDown ::
    List.replicate 8 (.run 1 0) ++ List.replicate 6 (.run 0 0)

theorem latch_atomic_counted :
    let ops := ((guardMachine latchCode).outs { shared := 1 } counted).map Prod.fst
    let s := (guardMachine latchCode).after { shared := 1 } counted
    (∀ i, ops[i]? = some .wait → 1 ≤ (countDowns (ops.take i) : ℤ)) ∧
      ((∀ t ∈ s.threads, t.pc.waitsFor ≠ none) →
        1 ≤ (countDowns (counted.flatMap guardCalls) : ℤ) → s.threads = []) :=
  latch_atomic (by decide)

end TelnetServ
