import TelnetServ.Threads.Pool
/-!
# The tasks of a thread pool

Each task is taken in the order of the queue and run once; without workers
`run` runs it itself (`pool_accounts`).
Where nobody can go on, each task has been run, if the pool has not been
stopped; if it has, the workers have exited and tasks may be left
(`pool_idle`).
-/

namespace TelnetServ

open Monitor

section Tasks

variable {τ : Type*} {maxQueueSize : ℕ} {s s' : ThreadPool τ} {trace events : List (PoolEvent τ)}

/-- **The invariant of the pool.** What has been accepted has been taken or is
in the queue, what has been taken has been run or is held by a worker, and the
calls of `take` are those of the workers that are in it. -/
structure PoolOk (maxQueueSize : ℕ) (trace : List (PoolEvent τ)) (s : ThreadPool τ) : Prop where
  order : takenTasks trace ++ s.monitor.shared.queue = acceptedTasks trace
  bounded : 0 < maxQueueSize → s.monitor.shared.queue.length ≤ maxQueueSize
  held : (takenTasks trace).Perm (ranTasks trace ++ s.workers.flatMap WorkerPc.held)
  taking : ∀ w, (s.monitor.callers.map Caller.op).countP (PoolOp.isTake w) =
    if (s.workers[w]?).any WorkerPc.isTaking then 1 else 0
  running : s.monitor.shared.running = true → ∀ pc ∈ s.workers, pc ≠ .exited
  served : Served (poolRoom maxQueueSize) poolWaits s.monitor

theorem acceptedTasks_append (t u : List (PoolEvent τ)) :
    acceptedTasks (t ++ u) = acceptedTasks t ++ acceptedTasks u := List.filterMap_append

theorem takenTasks_append (t u : List (PoolEvent τ)) :
    takenTasks (t ++ u) = takenTasks t ++ takenTasks u := List.filterMap_append

theorem ranTasks_append (t u : List (PoolEvent τ)) :
    ranTasks (t ++ u) = ranTasks t ++ ranTasks u := List.filterMap_append

theorem directTasks_append (t u : List (PoolEvent τ)) :
    directTasks (t ++ u) = directTasks t ++ directTasks u := List.filterMap_append

/-- A worker changes, the others stay. -/
theorem any_getElem?_split (f : WorkerPc τ → Bool) (pre post : List (WorkerPc τ)) (pc : WorkerPc τ)
    (w : ℕ) : ((pre ++ pc :: post)[w]?).any f =
      if w = pre.length then f pc else ((pre ++ .exited :: post)[w]?).any f := by
  split_ifs with hw
  · subst hw
    rw [List.getElem?_append_right (Nat.le_refl _), Nat.sub_self]
    rfl
  · rcases Nat.lt_or_ge w pre.length with hlt | hge
    · rw [List.getElem?_append_left hlt, List.getElem?_append_left hlt]
    · obtain ⟨k, hk⟩ : ∃ k, w - pre.length = k + 1 := ⟨w - pre.length - 1, by omega⟩
      rw [List.getElem?_append_right hge, List.getElem?_append_right hge, hk]
      rfl

/-- Who calls `take` is a worker in `take`. -/
theorem PoolOk.exists_taking (h : PoolOk maxQueueSize trace s) {t : Caller QueueCond (PoolOp τ)}
    (ht : t ∈ s.monitor.callers) {w : ℕ} (hop : t.op = .take w) :
    ∃ pre post, s.workers = pre ++ .taking :: post ∧ w = pre.length := by
  have hcount := h.taking w
  have hpos : 0 < (s.monitor.callers.map Caller.op).countP (PoolOp.isTake w) := by
    rw [List.countP_pos_iff]
    exact ⟨t.op, List.mem_map_of_mem ht, by rw [hop]; exact decide_eq_true rfl⟩
  split_ifs at hcount with hany
  · cases hget : s.workers[w]? with
    | none =>
      rw [hget] at hany
      cases hany
    | some pc =>
      rw [hget] at hany
      obtain ⟨pre, post, hsplit, hw, -⟩ := exists_worker_split hget
      cases pc with
      | taking => exact ⟨pre, post, hsplit, hw⟩
      | testing => cases hany
      | holding task => cases hany
      | exited => cases hany
  · omega

/-- The workers that stay in `take` when one has returned. -/
theorem PoolOk.taking_goOn (h : PoolOk maxQueueSize trace s) {w : ℕ} {result : Option τ}
    {m : MonitorState QueueCond (PoolQueue τ) (PoolOp τ)} {pre post : List (WorkerPc τ)}
    (hsplit : s.workers = pre ++ .taking :: post) (hw : w = pre.length)
    (hmoves : (poolMonitor τ maxQueueSize).Moves s.monitor [] [(.take w, result)] m)
    {pc : WorkerPc τ} (hpc : pc.isTaking = false) (v : ℕ) :
    (m.callers.map Caller.op).countP (PoolOp.isTake v) =
      if ((pre ++ pc :: post)[v]?).any WorkerPc.isTaking then 1 else 0 := by
  have hperm := hmoves.perm.countP_eq (PoolOp.isTake v)
  have hcount := h.taking v
  rw [List.append_nil, List.countP_append, List.map_singleton, List.countP_singleton] at hperm
  rw [hsplit, any_getElem?_split] at hcount
  rw [any_getElem?_split, hpc]
  by_cases hv : v = pre.length
  · rw [if_pos hv] at hcount ⊢
    rw [if_pos (by rw [hv, ← hw]; exact decide_eq_true rfl)] at hperm
    simp only [WorkerPc.isTaking, if_true, Bool.false_eq_true, if_false] at hcount ⊢
    omega
  · rw [if_neg hv] at hcount ⊢
    have hne : PoolOp.isTake v (PoolOp.take w : PoolOp τ) = false := by
      rw [PoolOp.isTake, decide_eq_false_iff_not]
      omega
    rw [if_neg (by rw [hne]; exact Bool.false_ne_true)] at hperm
    omega

/-- And when another operation has. -/
theorem PoolOk.taking_other (h : PoolOk maxQueueSize trace s) {called : List (PoolOp τ)}
    {done : List (PoolOp τ × Option τ)} {m : MonitorState QueueCond (PoolQueue τ) (PoolOp τ)}
    (hmoves : (poolMonitor τ maxQueueSize).Moves s.monitor called done m)
    (hcalled : ∀ o ∈ called, ∀ w, o.isTake w = false)
    (hdone : ∀ e ∈ done, ∀ w, e.1.isTake w = false) (w : ℕ) :
    (m.callers.map Caller.op).countP (PoolOp.isTake w) =
      if (s.workers[w]?).any WorkerPc.isTaking then 1 else 0 := by
  have hperm := hmoves.perm.countP_eq (PoolOp.isTake w)
  have hcount := h.taking w
  have hnone : called.countP (PoolOp.isTake w) = 0 :=
    List.countP_eq_zero.mpr fun o ho => by rw [hcalled o ho w]; exact Bool.false_ne_true
  have hnone' : (done.map Prod.fst).countP (PoolOp.isTake w) = 0 := by
    refine List.countP_eq_zero.mpr fun o ho => ?_
    obtain ⟨e, he, rfl⟩ := List.mem_map.mp ho
    rw [hdone e he w]
    exact Bool.false_ne_true
  rw [List.countP_append, List.countP_append] at hperm
  omega

/-- A worker that is replaced by one that has not exited. -/
theorem not_exited_split {pre post : List (WorkerPc τ)} {pc pc' : WorkerPc τ}
    (h : ∀ q ∈ pre ++ pc :: post, q ≠ .exited) (hpc' : pc' ≠ .exited) :
    ∀ q ∈ pre ++ pc' :: post, q ≠ .exited := by
  intro q hq
  rw [List.mem_append, List.mem_cons] at hq
  rcases hq with hq | rfl | hq
  · exact h q (List.mem_append_left _ hq)
  · exact hpc'
  · exact h q (List.mem_append_right _ (List.mem_cons_of_mem _ hq))

/-- What the workers hold, one of them apart. -/
theorem flatMap_held_split (pre post : List (WorkerPc τ)) (pc : WorkerPc τ) :
    ((pre ++ pc :: post).flatMap WorkerPc.held).Perm
      (pc.held ++ (pre ++ post).flatMap WorkerPc.held) := by
  rw [List.flatMap_append, List.flatMap_cons, List.flatMap_append]
  exact List.perm_append_comm_assoc ..

/-- `run` runs its task itself. -/
theorem poolOk_direct (h : PoolOk maxQueueSize trace s) (task : τ) :
    PoolOk maxQueueSize (trace ++ [.direct task]) s := by
  have htaken : takenTasks (trace ++ [.direct task]) = takenTasks trace := by
    rw [takenTasks_append]
    exact List.append_nil _
  have haccepted : acceptedTasks (trace ++ [.direct task]) = acceptedTasks trace := by
    rw [acceptedTasks_append]
    exact List.append_nil _
  have hran : ranTasks (trace ++ [.direct task]) = ranTasks trace := by
    rw [ranTasks_append]
    exact List.append_nil _
  refine ⟨?_, h.bounded, ?_, h.taking, h.running, h.served⟩
  · rw [htaken, haccepted]
    exact h.order
  · rw [htaken, hran]
    exact h.held

/-- A worker calls `take`. -/
theorem poolOk_begins (h : PoolOk maxQueueSize trace s) {pre post : List (WorkerPc τ)}
    (hw : s.workers = pre ++ .testing :: post) :
    PoolOk maxQueueSize trace
      ⟨⟨s.monitor.shared, s.monitor.callers ++ [⟨.take pre.length, none⟩]⟩,
        pre ++ .taking :: post⟩ := by
  obtain ⟨horder, hbounded, hheld, htaking, hrunning, hserved⟩ := h
  rw [hw] at hheld htaking hrunning
  refine ⟨horder, hbounded, ?_, fun v => ?_, fun hrun => ?_, ?_⟩
  · rw [List.flatMap_append, List.flatMap_cons] at hheld ⊢
    exact hheld
  · have hcount := htaking v
    rw [any_getElem?_split] at hcount ⊢
    rw [List.map_append, List.map_singleton, List.countP_append, List.countP_singleton]
    by_cases hv : v = pre.length
    · rw [if_pos hv] at hcount ⊢
      rw [if_pos (by rw [hv]; exact decide_eq_true rfl), hcount]
      rfl
    · rw [if_neg hv] at hcount ⊢
      have hne : ¬ PoolOp.isTake v (PoolOp.take pre.length : PoolOp τ) = true := by
        rw [PoolOp.isTake, decide_eq_true_eq]
        omega
      rw [if_neg hne, hcount, Nat.add_zero]
  · exact not_exited_split (hrunning hrun) (by simp)
  · exact hserved.step (supplied_pool maxQueueSize) (.call _)

theorem poolOk_exits (h : PoolOk maxQueueSize trace s) {pre post : List (WorkerPc τ)}
    (hw : s.workers = pre ++ .testing :: post) (hstopped : s.monitor.shared.running = false) :
    PoolOk maxQueueSize trace ⟨s.monitor, pre ++ .exited :: post⟩ := by
  obtain ⟨horder, hbounded, hheld, htaking, hrunning, hserved⟩ := h
  rw [hw] at hheld htaking
  refine ⟨horder, hbounded, ?_, fun v => ?_, fun hrun => ?_, hserved⟩
  · rw [List.flatMap_append, List.flatMap_cons] at hheld ⊢
    exact hheld
  · have hcount := htaking v
    rw [any_getElem?_split] at hcount ⊢
    exact hcount
  · rw [hstopped] at hrun
    cases hrun

theorem poolOk_runs (h : PoolOk maxQueueSize trace s) {pre post : List (WorkerPc τ)} {task : τ}
    (hw : s.workers = pre ++ .holding task :: post) :
    PoolOk maxQueueSize (trace ++ [.ran task]) ⟨s.monitor, pre ++ .testing :: post⟩ := by
  obtain ⟨horder, hbounded, hheld, htaking, hrunning, hserved⟩ := h
  rw [hw] at hheld htaking hrunning
  refine ⟨?_, hbounded, ?_, fun v => ?_, fun hrun => ?_, hserved⟩
  · rw [takenTasks_append, acceptedTasks_append]
    simpa [takenTasks, acceptedTasks] using horder
  · rw [takenTasks_append, ranTasks_append]
    have hbefore := flatMap_held_split pre post (.holding task)
    have hbehind := flatMap_held_split pre post .testing
    refine (List.Perm.of_eq (List.append_nil _)).trans (hheld.trans ?_)
    rw [List.append_assoc]
    exact (hbefore.trans (hbehind.symm.append_left [task])).append_left _
  · have hcount := htaking v
    rw [any_getElem?_split] at hcount ⊢
    exact hcount
  · exact not_exited_split (hrunning hrun) (by simp)

/-- A step in which nothing returns. -/
theorem poolOk_waits (h : PoolOk maxQueueSize trace s) {called : List (PoolOp τ)}
    {m : MonitorState QueueCond (PoolQueue τ) (PoolOp τ)}
    (hcalled : ∀ o ∈ called, ∀ w, o.isTake w = false)
    (hmoves : (poolMonitor τ maxQueueSize).Moves s.monitor called [] m) :
    PoolOk maxQueueSize trace ⟨m, s.workers⟩ := by
  have hshared : m.shared = s.monitor.shared := by
    rcases hmoves.shared_cases with ⟨-, hsame⟩ | ⟨o, result, -, hdone, -⟩
    · exact hsame
    · cases hdone
  refine ⟨?_, ?_, h.held, ?_, ?_, h.served.step (supplied_pool maxQueueSize) hmoves⟩
  · rw [hshared]
    exact h.order
  · rw [hshared]
    exact h.bounded
  · exact h.taking_other hmoves hcalled fun e he => absurd he List.not_mem_nil
  · rw [hshared]
    exact h.running

/-- `run` or `stop` has returned; the workers go on as they were. -/
theorem poolOk_other (h : PoolOk maxQueueSize trace s) {o : PoolOp τ}
    {m : MonitorState QueueCond (PoolQueue τ) (PoolOp τ)}
    (hmoves : (poolMonitor τ maxQueueSize).Moves s.monitor [] [(o, none)] m)
    (ho : ∀ w, o.isTake w = false) (htaken : takenTasks events = []) (hran : ranTasks events = [])
    (horder : s.monitor.shared.queue ++ acceptedTasks events = m.shared.queue)
    (hbounded : 0 < maxQueueSize → m.shared.queue.length ≤ maxQueueSize)
    (hrunning : m.shared.running = true → s.monitor.shared.running = true) :
    PoolOk maxQueueSize (trace ++ events) ⟨m, s.workers⟩ := by
  refine ⟨?_, hbounded, ?_, ?_, fun hrun => h.running (hrunning hrun),
    h.served.step (supplied_pool maxQueueSize) hmoves⟩
  · rw [takenTasks_append, acceptedTasks_append, htaken, List.append_nil, ← horder,
      ← List.append_assoc, h.order]
  · rw [takenTasks_append, ranTasks_append, htaken, hran, List.append_nil, List.append_nil]
    exact h.held
  · refine h.taking_other hmoves (fun c hc => absurd hc List.not_mem_nil) fun e he => ?_
    rw [List.mem_singleton.mp he]
    exact ho

/-- A worker has taken a task. -/
theorem poolOk_taken (h : PoolOk maxQueueSize trace s) {w : ℕ} {front : τ} {queue : List τ}
    {m : MonitorState QueueCond (PoolQueue τ) (PoolOp τ)} {pre post : List (WorkerPc τ)}
    (hmoves : (poolMonitor τ maxQueueSize).Moves s.monitor [] [(.take w, some front)] m)
    (hsplit : s.workers = pre ++ .taking :: post) (hw : w = pre.length)
    (hqueue : s.monitor.shared.queue = front :: queue)
    (hshared : m.shared = { s.monitor.shared with queue := queue }) :
    PoolOk maxQueueSize (trace ++ [.taken front]) ⟨m, pre ++ .holding front :: post⟩ := by
  have hheld := h.held
  have hrunning := h.running
  rw [hsplit] at hheld hrunning
  refine ⟨?_, fun hpos => ?_, ?_, h.taking_goOn hsplit hw hmoves rfl, fun hrun => ?_,
    h.served.step (supplied_pool maxQueueSize) hmoves⟩
  · rw [takenTasks_append, acceptedTasks_append, hshared, ← h.order, hqueue]
    simp [takenTasks, acceptedTasks]
  · have hle := h.bounded hpos
    rw [hqueue, List.length_cons] at hle
    rw [hshared]
    exact Nat.le_of_succ_le hle
  · have hbefore := flatMap_held_split pre post .taking
    have hbehind := flatMap_held_split pre post (.holding front)
    rw [takenTasks_append, ranTasks_append]
    show (takenTasks trace ++ [front]).Perm (ranTasks trace ++ [] ++ _)
    rw [List.append_nil]
    refine (hheld.append_right [front]).trans ?_
    rw [List.append_assoc]
    refine List.Perm.append_left _ ((hbefore.append_right [front]).trans ?_)
    exact List.perm_append_comm.trans hbehind.symm
  · rw [hshared] at hrun
    exact not_exited_split (hrunning hrun) (by simp)

/-- A worker has found the pool stopped. -/
theorem poolOk_stopped (h : PoolOk maxQueueSize trace s) {w : ℕ}
    {m : MonitorState QueueCond (PoolQueue τ) (PoolOp τ)} {pre post : List (WorkerPc τ)}
    (hmoves : (poolMonitor τ maxQueueSize).Moves s.monitor [] [(.take w, none)] m)
    (hsplit : s.workers = pre ++ .taking :: post) (hw : w = pre.length)
    (hstopped : s.monitor.shared.running = false) (hshared : m.shared = s.monitor.shared) :
    PoolOk maxQueueSize trace ⟨m, pre ++ .testing :: post⟩ := by
  have hheld := h.held
  rw [hsplit] at hheld
  refine ⟨?_, ?_, ?_, h.taking_goOn hsplit hw hmoves rfl, fun hrun => ?_,
    h.served.step (supplied_pool maxQueueSize) hmoves⟩
  · rw [hshared]
    exact h.order
  · rw [hshared]
    exact h.bounded
  · rw [List.flatMap_append, List.flatMap_cons] at hheld ⊢
    exact hheld
  · rw [hshared, hstopped] at hrun
    cases hrun

/-- What returns has been called, and what it has come to. -/
theorem exists_attempt {m : MonitorState QueueCond (PoolQueue τ) (PoolOp τ)} {o : PoolOp τ}
    {result : Option τ}
    (hmoves : (poolMonitor τ maxQueueSize).Moves s.monitor [] [(o, result)] m) :
    (∃ t ∈ s.monitor.callers, t.op = o) ∧
      ∃ signal, (poolMonitor τ maxQueueSize).attempt o s.monitor.shared =
        .returns m.shared result signal := by
  cases hmoves with
  | returns pick hsplit hreturns =>
    exact ⟨⟨_, by rw [hsplit]; exact List.mem_append_cons_self, rfl⟩, _, hreturns⟩

/-- A step in which an operation returns. -/
theorem poolOk_returns (h : PoolOk maxQueueSize trace s) {o : PoolOp τ} {result : Option τ}
    {m : MonitorState QueueCond (PoolQueue τ) (PoolOp τ)}
    (hmoves : (poolMonitor τ maxQueueSize).Moves s.monitor [] [(o, result)] m) :
    PoolOk maxQueueSize (trace ++ eventOf (o, result)) ⟨m, goOn s.workers (o, result)⟩ := by
  obtain ⟨⟨t, ht, hop⟩, signal, hreturns⟩ := exists_attempt hmoves
  rcases pool_returns_cases hreturns with ⟨task, rfl, hroom, hshared, rfl, -⟩ |
    ⟨w, front, queue, rfl, hqueue, hshared, rfl, -⟩ | ⟨w, rfl, hqueue, hstopped, hshared, rfl, -⟩ |
    ⟨rfl, hshared, rfl, -⟩
  · refine poolOk_other h hmoves (fun _ => rfl) rfl rfl ?_ (fun hpos => ?_) fun hrun => ?_
    · rw [hshared]
      rfl
    · rw [hshared, List.length_append, List.length_singleton]
      omega
    · rw [hshared] at hrun
      exact hrun
  · obtain ⟨pre, post, hsplit, hw⟩ := h.exists_taking ht hop
    rw [show goOn s.workers (.take w, some front) = pre ++ .holding front :: post from
      set_split hsplit hw]
    exact poolOk_taken h hmoves hsplit hw hqueue hshared
  · obtain ⟨pre, post, hsplit, hw⟩ := h.exists_taking ht hop
    rw [show goOn s.workers (.take w, none) = pre ++ .testing :: post from set_split hsplit hw]
    show PoolOk maxQueueSize (trace ++ []) _
    rw [List.append_nil]
    exact poolOk_stopped h hmoves hsplit hw hstopped hshared
  · refine poolOk_other h hmoves (fun _ => rfl) rfl rfl ?_ (fun hpos => ?_) fun hrun => ?_
    · rw [hshared]
      exact List.append_nil _
    · rw [hshared]
      exact h.bounded hpos
    · rw [hshared] at hrun
      cases hrun

/-- **Each step keeps the invariant.** -/
theorem poolOk_step (h : PoolOk maxQueueSize trace s) (hm : PoolMoves maxQueueSize s events s') :
    PoolOk maxQueueSize (trace ++ events) s' := by
  cases hm with
  | idle => rwa [List.append_nil]
  | direct _ task => exact poolOk_direct h task
  | begins hw _ =>
    rw [List.append_nil]
    exact poolOk_begins h hw
  | exits hw hstopped =>
    rw [List.append_nil]
    exact poolOk_exits h hw hstopped
  | runs hw => exact poolOk_runs h hw
  | waits hcalled hmoves =>
    rw [List.append_nil]
    exact poolOk_waits h hcalled hmoves
  | returns hmoves => exact poolOk_returns h hmoves

theorem length_goOn (workers : List (WorkerPc τ)) (e : PoolOp τ × Option τ) :
    (goOn workers e).length = workers.length := by
  obtain ⟨o, result⟩ := e
  cases o with
  | run task => rfl
  | stop => rfl
  | take w => cases result <;> exact List.length_set

/-- No worker comes or goes. -/
theorem length_workers (hm : PoolMoves maxQueueSize s events s') :
    s'.workers.length = s.workers.length := by
  cases hm with
  | idle => rfl
  | direct _ _ => rfl
  | begins hw _ => rw [hw, List.length_append, List.length_append]; rfl
  | exits hw _ => rw [hw, List.length_append, List.length_append]; rfl
  | runs hw => rw [hw, List.length_append, List.length_append]; rfl
  | waits _ _ => rfl
  | returns _ => exact length_goOn ..

theorem ne_nil_of_moves (h : s.workers ≠ []) (hm : PoolMoves maxQueueSize s events s') :
    s'.workers ≠ [] := by
  have hlen := length_workers hm
  intro hnil
  rw [hnil, List.length_nil] at hlen
  exact h (List.length_eq_zero_iff.mp hlen.symm)

theorem poolOk_start (maxQueueSize numThreads : ℕ) :
    PoolOk maxQueueSize [] (ThreadPool.start τ numThreads) := by
  refine ⟨rfl, fun _ => Nat.zero_le _, ?_, fun w => ?_, fun _ pc hpc => ?_, served_init _⟩
  · have hnone : (ThreadPool.start τ numThreads).workers.flatMap WorkerPc.held = [] := by
      rw [List.flatMap_eq_nil_iff]
      intro pc hpc
      rw [List.eq_of_mem_replicate hpc]
      rfl
    rw [hnone]
    exact List.Perm.refl _
  · rw [ThreadPool.start, List.getElem?_replicate]
    split_ifs <;> simp_all [WorkerPc.isTaking]
  · rw [List.eq_of_mem_replicate hpc]
    simp

/-- **The invariant holds after every run.** -/
theorem poolOk_run (maxQueueSize numThreads : ℕ) (steps : List (PoolStep τ)) :
    PoolOk maxQueueSize ((poolMachine τ maxQueueSize).outs (.start τ numThreads) steps)
        ((poolMachine τ maxQueueSize).after (.start τ numThreads) steps) ∧
      ((poolMachine τ maxQueueSize).after (.start τ numThreads) steps).workers.length =
        numThreads := by
  have hv : (poolMachine τ maxQueueSize).Valid (fun _ _ => True) (.start τ numThreads) steps :=
    (poolMachine τ maxQueueSize).valid_of_inputs (P := fun _ => True) fun _ _ => trivial
  refine (poolMachine τ maxQueueSize).run_induct_valid (t := [])
    (I := fun trace s => PoolOk maxQueueSize trace s ∧ s.workers.length = numThreads)
    ⟨poolOk_start maxQueueSize numThreads, List.length_replicate⟩ hv ?_
  rintro trace s a ⟨hok, hlen⟩ -
  have hmoves := poolMoves maxQueueSize s a
  exact ⟨poolOk_step hok hmoves, (length_workers hmoves).trans hlen⟩

/-! ## Without workers -/

/-- **A pool without workers**: nothing is in the queue, and only `stop` takes
the lock. -/
structure Unmanned (s : ThreadPool τ) : Prop where
  workers : s.workers = []
  queue : s.monitor.shared.queue = []
  calls : ∀ t ∈ s.monitor.callers, t.op = .stop

/-- No operation behind the lock runs a task. -/
theorem directTasks_eventOf (e : PoolOp τ × Option τ) : directTasks (eventOf e) = [] := by
  obtain ⟨o, result⟩ := e
  cases o with
  | run task => rfl
  | stop => rfl
  | take w => cases result <;> rfl

theorem unmanned_monitorStep (h : Unmanned s) {a : MonitorStep (PoolOp τ)}
    (hcalled : ∀ o ∈ calledBy a, o = .stop) :
    Unmanned (s.monitorStep maxQueueSize a).2 ∧
      directTasks (s.monitorStep maxQueueSize a).1 = [] := by
  have hmoves := (poolMonitor τ maxQueueSize).moves s.monitor a
  unfold ThreadPool.monitorStep
  generalize (poolMonitor τ maxQueueSize).step s.monitor a = r at *
  obtain ⟨done, m⟩ := r
  dsimp only at hmoves ⊢
  -- those that return, and those that stay, have been called
  have hops : ∀ o ∈ done.map Prod.fst ++ m.callers.map Caller.op, o = .stop := by
    intro o ho
    rcases List.mem_append.mp (hmoves.perm.mem_iff.mpr ho) with hmem | hmem
    · obtain ⟨t, ht, rfl⟩ := List.mem_map.mp hmem
      exact h.calls t ht
    · exact hcalled o hmem
  have hcalls : ∀ t ∈ m.callers, t.op = .stop := fun t ht =>
    hops _ (List.mem_append_right _ (List.mem_map_of_mem ht))
  rcases hmoves.shared_cases with ⟨rfl, hshared⟩ | ⟨o, result, signal, rfl, hreturns⟩
  · exact ⟨⟨h.workers, by rw [hshared]; exact h.queue, hcalls⟩, rfl⟩
  · obtain rfl := hops o List.mem_cons_self
    obtain ⟨hshared, -, -⟩ := Attempt.returns.inj hreturns
    refine ⟨⟨h.workers, ?_, hcalls⟩, rfl⟩
    rw [← hshared]
    exact h.queue

theorem unmanned_step (maxQueueSize : ℕ) (h : Unmanned s) (a : PoolStep τ) :
    Unmanned (s.step maxQueueSize a).2 ∧ directTasks (s.step maxQueueSize a).1 = a.tasks := by
  cases a with
  | worker w =>
    unfold ThreadPool.step
    dsimp only
    rw [h.workers]
    exact ⟨h, rfl⟩
  | run task =>
    unfold ThreadPool.step
    dsimp only
    rw [if_pos (List.isEmpty_iff.mpr h.workers)]
    exact ⟨h, rfl⟩
  | stop => exact unmanned_monitorStep h fun o ho => List.mem_singleton.mp ho
  | lock i pick => exact unmanned_monitorStep h fun o ho => absurd ho List.not_mem_nil
  | wake i => exact unmanned_monitorStep h fun o ho => absurd ho List.not_mem_nil

/-- **Without workers each task is run where `run` is called**, and the queue
stays empty. -/
theorem unmanned_run (maxQueueSize : ℕ) (h : Unmanned s) (steps : List (PoolStep τ)) :
    Unmanned ((poolMachine τ maxQueueSize).after s steps) ∧
      directTasks ((poolMachine τ maxQueueSize).outs s steps) =
        steps.flatMap PoolStep.tasks := by
  induction steps generalizing s with
  | nil => exact ⟨h, rfl⟩
  | cons a steps ih =>
    obtain ⟨hstep, hdirect⟩ := unmanned_step maxQueueSize h a
    obtain ⟨hrun, hrest⟩ := ih hstep
    rw [Machine.outs_cons, Machine.after_cons, directTasks_append, List.flatMap_cons]
    exact ⟨hrun, congrArg₂ _ hdirect hrest⟩

theorem unmanned_start : Unmanned (ThreadPool.start τ 0) :=
  ⟨rfl, rfl, fun _ ht => absurd ht List.not_mem_nil⟩

/-- Where there are workers `run` runs nothing itself. -/
theorem directTasks_moves (hworkers : s.workers ≠ []) (hm : PoolMoves maxQueueSize s events s') :
    directTasks events = [] := by
  cases hm with
  | idle => rfl
  | direct hw _ => exact absurd hw hworkers
  | begins _ _ => rfl
  | exits _ _ => rfl
  | runs _ => rfl
  | waits _ _ => rfl
  | returns _ => exact directTasks_eventOf _

/-- **Which tasks `run` runs itself**: all, if there are no workers, and
otherwise none. -/
theorem directTasks_run (maxQueueSize numThreads : ℕ) (steps : List (PoolStep τ)) :
    directTasks ((poolMachine τ maxQueueSize).outs (.start τ numThreads) steps) =
      if numThreads = 0 then steps.flatMap PoolStep.tasks else [] := by
  split_ifs with hthreads
  · rw [hthreads]
    exact (unmanned_run maxQueueSize unmanned_start steps).2
  · have hv : (poolMachine τ maxQueueSize).Valid (fun _ _ => True) (.start τ numThreads) steps :=
      (poolMachine τ maxQueueSize).valid_of_inputs (P := fun _ => True) fun _ _ => trivial
    refine ((poolMachine τ maxQueueSize).run_induct_valid (t := [])
      (I := fun trace s => directTasks trace = [] ∧ s.workers.length = numThreads)
      ⟨rfl, List.length_replicate⟩ hv ?_).1
    rintro trace s a ⟨hdirect, hlen⟩ -
    have hmoves := poolMoves maxQueueSize s a
    have hworkers : s.workers ≠ [] := List.ne_nil_of_length_pos (by omega)
    refine ⟨?_, (length_workers hmoves).trans hlen⟩
    rw [directTasks_append, hdirect]
    exact directTasks_moves hworkers hmoves

/-! ## Results -/

/-- **Each task once.** Whatever the threads do: the tasks are taken in the
order in which `run` has put them into the queue, and each that has been taken
has been run once or is held by one worker. The queue keeps its bound. Without
workers each task is run where `run` is called, and only then. -/
theorem pool_accounts (maxQueueSize numThreads : ℕ) (steps : List (PoolStep τ)) :
    let trace := (poolMachine τ maxQueueSize).outs (.start τ numThreads) steps
    let s := (poolMachine τ maxQueueSize).after (.start τ numThreads) steps
    takenTasks trace ++ s.monitor.shared.queue = acceptedTasks trace ∧
      (takenTasks trace).Perm (ranTasks trace ++ s.workers.flatMap WorkerPc.held) ∧
      (0 < maxQueueSize → s.monitor.shared.queue.length ≤ maxQueueSize) ∧
      directTasks trace = if numThreads = 0 then steps.flatMap PoolStep.tasks else [] := by
  obtain ⟨hok, -⟩ := poolOk_run maxQueueSize numThreads steps
  exact ⟨hok.order, hok.held, hok.bounded, directTasks_run maxQueueSize numThreads steps⟩

/-- **Nobody can go on**: the calls all wait, and the workers are in `take` or
have exited. -/
def ThreadPool.Idle (s : ThreadPool τ) : Prop :=
  Quiet s.monitor ∧ ∀ pc ∈ s.workers, pc = .taking ∨ pc = .exited

/-- A worker in `take` has called it. -/
theorem PoolOk.exists_caller (h : PoolOk maxQueueSize trace s) (hmem : .taking ∈ s.workers) :
    ∃ t ∈ s.monitor.callers, ∃ w, t.op = .take w := by
  obtain ⟨w, hget⟩ := List.mem_iff_getElem?.mp hmem
  have hcount := h.taking w
  rw [hget] at hcount
  have hpos : 0 < (s.monitor.callers.map Caller.op).countP (PoolOp.isTake w) := by
    rw [hcount]
    exact Nat.one_pos
  obtain ⟨o, ho, htake⟩ := List.countP_pos_iff.mp hpos
  obtain ⟨t, ht, rfl⟩ := List.mem_map.mp ho
  refine ⟨t, ht, ?_⟩
  cases hop : t.op with
  | take v => exact ⟨v, rfl⟩
  | run task =>
    rw [hop] at htake
    cases htake
  | stop =>
    rw [hop] at htake
    cases htake

/-- What a call waits for where nobody can go on. -/
theorem PoolOk.blocked (h : PoolOk maxQueueSize trace s) (hquiet : Quiet s.monitor)
    {t : Caller QueueCond (PoolOp τ)} (ht : t ∈ s.monitor.callers) :
    (∃ w, t.op = .take w ∧ s.monitor.shared.running = true ∧ s.monitor.shared.queue = []) ∨
      ∃ task, t.op = .run task ∧ 0 < maxQueueSize ∧
        s.monitor.shared.queue.length = maxQueueSize := by
  obtain ⟨c, hop, hroom, -⟩ := blocked_of_quiet (supplied_pool maxQueueSize) h.served hquiet ht
  cases hcase : t.op with
  | run task =>
    rw [hcase] at hop
    obtain rfl := Option.some_inj.mp hop
    rw [poolRoom] at hroom
    split_ifs at hroom with hmax
    · cases hroom
    · have hle : maxQueueSize - s.monitor.shared.queue.length = 0 := by exact_mod_cast hroom
      have hbounded := h.bounded (Nat.pos_of_ne_zero hmax)
      exact Or.inr ⟨task, rfl, Nat.pos_of_ne_zero hmax, by omega⟩
  | take w =>
    rw [hcase] at hop
    obtain rfl := Option.some_inj.mp hop
    rw [poolRoom] at hroom
    split_ifs at hroom with hrunning
    · exact Or.inl ⟨w, rfl, hrunning, List.length_eq_zero_iff.mp (by exact_mod_cast hroom)⟩
    · cases hroom
  | stop =>
    rw [hcase] at hop
    cases hop

/-- **What has been done where nobody can go on.** Of a pool that runs each task
has been run, and no `run` waits. Of a pool that has been stopped all workers
have exited; what is in the queue is never run, and a `run` that waits, waits
for room in a full queue. -/
theorem pool_idle {numThreads : ℕ} (hthreads : 0 < numThreads) (steps : List (PoolStep τ))
    (hidle : ((poolMachine τ maxQueueSize).after (.start τ numThreads) steps).Idle) :
    let trace := (poolMachine τ maxQueueSize).outs (.start τ numThreads) steps
    let s := (poolMachine τ maxQueueSize).after (.start τ numThreads) steps
    (s.monitor.shared.running = true → (ranTasks trace).Perm (acceptedTasks trace) ∧
        ∀ t ∈ s.monitor.callers, ∃ w, t.op = .take w) ∧
      (s.monitor.shared.running = false → (∀ pc ∈ s.workers, pc = .exited) ∧
        (ranTasks trace ++ s.monitor.shared.queue).Perm (acceptedTasks trace) ∧
        ∀ t ∈ s.monitor.callers, ∃ task, t.op = .run task ∧ 0 < maxQueueSize ∧
          s.monitor.shared.queue.length = maxQueueSize) := by
  dsimp only
  obtain ⟨hok, hlen⟩ := poolOk_run maxQueueSize numThreads steps
  generalize (poolMachine τ maxQueueSize).outs (.start τ numThreads) steps = trace at *
  generalize (poolMachine τ maxQueueSize).after (.start τ numThreads) steps = s at *
  obtain ⟨hquiet, hworkers⟩ := hidle
  -- nobody holds a task
  have hheld : s.workers.flatMap WorkerPc.held = [] := by
    rw [List.flatMap_eq_nil_iff]
    intro pc hpc
    rcases hworkers pc hpc with rfl | rfl <;> rfl
  have hran := hok.held
  rw [hheld, List.append_nil] at hran
  refine ⟨fun hrunning => ?_, fun hstopped => ?_⟩
  · obtain ⟨pc, hpc⟩ := List.exists_mem_of_length_pos (hlen ▸ hthreads)
    have htaking : pc = .taking := (hworkers pc hpc).resolve_right (hok.running hrunning pc hpc)
    obtain ⟨t, ht, w, hop⟩ := hok.exists_caller (htaking ▸ hpc)
    have hnil : s.monitor.shared.queue = [] := by
      rcases hok.blocked hquiet ht with ⟨-, -, -, hnil⟩ | ⟨task, hrun, -, -⟩
      · exact hnil
      · rw [hop] at hrun
        cases hrun
    have horder := hok.order
    rw [hnil, List.append_nil] at horder
    refine ⟨horder ▸ hran.symm, fun u hu => ?_⟩
    rcases hok.blocked hquiet hu with ⟨v, hv, -, -⟩ | ⟨task, -, hpos, hfull⟩
    · exact ⟨v, hv⟩
    · rw [hnil, List.length_nil] at hfull
      omega
  · refine ⟨fun pc hpc => ?_, ?_, fun t ht => ?_⟩
    · rcases hworkers pc hpc with rfl | rfl
      · obtain ⟨t, ht, w, hop⟩ := hok.exists_caller hpc
        rcases hok.blocked hquiet ht with ⟨-, -, hrunning, -⟩ | ⟨task, hrun, -, -⟩
        · rw [hstopped] at hrunning
          cases hrunning
        · rw [hop] at hrun
          cases hrun
      · rfl
    · rw [← hok.order]
      exact hran.symm.append_right _
    · rcases hok.blocked hquiet ht with ⟨-, -, hrunning, -⟩ | hrun
      · rw [hstopped] at hrunning
        cases hrunning
      · exact hrun

end Tasks

/-- One worker and one task. -/
def oneTask : List (PoolStep ℕ) :=
  [.worker 0, .lock 0 0, .run 7, .lock 1 0, .lock 0 0, .worker 0, .worker 0, .lock 0 0]

theorem idle_oneTask : ((poolMachine ℕ 2).after (.start ℕ 1) oneTask).Idle :=
  ⟨by unfold Quiet; decide, by decide⟩

theorem pool_idle_oneTask :
    let trace := (poolMachine ℕ 2).outs (.start ℕ 1) oneTask
    let s := (poolMachine ℕ 2).after (.start ℕ 1) oneTask
    (s.monitor.shared.running = true → (ranTasks trace).Perm (acceptedTasks trace) ∧
        ∀ t ∈ s.monitor.callers, ∃ w, t.op = .take w) ∧
      (s.monitor.shared.running = false → (∀ pc ∈ s.workers, pc = .exited) ∧
        (ranTasks trace ++ s.monitor.shared.queue).Perm (acceptedTasks trace) ∧
        ∀ t ∈ s.monitor.callers, ∃ task, t.op = .run task ∧ 0 < 2 ∧
          s.monitor.shared.queue.length = 2) :=
  pool_idle Nat.one_pos oneTask idle_oneTask

end TelnetServ
