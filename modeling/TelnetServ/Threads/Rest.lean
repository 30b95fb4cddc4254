import TelnetServ.Threads.Tasks
import Mathlib.Data.Prod.Lex
/-!
# A thread pool at rest

As long as nobody calls, the threads of a pool come to rest, in whatever order
they go on (`pool_rests`). A pool that has been stopped stays as it is when its
workers have exited, and a `run` that waits for room then never returns
(`pool_strands`).
-/

namespace TelnetServ

open Monitor

section Rest

variable {τ : Type*} {maxQueueSize : ℕ} {s s' : ThreadPool τ} {trace events : List (PoolEvent τ)}

/-- **A thread goes on**: a worker outside the lock, or a call that gets the
lock. -/
def ThreadPool.Goes (s : ThreadPool τ) : PoolStep τ → Prop
  | .worker w => ∃ pc ∈ s.workers[w]?, pc = .testing ∨ ∃ task, pc = .holding task
  | .lock i pick => Busy s.monitor (.lock i pick)
  | .run _ | .stop | .wake _ => False

/-- Where nobody goes on, all wait. -/
theorem idle_of_not_goes (h : ∀ a, ¬ s.Goes a) : s.Idle := by
  constructor
  · intro t ht hready
    obtain ⟨i, hi⟩ := List.mem_iff_getElem?.mp ht
    exact h (.lock i 0) ⟨t, hi, hready⟩
  · intro pc hpc
    obtain ⟨w, hw⟩ := List.mem_iff_getElem?.mp hpc
    cases pc with
    | taking => exact Or.inl rfl
    | exited => exact Or.inr rfl
    | testing => exact absurd ⟨_, hw, Or.inl rfl⟩ (h (.worker w))
    | holding task => exact absurd ⟨_, hw, Or.inr ⟨task, rfl⟩⟩ (h (.worker w))

/-! ## What is left to do -/

/-- Whether an operation is not a `take`. -/
def PoolOp.isOther : PoolOp τ → Bool
  | .take _ => false
  | .run _ | .stop => true

/-- The tasks that are to be taken, those that come with a call of `run`
counted twice. -/
def ThreadPool.tasksLeft (s : ThreadPool τ) : ℕ :=
  2 * (s.monitor.callers.map Caller.op).countP PoolOp.isOther + s.monitor.shared.queue.length

/-- How far a worker is from `take`, or from its end. -/
def WorkerPc.distance (running : Bool) : WorkerPc τ → ℕ
  | .holding _ => 5
  | .testing => 4
  | .taking => if running then 0 else 3
  | .exited => 0

/-- How far calls are from waiting, or from returning. -/
def callersLeft (callers : List (Caller QueueCond (PoolOp τ))) : ℕ :=
  (callers.map fun t => if t.waitsFor = none then 2 else 1).sum

/-- How far the threads are from waiting. -/
def ThreadPool.turnsLeft (s : ThreadPool τ) : ℕ :=
  (s.workers.map (WorkerPc.distance s.monitor.shared.running)).sum + callersLeft s.monitor.callers

/-- **What is left to do.** -/
def ThreadPool.left (s : ThreadPool τ) : ℕ ×ₗ ℕ := toLex (s.tasksLeft, s.turnsLeft)

theorem left_lt_of_tasks (h : s'.tasksLeft < s.tasksLeft) : s'.left < s.left :=
  Prod.Lex.toLex_lt_toLex.mpr (Or.inl h)

theorem left_lt_of_turns (htasks : s'.tasksLeft = s.tasksLeft) (h : s'.turnsLeft < s.turnsLeft) :
    s'.left < s.left := Prod.Lex.toLex_lt_toLex.mpr (Or.inr ⟨htasks, h⟩)

/-- The distances of the workers, one of them apart. -/
theorem sum_distance_split (running : Bool) (pre post : List (WorkerPc τ)) (pc : WorkerPc τ) :
    ((pre ++ pc :: post).map (WorkerPc.distance running)).sum =
      ((pre ++ post).map (WorkerPc.distance running)).sum + pc.distance running := by
  simp only [List.map_append, List.map_cons, List.sum_append, List.sum_cons]
  omega

theorem callersLeft_split (pre post : List (Caller QueueCond (PoolOp τ)))
    (t : Caller QueueCond (PoolOp τ)) : callersLeft (pre ++ t :: post) =
      callersLeft (pre ++ post) + if t.waitsFor = none then 2 else 1 := by
  simp only [callersLeft, List.map_append, List.map_cons, List.sum_append, List.sum_cons]
  omega

/-- What a worker outside the lock does. -/
theorem goes_worker_cases (maxQueueSize : ℕ) {w : ℕ} (hgoes : s.Goes (.worker w)) : ∃ pre post,
    (s.workers = pre ++ .testing :: post ∧ s.monitor.shared.running = true ∧
      (s.step maxQueueSize (.worker w)).2 =
        ⟨⟨s.monitor.shared, s.monitor.callers ++ [⟨.take pre.length, none⟩]⟩,
          pre ++ .taking :: post⟩) ∨
      (s.workers = pre ++ .testing :: post ∧ s.monitor.shared.running = false ∧
        (s.step maxQueueSize (.worker w)).2 = ⟨s.monitor, pre ++ .exited :: post⟩) ∨
      ∃ task, s.workers = pre ++ .holding task :: post ∧
        (s.step maxQueueSize (.worker w)).2 = ⟨s.monitor, pre ++ .testing :: post⟩ := by
  obtain ⟨pc, hget, hpc⟩ := hgoes
  obtain ⟨pre, post, hsplit, rfl, hset⟩ := exists_worker_split hget
  change s.workers[pre.length]? = some pc at hget
  refine ⟨pre, post, ?_⟩
  unfold ThreadPool.step
  dsimp only
  rw [hget]
  rcases hpc with rfl | ⟨task, rfl⟩
  · dsimp only
    rw [hset, hset]
    cases hrunning : s.monitor.shared.running with
    | true => exact Or.inl ⟨hsplit, rfl, rfl⟩
    | false => exact Or.inr (Or.inl ⟨hsplit, rfl, rfl⟩)
  · dsimp only
    rw [hset]
    exact Or.inr (Or.inr ⟨task, hsplit, rfl⟩)

/-- **A worker outside the lock has less left behind a step.** -/
theorem left_lt_worker {w : ℕ} (hgoes : s.Goes (.worker w)) :
    (s.step maxQueueSize (.worker w)).2.left < s.left := by
  obtain ⟨pre, post, ⟨hsplit, hrunning, hstep⟩ | ⟨hsplit, hstopped, hstep⟩ |
    ⟨task, hsplit, hstep⟩⟩ := goes_worker_cases maxQueueSize hgoes
  · rw [hstep]
    refine left_lt_of_turns ?_ ?_
    · rw [ThreadPool.tasksLeft, ThreadPool.tasksLeft, List.map_append, List.countP_append]
      rfl
    · rw [ThreadPool.turnsLeft, ThreadPool.turnsLeft, hsplit, sum_distance_split,
        sum_distance_split, callersLeft_split, List.append_nil, hrunning]
      simp only [WorkerPc.distance, if_true]
      omega
  · rw [hstep]
    refine left_lt_of_turns rfl ?_
    rw [ThreadPool.turnsLeft, ThreadPool.turnsLeft, hsplit, sum_distance_split,
      sum_distance_split]
    simp only [WorkerPc.distance]
    omega
  · rw [hstep]
    refine left_lt_of_turns rfl ?_
    rw [ThreadPool.turnsLeft, ThreadPool.turnsLeft, hsplit, sum_distance_split,
      sum_distance_split]
    simp only [WorkerPc.distance]
    omega

/-- **And so has a call that gets the lock.** -/
theorem left_lt_lock (h : PoolOk maxQueueSize trace s) {i pick : ℕ}
    (hgoes : Busy s.monitor (.lock i pick)) :
    (s.step maxQueueSize (.lock i pick)).2.left < s.left := by
  obtain ⟨pre, o, post, hsplit, hcases⟩ := busy_cases (M := poolMonitor τ maxQueueSize) hgoes
  unfold ThreadPool.step ThreadPool.monitorStep
  dsimp only
  rcases hcases with ⟨c, -, hstep⟩ | ⟨shared, result, signal, hreturns, hstep⟩
  · rw [hstep]
    refine left_lt_of_turns ?_ ?_
    · rw [ThreadPool.tasksLeft, ThreadPool.tasksLeft, hsplit]
      simp only [List.map_append, List.map_cons]
    · rw [ThreadPool.turnsLeft, ThreadPool.turnsLeft, hsplit, callersLeft_split,
        callersLeft_split]
      simp only [List.foldl_nil, reduceCtorEq, if_false, if_true]
      omega
  · have hops : ((signalled pick signal (pre ++ post)).map Caller.op).countP PoolOp.isOther =
        ((pre ++ post).map Caller.op).countP PoolOp.isOther := by rw [map_op_signalled]
    have hothers : (s.monitor.callers.map Caller.op).countP PoolOp.isOther =
        ((pre ++ post).map Caller.op).countP PoolOp.isOther + if o.isOther then 1 else 0 := by
      rw [hsplit]
      simp only [List.map_append, List.map_cons, List.countP_append, List.countP_cons]
      omega
    rw [hstep]
    rcases pool_returns_cases hreturns with ⟨task, rfl, -, rfl, rfl, -⟩ |
      ⟨w, front, queue, rfl, hqueue, rfl, rfl, -⟩ | ⟨w, rfl, hqueue, hstopped, rfl, rfl, rfl⟩ |
      ⟨rfl, rfl, rfl, -⟩
    · refine left_lt_of_tasks ?_
      rw [ThreadPool.tasksLeft, ThreadPool.tasksLeft, hothers]
      simp only [hops, PoolOp.isOther, if_true, List.length_append, List.length_singleton]
      omega
    · refine left_lt_of_tasks ?_
      rw [ThreadPool.tasksLeft, ThreadPool.tasksLeft, hothers, hqueue]
      simp only [hops, List.length_cons]
      omega
    · -- the worker finds the pool stopped
      obtain ⟨t, ht, hop⟩ : ∃ t ∈ s.monitor.callers, t.op = .take w :=
        ⟨_, by rw [hsplit]; exact List.mem_append_cons_self, rfl⟩
      obtain ⟨before, behind, hworkers, hw⟩ := h.exists_taking ht hop
      have hgoOn : [(PoolOp.take w, (none : Option τ))].foldl goOn s.workers =
          before ++ .testing :: behind := set_split hworkers hw
      rw [hgoOn]
      refine left_lt_of_turns ?_ ?_
      · rw [ThreadPool.tasksLeft, ThreadPool.tasksLeft, hothers]
        rfl
      · rw [ThreadPool.turnsLeft, ThreadPool.turnsLeft, hsplit, hworkers, sum_distance_split,
          sum_distance_split, callersLeft_split, hstopped]
        simp only [signalled, WorkerPc.distance, if_true, Bool.false_eq_true, if_false]
        omega
    · refine left_lt_of_tasks ?_
      rw [ThreadPool.tasksLeft, ThreadPool.tasksLeft, hothers]
      simp only [hops, PoolOp.isOther, if_true]
      omega

/-- **There is less left behind each step.** -/
theorem left_lt (h : PoolOk maxQueueSize trace s) {a : PoolStep τ} (hgoes : s.Goes a) :
    (s.step maxQueueSize a).2.left < s.left := by
  cases a with
  | run task => cases hgoes
  | stop => cases hgoes
  | wake i => cases hgoes
  | worker w => exact left_lt_worker hgoes
  | lock i pick => exact left_lt_lock h hgoes

/-! ## Rest -/

/-- **No schedule goes on for ever.** -/
theorem exists_not_goes (h : PoolOk maxQueueSize trace s) (schedule : ℕ → PoolStep τ) :
    ∃ k, ¬ ((poolMachine τ maxQueueSize).after s ((List.range k).map schedule)).Goes
      (schedule k) := by
  induction hleft : s.left using WellFoundedLT.induction generalizing s trace schedule with
  | _ left ih =>
    by_cases hgoes : s.Goes (schedule 0)
    · have hok := poolOk_step h (poolMoves maxQueueSize s (schedule 0))
      obtain ⟨k, hk⟩ := ih _ (hleft ▸ left_lt h hgoes) hok (fun n => schedule (n + 1)) rfl
      refine ⟨k + 1, ?_⟩
      rw [List.range_succ_eq_map, List.map_cons, List.map_map, Machine.after_cons]
      exact hk
    · exact ⟨0, hgoes⟩

/-- And where all wait there is a way to it. -/
theorem exists_idle (h : PoolOk maxQueueSize trace s) :
    ∃ steps, (poolMachine τ maxQueueSize).Valid ThreadPool.Goes s steps ∧
      ((poolMachine τ maxQueueSize).after s steps).Idle := by
  induction hleft : s.left using WellFoundedLT.induction generalizing s trace with
  | _ left ih =>
    by_cases hgoes : ∃ a, s.Goes a
    · obtain ⟨a, ha⟩ := hgoes
      have hok := poolOk_step h (poolMoves maxQueueSize s a)
      obtain ⟨steps, hv, hidle⟩ := ih _ (hleft ▸ left_lt h ha) hok rfl
      exact ⟨a :: steps, ⟨ha, hv⟩, hidle⟩
    · exact ⟨[], trivial, idle_of_not_goes (not_exists.mp hgoes)⟩

/-- **The threads come to rest.** From every state a run reaches: whatever
schedule the threads follow, it comes to a step nobody can take; nobody can
take any only where all wait; and there is a way to go there. -/
theorem pool_rests (maxQueueSize numThreads : ℕ) (steps : List (PoolStep τ)) :
    let s := (poolMachine τ maxQueueSize).after (.start τ numThreads) steps
    (∀ schedule : ℕ → PoolStep τ, ∃ k,
        ¬ ((poolMachine τ maxQueueSize).after s ((List.range k).map schedule)).Goes (schedule k)) ∧
      (∃ more, (poolMachine τ maxQueueSize).Valid ThreadPool.Goes s more ∧
        ((poolMachine τ maxQueueSize).after s more).Idle) ∧
      ∀ s' : ThreadPool τ, (∀ a, ¬ s'.Goes a) → s'.Idle := by
  obtain ⟨hok, -⟩ := poolOk_run maxQueueSize numThreads steps
  exact ⟨exists_not_goes hok, exists_idle hok, fun _ => idle_of_not_goes⟩

/-! ## A pool that has been stopped -/

/-- The workers have exited, and the queue is full. -/
structure Stranded (maxQueueSize : ℕ) (s : ThreadPool τ) : Prop where
  stopped : s.monitor.shared.running = false
  exited : ∀ pc ∈ s.workers, pc = .exited
  bound : 0 < maxQueueSize
  full : maxQueueSize ≤ s.monitor.shared.queue.length

/-- No worker is anywhere else. -/
theorem Stranded.not_mem (h : Stranded maxQueueSize s) {pre post : List (WorkerPc τ)}
    {pc : WorkerPc τ} (hw : s.workers = pre ++ pc :: post) : pc = .exited :=
  h.exited pc (by rw [hw]; exact List.mem_append_cons_self)

/-- **Only `stop` returns, and all stays as it is.** -/
theorem stranded_step (hok : PoolOk maxQueueSize trace s) (hworkers : s.workers ≠ [])
    (h : Stranded maxQueueSize s) (hm : PoolMoves maxQueueSize s events s') :
    Stranded maxQueueSize s' ∧ ∀ e ∈ events, e = .stopped := by
  cases hm with
  | idle => exact ⟨h, fun e he => absurd he List.not_mem_nil⟩
  | direct hw _ => exact absurd hw hworkers
  | begins hw _ => cases h.not_mem hw
  | exits hw _ => cases h.not_mem hw
  | runs hw => cases h.not_mem hw
  | @waits called m _ hmoves =>
    have hshared : m.shared = s.monitor.shared := by
      rcases hmoves.shared_cases with ⟨-, hsame⟩ | ⟨o, result, -, hdone, -⟩
      · exact hsame
      · cases hdone
    refine ⟨⟨?_, h.exited, h.bound, ?_⟩, fun e he => absurd he List.not_mem_nil⟩
    · rw [hshared]
      exact h.stopped
    · rw [hshared]
      exact h.full
  | @returns m o result hmoves =>
    obtain ⟨⟨t, ht, hop⟩, signal, hreturns⟩ := exists_attempt hmoves
    have hnoTake : ∀ w, o ≠ .take w := by
      rintro w rfl
      obtain ⟨pre, post, hw, -⟩ := hok.exists_taking ht hop
      cases h.not_mem hw
    rcases pool_returns_cases hreturns with ⟨task, -, hroom, -⟩ | ⟨w, _, _, rfl, -⟩ |
      ⟨w, rfl, -⟩ | ⟨rfl, hshared, rfl, -⟩
    · exact absurd ⟨h.bound, h.full⟩ hroom
    · exact absurd rfl (hnoTake w)
    · exact absurd rfl (hnoTake w)
    · refine ⟨⟨?_, h.exited, h.bound, ?_⟩, fun e he => List.mem_singleton.mp he⟩
      · rw [hshared]
      · rw [hshared]
        exact h.full

/-- Without workers no queue is full. -/
theorem workers_of_stranded {numThreads : ℕ} (steps : List (PoolStep τ))
    (h : Stranded maxQueueSize ((poolMachine τ maxQueueSize).after (.start τ numThreads) steps)) :
    ((poolMachine τ maxQueueSize).after (.start τ numThreads) steps).workers ≠ [] := by
  obtain ⟨-, hlen⟩ := poolOk_run maxQueueSize numThreads steps
  intro hnil
  rw [hnil, List.length_nil] at hlen
  subst hlen
  obtain ⟨hunmanned, -⟩ := unmanned_run maxQueueSize unmanned_start steps
  have hfull := h.full
  rw [hunmanned.queue, List.length_nil] at hfull
  exact absurd h.bound (Nat.not_lt.mpr hfull)

/-- **A `run` that waits when the pool has been stopped waits for ever.** When
the workers have exited and the queue is full, nothing is run any more and no
call of `run` returns, whatever the threads do then. -/
theorem pool_strands {numThreads : ℕ} (steps : List (PoolStep τ))
    (h : Stranded maxQueueSize ((poolMachine τ maxQueueSize).after (.start τ numThreads) steps))
    (more : List (PoolStep τ)) :
    let s := (poolMachine τ maxQueueSize).after (.start τ numThreads) steps
    Stranded maxQueueSize ((poolMachine τ maxQueueSize).after s more) ∧
      acceptedTasks ((poolMachine τ maxQueueSize).outs s more) = [] ∧
      ranTasks ((poolMachine τ maxQueueSize).outs s more) = [] := by
  dsimp only
  have hworkers := workers_of_stranded steps h
  obtain ⟨hok, -⟩ := poolOk_run maxQueueSize numThreads steps
  generalize (poolMachine τ maxQueueSize).outs (.start τ numThreads) steps = trace at *
  generalize (poolMachine τ maxQueueSize).after (.start τ numThreads) steps = s at *
  induction more generalizing s trace with
  | nil => exact ⟨h, rfl, rfl⟩
  | cons a more ih =>
    have hmoves := poolMoves maxQueueSize s a
    obtain ⟨hstranded, honly⟩ := stranded_step hok hworkers h hmoves
    have hstill := ne_nil_of_moves hworkers hmoves
    obtain ⟨hafter, haccepted, hran⟩ := ih _ _ hstranded hstill (poolOk_step hok hmoves)
    rw [Machine.outs_cons, Machine.after_cons, acceptedTasks_append, ranTasks_append]
    refine ⟨hafter, ?_, ?_⟩
    · rw [show acceptedTasks (((poolMachine τ maxQueueSize).step s a).1) = [] from
        List.filterMap_eq_nil_iff.mpr fun e he => by rw [honly e he]]
      exact haccepted
    · rw [show ranTasks (((poolMachine τ maxQueueSize).step s a).1) = [] from
        List.filterMap_eq_nil_iff.mpr fun e he => by rw [honly e he]]
      exact hran

end Rest

/-- The second `run` finds the queue full; the pool is stopped before a worker
has taken the first task. -/
def stoppedFull : List (PoolStep ℕ) :=
  [.run 7, .run 8, .lock 0 0, .lock 0 0, .stop, .lock 1 0, .worker 0]

theorem stranded_stoppedFull :
    Stranded 1 ((poolMachine ℕ 1).after (.start ℕ 1) stoppedFull) where
  stopped := rfl
  exited := by decide
  bound := Nat.one_pos
  full := Nat.le_refl 1

/-- It waits on, and the task in the queue is not run. -/
theorem pool_strands_stoppedFull :
    let s := (poolMachine ℕ 1).after (.start ℕ 1) stoppedFull
    Stranded 1 ((poolMachine ℕ 1).after s [.wake 0, .lock 0 0]) ∧
      acceptedTasks ((poolMachine ℕ 1).outs s [.wake 0, .lock 0 0]) = [] ∧
      ranTasks ((poolMachine ℕ 1).outs s [.wake 0, .lock 0 0]) = [] :=
  pool_strands stoppedFull stranded_stoppedFull [.wake 0, .lock 0 0]

end TelnetServ
