import TelnetServ.Threads.Queues
/-!
# The thread pool — model

`ThreadPool`: the workers, which take tasks from the queue in a loop, and any
number of threads that call `run` and `stop`; if there are no workers, `run`
runs its task itself. What is behind the lock is a monitor, which signals all
the room it makes (`supplied_pool`); `poolMoves` says what a step of the pool
can be.
-/

namespace TelnetServ

open Monitor

/-! ## Model -/

/-- `queue_` and `running_`. -/
structure PoolQueue (τ : Type*) where
  queue : List τ := []
  running : Bool := true

/-- The functions that take the lock. A task is a function, not an empty
`Task`. -/
inductive PoolOp (τ : Type*) where
  | run (task : τ)
  | take (worker : ℕ)
  | stop

/-- `isFull`. -/
def isFull {τ : Type*} (maxQueueSize : ℕ) (queue : List τ) : Bool :=
  0 < maxQueueSize ∧ maxQueueSize ≤ queue.length

/-- **`ThreadPool` and its lock.** -/
def poolMonitor (τ : Type*) (maxQueueSize : ℕ) :
    Monitor QueueCond (PoolQueue τ) (PoolOp τ) (Option τ) where
  attempt
    | .run task, p =>
      if isFull maxQueueSize p.queue then .waits .notFull
      else .returns { p with queue := p.queue ++ [task] } none (.notify .notEmpty)
    | .take _, p =>
      match p.queue with
      | [] => if p.running then .waits .notEmpty else .returns p none .silent
      | front :: queue =>
        .returns { p with queue := queue } (some front)
          (if 0 < maxQueueSize then .notify .notFull else .silent)
    | .stop, p => .returns { p with running := false } none (.notifyAll .notEmpty)

/-- Where a worker is in `runInThread`. -/
inductive WorkerPc (τ : Type*) where
  /-- Before `while (running_)`. -/
  | testing
  /-- In `take`. -/
  | taking
  /-- Before `task()`. -/
  | holding (task : τ)
  | exited
  deriving DecidableEq

/-- **A pool that has been started.** -/
structure ThreadPool (τ : Type*) where
  monitor : MonitorState QueueCond (PoolQueue τ) (PoolOp τ)
  workers : List (WorkerPc τ)

/-- `start` with a number of threads. -/
def ThreadPool.start (τ : Type*) (numThreads : ℕ) : ThreadPool τ :=
  ⟨⟨{}, []⟩, List.replicate numThreads .testing⟩

/-- A step of a worker outside the lock, a call of another thread, or a step of
the lock. -/
inductive PoolStep (τ : Type*) where
  | worker (w : ℕ)
  | run (task : τ)
  | stop
  | lock (i pick : ℕ)
  | wake (i : ℕ)

/-- What is seen of a step. -/
inductive PoolEvent (τ : Type*) where
  /-- `run` has put its task into the queue. -/
  | accepted (task : τ)
  | taken (task : τ)
  | ran (task : τ)
  /-- `run` has run its task itself. -/
  | direct (task : τ)
  | stopped

section Step

variable {τ : Type*}

/-- A worker whose `take` has returned goes on. -/
def goOn (workers : List (WorkerPc τ)) : PoolOp τ × Option τ → List (WorkerPc τ)
  | (.take w, some task) => workers.set w (.holding task)
  -- `if (task)`
  | (.take w, none) => workers.set w .testing
  | (.run _, _) | (.stop, _) => workers

/-- What is seen when an operation returns. -/
def eventOf : PoolOp τ × Option τ → List (PoolEvent τ)
  | (.run task, _) => [.accepted task]
  | (.take _, some task) => [.taken task]
  | (.take _, none) => []
  | (.stop, _) => [.stopped]

namespace ThreadPool

variable (maxQueueSize : ℕ) (s : ThreadPool τ)

/-- A step of the lock. -/
def monitorStep (a : MonitorStep (PoolOp τ)) : List (PoolEvent τ) × ThreadPool τ :=
  let r := (poolMonitor τ maxQueueSize).step s.monitor a
  (r.1.flatMap eventOf, ⟨r.2, r.1.foldl goOn s.workers⟩)

/-- **A step of the pool.** -/
def step : PoolStep τ → List (PoolEvent τ) × ThreadPool τ
  | .worker w =>
    match s.workers[w]? with
    | some .testing =>
      if s.monitor.shared.running then
        { s with workers := s.workers.set w .taking }.monitorStep maxQueueSize (.call (.take w))
      else ([], { s with workers := s.workers.set w .exited })
    | some (.holding task) => ([.ran task], { s with workers := s.workers.set w .testing })
    | some .taking | some .exited | none => ([], s)
  | .run task =>
    if s.workers.isEmpty then ([.direct task], s)
    else s.monitorStep maxQueueSize (.call (.run task))
  | .stop => s.monitorStep maxQueueSize (.call .stop)
  | .lock i pick => s.monitorStep maxQueueSize (.lock i pick)
  | .wake i => s.monitorStep maxQueueSize (.wake i)

end ThreadPool

/-- **The pool as a machine.** -/
def poolMachine (τ : Type*) (maxQueueSize : ℕ) :
    Machine (ThreadPool τ) (PoolStep τ) (PoolEvent τ) where
  step s a := s.step maxQueueSize a

/-- The tasks `run` has put into the queue, in order. -/
def acceptedTasks (trace : List (PoolEvent τ)) : List τ :=
  trace.filterMap fun
    | .accepted task => some task
    | .taken _ | .ran _ | .direct _ | .stopped => none

/-- The tasks that were taken from it, in order. -/
def takenTasks (trace : List (PoolEvent τ)) : List τ :=
  trace.filterMap fun
    | .taken task => some task
    | .accepted _ | .ran _ | .direct _ | .stopped => none

/-- **The tasks that have been run.** -/
def ranTasks (trace : List (PoolEvent τ)) : List τ :=
  trace.filterMap fun
    | .ran task => some task
    | .accepted _ | .taken _ | .direct _ | .stopped => none

/-- The tasks `run` has run itself. -/
def directTasks (trace : List (PoolEvent τ)) : List τ :=
  trace.filterMap fun
    | .direct task => some task
    | .accepted _ | .taken _ | .ran _ | .stopped => none

/-- The tasks `run` is called with. -/
def PoolStep.tasks : PoolStep τ → List τ
  | .run task => [task]
  | .worker _ | .stop | .lock _ _ | .wake _ => []

/-- The task a worker holds. -/
def WorkerPc.held : WorkerPc τ → List τ
  | .holding task => [task]
  | .testing | .taking | .exited => []

/-- Whether a worker is in `take`. -/
def WorkerPc.isTaking : WorkerPc τ → Bool
  | .taking => true
  | .testing | .holding _ | .exited => false

/-- Whether an operation is the `take` of a worker. -/
def PoolOp.isTake (w : ℕ) : PoolOp τ → Bool
  | .take v => v = w
  | .run _ | .stop => false

/-! ## Steps -/

/-- **What a step does.** -/
inductive PoolMoves (maxQueueSize : ℕ) (s : ThreadPool τ) :
    List (PoolEvent τ) → ThreadPool τ → Prop
  | idle : PoolMoves maxQueueSize s [] s
  | direct (hw : s.workers = []) (task : τ) : PoolMoves maxQueueSize s [.direct task] s
  | begins {pre post : List (WorkerPc τ)} (hw : s.workers = pre ++ .testing :: post)
      (hrunning : s.monitor.shared.running = true) :
      PoolMoves maxQueueSize s []
        ⟨⟨s.monitor.shared, s.monitor.callers ++ [⟨.take pre.length, none⟩]⟩,
          pre ++ .taking :: post⟩
  | exits {pre post : List (WorkerPc τ)} (hw : s.workers = pre ++ .testing :: post)
      (hstopped : s.monitor.shared.running = false) :
      PoolMoves maxQueueSize s [] ⟨s.monitor, pre ++ .exited :: post⟩
  | runs {pre post : List (WorkerPc τ)} {task : τ} (hw : s.workers = pre ++ .holding task :: post) :
      PoolMoves maxQueueSize s [.ran task] ⟨s.monitor, pre ++ .testing :: post⟩
  | waits {called : List (PoolOp τ)} {m : MonitorState QueueCond (PoolQueue τ) (PoolOp τ)}
      (hcalled : ∀ o ∈ called, ∀ w, o.isTake w = false)
      (h : (poolMonitor τ maxQueueSize).Moves s.monitor called [] m) :
      PoolMoves maxQueueSize s [] ⟨m, s.workers⟩
  | returns {m : MonitorState QueueCond (PoolQueue τ) (PoolOp τ)} {o : PoolOp τ} {result : Option τ}
      (h : (poolMonitor τ maxQueueSize).Moves s.monitor [] [(o, result)] m) :
      PoolMoves maxQueueSize s (eventOf (o, result)) ⟨m, goOn s.workers (o, result)⟩

variable {maxQueueSize : ℕ} {s s' : ThreadPool τ} {trace events : List (PoolEvent τ)}

/-- The place of a worker. -/
theorem exists_worker_split {workers : List (WorkerPc τ)} {w : ℕ} {pc : WorkerPc τ}
    (h : workers[w]? = some pc) :
    ∃ pre post, workers = pre ++ pc :: post ∧ w = pre.length ∧
      ∀ q, workers.set w q = pre ++ q :: post := by
  obtain ⟨hw, rfl⟩ := List.getElem?_eq_some_iff.mp h
  refine ⟨workers.take w, workers.drop (w + 1), ?_, ?_, fun q => ?_⟩
  · rw [← List.drop_eq_getElem_cons hw, List.take_append_drop]
  · rw [List.length_take]
    omega
  · rw [List.set_eq_take_append_cons_drop, if_pos hw]

/-- One worker is replaced. -/
theorem set_split {workers pre post : List (WorkerPc τ)} {pc pc' : WorkerPc τ} {w : ℕ}
    (hsplit : workers = pre ++ pc :: post) (hw : w = pre.length) :
    workers.set w pc' = pre ++ pc' :: post := by
  rw [hsplit, hw, List.set_append_right _ _ (Nat.le_refl _), Nat.sub_self, List.set_cons_zero]

/-- A step of the lock that is no `take` of a worker that begins. -/
theorem poolMoves_monitorStep {a : MonitorStep (PoolOp τ)}
    (hcalled : ∀ o ∈ calledBy a, ∀ w, o.isTake w = false) :
    PoolMoves maxQueueSize s (s.monitorStep maxQueueSize a).1 (s.monitorStep maxQueueSize a).2 := by
  have hmoves := (poolMonitor τ maxQueueSize).moves s.monitor a
  unfold ThreadPool.monitorStep
  generalize (poolMonitor τ maxQueueSize).step s.monitor a = r at *
  obtain ⟨done, m⟩ := r
  dsimp only at hmoves ⊢
  generalize calledBy a = called at *
  rcases hmoves.shared_cases with ⟨rfl, -⟩ | ⟨o, result, -, rfl, -⟩
  · exact .waits hcalled hmoves
  · have hnone : called = [] := by cases hmoves; rfl
    subst hnone
    rw [List.flatMap_singleton, List.foldl_cons, List.foldl_nil]
    exact .returns hmoves

/-- **Every step is one of these.** -/
theorem poolMoves (maxQueueSize : ℕ) (s : ThreadPool τ) (a : PoolStep τ) :
    PoolMoves maxQueueSize s (s.step maxQueueSize a).1 (s.step maxQueueSize a).2 := by
  cases a with
  | worker w =>
    unfold ThreadPool.step
    dsimp only
    cases hget : s.workers[w]? with
    | none => exact .idle
    | some pc =>
      obtain ⟨pre, post, hsplit, rfl, hset⟩ := exists_worker_split hget
      cases pc with
      | testing =>
        dsimp only
        rw [hset, hset]
        cases hrunning : s.monitor.shared.running with
        | true => exact .begins hsplit hrunning
        | false => exact .exits hsplit hrunning
      | taking => exact .idle
      | holding task =>
        dsimp only
        rw [hset]
        exact .runs hsplit
      | exited => exact .idle
  | run task =>
    unfold ThreadPool.step
    dsimp only
    split_ifs with hempty
    · exact .direct (List.isEmpty_iff.mp hempty) task
    · refine poolMoves_monitorStep fun o ho w => ?_
      rw [List.mem_singleton.mp ho]
      rfl
  | stop =>
    refine poolMoves_monitorStep fun o ho w => ?_
    rw [List.mem_singleton.mp ho]
    rfl
  | lock i pick => exact poolMoves_monitorStep fun o ho => absurd ho List.not_mem_nil
  | wake i => exact poolMoves_monitorStep fun o ho => absurd ho List.not_mem_nil

/-! ## The lock -/

/-- What can go on: a `take` while there are tasks, and in any case once the
pool has been stopped; a `run` while there is room. -/
def poolRoom (maxQueueSize : ℕ) : QueueCond → PoolQueue τ → ℕ∞
  | .notEmpty, p => if p.running then p.queue.length else ⊤
  | .notFull, p => if maxQueueSize = 0 then ⊤ else (maxQueueSize - p.queue.length : ℕ)

/-- What an operation may have to wait for. -/
def poolWaits : PoolOp τ → Option QueueCond
  | .run _ => some .notFull
  | .take _ => some .notEmpty
  | .stop => none

theorem isFull_iff {queue : List τ} :
    isFull maxQueueSize queue = true ↔ 0 < maxQueueSize ∧ maxQueueSize ≤ queue.length := by
  rw [isFull, decide_eq_true_eq]

/-- **When an operation returns.** -/
theorem pool_returns_cases {o : PoolOp τ} {p p' : PoolQueue τ} {result : Option τ}
    {signal : Signal QueueCond}
    (h : (poolMonitor τ maxQueueSize).attempt o p = .returns p' result signal) :
    (∃ task, o = .run task ∧ ¬ (0 < maxQueueSize ∧ maxQueueSize ≤ p.queue.length) ∧
        p' = { p with queue := p.queue ++ [task] } ∧ result = none ∧ signal = .notify .notEmpty) ∨
      (∃ w front queue, o = .take w ∧ p.queue = front :: queue ∧ p' = { p with queue := queue } ∧
        result = some front ∧ signal = if 0 < maxQueueSize then .notify .notFull else .silent) ∨
      (∃ w, o = .take w ∧ p.queue = [] ∧ p.running = false ∧ p' = p ∧ result = none ∧
        signal = .silent) ∨
      (o = .stop ∧ p' = { p with running := false } ∧ result = none ∧
        signal = .notifyAll .notEmpty) := by
  cases o with
  | run task =>
    unfold poolMonitor at h
    dsimp only at h
    split_ifs at h with hfull
    obtain ⟨rfl, rfl, rfl⟩ := Attempt.returns.inj h
    exact Or.inl ⟨task, rfl, mt isFull_iff.mpr hfull, rfl, rfl, rfl⟩
  | take w =>
    unfold poolMonitor at h
    dsimp only at h
    split at h
    case h_1 hqueue =>
      split_ifs at h with hrunning
      obtain ⟨rfl, rfl, rfl⟩ := Attempt.returns.inj h
      exact Or.inr (Or.inr (Or.inl ⟨w, rfl, hqueue, by simpa using hrunning, rfl, rfl, rfl⟩))
    case h_2 front queue hqueue =>
      obtain ⟨rfl, rfl, rfl⟩ := Attempt.returns.inj h
      exact Or.inr (Or.inl ⟨w, front, queue, rfl, hqueue, rfl, rfl, rfl⟩)
  | stop =>
    obtain ⟨rfl, rfl, rfl⟩ := Attempt.returns.inj h
    exact Or.inr (Or.inr (Or.inr ⟨rfl, rfl, rfl, rfl⟩))

/-- **Each operation signals what it makes room for.** -/
theorem supplied_pool (maxQueueSize : ℕ) :
    (poolMonitor τ maxQueueSize).Supplied (poolRoom maxQueueSize) poolWaits where
  waits o p c hwaits := by
    cases o with
    | run task =>
      unfold poolMonitor at hwaits
      dsimp only at hwaits
      split_ifs at hwaits with hfull
      obtain rfl := Attempt.waits.inj hwaits
      obtain ⟨hpos, hle⟩ := isFull_iff.mp hfull
      refine ⟨rfl, ?_⟩
      rw [poolRoom, if_neg hpos.ne', Nat.sub_eq_zero_of_le hle]
      rfl
    | take w =>
      unfold poolMonitor at hwaits
      dsimp only at hwaits
      split at hwaits
      · split_ifs at hwaits with hrunning
        obtain rfl := Attempt.waits.inj hwaits
        refine ⟨rfl, ?_⟩
        rw [poolRoom, if_pos hrunning]
        simp [*]
      · cases hwaits
    | stop => cases hwaits
  returns o p p' result signal hreturns c := by
    rcases pool_returns_cases hreturns with ⟨task, rfl, hroom, rfl, -, rfl⟩ |
      ⟨w, front, queue, rfl, hqueue, rfl, -, rfl⟩ | ⟨w, rfl, -, hstopped, rfl, -, rfl⟩ |
      ⟨rfl, rfl, -, rfl⟩
    · cases c with
      | notEmpty =>
        simp only [poolRoom, poolWaits, makes, List.length_append, List.length_singleton]
        split_ifs <;> simp
      | notFull =>
        by_cases hmax : maxQueueSize = 0
        · simp [poolRoom, hmax]
        · have hle : maxQueueSize - (p.queue.length + 1) + 1 ≤ maxQueueSize - p.queue.length := by
            omega
          simp only [poolRoom, poolWaits, makes, hmax, if_false, if_true, reduceCtorEq, add_zero,
            List.length_append, List.length_singleton]
          exact_mod_cast hle
    · cases c with
      | notEmpty =>
        simp only [poolRoom, poolWaits, hqueue, List.length_cons]
        split_ifs <;> simp
      | notFull =>
        by_cases hmax : maxQueueSize = 0
        · simp [poolRoom, hmax]
        · have hle : maxQueueSize - queue.length ≤ maxQueueSize - (queue.length + 1) + 1 := by
            omega
          rw [if_pos (Nat.pos_of_ne_zero hmax)]
          simp only [poolRoom, poolWaits, makes, hmax, hqueue, if_false, if_true, reduceCtorEq,
            Option.some.injEq, List.length_cons, Nat.cast_zero, add_zero]
          exact_mod_cast hle
    · cases c with
      | notEmpty => simp [poolRoom, hstopped]
      | notFull => simp [poolRoom, poolWaits, makes]
    · cases c with
      | notEmpty => simp [poolRoom, makes]
      | notFull => simp [poolRoom, poolWaits, makes]
  blocks o p c hop hroom := by
    cases o with
    | run task =>
      obtain rfl := Option.some_inj.mp hop
      rw [poolRoom] at hroom
      split_ifs at hroom with hmax
      · cases hroom
      · have hle : maxQueueSize - p.queue.length = 0 := by exact_mod_cast hroom
        exact if_pos (isFull_iff.mpr ⟨by omega, by omega⟩)
    | take w =>
      obtain rfl := Option.some_inj.mp hop
      rw [poolRoom] at hroom
      split_ifs at hroom with hrunning
      · have hnil : p.queue = [] := List.length_eq_zero_iff.mp (by exact_mod_cast hroom)
        unfold poolMonitor
        dsimp only
        rw [hnil]
        exact if_pos hrunning
      · cases hroom
    | stop => cases hop

end Step

end TelnetServ
