import TelnetServ.Server.Recycling
/-!
# The server — the start-up assertion of the log thread

`LogOutPutFun` begins with `assert(isRunning_ == true)`. `init` sets the
flag before it creates the threads and `destory` clears it before it joins
them, and nothing waits for a new thread to take its first step: a stop
that overtakes it lets the assertion fail. `neverTripped_iff` says that
this is the only way to abort the process. The invariant `ServerOk` reads
the flag off the owner's position, and says that there is no log thread
where the owner starts one.
-/

namespace TelnetServ

/-! ## The flag along a run -/

variable {F : Type*} {base : UInt64} {s s' : TelnetServer F} {a : ServerStep F}

/-- **The invariant.** A log thread that has not run yet has been started
with the flag set. -/
structure ServerOk (s : TelnetServer F) : Prop where
  alive : s.log.aborted = false
  queue : LogOk s.log
  isRunning : s.log.isRunning = s.owner.up
  handles : HandlesOk s
  /-- The owner starts a log thread when there is none. -/
  gone : s.owner.logStarted ≠ some true → s.log.Gone
  evaluated : s.log.pc = .start → s.owner.up = true

/-- The flag is not cleared while the log thread has yet to test it. -/
def NotOvertaking (s : TelnetServer F) : ServerStep F → Prop
  | .destory => s.owner = .started → s.log.pc ≠ .start
  | .init _ | .owner | .daemon _ | .log | .append _ _ | .regCommand _ _ _ => True

instance (s : TelnetServer F) (a : ServerStep F) : Decidable (NotOvertaking s a) :=
  match a with
  | .destory => decidable_of_iff (¬ (s.owner = .started ∧ s.log.pc = .start)) not_and
  | .init _ | .owner | .daemon _ | .log | .append _ _ | .regCommand _ _ _ => isTrue trivial

theorem serverOk_init : ServerOk ({} : TelnetServer F) where
  alive := rfl
  queue := logOk_init
  isRunning := rfl
  handles := handlesOk_init
  gone := fun _ => Or.inl rfl
  evaluated := fun h => by cases h

/-- The part of the invariant that is about the queue. -/
theorem ServerOk.queueOk (h : ServerOk s) : QueueOk s := ⟨h.alive, h.queue, h.handles, h.gone⟩

/-- The other part, which is about the flag. -/
theorem QueueOk.serverOk (h : QueueOk s) (hrunning : s.log.isRunning = s.owner.up)
    (hevaluated : s.log.pc = .start → s.owner.up = true) : ServerOk s :=
  ⟨h.alive, h.queue, hrunning, h.handles, h.gone, hevaluated⟩

/-- **The owner's next statement keeps the invariant.** -/
theorem serverOk_proceed (h : ServerOk s) : ServerOk s.proceed.2 := by
  have hstep := (proceeds h.handles).2
  have hqueue := queueOk_proceed h.queueOk
  have hrunning := h.isRunning
  have hevaluated := h.evaluated
  generalize s.proceed.2 = s' at hstep hqueue
  cases hstep with
  | stays => exact h
  | newDaemon owner | newLog owner | startDaemon owner _ | startLog owner _ =>
    rw [owner] at hrunning
    exact hqueue.serverOk hrunning fun _ => rfl
  | notify owner | joinDaemon owner _ | joinLog owner _ | reset owner =>
    rw [owner] at hrunning hevaluated
    exact hqueue.serverOk hrunning hevaluated

/-- What the log thread or a producer does to the queue leaves the flag
alone. -/
theorem ServerOk.goes (h : ServerOk s) {log : LogServer} (hqueue : QueueOk { s with log := log })
    (hgoes : s.log.Goes log) : ServerOk { s with log := log } :=
  hqueue.serverOk (hgoes.isRunning.trans h.isRunning) fun hpc => h.evaluated (hgoes.start hpc)

/-- The log thread finds the flag set. -/
theorem ServerOk.startsRunning (h : ServerOk s) (a : ServerStep F) : StartsRunning s a := by
  cases a with
  | log => exact fun hpc => h.isRunning.trans (h.evaluated hpc)
  | init _ | destory | owner | daemon _ | append _ _ | regCommand _ _ _ => trivial

/-- **The step lemma.** -/
theorem serverOk_step (h : ServerOk s) (hlate : NotOvertaking s a) :
    ServerOk (s.step base a).2 := by
  have hqueue : QueueOk (s.step base a).2 := queueOk_step h.queueOk (h.startsRunning a)
  rw [TelnetServer.step_of_alive h.alive] at hqueue ⊢
  cases a with
  | init telnetPort =>
    change QueueOk (s.init telnetPort).2 at hqueue
    show ServerOk (s.init telnetPort).2
    rcases init_cases s telnetPort with heq | ⟨-, heq⟩
    · rwa [heq]
    · rw [heq] at hqueue ⊢
      exact hqueue.serverOk rfl fun _ => rfl
  | destory =>
    change QueueOk s.destory.2 at hqueue
    show ServerOk s.destory.2
    rcases destory_cases s with heq | ⟨howner, heq⟩
    · rwa [heq]
    · rw [heq] at hqueue ⊢
      exact hqueue.serverOk rfl fun hpc => absurd hpc (hlate howner)
  | owner => exact serverOk_proceed h
  | daemon k =>
    obtain ⟨listener, pc, daemon, heq⟩ := telnetDaemonFun_frame s base k
    simp only [TelnetServer.act, heq] at hqueue ⊢
    exact hqueue.serverOk h.isRunning h.evaluated
  | log =>
    exact h.goes hqueue (LogServer.goes_logOutPutFun h.queue (h.startsRunning .log))
  | append sockClient logline =>
    exact h.goes hqueue (LogServer.goes_appendToMsgBuf h.queue sockClient logline)
  | regCommand name func usage => exact hqueue.serverOk h.isRunning h.evaluated

/-! ## A stop that overtakes the log thread -/

/-- The flag is cleared, and the log thread has not tested it yet. -/
structure Overtaken (s : TelnetServer F) : Prop where
  pc : s.log.pc = .start
  isRunning : s.log.isRunning = false
  handles : HandlesOk s
  owner : s.owner = .notify ∨ s.owner = .joinDaemon ∨ s.owner = .joinLog

/-- The process is aborted, or the log thread's next step will do it. -/
def Doomed (s : TelnetServer F) : Prop := s.log.aborted = true ∨ Overtaken s

/-- The owner cannot get past the join. -/
theorem overtaken_proceed (h : Overtaken s) : Overtaken s.proceed.2 := by
  have hstep := (proceeds h.handles).2
  have hhandles := handlesOk_proceed h.handles
  obtain ⟨hpc, hrunning, hold, howner⟩ := h
  generalize s.proceed.2 = s' at hstep hhandles
  cases hstep with
  | stays => exact ⟨hpc, hrunning, hhandles, howner⟩
  | notify owner => exact ⟨hpc, hrunning, hhandles, Or.inr (Or.inl rfl)⟩
  | joinDaemon owner returned => exact ⟨hpc, hrunning, hhandles, Or.inr (Or.inr rfl)⟩
  | joinLog owner returned => exact absurd (hpc.symm.trans returned) nofun
  | newDaemon owner | newLog owner | startDaemon owner _ | startLog owner _ | reset owner =>
    simp [owner] at howner

/-- The log thread's step fails the assertion. -/
theorem aborted_of_overtaken (h : Overtaken s) : s.log.logOutPutFun.2.aborted = true := by
  simp only [LogServer.logOutPutFun, h.pc, h.isRunning]
  rfl

/-- A producer leaves it at that, or aborts the process itself. -/
theorem Overtaken.append (h : Overtaken s) (sockClient : ℤ) (logline : List UInt8) :
    Doomed { s with log := (s.log.appendToMsgBuf sockClient logline).2 } := by
  unfold LogServer.appendToMsgBuf
  split_ifs
  · exact Or.inr h
  · exact Or.inr h
  · split
    · exact Or.inl rfl
    · split <;> exact Or.inr ⟨h.pc, h.isRunning, ⟨h.handles.daemon, h.handles.log⟩, h.owner⟩

/-- **No step averts it.** -/
theorem doomed_step (h : Doomed s) (a : ServerStep F) : Doomed (s.step base a).2 := by
  by_cases haborted : s.log.aborted = true
  · rw [TelnetServer.step_of_aborted haborted]
    exact Or.inl haborted
  rw [TelnetServer.step_of_alive (Bool.eq_false_iff.mpr haborted)]
  have hover := h.resolve_left haborted
  have hhandles : HandlesOk (s.act base a).2 := handlesOk_act hover.handles a
  have hnot : s.owner ≠ .stopped ∧ s.owner ≠ .started := by
    rcases hover.owner with howner | howner | howner <;> simp [howner]
  cases a with
  | init telnetPort =>
    simp only [TelnetServer.act, TelnetServer.init, if_neg hnot.1]
    exact h
  | destory =>
    simp only [TelnetServer.act, TelnetServer.destory, if_neg hnot.2]
    exact h
  | owner => exact Or.inr (overtaken_proceed hover)
  | daemon k =>
    obtain ⟨listener, pc, daemon, heq⟩ := telnetDaemonFun_frame s base k
    simp only [TelnetServer.act, heq] at hhandles ⊢
    exact Or.inr ⟨hover.pc, hover.isRunning, hhandles, hover.owner⟩
  | log => exact Or.inl (aborted_of_overtaken hover)
  | append sockClient logline => exact hover.append sockClient logline
  | regCommand name func usage =>
    exact Or.inr ⟨hover.pc, hover.isRunning, hhandles, hover.owner⟩

/-- **The log thread's next step aborts the process.** -/
theorem aborted_of_doomed (h : Doomed s) : (s.step base .log).2.log.aborted = true := by
  by_cases haborted : s.log.aborted = true
  · rwa [TelnetServer.step_of_aborted haborted]
  · rw [TelnetServer.step_of_alive (Bool.eq_false_iff.mpr haborted)]
    exact aborted_of_overtaken (h.resolve_left haborted)

/-- A step that overtakes the log thread. -/
theorem doomed_of_overtaking (h : ServerOk s) (hlate : ¬ NotOvertaking s a) :
    Doomed (s.step base a).2 := by
  cases a with
  | destory =>
    simp only [NotOvertaking, Classical.not_imp, not_not] at hlate
    obtain ⟨howner, hpc⟩ := hlate
    have hhandles : HandlesOk (s.act base .destory).2 := handlesOk_act h.handles _
    rw [TelnetServer.step_of_alive h.alive]
    simp only [TelnetServer.act, TelnetServer.destory, if_pos howner] at hhandles ⊢
    exact Or.inr ⟨hpc, rfl, hhandles, Or.inl rfl⟩
  | init _ | owner | daemon _ | log | append _ _ | regCommand _ _ _ => exact absurd trivial hlate

/-- **A run with such a step is doomed.** -/
theorem doomed_of_not_valid {steps : List (ServerStep F)} (h : ServerOk s)
    (hlate : ¬ (serverMachine F base).Valid NotOvertaking s steps) :
    Doomed ((serverMachine F base).after s steps) := by
  induction steps generalizing s with
  | nil => exact absurd trivial hlate
  | cons a steps ih =>
    by_cases ha : NotOvertaking s a
    · exact ih (serverOk_step h ha) fun hrest => hlate ⟨ha, hrest⟩
    · exact (serverMachine F base).after_induct (doomed_of_overtaking h ha)
        (fun _ b hs => doomed_step hs b) steps

/-! ## The result -/

/-- The log thread's next step evaluates `assert(isRunning_ == true)`. -/
def EvaluatesAssert (s : TelnetServer F) : Prop := s.log.aborted = false ∧ s.log.pc = .start

/-- **Start and stop never trip the assertion** in a run of the server. -/
structure NeverTripped (base : UInt64) (steps : List (ServerStep F)) : Prop where
  /-- The flag is set whenever the assertion is evaluated. -/
  holds : ∀ pre post, steps = pre ++ .log :: post →
    EvaluatesAssert ((serverMachine F base).after {} pre) →
      ((serverMachine F base).after {} pre).log.isRunning = true
  alive : ((serverMachine F base).after {} steps).log.aborted = false

theorem serverOk_run {steps : List (ServerStep F)}
    (hv : (serverMachine F base).Valid NotOvertaking {} steps) :
    ServerOk ((serverMachine F base).after {} steps) :=
  (serverMachine F base).after_induct_valid serverOk_init hv fun _ _ h ha => serverOk_step h ha

/-- **The assertion holds exactly if no stop overtakes the log thread**: if
`destory` never clears the flag while a log thread has been started and has
not taken its first step. A log thread that has not run at the end is given
that step. -/
theorem neverTripped_iff (base : UInt64) (steps : List (ServerStep F)) :
    NeverTripped base (steps ++ [.log]) ↔
      (serverMachine F base).Valid NotOvertaking {} steps := by
  constructor
  · intro h
    by_contra hlate
    have halive := h.alive
    rw [Machine.after_concat] at halive
    have hdoomed := doomed_of_not_valid serverOk_init hlate
    have haborted : (((serverMachine F base).after {} steps).step base .log).2.log.aborted = true :=
      aborted_of_doomed hdoomed
    exact Bool.false_ne_true (halive.symm.trans haborted)
  · intro hv
    have hv' : (serverMachine F base).Valid NotOvertaking {} (steps ++ [.log]) :=
      (serverMachine F base).valid_append.mpr ⟨hv, trivial, trivial⟩
    refine ⟨fun pre post hsteps heval => ?_, (serverOk_run hv').alive⟩
    rw [hsteps] at hv'
    have hok := serverOk_run ((serverMachine F base).valid_append.mp hv').1
    exact hok.isRunning.trans (hok.evaluated heval.2)

/-- The owner stops the server before the log thread has run. -/
theorem not_neverTripped_earlyStop :
    ¬ NeverTripped 0 ([.init 2500, .owner, .owner, .owner, .owner, .destory, .log] :
      List (ServerStep Unit)) :=
  fun h => absurd h.alive (by decide)

end TelnetServ
