import TelnetServ.Server.Owner
import TelnetServ.Queue.Buffers
/-!
# The server — the buffers of its log queue

The invariant of the log queue through the starts and stops of the server:
a log thread is started when there is none, and finds the vector of the one
before empty. `recycles_run` is what the assertions of `LogOutPutFun` ask
for, wherever the thread is and however many buffers have been filled.
-/

namespace TelnetServ

/-! ## What a part of `LogOutPutFun` leaves alone -/

namespace LogServer

variable {s s' : LogServer}

/-- There is no log thread, or it has returned. -/
def Gone (s : LogServer) : Prop := s.pc = .idle ∨ s.pc = .returned

/-- The log thread or a producer has taken a step. -/
structure Goes (s s' : LogServer) : Prop where
  aborted : s'.aborted = s.aborted
  isRunning : s'.isRunning = s.isRunning
  start : s'.pc = .start → s.pc = .start
  gone : s.Gone → s'.pc = s.pc

/-- A step of a thread that is there. -/
theorem Goes.of_pc (haborted : s'.aborted = s.aborted) (hrunning : s'.isRunning = s.isRunning)
    (hstart : s'.pc ≠ .start) (hidle : s.pc ≠ .idle) (hreturned : s.pc ≠ .returned) :
    s.Goes s' :=
  ⟨haborted, hrunning, fun h => absurd h hstart,
    fun h => (h.elim hidle hreturned).elim⟩

/-- **Past its first assertion the log thread never aborts.** -/
theorem goes_logOutPutFun (hok : LogOk s) (hstart : s.pc = .start → s.isRunning = true) :
    s.Goes s.logOutPutFun.2 := by
  have hlocals := hok.locals
  unfold LocalsOk at hlocals
  cases hpc : s.pc with
  | idle | returned =>
    simp only [logOutPutFun, hpc]
    exact ⟨rfl, rfl, id, fun _ => rfl⟩
  | start =>
    simp only [logOutPutFun, hpc, if_pos (hstart hpc)]
    exact .of_pc rfl rfl (by simp) (by simp [hpc]) (by simp [hpc])
  | loopHead =>
    rw [hpc] at hlocals
    have hspares : Spare s.newBuffer1 ∧ Spare s.newBuffer2 ∧ s.buffersToWrite = [] :=
      ⟨spare_of_data hlocals.1 hok.spare1, spare_of_data hlocals.2.1 hok.spare2, hlocals.2.2⟩
    simp only [logOutPutFun, hpc, if_pos hspares]
    split <;> exact .of_pc rfl rfl (by simp) (by simp [hpc]) (by simp [hpc])
  | lock =>
    simp only [logOutPutFun, hpc]
    split
    · exact .of_pc rfl rfl (by simp) (by simp [hpc]) (by simp [hpc])
    · obtain ⟨b, b₁, b₂, -, -, -, heq⟩ := swap_eq hok (Or.inl hpc)
      rw [heq]
      exact .of_pc rfl rfl (by simp) (by simp [hpc]) (by simp [hpc])
  | waiting =>
    obtain ⟨b, b₁, b₂, -, -, -, heq⟩ := swap_eq hok (Or.inr hpc)
    simp only [logOutPutFun, hpc]
    rw [heq]
    exact .of_pc rfl rfl (by simp) (by simp [hpc]) (by simp [hpc])
  | swapped =>
    rw [hpc] at hlocals
    simp only [logOutPutFun, hpc, if_neg hlocals.ne_nil]
    exact .of_pc rfl rfl (by simp) (by simp [hpc]) (by simp [hpc])
  | sending i =>
    rw [hpc] at hlocals
    simp only [logOutPutFun, hpc]
    cases hget : s.buffersToWrite[i]? with
    | some b => exact .of_pc rfl rfl (by simp) (by simp [hpc]) (by simp [hpc])
    | none =>
      obtain ⟨b₁, b₂, -, -, heq⟩ := recycle_eq hok hlocals
      simp only [heq]
      exact .of_pc rfl rfl (by simp) (by simp [hpc]) (by simp [hpc])

/-- A producer leaves the log thread where it is. -/
theorem goes_appendToMsgBuf (hok : LogOk s) (sockClient : ℤ) (logline : List UInt8) :
    s.Goes (s.appendToMsgBuf sockClient logline).2 := by
  rcases appendToMsgBuf_cases hok sockClient logline with
    h | ⟨b, b', -, ⟨-, h⟩ | ⟨-, h⟩⟩ <;> rw [h] <;> exact ⟨rfl, rfl, id, fun _ => rfl⟩

end LogServer

/-! ## The queue along a run -/

variable {F : Type*} {base : UInt64} {s : TelnetServer F} {a : ServerStep F}

/-- **The invariant.** -/
structure QueueOk (s : TelnetServer F) : Prop where
  alive : s.log.aborted = false
  queue : LogOk s.log
  handles : HandlesOk s
  /-- The owner starts a log thread when there is none. -/
  gone : s.owner.logStarted ≠ some true → s.log.Gone

/-- The log thread finds `isRunning_` set when it starts. -/
def StartsRunning (s : TelnetServer F) : ServerStep F → Prop
  | .log => s.log.pc = .start → s.log.isRunning = true
  | .init _ | .destory | .owner | .daemon _ | .append _ _ | .regCommand _ _ _ => True

instance (s : TelnetServer F) (a : ServerStep F) : Decidable (StartsRunning s a) :=
  match a with
  | .log => decidable_of_iff (s.log.pc ≠ .start ∨ s.log.isRunning = true)
      Decidable.imp_iff_not_or.symm
  | .init _ | .destory | .owner | .daemon _ | .append _ _ | .regCommand _ _ _ => isTrue trivial

theorem queueOk_init : QueueOk ({} : TelnetServer F) where
  alive := rfl
  queue := logOk_init
  handles := handlesOk_init
  gone := fun _ => Or.inl rfl

/-- **The owner's next statement keeps the invariant.** -/
theorem queueOk_proceed (h : QueueOk s) : QueueOk s.proceed.2 := by
  have hstep := (proceeds h.handles).2
  have hhandles := handlesOk_proceed h.handles
  obtain ⟨halive, hqueue, hold, hgone⟩ := h
  generalize s.proceed.2 = s' at hstep hhandles
  cases hstep with
  | stays => exact ⟨halive, hqueue, hhandles, hgone⟩
  | startLog owner handle =>
    rw [owner] at hgone
    -- the queue's invariant is about a thread that has just been started
    have hempty : s.log.buffersToWrite = [] := by
      have := hqueue.locals
      rcases hgone (by simp [OwnerPc.logStarted]) with h | h <;>
        simpa only [LogServer.LocalsOk, h] using this
    exact ⟨halive, { hqueue with locals := hempty }, hhandles, fun h => absurd rfl h⟩
  | joinLog owner returned => exact ⟨halive, hqueue, hhandles, fun _ => Or.inr returned⟩
  | newLog owner =>
    rw [owner] at hgone
    exact ⟨halive, hqueue, hhandles, fun _ => hgone (by simp [OwnerPc.logStarted])⟩
  | newDaemon owner | startDaemon owner handle | notify owner | joinDaemon owner returned
  | reset owner =>
    rw [owner] at hgone
    exact ⟨halive, hqueue, hhandles, hgone⟩

/-- What the log thread or a producer does to the queue keeps the
invariant. -/
theorem QueueOk.goes (h : QueueOk s) {log : LogServer} (hqueue : LogOk log)
    (hgoes : s.log.Goes log) : QueueOk { s with log := log } where
  alive := hgoes.aborted.trans h.alive
  queue := hqueue
  handles := ⟨h.handles.daemon, h.handles.log⟩
  gone := fun hstarted => by
    have hgone := h.gone hstarted
    rwa [LogServer.Gone, hgoes.gone hgone]

/-- **The step lemma.** -/
theorem queueOk_step (h : QueueOk s) (hstart : StartsRunning s a) :
    QueueOk (s.step base a).2 := by
  have hhandles : HandlesOk (s.act base a).2 := handlesOk_act h.handles a
  rw [TelnetServer.step_of_alive h.alive]
  cases a with
  | init telnetPort =>
    change HandlesOk (s.init telnetPort).2 at hhandles
    show QueueOk (s.init telnetPort).2
    rcases init_cases s telnetPort with heq | ⟨howner, heq⟩
    · rwa [heq]
    · have hgone := h.gone
      rw [howner] at hgone
      rw [heq] at hhandles ⊢
      exact ⟨h.alive, { h.queue with }, hhandles, hgone⟩
  | destory =>
    change HandlesOk s.destory.2 at hhandles
    show QueueOk s.destory.2
    rcases destory_cases s with heq | ⟨-, heq⟩
    · rwa [heq]
    · rw [heq] at hhandles ⊢
      exact ⟨h.alive, { h.queue with }, hhandles, fun h => absurd rfl h⟩
  | owner => exact queueOk_proceed h
  | daemon k =>
    obtain ⟨listener, pc, daemon, heq⟩ := telnetDaemonFun_frame s base k
    simp only [TelnetServer.act, heq] at hhandles ⊢
    exact { h with handles := hhandles }
  | log =>
    exact h.goes (LogServer.logOk_logOutPutFun h.queue).1
      (LogServer.goes_logOutPutFun h.queue hstart)
  | append sockClient logline =>
    exact h.goes (LogServer.logOk_append h.queue sockClient logline).1
      (LogServer.goes_appendToMsgBuf h.queue sockClient logline)
  | regCommand name func usage => exact { h with handles := hhandles }

theorem queueOk_run {steps : List (ServerStep F)}
    (hv : (serverMachine F base).Valid StartsRunning {} steps) :
    QueueOk ((serverMachine F base).after {} steps) :=
  (serverMachine F base).after_induct_valid queueOk_init hv fun _ _ h ha => queueOk_step h ha

/-! ## What the assertions ask for -/

/-- **The buffers go round.** -/
structure Recycles (s : LogServer) : Prop where
  /-- No assertion has failed and no null pointer has been used. -/
  alive : s.aborted = false
  current : s.currentBuffer ≠ none
  next : s.nextBuffer = none → s.buffers ≠ []
  /-- The assertions at the loop head. -/
  loopHead : s.pc = .loopHead →
    LogServer.Spare s.newBuffer1 ∧ LogServer.Spare s.newBuffer2 ∧ s.buffersToWrite = []
  /-- The assertion behind the swap. -/
  swapped : s.pc = .swapped → s.buffersToWrite ≠ []
  /-- The assertions before each `pop_back`. -/
  popBack : ∀ i, s.pc = .sending i → s.buffersToWrite[i]? = none →
    ∃ newBuffer1 rest,
      reclaim s.newBuffer1 (s.buffersToWrite.take 2) = some (newBuffer1, rest) ∧
        reclaim s.newBuffer2 rest ≠ none

theorem recycles_of_logOk {s : LogServer} (hok : LogOk s) (halive : s.aborted = false) :
    Recycles s := by
  have hlocals := hok.locals
  unfold LogServer.LocalsOk at hlocals
  refine ⟨halive, ?_, hok.next_none, fun hpc => ?_, fun hpc => ?_, fun i hpc _ => ?_⟩
  · obtain ⟨b, hb⟩ := hok.current
    rw [hb]
    simp
  · rw [hpc] at hlocals
    exact ⟨LogServer.spare_of_data hlocals.1 hok.spare1,
      LogServer.spare_of_data hlocals.2.1 hok.spare2, hlocals.2.2⟩
  · rw [hpc] at hlocals
    exact hlocals.ne_nil
  · rw [hpc] at hlocals
    obtain ⟨b₁, rest, b₂, rest', -, -, hr₁, hr₂⟩ := LogServer.reclaims hok hlocals
    exact ⟨b₁, rest, hr₁, by rw [hr₂]; simp⟩

/-- **The buffers go round in every state of every run** in which the log
thread starts with `isRunning_` set: any interleaving of the producers with
the log thread, through any number of starts and stops. -/
theorem recycles_run (base : UInt64) {steps : List (ServerStep F)}
    (hv : (serverMachine F base).Valid StartsRunning {} steps) :
    Recycles ((serverMachine F base).after {} steps).log :=
  recycles_of_logOk (queueOk_run hv).queue (queueOk_run hv).alive

/-- A start, an iteration with one message, a stop and a second start. -/
theorem recycles_restarted : Recycles ((serverMachine Unit 0).after {}
    ([.init 2500, .owner, .owner, .owner, .owner, .log, .append 5 [65], .log, .log, .log, .log,
      .log, .log, .destory, .owner, .daemon {}, .owner, .log, .owner, .owner, .init 2500, .owner,
      .owner, .owner, .owner, .log] : List (ServerStep Unit))).log :=
  recycles_run 0 (by decide +kernel)

end TelnetServ
