import TelnetServ.Server.Model
/-!
# The server — the owner's statements

What each statement of `init` and `destory` does, once: the position of the
owner says which thread objects there are and whether they have been
started, so that no statement uses a null pointer and no assertion of
`muduo::Thread` fails. `handlesOk_act` is that invariant, `proceeds` the
inversion it gives.
-/

namespace TelnetServ

namespace OwnerPc

/-- The value of `isRunning_`. -/
def up : OwnerPc → Bool
  | .newDaemon _ | .newLog | .startDaemon | .startLog | .started => true
  | .stopped | .notify | .joinDaemon | .joinLog | .reset => false

/-- Whether the daemon thread has been started; `none` where its handle is
null. -/
def daemonStarted : OwnerPc → Option Bool
  | .stopped | .newDaemon _ | .joinLog | .reset => none
  | .newLog | .startDaemon => some false
  | .startLog | .started | .notify | .joinDaemon => some true

/-- The same for the log thread. -/
def logStarted : OwnerPc → Option Bool
  | .stopped | .newDaemon _ | .newLog | .reset => none
  | .startDaemon | .startLog => some false
  | .started | .notify | .joinDaemon | .joinLog => some true

end OwnerPc

variable {F : Type*} {base : UInt64} {s : TelnetServer F}

/-- **The thread objects are what the owner's position says.** -/
structure HandlesOk (s : TelnetServer F) : Prop where
  daemon : s.thdTelnetDaemonHandle.map MuduoThread.started = s.owner.daemonStarted
  log : s.thdLogOutPutHandle.map MuduoThread.started = s.owner.logStarted

/-- **What the owner's next statement can do.** -/
inductive Proceeds (s : TelnetServer F) : TelnetServer F → Prop
  /-- It has returned from its call, or a join waits. -/
  | stays : Proceeds s s
  | newDaemon {telnetPort : UInt16} (owner : s.owner = .newDaemon telnetPort) :
      Proceeds s
        { s with owner := .newLog, thdTelnetDaemonHandle := some { func := telnetPort } }
  | newLog (owner : s.owner = .newLog) :
      Proceeds s { s with owner := .startDaemon, thdLogOutPutHandle := some { func := () } }
  | startDaemon {t : MuduoThread UInt16} (owner : s.owner = .startDaemon)
      (handle : s.thdTelnetDaemonHandle = some t) :
      Proceeds s { s with
        owner := .startLog
        thdTelnetDaemonHandle := some { t with started := true }
        daemonPc := .start t.func }
  | startLog {t : MuduoThread Unit} (owner : s.owner = .startLog)
      (handle : s.thdLogOutPutHandle = some t) :
      Proceeds s { s with
        owner := .started
        thdLogOutPutHandle := some { t with started := true }
        log := { s.log with pc := .start } }
  | notify (owner : s.owner = .notify) : Proceeds s { s with owner := .joinDaemon }
  | joinDaemon (owner : s.owner = .joinDaemon) (returned : s.daemonPc.Returned) :
      Proceeds s { s with owner := .joinLog, thdTelnetDaemonHandle := none }
  | joinLog (owner : s.owner = .joinLog) (returned : s.log.pc = .returned) :
      Proceeds s { s with owner := .reset, thdLogOutPutHandle := none }
  | reset (owner : s.owner = .reset) :
      Proceeds s { s with
        owner := .stopped
        listener := {}
        daemonPc := .idle
        daemon := { s.daemon with sockClient := invalidSocket }
        cmdFunTable := ∅ }

/-- A handle that is not null. -/
theorem exists_handle {α : Type*} {handle : Option (MuduoThread α)} {started : Bool}
    (h : handle.map MuduoThread.started = some started) :
    ∃ t, handle = some t ∧ t.started = started :=
  Option.map_eq_some_iff.mp h

/-- A thread that has not been started can be. -/
theorem start_handle {α : Type*} {handle : Option (MuduoThread α)}
    (h : handle.map MuduoThread.started = some false) :
    ∃ t, handle = some t ∧ handle.bind MuduoThread.start = some { t with started := true } := by
  obtain ⟨t, rfl, ht⟩ := exists_handle h
  exact ⟨t, rfl, by simp [MuduoThread.start, ht]⟩

/-- **The inversion of the owner's statements**: no null pointer is used and
no assertion fails. -/
theorem proceeds (h : HandlesOk s) : s.proceed.1 = [] ∧ Proceeds s s.proceed.2 := by
  obtain ⟨hdaemon, hlog⟩ := h
  unfold TelnetServer.proceed
  cases howner : s.owner with
  | stopped | started => exact ⟨rfl, .stays⟩
  | newDaemon telnetPort => exact ⟨rfl, .newDaemon howner⟩
  | newLog => exact ⟨rfl, .newLog howner⟩
  | startDaemon =>
    rw [howner] at hdaemon
    obtain ⟨t, ht, hbind⟩ := start_handle hdaemon
    simp only [hbind]
    exact ⟨trivial, .startDaemon howner ht⟩
  | startLog =>
    rw [howner] at hlog
    obtain ⟨t, ht, hbind⟩ := start_handle hlog
    simp only [hbind]
    exact ⟨trivial, .startLog howner ht⟩
  | notify => exact ⟨rfl, .notify howner⟩
  | joinDaemon =>
    rw [howner] at hdaemon
    obtain ⟨t, ht, hstarted⟩ := exists_handle hdaemon
    simp only [ht, hstarted, Bool.true_eq_false, if_false]
    split
    case isTrue hreturned => exact ⟨rfl, .joinDaemon howner hreturned⟩
    case isFalse => exact ⟨rfl, .stays⟩
  | joinLog =>
    rw [howner] at hlog
    obtain ⟨t, ht, hstarted⟩ := exists_handle hlog
    simp only [ht, hstarted, Bool.true_eq_false, if_false]
    split
    case isTrue hreturned => exact ⟨rfl, .joinLog howner hreturned⟩
    case isFalse => exact ⟨rfl, .stays⟩
  | reset => exact ⟨rfl, .reset howner⟩

/-- A call of `init` begins where the server is stopped. -/
theorem init_cases (s : TelnetServer F) (telnetPort : UInt16) :
    s.init telnetPort = ([], s) ∨ s.owner = .stopped ∧ s.init telnetPort =
      ([], { s with
        owner := .newDaemon telnetPort, log := { s.log with isRunning := true } }) := by
  by_cases howner : s.owner = .stopped
  · exact Or.inr ⟨howner, if_pos howner⟩
  · exact Or.inl (if_neg howner)

/-- A call of `destory` where it is started. -/
theorem destory_cases (s : TelnetServer F) :
    s.destory = ([], s) ∨ s.owner = .started ∧ s.destory =
      ([], { s with owner := .notify, log := { s.log with isRunning := false } }) := by
  by_cases howner : s.owner = .started
  · exact Or.inr ⟨howner, if_pos howner⟩
  · exact Or.inl (if_neg howner)

/-- The daemon thread touches neither the owner nor the log queue. -/
theorem telnetDaemonFun_frame (s : TelnetServer F) (base : UInt64) (k : DaemonAnswers) :
    ∃ listener pc daemon, (s.telnetDaemonFun base k).2 =
      { s with listener := listener, daemonPc := pc, daemon := daemon } := by
  unfold TelnetServer.telnetDaemonFun
  split
  · exact ⟨_, _, _, rfl⟩
  · exact ⟨_, _, _, rfl⟩
  · exact ⟨_, _, _, rfl⟩
  · split_ifs <;> exact ⟨_, _, _, rfl⟩

/-! ## The thread objects along a run -/

theorem handlesOk_init : HandlesOk ({} : TelnetServer F) := ⟨rfl, rfl⟩

theorem handlesOk_proceed (h : HandlesOk s) : HandlesOk s.proceed.2 := by
  have hstep := (proceeds h).2
  obtain ⟨hdaemon, hlog⟩ := h
  generalize s.proceed.2 = s' at hstep
  cases hstep with
  | stays => exact ⟨hdaemon, hlog⟩
  | newDaemon owner => rw [owner] at hlog; exact ⟨rfl, hlog⟩
  | newLog owner => rw [owner] at hdaemon; exact ⟨hdaemon, rfl⟩
  | startDaemon owner handle => rw [owner] at hlog; exact ⟨rfl, hlog⟩
  | startLog owner handle => rw [owner] at hdaemon; exact ⟨hdaemon, rfl⟩
  | notify owner => rw [owner] at hdaemon hlog; exact ⟨hdaemon, hlog⟩
  | joinDaemon owner returned => rw [owner] at hlog; exact ⟨rfl, hlog⟩
  | joinLog owner returned => rw [owner] at hdaemon; exact ⟨hdaemon, rfl⟩
  | reset owner => rw [owner] at hdaemon hlog; exact ⟨hdaemon, hlog⟩

/-- **Every step keeps the thread objects as the owner's position says.** -/
theorem handlesOk_act (h : HandlesOk s) (a : ServerStep F) : HandlesOk (s.act base a).2 := by
  cases a with
  | init telnetPort =>
    show HandlesOk (s.init telnetPort).2
    rcases init_cases s telnetPort with heq | ⟨howner, heq⟩
    · rwa [heq]
    · obtain ⟨hdaemon, hlog⟩ := h
      rw [howner] at hdaemon hlog
      rw [heq]
      exact ⟨hdaemon, hlog⟩
  | destory =>
    show HandlesOk s.destory.2
    rcases destory_cases s with heq | ⟨howner, heq⟩
    · rwa [heq]
    · obtain ⟨hdaemon, hlog⟩ := h
      rw [howner] at hdaemon hlog
      rw [heq]
      exact ⟨hdaemon, hlog⟩
  | owner => exact handlesOk_proceed h
  | daemon k =>
    obtain ⟨listener, pc, daemon, heq⟩ := telnetDaemonFun_frame s base k
    simp only [TelnetServer.act, heq]
    exact ⟨h.daemon, h.log⟩
  | log | append _ _ | regCommand _ _ _ => exact ⟨h.daemon, h.log⟩

end TelnetServ
