import TelnetServ.Server.Descriptors
/-!
# The server — stop and restart

`destory` joins the two threads and sets `sockServ_` and `sockClient_` to
`INVALID_SOCKET` without closing them, and nobody closes the epoll
descriptor either: everything the daemon thread has open when it leaves its
loop stays open. The listening socket keeps its port with it, so that a
later `init` on the port cannot bind it and goes on to the search.
`cleanRestarts_iff` says that nothing is left open only where there was
nothing to close.
-/

namespace TelnetServ

open Effect

variable {F : Type*} {base : UInt64}

/-! ## What is promised of a run -/

/-- The owner's next statement is the last one of `destory`. -/
def Returning (s : TelnetServer F) : Prop := s.log.aborted = false ∧ s.owner = .reset

instance (s : TelnetServer F) : Decidable (Returning s) := by unfold Returning; infer_instance

/-- The daemon thread's next step opens the descriptors for `wPort`. -/
def Opening (s : TelnetServer F) (wPort : UInt16) : Prop :=
  s.log.aborted = false ∧ s.daemonPc = .start wPort

/-- **Nobody else holds the port**: there is a socket to be had, and if it
cannot be bound, then because of a socket of the server. -/
structure PortFree (w : ServerWorld F) (wPort : UInt16) (k : SockAnswers) : Prop where
  socket : k.socket ≠ invalidSocket
  bind : k.bind = false → ∃ fd, (fd, wPort) ∈ w.bound
  listen : k.listen = true

/-- **Stop and restart release every descriptor**, in a run of the server. -/
structure CleanRestarts (base : UInt64) (steps : List (ServerStep F)) : Prop where
  /-- When `destory` has returned, nothing opened since the last call of
  `init` is open. -/
  released : ∀ pre post, steps = pre ++ .owner :: post →
    Returning ((serverWorldMachine F base).after {} pre).server →
      ((serverWorldMachine F base).after {} (pre ++ [.owner])).opened = ∅
  /-- On a port that nobody else holds, the server listens. -/
  listens : ∀ pre k post wPort, steps = pre ++ .daemon k :: post → wPort ≠ 0 →
    Opening ((serverWorldMachine F base).after {} pre).server wPort →
    PortFree ((serverWorldMachine F base).after {} pre) wPort k.setup.asked →
      ((serverWorldMachine F base).after {} (pre ++ [.daemon k])).server.listener =
        { sockServ := k.setup.asked.socket, portListen := wPort }

/-- When `destory` comes to its last statement, `epoll_create` has failed in
the daemon thread and no socket listens. -/
def NothingToClose (w : ServerWorld F) : ServerStep F → Prop
  | .owner => Returning w.server →
    w.server.daemonPc = .returned invalidSocket ∧ w.server.listener.sockServ = invalidSocket
  | .init _ | .destory | .daemon _ | .log | .append _ _ | .regCommand _ _ _ => True

instance (w : ServerWorld F) (a : ServerStep F) : Decidable (NothingToClose w a) :=
  match a with
  | .owner => decidable_of_iff (¬ Returning w.server ∨ w.server.daemonPc = .returned invalidSocket ∧
      w.server.listener.sockServ = invalidSocket) Decidable.imp_iff_not_or.symm
  | .init _ | .destory | .daemon _ | .log | .append _ _ | .regCommand _ _ _ => isTrue trivial

variable {w : ServerWorld F} {s : TelnetServer F} {opened : Finset ℤ} {a : ServerStep F}

/-! ## What is left open -/

theorem clientFds_eq_empty_iff {c : ℤ} : clientFds c = ∅ ↔ c = invalidSocket := by
  constructor
  · intro h
    by_contra hc
    rw [clientFds_of_ne hc] at h
    exact Finset.singleton_ne_empty c h
  · rintro rfl
    rfl

/-- **What `destory` leaves open**: nothing, if there was neither an epoll
descriptor nor a listening socket. -/
theorem opened_eq_empty_iff (h : FdsOk s opened) (hreset : s.owner = .reset) :
    opened = ∅ ↔ s.daemonPc = .returned invalidSocket ∧ s.listener.sockServ = invalidSocket := by
  have hret := h.joined (Or.inr hreset)
  obtain ⟨epfd, hpc⟩ : ∃ epfd, s.daemonPc = .returned epfd := by
    cases hpc : s.daemonPc with
    | returned epfd => exact ⟨epfd, rfl⟩
    | idle | start _ | loop _ _ => rw [hpc] at hret; exact hret.elim
  obtain ⟨hclient, hopened, -⟩ :
      (s.listener.sockServ = invalidSocket → s.daemon.sockClient = invalidSocket) ∧
        HoldsOpen s opened epfd := by
    simpa only [DaemonFds, hpc] using h.daemon
  rw [hopened, hpc, Finset.union_eq_empty, Finset.union_eq_empty, clientFds_eq_empty_iff,
    clientFds_eq_empty_iff, clientFds_eq_empty_iff]
  constructor
  · rintro ⟨⟨hepfd, hserv⟩, -⟩
    exact ⟨by rw [hepfd], hserv⟩
  · rintro ⟨hepfd, hserv⟩
    exact ⟨⟨DaemonFunPc.returned.inj hepfd, hserv⟩, hclient hserv⟩

/-- The last statement of `destory` makes no system call. -/
theorem step_returning (h : TablesOk w) (hret : Returning w.server) :
    ((serverWorldMachine F base).step w .owner).2.opened = w.opened := by
  have hstep : w.server.step base .owner = w.server.proceed :=
    TelnetServer.step_of_alive hret.1 _
  show Use.held w.opened (serverUses (w.server.step base .owner).1) = w.opened
  rw [hstep, (proceeds h.fds.handles).1]
  rfl

/-! ## What is left bound -/

/-- **The invariant of a run that leaves nothing open**: without a listening
socket no port is bound. -/
structure BoundOk (w : ServerWorld F) : Prop where
  tables : TablesOk w
  bound : w.server.listener.sockServ = invalidSocket → w.bound = ∅

/-- The part before the loop leaves a port bound only with a socket that
listens. -/
theorem bound_setup (h : BoundOk w) {wPort : UInt16} (hpc : w.server.daemonPc = .start wPort)
    {k : DaemonAnswers} (hfresh : SetupFresh w.openFds k.setup)
    (hserv : (w.server.telnetDaemonFun base k).2.listener.sockServ = invalidSocket) :
    boundAfter w.bound (w.server.telnetDaemonFun base k).1 = ∅ := by
  have hbare := h.tables.fds.bare_start hpc
  have hepoll : boundAfter ∅ (if k.setup.epollCreate = invalidSocket then []
      else [.epollCreate k.setup.epollCreate] : List (ServerEvent F)) = ∅ := by
    split <;> rfl
  unfold TelnetServer.telnetDaemonFun at hserv ⊢
  simp only [hpc] at hserv ⊢
  rw [h.bound hbare.sockServ, boundAfter_append, hepoll]
  exact (opensSocket_openListener wPort (hfresh.asked.mono Finset.subset_union_left)
    (fun port => (hfresh.search port).mono Finset.subset_union_left)
    w.server.listener hbare.sockServ).2 hserv

/-- **The step lemma.** -/
theorem boundOk_step (h : BoundOk w) (hk : KernelFresh base w a) (hnone : NothingToClose w a) :
    BoundOk ((serverWorldMachine F base).step w a).2 := by
  refine ⟨tablesOk_step h.tables hk, ?_⟩
  show (w.server.step base a).2.listener.sockServ = invalidSocket →
    boundAfter w.bound (w.server.step base a).1 = ∅
  by_cases haborted : w.server.log.aborted = true
  · rw [TelnetServer.step_of_aborted haborted]
    exact h.bound
  rw [TelnetServer.step_of_alive (Bool.eq_false_iff.mpr haborted)]
  cases a with
  | init telnetPort =>
    simp only [TelnetServer.act, TelnetServer.init]
    split <;> exact h.bound
  | destory =>
    simp only [TelnetServer.act, TelnetServer.destory]
    split <;> exact h.bound
  | owner =>
    show w.server.proceed.2.listener.sockServ = invalidSocket →
      boundAfter w.bound w.server.proceed.1 = ∅
    obtain ⟨houts, hstep⟩ := proceeds h.tables.fds.handles
    rw [houts]
    generalize w.server.proceed.2 = s' at hstep
    cases hstep with
    | reset owner =>
      exact fun _ => h.bound (hnone ⟨Bool.eq_false_iff.mpr haborted, owner⟩).2
    | stays | newDaemon _ | newLog _ | startDaemon _ _ | startLog _ _ | notify _ | joinDaemon _ _
    | joinLog _ _ => exact h.bound
  | daemon k =>
    show (w.server.telnetDaemonFun base k).2.listener.sockServ = invalidSocket →
      boundAfter w.bound (w.server.telnetDaemonFun base k).1 = ∅
    cases hpc : w.server.daemonPc with
    | idle | returned epfd =>
      simp only [TelnetServer.telnetDaemonFun, hpc]
      exact h.bound
    | start wPort =>
      simp only [KernelFresh, hpc] at hk
      exact bound_setup h hpc hk
    | loop epfd sockServ =>
      -- the socket that listens stays
      obtain ⟨hserv, -⟩ := h.tables.fds.holdsOpen_loop hpc
      have hkeep : (w.server.telnetDaemonFun base k).2.listener = w.server.listener := by
        simp only [TelnetServer.telnetDaemonFun, hpc]
        split_ifs <;> rfl
      rw [hkeep, hserv]
      exact fun hinvalid => absurd hinvalid sockServ.2
  | log =>
    simp only [TelnetServer.act, boundAfter_log]
    exact h.bound
  | append sockClient logline =>
    simp only [TelnetServer.act, boundAfter_log]
    exact h.bound
  | regCommand name func usage => exact h.bound

/-- **The run lemma.** -/
theorem boundOk_run {steps : List (ServerStep F)}
    (hk : (serverWorldMachine F base).Valid (KernelFresh base) {} steps)
    (hnone : (serverWorldMachine F base).Valid NothingToClose {} steps) :
    BoundOk ((serverWorldMachine F base).after {} steps) := by
  have hboth : (serverWorldMachine F base).Valid
      (fun w a => KernelFresh base w a ∧ NothingToClose w a) {} steps := by
    rw [Machine.valid_iff_forall] at hk hnone ⊢
    exact fun pre a post hsteps => ⟨hk pre a post hsteps, hnone pre a post hsteps⟩
  exact (serverWorldMachine F base).after_induct_valid ⟨⟨fdsOk_init, Finset.empty_subset _⟩,
    fun _ => rfl⟩ hboth fun _ _ h ha => boundOk_step h ha.1 ha.2

/-! ## The result -/

/-- A port that can be bound is listened on. -/
theorem openListener_granted {wPort : UInt16} {k : SetupAnswers} (hport : wPort ≠ 0)
    (hsocket : k.asked.socket ≠ invalidSocket) (hbind : k.asked.bind = true)
    (hlisten : k.asked.listen = true) (l : Listener) :
    (openListener wPort k l : List (ServerEvent F) × Listener).2 =
      { sockServ := k.asked.socket, portListen := wPort } := by
  have htry : (tryPort wPort k.asked l : List (ServerEvent F) × Listener).2 =
      { sockServ := k.asked.socket, portListen := wPort } := by
    simp [tryPort, createTcpListenSock, hsocket, hbind, hlisten]
  have hstop : Listener.listening { sockServ := k.asked.socket, portListen := wPort } = true := by
    simpa [Listener.listening] using hsocket
  rw [openListener, if_pos hport, andThen, htry, if_pos hstop, htry]

/-- Where no port is bound, the server gets the one that nobody else
holds. -/
theorem step_opening (h : BoundOk w) {k : DaemonAnswers} {wPort : UInt16} (hport : wPort ≠ 0)
    (hopening : Opening w.server wPort) (hfree : PortFree w wPort k.setup.asked) :
    ((serverWorldMachine F base).step w (.daemon k)).2.server.listener =
      { sockServ := k.setup.asked.socket, portListen := wPort } := by
  obtain ⟨halive, hpc⟩ := hopening
  have hbare := h.tables.fds.bare_start hpc
  have hbind : k.setup.asked.bind = true := by
    by_contra hrefused
    obtain ⟨fd, hfd⟩ := hfree.bind (Bool.eq_false_iff.mpr hrefused)
    rw [h.bound hbare.sockServ] at hfd
    exact absurd hfd (Finset.notMem_empty _)
  show (w.server.step base (.daemon k)).2.listener = _
  rw [TelnetServer.step_of_alive halive]
  simp only [TelnetServer.act, TelnetServer.telnetDaemonFun, hpc]
  exact openListener_granted hport hfree.socket hbind hfree.listen _

/-- **Every descriptor is released exactly if there was none to close**: if
in every cycle that `destory` ends, `epoll_create` failed and no port could
be listened on. -/
theorem cleanRestarts_iff (base : UInt64) {steps : List (ServerStep F)}
    (hk : (serverWorldMachine F base).Valid (KernelFresh base) {} steps) :
    CleanRestarts base steps ↔ (serverWorldMachine F base).Valid NothingToClose {} steps := by
  constructor
  · intro h
    rw [Machine.valid_iff_forall]
    rintro pre a post rfl
    cases a with
    | owner =>
      intro hret
      have htables := tablesOk_run ((serverWorldMachine F base).valid_append.mp hk).1
      have hreleased := h.released pre post rfl hret
      rw [Machine.after_concat, step_returning htables hret] at hreleased
      exact (opened_eq_empty_iff htables.fds hret.2).mp hreleased
    | init _ | destory | daemon _ | log | append _ _ | regCommand _ _ _ => trivial
  · intro hnone
    refine ⟨?_, ?_⟩
    · rintro pre post rfl hret
      have htables := tablesOk_run ((serverWorldMachine F base).valid_append.mp hk).1
      rw [Machine.after_concat, step_returning htables hret]
      exact (opened_eq_empty_iff htables.fds hret.2).mpr
        (((serverWorldMachine F base).valid_append.mp hnone).2.1 hret)
    · rintro pre k post wPort rfl hport hopening hfree
      have hbound := boundOk_run ((serverWorldMachine F base).valid_append.mp hk).1
        ((serverWorldMachine F base).valid_append.mp hnone).1
      rw [Machine.after_concat]
      exact step_opening hbound hport hopening hfree

/-- A start: the owner's call of `init` and the daemon thread's first
step. -/
def startSteps (telnetPort : UInt16) (k : SetupAnswers) : List (ServerStep Unit) :=
  [.init telnetPort, .owner, .owner, .owner, .owner, .daemon { setup := k }, .log]

/-- A stop: `destory`, with the last steps of the two threads. -/
def stopSteps : List (ServerStep Unit) :=
  [.destory, .owner, .daemon {}, .log, .owner, .owner, .owner]

/-- Without a socket nothing happens, whatever ports are tried. -/
theorem openListener_refused (wPort : UInt16) {l : Listener} (hl : l.listening = false) :
    (openListener wPort {} l : List (ServerEvent F) × Listener) = ([], l) := by
  have htry : ∀ port, (tryPort port {} l : List (ServerEvent F) × Listener) = ([], l) := by
    intro port
    have hserv : l.sockServ = invalidSocket := by simpa [Listener.listening] using hl
    rw [tryPort, createTcpListenSock, if_pos rfl, if_pos rfl, ← hserv]
  have hsearch : Effect.inTurn Listener.listening (telSvrPorts.map fun port =>
      (tryPort port {} : Effect Listener (ServerEvent F))) l = ([], l) := by
    rw [inTurn_of_still hl (List.forall_mem_map.mpr fun port _ => by rw [htry port])]
    simp [List.flatMap_map, htry]
  have hasked : (if wPort ≠ 0 then tryPort wPort {} else fun l => ([], l) :
      Effect Listener (ServerEvent F)) l = ([], l) := by
    split_ifs
    · exact htry wPort
    · rfl
  rw [openListener, andThen, hasked, if_neg (by rw [hl]; exact Bool.false_ne_true), hsearch]
  rfl

/-- The server in the start to which the kernel gives nothing, when its
daemon thread has left. -/
def refusedStart (telnetPort : UInt16) : TelnetServer Unit where
  owner := .started
  thdTelnetDaemonHandle := some { func := telnetPort, started := true }
  thdLogOutPutHandle := some { func := (), started := true }
  daemonPc := .returned invalidSocket
  log := { isRunning := true, pc := .start }

theorem after_startSteps_refused (telnetPort : UInt16) :
    (serverWorldMachine Unit 0).after {}
        [.init telnetPort, .owner, .owner, .owner, .owner, .daemon {}] =
      { server := refusedStart telnetPort } := by
  have hdaemon : ({ refusedStart telnetPort with daemonPc := .start telnetPort }).step 0
      (.daemon {}) = ([], refusedStart telnetPort) := by
    rw [TelnetServer.step_of_alive rfl]
    simp only [TelnetServer.act, TelnetServer.telnetDaemonFun]
    rw [openListener_refused telnetPort rfl]
    rfl
  show (serverWorldMachine Unit 0).after
      { server := { refusedStart telnetPort with daemonPc := .start telnetPort } } [.daemon {}] = _
  simp only [Machine.after, serverWorldMachine, hdaemon]
  rfl

/-- The kernel gives the first start nothing. It is stopped, and the second
listens on the port asked for. -/
theorem cleanRestarts_restarted :
    CleanRestarts 0 (startSteps 2500 {} ++ stopSteps ++
      startSteps 2500 { epollCreate := 3, asked := ⟨4, true, true⟩ }) := by
  have hrun : startSteps 2500 {} ++ stopSteps ++
      startSteps 2500 { epollCreate := 3, asked := ⟨4, true, true⟩ } =
        [.init 2500, .owner, .owner, .owner, .owner, .daemon {}] ++ (.log :: stopSteps ++
          startSteps 2500 { epollCreate := 3, asked := ⟨4, true, true⟩ }) := rfl
  have hk : (serverWorldMachine Unit 0).Valid (KernelFresh 0) {}
      (startSteps 2500 {} ++ stopSteps ++
        startSteps 2500 { epollCreate := 3, asked := ⟨4, true, true⟩ }) := by
    rw [hrun, Machine.valid_append, after_startSteps_refused]
    exact ⟨⟨trivial, trivial, trivial, trivial, trivial,
        ⟨by decide, by decide, fun _ => Or.inl rfl⟩, trivial⟩,
      trivial, trivial, trivial, trivial, trivial, trivial, trivial, trivial,
      trivial, trivial, trivial, trivial, trivial,
      ⟨by decide, by decide, fun _ => Or.inl rfl⟩, trivial, trivial⟩
  refine (cleanRestarts_iff 0 hk).mpr ?_
  rw [hrun, Machine.valid_append, after_startSteps_refused]
  exact ⟨by decide, by decide⟩

/-- The port 2500 asked for is taken, the next one is free. -/
abbrev takenPort : SetupAnswers where
  epollCreate := 5
  asked := ⟨6, false, true⟩
  search port := ⟨6, port = 2501, true⟩

/-- A second `init` on the same port: the socket 4 of the first still
listens on it, and the server ends up on port 2501. -/
theorem not_cleanRestarts_second :
    (serverWorldMachine Unit 0).Valid (KernelFresh 0) {}
        (startSteps 2500 { epollCreate := 3, asked := ⟨4, true, true⟩ } ++ stopSteps ++
          startSteps 2500 takenPort) ∧
      ¬ CleanRestarts 0 (startSteps 2500 { epollCreate := 3, asked := ⟨4, true, true⟩ } ++
          stopSteps ++ startSteps 2500 takenPort) := by
  constructor
  · exact ⟨trivial, trivial, trivial, trivial, trivial,
      ⟨by decide, by decide, fun _ => Or.inl rfl⟩, trivial,
      trivial, trivial, trivial, trivial, trivial, trivial, trivial,
      trivial, trivial, trivial, trivial, trivial,
      ⟨by decide, by decide, fun _ => (show Fresh _ 6 by decide)⟩, trivial, trivial⟩
  · intro h
    have hlistens := h.listens (startSteps 2500 { epollCreate := 3, asked := ⟨4, true, true⟩ } ++
      stopSteps ++ [.init 2500, .owner, .owner, .owner, .owner]) { setup := takenPort } [.log]
      2500 rfl (by decide) ⟨by decide, by decide⟩ ⟨by decide, fun _ => ⟨4, by decide⟩, rfl⟩
    exact absurd hlistens (by decide)

end TelnetServ
