import TelnetServ.Server.Owner
import TelnetServ.Daemon.Descriptors
/-!
# The server — its descriptors

The kernel's side of a run of the server: which descriptors are open, which
of them have been opened since the last call of `init`, and which ports are
bound. The invariant `FdsOk` says what is open while a daemon thread is
there: the epoll descriptor, the listening socket and the client, each as
far as there is one, and nothing else.
-/

namespace TelnetServ

open Effect

variable {F : Type*} {base : UInt64}

/-! ## The kernel's side -/

/-- What an event does to the table of open descriptors. -/
def ServerEvent.use : ServerEvent F → Option (Use ℤ)
  | .epollCreate fd | .socket fd => some (.acquire fd)
  | .close fd => some (.release fd)
  | .daemon a => a.use
  | .bind _ _ | .log _ => none

def serverUses (acts : List (ServerEvent F)) : List (Use ℤ) := acts.filterMap ServerEvent.use

/-- What it does to the table of bound sockets: with its last descriptor a
socket goes, and its port is free again. -/
def ServerEvent.bindTo (bound : Finset (ℤ × UInt16)) : ServerEvent F → Finset (ℤ × UInt16)
  | .bind fd wPort => insert (fd, wPort) bound
  | .close fd | .daemon (.close fd) => bound.filter fun b => b.1 ≠ fd
  | .epollCreate _ | .socket _ | .daemon _ | .log _ => bound

def boundAfter (bound : Finset (ℤ × UInt16)) (acts : List (ServerEvent F)) :
    Finset (ℤ × UInt16) :=
  acts.foldl ServerEvent.bindTo bound

/-- The server and the kernel's tables. -/
structure ServerWorld (F : Type*) where
  server : TelnetServer F := {}
  openFds : Finset ℤ := ∅
  /-- Those opened since the last call of `init`. -/
  opened : Finset ℤ := ∅
  bound : Finset (ℤ × UInt16) := ∅

/-- The step is a call of `init`. -/
def BeginsInit (s : TelnetServer F) : ServerStep F → Prop
  | .init _ => s.log.aborted = false ∧ s.owner = .stopped
  | .destory | .owner | .daemon _ | .log | .append _ _ | .regCommand _ _ _ => False

instance (s : TelnetServer F) (a : ServerStep F) : Decidable (BeginsInit s a) := by
  unfold BeginsInit; split <;> infer_instance

/-- **The server's machine with the kernel's tables.** -/
def serverWorldMachine (F : Type*) (base : UInt64) :
    Machine (ServerWorld F) (ServerStep F) (ServerEvent F) where
  step w a :=
    let r := w.server.step base a
    (r.1,
      { server := r.2
        openFds := Use.held w.openFds (serverUses r.1)
        opened := Use.held (if BeginsInit w.server a then ∅ else w.opened) (serverUses r.1)
        bound := boundAfter w.bound r.1 })

/-- The result of a system call that opens a descriptor while those in `s`
are open. -/
def Fresh (s : Finset ℤ) (fd : ℤ) : Prop := fd = invalidSocket ∨ (0 ≤ fd ∧ fd ∉ s)

instance (s : Finset ℤ) (fd : ℤ) : Decidable (Fresh s fd) := by unfold Fresh; infer_instance

theorem Fresh.mono {s s' : Finset ℤ} {fd : ℤ} (h : Fresh s fd) (hs : s' ⊆ s) : Fresh s' fd :=
  h.imp_right fun hfd => ⟨hfd.1, fun hmem => hfd.2 (hs hmem)⟩

/-- `epoll_create` and `socket` fail or return a descriptor not in use. -/
structure SetupFresh (openFds : Finset ℤ) (k : SetupAnswers) : Prop where
  epollCreate : Fresh openFds k.epollCreate
  asked : Fresh (openFds ∪ clientFds k.epollCreate) k.asked.socket
  search : ∀ port, Fresh (openFds ∪ clientFds k.epollCreate) (k.search port).socket

/-- The daemon's world, when its loop runs in the server's. -/
def ServerWorld.daemonWorld (w : ServerWorld F) (sockServ : {fd : ℤ // fd ≠ invalidSocket}) :
    World where
  daemon := w.server.daemon
  openFds := w.openFds
  registered := {sockServ.1}

/-- **What the kernel promises** of the calls that open descriptors. -/
def KernelFresh (base : UInt64) (w : ServerWorld F) : ServerStep F → Prop
  | .daemon k =>
    match w.server.daemonPc with
    | .idle | .returned _ => True
    | .start _ => SetupFresh w.openFds k.setup
    | .loop epfd sockServ =>
      (worldMachine (w.server.setup base sockServ)).Valid
        (AcceptFresh (w.server.setup base sockServ)) (w.daemonWorld sockServ) (k.polled epfd)
  | .init _ | .destory | .owner | .log | .append _ _ | .regCommand _ _ _ => True

@[simp] theorem serverUses_nil : serverUses ([] : List (ServerEvent F)) = [] := rfl

@[simp] theorem serverUses_cons (a : ServerEvent F) (acts : List (ServerEvent F)) :
    serverUses (a :: acts) = a.use.toList ++ serverUses acts := by
  rw [serverUses, List.filterMap_cons]
  cases a.use <;> rfl

@[simp] theorem serverUses_append (a b : List (ServerEvent F)) :
    serverUses (a ++ b) = serverUses a ++ serverUses b := List.filterMap_append ..

theorem boundAfter_append (bound : Finset (ℤ × UInt16)) (a b : List (ServerEvent F)) :
    boundAfter bound (a ++ b) = boundAfter (boundAfter bound a) b := List.foldl_append ..

/-- What the log queue does opens and closes nothing. -/
@[simp] theorem serverUses_log (es : List LogEvent) :
    serverUses (es.map ServerEvent.log : List (ServerEvent F)) = [] := by
  rw [serverUses, List.filterMap_map]
  exact List.filterMap_eq_nil_iff.mpr fun _ _ => rfl

@[simp] theorem boundAfter_log (bound : Finset (ℤ × UInt16)) (es : List LogEvent) :
    boundAfter bound (es.map ServerEvent.log : List (ServerEvent F)) = bound := by
  induction es with
  | nil => rfl
  | cons e es ih => exact ih

/-- The event loop uses its descriptors as in the daemon's own world. -/
theorem serverUses_daemon (acts : List (Action F)) :
    serverUses (acts.map ServerEvent.daemon) = uses acts := by
  rw [serverUses, List.filterMap_map]
  rfl

/-! ## Opening the listening socket -/

theorem clientFds_invalid : clientFds invalidSocket = ∅ := rfl

theorem invalid_notMem_clientFds (c c' : ℤ) : invalidSocket ∉ clientFds c ∪ clientFds c' :=
  fun h => (Finset.mem_union.mp h).elim (fun h => (mem_clientFds.mp h).2 rfl)
    fun h => (mem_clientFds.mp h).2 rfl

/-- **What a piece of the search for a port opens**, where no socket listens
yet: the socket that listens then, and nothing that is left bound without
one. -/
def OpensSocket (s : Finset ℤ) (l : Listener) (acts : List (ServerEvent F)) (l' : Listener) :
    Prop :=
  l.sockServ = invalidSocket →
    Use.held s (serverUses acts) = s ∪ clientFds l'.sockServ ∧
      (l'.sockServ = invalidSocket → boundAfter ∅ acts = ∅)

theorem opensSocket_refl (s : Finset ℤ) (l : Listener) :
    OpensSocket s l ([] : List (ServerEvent F)) l := by
  intro h
  rw [h, clientFds_invalid, Finset.union_empty]
  exact ⟨rfl, fun _ => rfl⟩

theorem opensSocket_trans (s : Finset ℤ) (l₁ : Listener) (o₁ : List (ServerEvent F))
    (l₂ : Listener) (o₂ : List (ServerEvent F)) (l₃ : Listener)
    (hstop : l₂.listening = false) (h₁ : OpensSocket s l₁ o₁ l₂) (h₂ : OpensSocket s l₂ o₂ l₃) :
    OpensSocket s l₁ (o₁ ++ o₂) l₃ := by
  intro h
  have hl₂ : l₂.sockServ = invalidSocket := by simpa [Listener.listening] using hstop
  obtain ⟨hheld₁, hbound₁⟩ := h₁ h
  obtain ⟨hheld₂, hbound₂⟩ := h₂ hl₂
  rw [hl₂, clientFds_invalid, Finset.union_empty] at hheld₁
  rw [serverUses_append, Use.held_append, hheld₁, boundAfter_append, hbound₁ hl₂]
  exact ⟨hheld₂, hbound₂⟩

/-- `createTcpListenSock` closes the socket it does not return. -/
theorem opensSocket_tryPort {s : Finset ℤ} (wPort : UInt16) {k : SockAnswers}
    (hfresh : Fresh s k.socket) :
    Meets (OpensSocket s) (tryPort wPort k : Effect Listener (ServerEvent F)) := by
  intro l _
  by_cases hsocket : k.socket = invalidSocket
  · simp [tryPort, createTcpListenSock, hsocket, boundAfter, clientFds_invalid]
  have hnot : k.socket ∉ s := (hfresh.resolve_left hsocket).2
  cases hbind : k.bind with
  | false =>
    simp [tryPort, createTcpListenSock, hsocket, hbind, boundAfter, clientFds_invalid,
      ServerEvent.use, ServerEvent.bindTo, Finset.erase_insert hnot]
  | true =>
    cases hlisten : k.listen with
    | false =>
      simp [tryPort, createTcpListenSock, hsocket, hbind, hlisten, boundAfter,
        clientFds_invalid, ServerEvent.use, ServerEvent.bindTo, Finset.erase_insert hnot]
    | true =>
      simp [tryPort, createTcpListenSock, hsocket, hbind, hlisten,
        clientFds_of_ne hsocket, ServerEvent.use]

/-- **The search for a port opens the socket that listens and nothing
else.** -/
theorem opensSocket_openListener {s : Finset ℤ} (wPort : UInt16) {k : SetupAnswers}
    (hasked : Fresh s k.asked.socket) (hsearch : ∀ port, Fresh s (k.search port).socket) :
    Meets (OpensSocket s) (openListener wPort k : Effect Listener (ServerEvent F)) := by
  refine Meets.andThen (opensSocket_trans s) ?_ ?_
  · split
    · exact opensSocket_tryPort wPort hasked
    · exact opensSocket_refl s
  · refine Meets.inTurn (opensSocket_refl s) (opensSocket_trans s) fun f hf => ?_
    obtain ⟨port, -, rfl⟩ := List.mem_map.mp hf
    exact opensSocket_tryPort port (hsearch port)

/-! ## The invariant -/

/-- The owner has not started the daemon thread of this cycle yet. -/
def OwnerPc.early : OwnerPc → Bool
  | .stopped | .newDaemon _ | .newLog | .startDaemon => true
  | .startLog | .started | .notify | .joinDaemon | .joinLog | .reset => false

/-- **What a daemon thread has open** that works with the epoll descriptor
`epfd`. -/
structure HoldsOpen (s : TelnetServer F) (opened : Finset ℤ) (epfd : ℤ) : Prop where
  opened_eq : opened = clientFds epfd ∪ clientFds s.listener.sockServ ∪
    clientFds s.daemon.sockClient
  client : s.daemon.sockClient ∉ clientFds epfd ∪ clientFds s.listener.sockServ

/-- Where no daemon thread has opened anything yet. -/
structure Bare (s : TelnetServer F) (opened : Finset ℤ) : Prop where
  sockServ : s.listener.sockServ = invalidSocket
  client : s.daemon.sockClient = invalidSocket
  opened_eq : s.owner ≠ .stopped → opened = ∅

/-- What the position of the daemon thread says. -/
def DaemonFds (s : TelnetServer F) (opened : Finset ℤ) : Prop :=
  match s.daemonPc with
  | .idle | .start _ => Bare s opened
  | .loop epfd sockServ => s.listener.sockServ = sockServ.1 ∧ HoldsOpen s opened epfd
  | .returned epfd =>
    (s.listener.sockServ = invalidSocket → s.daemon.sockClient = invalidSocket) ∧
      HoldsOpen s opened epfd

/-- **The invariant**: what has been opened since the last call of `init`
and is open. -/
structure FdsOk (s : TelnetServer F) (opened : Finset ℤ) : Prop where
  handles : HandlesOk s
  idle : s.owner.early = true → s.daemonPc = .idle
  joined : s.owner = .joinLog ∨ s.owner = .reset → s.daemonPc.Returned
  daemon : DaemonFds s opened

variable {s s' : TelnetServer F} {opened : Finset ℤ} {a : ServerStep F}

theorem fdsOk_init : FdsOk ({} : TelnetServer F) ∅ where
  handles := handlesOk_init
  idle := fun _ => rfl
  joined := fun h => h.elim nofun nofun
  daemon := ⟨rfl, rfl, fun h => absurd rfl h⟩

namespace FdsOk

variable {wPort : UInt16} {epfd : ℤ} {sockServ : {fd : ℤ // fd ≠ invalidSocket}}

theorem bare_idle (h : FdsOk s opened) (hpc : s.daemonPc = .idle) : Bare s opened := by
  simpa only [DaemonFds, hpc] using h.daemon

theorem bare_start (h : FdsOk s opened) (hpc : s.daemonPc = .start wPort) : Bare s opened := by
  simpa only [DaemonFds, hpc] using h.daemon

theorem holdsOpen_loop (h : FdsOk s opened) (hpc : s.daemonPc = .loop epfd sockServ) :
    s.listener.sockServ = sockServ.1 ∧ HoldsOpen s opened epfd := by
  simpa only [DaemonFds, hpc] using h.daemon

/-- While the daemon thread is there, the owner is neither before it nor past
its join. -/
theorem underway (h : FdsOk s opened) (hidle : s.daemonPc ≠ .idle)
    (hreturned : ¬ s.daemonPc.Returned) :
    s.owner.early ≠ true ∧ ¬ (s.owner = .joinLog ∨ s.owner = .reset) :=
  ⟨fun hearly => hidle (h.idle hearly), fun hjoined => hreturned (h.joined hjoined)⟩

end FdsOk

theorem Bare.frame (h : Bare s opened) (hlistener : s'.listener = s.listener)
    (hdaemon : s'.daemon = s.daemon) (hstopped : s'.owner ≠ .stopped → s.owner ≠ .stopped) :
    Bare s' opened :=
  ⟨hlistener ▸ h.sockServ, hdaemon ▸ h.client, fun howner => h.opened_eq (hstopped howner)⟩

theorem HoldsOpen.frame {epfd : ℤ} (h : HoldsOpen s opened epfd)
    (hlistener : s'.listener = s.listener) (hdaemon : s'.daemon = s.daemon) :
    HoldsOpen s' opened epfd := by
  obtain ⟨hopened, hclient⟩ := h
  rw [← hlistener, ← hdaemon] at hopened hclient
  exact ⟨hopened, hclient⟩

/-- A step that leaves the daemon thread and its descriptors alone. -/
theorem FdsOk.frame (h : FdsOk s opened) (hhandles : HandlesOk s')
    (hpc : s'.daemonPc = s.daemonPc) (hlistener : s'.listener = s.listener)
    (hdaemon : s'.daemon = s.daemon) (hstopped : s'.owner ≠ .stopped → s.owner ≠ .stopped)
    (hearly : s'.owner.early = true → s.owner.early = true)
    (hjoined : s'.owner = .joinLog ∨ s'.owner = .reset → s.daemonPc.Returned) :
    FdsOk s' opened where
  handles := hhandles
  idle := fun howner => hpc.trans (h.idle (hearly howner))
  joined := fun howner => hpc ▸ hjoined howner
  daemon := by
    have hfds := h.daemon
    unfold DaemonFds at hfds ⊢
    rw [hpc]
    split at hfds
    · exact hfds.frame hlistener hdaemon hstopped
    · exact hfds.frame hlistener hdaemon hstopped
    · rw [hlistener]
      exact ⟨hfds.1, hfds.2.frame hlistener hdaemon⟩
    · rw [hlistener, hdaemon]
      exact ⟨hfds.1, hfds.2.frame hlistener hdaemon⟩

/-- `init` begins where there is no daemon thread. -/
theorem fdsOk_enter (h : FdsOk s opened) (howner : s.owner = .stopped) (telnetPort : UInt16)
    (hhandles : HandlesOk (s.init telnetPort).2) : FdsOk (s.init telnetPort).2 ∅ := by
  have hpc : s.daemonPc = .idle := h.idle (by rw [howner]; rfl)
  have hbare := h.bare_idle hpc
  unfold TelnetServer.init at hhandles ⊢
  simp only [if_pos howner] at hhandles ⊢
  refine ⟨hhandles, fun _ => hpc, by simp, ?_⟩
  unfold DaemonFds
  simp only [hpc]
  exact ⟨hbare.sockServ, hbare.client, fun _ => rfl⟩

/-- The first statement of `destory`. -/
theorem fdsOk_leave (h : FdsOk s opened) (hhandles : HandlesOk s.destory.2) :
    FdsOk s.destory.2 opened := by
  rcases destory_cases s with heq | ⟨howner, heq⟩
  · rwa [heq]
  · rw [heq] at hhandles ⊢
    exact h.frame hhandles rfl rfl rfl (fun _ => by rw [howner]; decide)
      (fun he => absurd he Bool.false_ne_true) (by simp)

/-- The owner's statements: `destory` resets the members as they are. -/
theorem fdsOk_proceed (h : FdsOk s opened) : FdsOk s.proceed.2 opened := by
  have hstep := (proceeds h.handles).2
  have hhandles := handlesOk_proceed h.handles
  generalize s.proceed.2 = s' at hstep hhandles
  cases hstep with
  | stays => exact h
  | newDaemon owner | newLog owner =>
    exact h.frame hhandles rfl rfl rfl (fun _ => by rw [owner]; nofun)
      (fun _ => by rw [owner]; rfl) (fun howner => howner.elim nofun nofun)
  | startDaemon owner handle =>
    have hbare := h.bare_idle (h.idle (by rw [owner]; rfl))
    refine ⟨hhandles, nofun, fun howner => howner.elim nofun nofun, ?_⟩
    exact ⟨hbare.sockServ, hbare.client, fun _ => hbare.opened_eq (by rw [owner]; nofun)⟩
  | startLog owner _ | notify owner =>
    exact h.frame hhandles rfl rfl rfl (fun _ => by rw [owner]; nofun) nofun
      (fun howner => howner.elim nofun nofun)
  | joinDaemon owner returned =>
    exact h.frame hhandles rfl rfl rfl (fun _ => by rw [owner]; nofun) nofun fun _ => returned
  | joinLog owner _ =>
    exact h.frame hhandles rfl rfl rfl (fun _ => by rw [owner]; nofun) nofun
      fun _ => h.joined (Or.inl owner)
  | reset owner =>
    refine ⟨hhandles, fun _ => rfl, fun howner => howner.elim nofun nofun, ?_⟩
    exact ⟨rfl, rfl, fun howner => absurd rfl howner⟩

/-- **The part before the loop**: the thread holds what it has opened. -/
theorem fdsOk_setup (h : FdsOk s opened) {wPort : UInt16} (hpc : s.daemonPc = .start wPort)
    {k : DaemonAnswers} {openFds : Finset ℤ} (hfresh : SetupFresh openFds k.setup)
    (hhandles : HandlesOk (s.telnetDaemonFun base k).2) :
    FdsOk (s.telnetDaemonFun base k).2
      (Use.held opened (serverUses (s.telnetDaemonFun base k).1)) := by
  obtain ⟨howner, hlate⟩ := h.underway (by rw [hpc]; nofun) (by rw [hpc]; exact id)
  have hbare := h.bare_start hpc
  have hopened : opened = ∅ := hbare.opened_eq fun hs => howner (by rw [hs]; rfl)
  have hsub : clientFds k.setup.epollCreate ⊆ openFds ∪ clientFds k.setup.epollCreate :=
    Finset.subset_union_right
  -- the epoll descriptor first
  have hepoll : Use.held ∅ (serverUses (if k.setup.epollCreate = invalidSocket then []
      else [.epollCreate k.setup.epollCreate] : List (ServerEvent F))) =
        clientFds k.setup.epollCreate := by
    unfold clientFds
    split <;> rfl
  have hsocket := (opensSocket_openListener (F := F) wPort (hfresh.asked.mono hsub)
    (fun port => (hfresh.search port).mono hsub) s.listener hbare.sockServ).1
  unfold TelnetServer.telnetDaemonFun at hhandles ⊢
  simp only [hpc] at hhandles ⊢
  rw [hopened, serverUses_append, Use.held_append, hepoll, hsocket]
  refine ⟨hhandles, fun he => absurd he howner, fun hj => absurd hj hlate, ?_⟩
  have hholds : ∀ (pc : DaemonFunPc) (l : Listener), HoldsOpen
      { s with listener := l, daemon := { sockClient := s.daemon.sockClient }, daemonPc := pc }
      (clientFds k.setup.epollCreate ∪ clientFds l.sockServ) k.setup.epollCreate := by
    intro pc l
    constructor
    · show _ = _ ∪ _ ∪ clientFds s.daemon.sockClient
      rw [hbare.client, clientFds_invalid, Finset.union_empty]
    · show s.daemon.sockClient ∉ _
      rw [hbare.client]
      exact invalid_notMem_clientFds _ _
  unfold DaemonFds
  generalize (openListener wPort k.setup s.listener : List (ServerEvent F) × Listener) = r
  by_cases hlisten : r.2.sockServ = invalidSocket
  · rw [dif_neg (not_not.mpr hlisten)]
    exact ⟨fun _ => hbare.client, hholds _ r.2⟩
  · rw [dif_pos hlisten]
    exact ⟨rfl, hholds _ r.2⟩

/-- The events of a turn of the loop: the client is all that changes. -/
theorem worldMachine_run_held {setup : Setup F} (wd : World) {s : Finset ℤ}
    {xs : List (Event × Answers)} (hsub : s ∪ clientFds wd.daemon.sockClient ⊆ wd.openFds)
    (hinvalid : invalidSocket ∉ s) (hc : wd.daemon.sockClient ∉ s)
    (hv : (worldMachine setup).Valid (AcceptFresh setup) wd xs) :
    Use.held (s ∪ clientFds wd.daemon.sockClient) (uses ((worldMachine setup).outs wd xs)) =
        s ∪ clientFds ((worldMachine setup).after wd xs).daemon.sockClient ∧
      ((worldMachine setup).after wd xs).daemon.sockClient ∉ s := by
  induction xs generalizing wd with
  | nil => exact ⟨rfl, hc⟩
  | cons x xs ih =>
    rw [Machine.outs_cons, Machine.after_cons, uses_append, Use.held_append]
    have hstep : Use.held (s ∪ clientFds wd.daemon.sockClient)
          (uses ((worldMachine setup).step wd x).1) =
        s ∪ clientFds ((worldMachine setup).step wd x).2.daemon.sockClient ∧
          ((worldMachine setup).step wd x).2.daemon.sockClient ∉ s := by
      by_cases hrun : wd.daemon.Running
      · have hh := handle_handled setup x.1 x.2 hrun.1
        have hfresh : x.2.accept = invalidSocket ∨
            x.2.accept ∉ s ∪ clientFds wd.daemon.sockClient :=
          hv.1.imp_right fun h hmem => h.2.1 (hsub hmem)
        have hheld := (hh.uses_sound hc hfresh).2
        rw [uses_fdActions] at hheld
        simp only [worldMachine, daemonMachine_step hrun]
        refine ⟨hheld, hh.client_notMem hinvalid hc (hfresh.imp_right fun h hmem => ?_)⟩
        exact h (Finset.mem_union_left _ hmem)
      · simp only [worldMachine, daemonMachine_step_halted hrun]
        exact ⟨rfl, hc⟩
    rw [hstep.1]
    refine ih _ ?_ hstep.2 hv.2
    rw [← hstep.1]
    exact Use.held_mono hsub _

/-- The daemon's world does what the daemon does. -/
theorem daemonWorld_run (w : ServerWorld F) (sockServ : {fd : ℤ // fd ≠ invalidSocket})
    (setup : Setup F) (xs : List (Event × Answers)) :
    (worldMachine setup).outs (w.daemonWorld sockServ) xs =
        (daemonMachine setup).outs w.server.daemon xs ∧
      ((worldMachine setup).after (w.daemonWorld sockServ) xs).daemon =
        (daemonMachine setup).after w.server.daemon xs :=
  (daemonMachine setup).project_run (p := World.daemon) (fun _ _ => ⟨rfl, rfl⟩) _ xs

/-- **A turn of the loop**: the thread goes on holding what it holds. -/
theorem fdsOk_loop {w : ServerWorld F} (h : FdsOk w.server w.opened)
    (hsub : w.opened ⊆ w.openFds) {epfd : ℤ} {sockServ : {fd : ℤ // fd ≠ invalidSocket}}
    (hpc : w.server.daemonPc = .loop epfd sockServ) {k : DaemonAnswers}
    (hv : (worldMachine (w.server.setup base sockServ)).Valid
      (AcceptFresh (w.server.setup base sockServ)) (w.daemonWorld sockServ) (k.polled epfd))
    (hhandles : HandlesOk (w.server.telnetDaemonFun base k).2) :
    FdsOk (w.server.telnetDaemonFun base k).2
      (Use.held w.opened (serverUses (w.server.telnetDaemonFun base k).1)) := by
  obtain ⟨howner, hlate⟩ := h.underway (by rw [hpc]; nofun) (by rw [hpc]; exact id)
  obtain ⟨hserv, hopened, hclient⟩ := h.holdsOpen_loop hpc
  unfold TelnetServer.telnetDaemonFun at hhandles ⊢
  simp only [hpc] at hhandles ⊢
  split_ifs at hhandles ⊢
  · refine ⟨hhandles, fun he => absurd he howner, fun _ => trivial, ?_, ⟨hopened, hclient⟩⟩
    exact fun hinvalid => absurd (hserv.symm.trans hinvalid) sockServ.2
  rotate_left
  · exact h
  · obtain ⟨houts, hafter⟩ :=
      daemonWorld_run w sockServ (w.server.setup base sockServ) (k.polled epfd)
    rw [hopened] at hsub
    have hrun := worldMachine_run_held (w.daemonWorld sockServ) hsub
      (invalid_notMem_clientFds _ _) hclient hv
    rw [houts, hafter] at hrun
    rw [serverUses_daemon, hopened]
    refine ⟨hhandles, fun he => absurd he howner, fun hj => absurd hj hlate, ?_⟩
    unfold DaemonFds
    exact ⟨hserv, hrun.1, hrun.2⟩

/-! ## The descriptors along a run -/

/-- The invariant, in the kernel's tables. -/
structure TablesOk (w : ServerWorld F) : Prop where
  fds : FdsOk w.server w.opened
  sub : w.opened ⊆ w.openFds

/-- A step of the server, in the terms of the invariant. -/
theorem fdsOk_step {w : ServerWorld F} (h : TablesOk w) (hk : KernelFresh base w a) :
    FdsOk (w.server.step base a).2
      (Use.held (if BeginsInit w.server a then ∅ else w.opened)
        (serverUses (w.server.step base a).1)) := by
  have hhandles : HandlesOk (w.server.act base a).2 := handlesOk_act h.fds.handles a
  obtain ⟨hfds, hsub⟩ := h
  by_cases haborted : w.server.log.aborted = true
  · have hnot : ¬ BeginsInit w.server a := by
      cases a <;> simp [BeginsInit, haborted]
    rw [TelnetServer.step_of_aborted haborted, if_neg hnot]
    exact hfds
  rw [TelnetServer.step_of_alive (Bool.eq_false_iff.mpr haborted)]
  cases a with
  | init telnetPort =>
    by_cases howner : w.server.owner = .stopped
    · have hbegins : BeginsInit w.server (.init telnetPort) :=
        ⟨Bool.eq_false_iff.mpr haborted, howner⟩
      have houts : (w.server.init telnetPort).1 = [] := by
        rw [TelnetServer.init, if_pos howner]
      rw [if_pos hbegins, TelnetServer.act, houts]
      exact fdsOk_enter hfds howner telnetPort hhandles
    · have hbegins : ¬ BeginsInit w.server (.init telnetPort) := fun hb => howner hb.2
      rw [if_neg hbegins, TelnetServer.act, TelnetServer.init, if_neg howner]
      exact hfds
  | destory =>
    have houts : w.server.destory.1 = [] := by
      rcases destory_cases w.server with heq | ⟨-, heq⟩ <;> rw [heq]
    have hbegins : ¬ BeginsInit w.server (.destory : ServerStep F) := id
    rw [if_neg hbegins, TelnetServer.act, houts]
    exact fdsOk_leave hfds hhandles
  | owner =>
    show FdsOk w.server.proceed.2 (Use.held w.opened (serverUses w.server.proceed.1))
    rw [(proceeds hfds.handles).1]
    exact fdsOk_proceed hfds
  | daemon k =>
    show FdsOk (w.server.telnetDaemonFun base k).2
      (Use.held w.opened (serverUses (w.server.telnetDaemonFun base k).1))
    cases hpc : w.server.daemonPc with
    | idle =>
      simp only [TelnetServer.telnetDaemonFun, hpc]
      exact hfds
    | returned epfd =>
      simp only [TelnetServer.telnetDaemonFun, hpc]
      exact hfds
    | start wPort =>
      simp only [KernelFresh, hpc] at hk
      exact fdsOk_setup hfds hpc hk hhandles
    | loop epfd sockServ =>
      simp only [KernelFresh, hpc] at hk
      exact fdsOk_loop hfds hsub hpc hk hhandles
  | log =>
    simp only [TelnetServer.act, serverUses_log]
    exact hfds.frame hhandles rfl rfl rfl id id hfds.joined
  | append sockClient logline =>
    simp only [TelnetServer.act, serverUses_log]
    exact hfds.frame hhandles rfl rfl rfl id id hfds.joined
  | regCommand name func usage =>
    exact hfds.frame hhandles rfl rfl rfl id id hfds.joined

/-- **The step lemma.** -/
theorem tablesOk_step {w : ServerWorld F} (h : TablesOk w) (hk : KernelFresh base w a) :
    TablesOk ((serverWorldMachine F base).step w a).2 := by
  refine ⟨fdsOk_step h hk, ?_⟩
  show Use.held (if BeginsInit w.server a then ∅ else w.opened) _ ⊆ Use.held w.openFds _
  refine Use.held_mono ?_ _
  split_ifs
  · exact Finset.empty_subset _
  · exact h.sub

/-- **The run lemma.** -/
theorem tablesOk_run {steps : List (ServerStep F)}
    (hk : (serverWorldMachine F base).Valid (KernelFresh base) {} steps) :
    TablesOk ((serverWorldMachine F base).after {} steps) :=
  (serverWorldMachine F base).after_induct_valid ⟨fdsOk_init, Finset.empty_subset _⟩ hk
    fun _ _ => tablesOk_step

end TelnetServ
