import TelnetServ.Daemon.Model
import TelnetServ.Queue.Model
/-!
# The server — model

`init` and `destory` as one owner runs them, statement by statement, and
the two threads they start. The daemon thread first opens its descriptors
and then handles batches of events, reading `isRunning_` before each; the
log thread is `LogOutPutFun` of the log queue. Any thread may take the next
step, a thread that has been started also when it has not run yet. What the
kernel answers comes in with the daemon's steps.
-/

namespace TelnetServ

open Effect

/-! ## `muduo::Thread` -/

/-- A `muduo::Thread` and what is bound into its function. `joined_` is left
out: the owner deletes a thread it has joined. -/
structure MuduoThread (α : Type*) where
  func : α
  started : Bool := false

/-- **`Thread::start`**; `none` where its assertion fails. It does not wait
for the new thread. -/
def MuduoThread.start {α : Type*} (t : MuduoThread α) : Option (MuduoThread α) :=
  if t.started then none else some { t with started := true }

/-- The statement of `init` or `destory` the owner comes to next. -/
inductive OwnerPc where
  /-- Before a call of `init`. -/
  | stopped
  | newDaemon (telnetPort : UInt16)
  | newLog
  | startDaemon
  | startLog
  /-- Before a call of `destory`. -/
  | started
  | notify
  | joinDaemon
  | joinLog
  | reset
  deriving DecidableEq

/-- Where the daemon thread is in `TelnetDaemonFun`. `epfd` is a local: once
the thread has returned, nobody knows its value. -/
inductive DaemonFunPc where
  /-- There is no daemon thread. -/
  | idle
  | start (wPort : UInt16)
  /-- Before the test of `isRunning_`. -/
  | loop (epfd : ℤ) (sockServ : {fd : ℤ // fd ≠ invalidSocket})
  | returned (epfd : ℤ)
  deriving DecidableEq

/-- `pthread_join` does not wait for the daemon thread. -/
def DaemonFunPc.Returned : DaemonFunPc → Prop
  | .returned _ => True
  | .idle | .start _ | .loop _ _ => False

instance (pc : DaemonFunPc) : Decidable pc.Returned := by
  unfold DaemonFunPc.Returned; split <;> infer_instance

/-! ## The listening socket -/

/-- What the server does to the outside. -/
inductive ServerEvent (F : Type*) where
  /-- `epoll_create` returned the descriptor `fd`. -/
  | epollCreate (fd : ℤ)
  /-- `socket` returned the descriptor `fd`. -/
  | socket (fd : ℤ)
  /-- `bind` succeeded. -/
  | bind (fd : ℤ) (wPort : UInt16)
  /-- `close`, in `createTcpListenSock`. -/
  | close (fd : ℤ)
  | daemon (a : Action F)
  | log (e : LogEvent)

/-- What the kernel answers to the calls of `createTcpListenSock`. -/
structure SockAnswers where
  socket : ℤ := invalidSocket
  /-- `bind` succeeds. -/
  bind : Bool := false
  /-- `listen` succeeds. -/
  listen : Bool := false

/-- What it answers to the daemon thread before its loop. -/
structure SetupAnswers where
  epollCreate : ℤ := invalidSocket
  /-- For the port asked for. -/
  asked : SockAnswers := {}
  /-- For the ports of the search. -/
  search : UInt16 → SockAnswers := fun _ => {}

variable {F : Type*}

/-- **`createTcpListenSock`.** -/
def createTcpListenSock (wPort : UInt16) (k : SockAnswers) : List (ServerEvent F) × ℤ :=
  if k.socket = invalidSocket then ([], invalidSocket)
  else if k.bind = false then ([.socket k.socket, .close k.socket], invalidSocket)
  else if k.listen = false then
    ([.socket k.socket, .bind k.socket wPort, .close k.socket], invalidSocket)
  else ([.socket k.socket, .bind k.socket wPort], k.socket)

/-- `sockServ_` and `portListen_`. -/
structure Listener where
  sockServ : ℤ := invalidSocket
  portListen : UInt16 := 0
  deriving DecidableEq

/-- `sockServ_ != INVALID_SOCKET`. -/
def Listener.listening (l : Listener) : Bool := l.sockServ ≠ invalidSocket

/-- `sockServ_` is assigned, and `portListen_` if the socket listens. -/
def tryPort (wPort : UInt16) (k : SockAnswers) : Effect Listener (ServerEvent F) := fun l =>
  ((createTcpListenSock wPort k : List (ServerEvent F) × ℤ).1,
    { sockServ := (createTcpListenSock wPort k : List (ServerEvent F) × ℤ).2
      portListen :=
        if (createTcpListenSock wPort k : List (ServerEvent F) × ℤ).2 = invalidSocket
        then l.portListen else wPort })

/-- From `MIN_TELSVR_PORT` up to `MAX_TELSVR_PORT`, the last one left out. -/
def telSvrPorts : List UInt16 := (List.range' 2500 (8000 - 2500)).map UInt16.ofNat

/-- **The port asked for is tried unless it is 0, then the others in
turn** until a socket listens. -/
def openListener (wPort : UInt16) (k : SetupAnswers) : Effect Listener (ServerEvent F) :=
  andThen Listener.listening
    (if wPort ≠ 0 then tryPort wPort k.asked else fun l => ([], l))
    (Effect.inTurn Listener.listening (telSvrPorts.map fun port => tryPort port (k.search port)))

/-! ## The server -/

/-- The members of `TelnetServer` and the locals of its threads. -/
structure TelnetServer (F : Type*) where
  owner : OwnerPc := .stopped
  cmdFunTable : CmdFunTable F := ∅
  listener : Listener := {}
  thdTelnetDaemonHandle : Option (MuduoThread UInt16) := none
  thdLogOutPutHandle : Option (MuduoThread Unit) := none
  daemonPc : DaemonFunPc := .idle
  /-- `sockClient_` and the locals of the event loop. -/
  daemon : Daemon := {}
  /-- `isRunning_`, the queue, the log thread, and whether the process has
  been aborted. -/
  log : LogServer := {}

/-- What is answered to a step of the daemon thread. -/
structure DaemonAnswers where
  setup : SetupAnswers := {}
  /-- What `epoll_wait` reports. -/
  events : List (Event × Answers) := []

/-- Without an epoll descriptor `epoll_wait` reports nothing. -/
def DaemonAnswers.polled (k : DaemonAnswers) (epfd : ℤ) : List (Event × Answers) :=
  if epfd = invalidSocket then [] else k.events

/-- A step of the owner, a thread or a producer. -/
inductive ServerStep (F : Type*) where
  /-- The owner calls `init`. -/
  | init (telnetPort : UInt16)
  /-- The owner calls `destory`. -/
  | destory
  /-- The next statement of the owner's call. -/
  | owner
  | daemon (k : DaemonAnswers)
  | log
  /-- `appendToMsgBuf`, with the value of `sockClient_` it reads. -/
  | append (sockClient : ℤ) (logline : List UInt8)
  | regCommand (name : List UInt8) (func : Option F) (usage : List UInt8)

namespace TelnetServer

variable (s : TelnetServer F)

def abort : TelnetServer F := { s with log := s.log.abort }

/-- **`init`**, its first statement. -/
def init (telnetPort : UInt16) : List (ServerEvent F) × TelnetServer F :=
  if s.owner = .stopped then
    ([], { s with owner := .newDaemon telnetPort, log := { s.log with isRunning := true } })
  else ([], s)

/-- **`destory`**, its first statement. -/
def destory : List (ServerEvent F) × TelnetServer F :=
  if s.owner = .started then
    ([], { s with owner := .notify, log := { s.log with isRunning := false } })
  else ([], s)

/-- **The other statements of `init` and `destory`.** A join that has to wait
leaves everything as it is. -/
def proceed : List (ServerEvent F) × TelnetServer F :=
  match s.owner with
  | .stopped | .started => ([], s)
  | .newDaemon telnetPort =>
    ([], { s with owner := .newLog, thdTelnetDaemonHandle := some { func := telnetPort } })
  | .newLog => ([], { s with owner := .startDaemon, thdLogOutPutHandle := some { func := () } })
  | .startDaemon =>
    match s.thdTelnetDaemonHandle.bind MuduoThread.start with
    | none => ([], s.abort)
    | some t =>
      ([], { s with
        owner := .startLog, thdTelnetDaemonHandle := some t, daemonPc := .start t.func })
  | .startLog =>
    match s.thdLogOutPutHandle.bind MuduoThread.start with
    | none => ([], s.abort)
    | some t =>
      ([], { s with
        owner := .started, thdLogOutPutHandle := some t, log := { s.log with pc := .start } })
  -- from `waitForSeconds` the log thread may wake up at any time as it is
  | .notify => ([], { s with owner := .joinDaemon })
  | .joinDaemon =>
    match s.thdTelnetDaemonHandle with
    | none => ([], { s with owner := .joinLog })
    | some t =>
      if t.started = false then ([], s.abort)
      else if s.daemonPc.Returned then
        ([], { s with owner := .joinLog, thdTelnetDaemonHandle := none })
      else ([], s)
  | .joinLog =>
    match s.thdLogOutPutHandle with
    | none => ([], { s with owner := .reset })
    | some t =>
      if t.started = false then ([], s.abort)
      else if s.log.pc = .returned then
        ([], { s with owner := .reset, thdLogOutPutHandle := none })
      else ([], s)
  | .reset =>
    ([],
      { s with
        owner := .stopped
        listener := {}
        daemonPc := .idle
        daemon := { s.daemon with sockClient := invalidSocket }
        cmdFunTable := ∅ })

/-- What the event loop runs on. -/
def setup (base : UInt64) (sockServ : {fd : ℤ // fd ≠ invalidSocket}) : Setup F :=
  ⟨sockServ.1, sockServ.2, s.cmdFunTable, base⟩

/-- **`TelnetDaemonFun`**: the part before the loop, or one turn of the
loop. `base` is where `RunCmd` has its array. -/
def telnetDaemonFun (base : UInt64) (k : DaemonAnswers) :
    List (ServerEvent F) × TelnetServer F :=
  match s.daemonPc with
  | .idle | .returned _ => ([], s)
  | .start wPort =>
    let opened : List (ServerEvent F) × Listener := openListener wPort k.setup s.listener
    ((if k.setup.epollCreate = invalidSocket then [] else [.epollCreate k.setup.epollCreate]) ++
        opened.1,
      { s with
        listener := opened.2
        daemon := { sockClient := s.daemon.sockClient }
        daemonPc :=
          if h : opened.2.sockServ ≠ invalidSocket then
            .loop k.setup.epollCreate ⟨opened.2.sockServ, h⟩
          -- `pthread_exit`
          else .returned k.setup.epollCreate })
  | .loop epfd sockServ =>
    if ¬ s.daemon.Running then ([], s)
    else if s.log.isRunning = false then ([], { s with daemonPc := .returned epfd })
    else
      (((daemonMachine (s.setup base sockServ)).outs s.daemon (k.polled epfd)).map .daemon,
        { s with
          daemon := (daemonMachine (s.setup base sockServ)).after s.daemon (k.polled epfd) })

/-- What a step does while the process is alive. -/
def act (base : UInt64) : ServerStep F → List (ServerEvent F) × TelnetServer F
  | .init telnetPort => s.init telnetPort
  | .destory => s.destory
  | .owner => s.proceed
  | .daemon k => s.telnetDaemonFun base k
  | .log => (s.log.logOutPutFun.1.map .log, { s with log := s.log.logOutPutFun.2 })
  | .append sockClient logline =>
    ((s.log.appendToMsgBuf sockClient logline).1.map .log,
      { s with log := (s.log.appendToMsgBuf sockClient logline).2 })
  | .regCommand name func usage =>
    ([], { s with cmdFunTable := TelnetServ.regCommand s.cmdFunTable name func usage })

/-- **A step.** An aborted process takes none. -/
def step (base : UInt64) (a : ServerStep F) : List (ServerEvent F) × TelnetServer F :=
  if s.log.aborted then ([], s) else s.act base a

variable {s}

theorem step_of_alive {base : UInt64} (h : s.log.aborted = false) (a : ServerStep F) :
    s.step base a = s.act base a := by
  rw [step, h, if_neg Bool.false_ne_true]

theorem step_of_aborted {base : UInt64} (h : s.log.aborted = true) (a : ServerStep F) :
    s.step base a = ([], s) := by
  rw [step, h, if_pos rfl]

end TelnetServer

/-- **The server as a machine** over the interleaved steps. -/
def serverMachine (F : Type*) (base : UInt64) :
    Machine (TelnetServer F) (ServerStep F) (ServerEvent F) where
  step s a := s.step base a

end TelnetServ
