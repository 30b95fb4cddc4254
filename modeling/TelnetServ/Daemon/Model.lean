import TelnetServ.Line.Model
import TelnetServ.Command.Model
import TelnetServ.Common.Effect
import TelnetServ.Common.Resource
/-!
# The daemon thread — model

The body of the event loop of `TelnetDaemonFun` together with what it
calls: `CmdParse`, `RunCmd`, `telhelp`, `PromptShow` and
`pushMsgToTerminalImmidate`. The system calls and the units handed to
`sendMsgToTerminal` are recorded as actions; what the kernel and a
command's function answer comes in with each event. A thread that has
written behind a buffer is lost and does nothing more, as one that is
inside a loop for good.
-/

namespace TelnetServ

open CStr Decimal

/-- What the daemon thread does to the outside. -/
inductive Action (F : Type*) where
  /-- `accept` returned the descriptor `fd`. -/
  | accept (fd : ℤ)
  | close (fd : ℤ)
  /-- `epoll_ctl` with `EPOLL_CTL_ADD`. -/
  | epollAdd (fd : ℤ)
  /-- `sendMsgToTerminal` hands a unit to `SockSend` on `fd`. -/
  | send (fd : ℤ) (pchMsg : List UInt8)
  | cmdParse (pchCmd : List UInt8) (byCmdLen : UInt8)
  /-- A command's function is called; the line is what its pointers point
  into. -/
  | invoke (func : F) (para : Vector UInt64 10) (szCmd : List UInt8)

theorem three_ne_invalidSocket : (3 : ℤ) ≠ invalidSocket := by decide

/-- What stays fixed while the daemon runs. -/
structure Setup (F : Type*) where
  sockServ : ℤ
  /-- Without a listening socket the thread exits before its loop. -/
  listening : sockServ ≠ invalidSocket
  cmdFunTable : CmdFunTable F
  /-- The address of the array `RunCmd` works on. -/
  base : UInt64

/-- The daemon thread's state between two events. -/
structure Daemon where
  sockClient : ℤ := invalidSocket
  line : LineState := clearedLine 0
  /-- The thread wrote behind a buffer, or is in the tokenizer loop for
  good. -/
  lost : Bool := false

/-- The thread still handles events. -/
def Daemon.Running (d : Daemon) : Prop := d.lost = false ∧ d.line.stuck = false

instance (d : Daemon) : Decidable d.Running := by unfold Daemon.Running; infer_instance

/-- An event as `epoll_wait` reports it. -/
structure Event where
  fd : ℤ
  events : UInt32

/-- What is answered to the daemon while it handles an event. -/
structure Answers where
  /-- What `accept` returns. -/
  accept : ℤ := invalidSocket
  /-- The byte `recv` stores; `none` when it returns 0 or less. -/
  recv : Option UInt8 := none
  /-- What a command's function returns. -/
  callback : Int32 := 0

abbrev epollIn : UInt32 := 1
abbrev epollErr : UInt32 := 8
abbrev epollHup : UInt32 := 16
abbrev pollNval : UInt32 := 32

/-- `events & flag`, as a condition. -/
def Event.Has (e : Event) (flag : UInt32) : Prop := e.events &&& flag ≠ 0

instance (e : Event) (flag : UInt32) : Decidable (e.Has flag) := by
  unfold Event.Has; infer_instance

variable {F : Type*}

/-- Effects of the daemon thread, in turn until it is lost. -/
abbrev inTurn (fs : List (Effect Daemon (Action F))) : Effect Daemon (Action F) :=
  Effect.inTurn Daemon.lost fs

/-! ## Output -/

/-- `sendMsgToTerminal`, up to what the socket takes. -/
def sendMsgToTerminal (pchMsg : List UInt8) : Effect Daemon (Action F) := fun d =>
  if d.sockClient = invalidSocket then ([], d) else ([.send d.sockClient pchMsg], d)

/-- **`pushMsgToTerminalImmidate`**, given the formatted text. `vsprintf`
writes the text and its NUL before the length is looked at. -/
def pushMsgToTerminalImmidate (msg : List UInt8) : Effect Daemon (Action F) := fun d =>
  if d.sockClient = invalidSocket then ([], d)
  else if maxLogMsgLen ≤ msg.length then ([], { d with lost := true })
  else if msg.length = 0 then ([], d)
  else sendMsgToTerminal msg d

/-- The prompt as it is sent, with its NUL. -/
abbrev promptText : List UInt8 := ascii "->" ++ [0]

/-- `PromptShow`. -/
def promptShow : Effect Daemon (Action F) := fun d =>
  if d.sockClient = invalidSocket then ([], d) else sendMsgToTerminal promptText d

/-- The texts of `telhelp`. -/
def telhelpTexts (cmdFunTable : CmdFunTable F) : List (List UInt8) :=
  ascii "Whole User Help Menu:\n\n" ::
    cmdFunTable.values.map fun c =>
      ascii "Command: " ++ c.funName ++ ascii ", Usage:" ++ c.funUsage ++ ascii " \n"

/-- `telhelp`. -/
def telhelp (cmdFunTable : CmdFunTable F) : Effect Daemon (Action F) := fun d =>
  if d.sockClient = invalidSocket then ([], d)
  else inTurn ((telhelpTexts cmdFunTable).map pushMsgToTerminalImmidate) d

/-! ## Commands -/

/-- `close(sockClient_); setInvalidTelnetClient();` -/
def closeClient : Effect Daemon (Action F) := fun d =>
  ([.close d.sockClient], { d with sockClient := invalidSocket })

/-- What `RunCmd` does once it is known where it ends up. -/
def runOutcome (setup : Setup F) (callback : Int32) :
    RunOutcome F → Effect Daemon (Action F)
  | .refused => fun d => ([], d)
  | .overrun => fun d => ([], { d with lost := true })
  | .endless => fun d => ([], { d with lost := true })
  | .bye => inTurn [pushMsgToTerminalImmidate (ascii "\n  bye......\n"), closeClient]
  | .telhelp => telhelp setup.cmdFunTable
  | .call func para szCmd => inTurn
      [fun d => ([.invoke func para szCmd], d),
        pushMsgToTerminalImmidate
          (ascii "Return value: " ++ decimal callback.toInt ++ ascii "\n")]
  | .unknown name =>
    pushMsgToTerminalImmidate (ascii "function '" ++ name ++ ascii "' doesn't exist!\n")

/-- `RunCmd`, as called by the daemon. -/
def doRunCmd (setup : Setup F) (callback : Int32) (szCmd : List UInt8) :
    Effect Daemon (Action F) := fun d =>
  if d.sockClient = invalidSocket then ([], d)
  else runOutcome setup callback (runCmd setup.cmdFunTable setup.base szCmd) d

/-- `CmdParse`, as called by the daemon. -/
def doCmdParse (setup : Setup F) (callback : Int32) (pchCmd : List UInt8) (byCmdLen : UInt8) :
    Effect Daemon (Action F) :=
  inTurn [fun d => ([.cmdParse pchCmd byCmdLen], d),
    match cmdParse pchCmd byCmdLen with
    | none => fun d => ([], d)
    | some szCmd => doRunCmd setup callback szCmd]

/-- A call the line editor makes. -/
def lineCall (setup : Setup F) (callback : Int32) : LineCall → Effect Daemon (Action F)
  | .push text => pushMsgToTerminalImmidate text
  | .cmdParse pchCmd byCmdLen => doCmdParse setup callback pchCmd byCmdLen
  | .promptShow => promptShow

/-- A received byte: the calls of the switch, then its new locals. -/
def onChar (setup : Setup F) (callback : Int32) (cmdChar : UInt8) :
    Effect Daemon (Action F) := fun d =>
  inTurn [inTurn ((switchCmdChar d.line cmdChar).1.map (lineCall setup callback)),
    fun d' => ([], { d' with line := (switchCmdChar d.line cmdChar).2 })] d

/-! ## Events -/

/-- The lines of the welcome screen. -/
def welcome : List (List UInt8) :=
  [ascii "*===============================================================*\n",
    ascii "Welcome to Telnet Server.\n",
    ascii "*===============================================================*\n"]

/-- The screen sent to a new client, prompt included. -/
def welcomeScreen : Effect Daemon (Action F) :=
  inTurn (welcome.map pushMsgToTerminalImmidate ++ [promptShow])

/-- `setTelnetClient(newTelHandle)`, and the line buffer is cleared. The
counter is not. -/
def Daemon.setTelnetClient (d : Daemon) (newTelHandle : ℤ) : Daemon :=
  { d with sockClient := newTelHandle, line := { d.line with command := clearedCommand } }

/-- A new connection: it replaces the client and is shown the screen. -/
def onAccept (newTelHandle : ℤ) : Effect Daemon (Action F) :=
  Effect.andThen Daemon.lost
    (fun d =>
      (.accept newTelHandle ::
        (if d.sockClient ≠ invalidSocket then [.close d.sockClient] else []) ++
        [.epollAdd newTelHandle],
      d.setTelnetClient newTelHandle))
    welcomeScreen

/-- **The body of the loop over `events`.** -/
def handle (setup : Setup F) (e : Event) (answers : Answers) : Effect Daemon (Action F) := fun d =>
  -- the client has hung up, or its socket is in error
  if e.Has epollHup ∧ ¬ e.Has epollIn ∧ d.sockClient = e.fd then closeClient d
  else if e.Has (epollErr ||| pollNval) ∧ d.sockClient = e.fd then closeClient d
  else if e.fd = setup.sockServ then
    if answers.accept = invalidSocket then ([], d) else onAccept answers.accept d
  else if e.Has epollIn ∧ d.sockClient = e.fd then
    match answers.recv with
    -- `ret <= 0`; the test for `SOCKET_ERROR` behind it is never reached
    | none => closeClient d
    | some cmdChar => onChar setup answers.callback cmdChar d
  -- an event that is neither the listening socket's nor the client's
  else closeClient d

/-- **The daemon as a machine** over the events it is handed. -/
def daemonMachine (setup : Setup F) : Machine Daemon (Event × Answers) (Action F) where
  step d x := if d.Running then handle setup x.1 x.2 d else ([], d)

theorem daemonMachine_step {setup : Setup F} {d : Daemon} (h : d.Running) (x : Event × Answers) :
    (daemonMachine setup).step d x = handle setup x.1 x.2 d := if_pos h

theorem daemonMachine_step_halted {setup : Setup F} {d : Daemon} (h : ¬ d.Running)
    (x : Event × Answers) : (daemonMachine setup).step d x = ([], d) := if_neg h

/-! ## Output that fits

A text that is not empty and fits the formatting buffer goes out as it is,
and the thread is as it was. -/

theorem sendMsg_eq {d : Daemon} (hc : d.sockClient ≠ invalidSocket) (msg : List UInt8) :
    sendMsgToTerminal msg d = (([.send d.sockClient msg], d) : List (Action F) × Daemon) :=
  if_neg hc

theorem pushMsg_eq {d : Daemon} (hc : d.sockClient ≠ invalidSocket) {msg : List UInt8}
    (h0 : 0 < msg.length) (h : msg.length < maxLogMsgLen) :
    pushMsgToTerminalImmidate msg d =
      (([.send d.sockClient msg], d) : List (Action F) × Daemon) := by
  rw [pushMsgToTerminalImmidate, if_neg hc, if_neg (Nat.not_le.mpr h), if_neg h0.ne',
    sendMsg_eq hc]

theorem promptShow_eq {d : Daemon} (hc : d.sockClient ≠ invalidSocket) :
    promptShow d = (([.send d.sockClient promptText], d) : List (Action F) × Daemon) := by
  rw [promptShow, if_neg hc, sendMsg_eq hc]

theorem welcomeScreen_eq {d : Daemon} (hc : d.sockClient ≠ invalidSocket) (hl : d.lost = false) :
    welcomeScreen d =
      (((welcome ++ [promptText]).map (.send d.sockClient), d) : List (Action F) × Daemon) := by
  have hpush : ∀ msg ∈ welcome, pushMsgToTerminalImmidate msg d =
      (([.send d.sockClient msg], d) : List (Action F) × Daemon) := fun msg hmsg =>
    pushMsg_eq hc ((by decide : ∀ msg ∈ welcome, 0 < msg.length) msg hmsg)
      ((by decide : ∀ msg ∈ welcome, msg.length < maxLogMsgLen) msg hmsg)
  rw [welcomeScreen, inTurn, Effect.inTurn_of_still hl]
  · simp only [List.flatMap_append, List.flatMap_map, List.flatMap_singleton, promptShow_eq hc,
      List.map_append, List.map_cons, List.map_nil]
    rw [List.flatMap_congr fun msg hmsg => congrArg Prod.fst (hpush msg hmsg)]
    rfl
  · intro f hf
    rcases List.mem_append.mp hf with hf | hf
    · obtain ⟨msg, hmsg, rfl⟩ := List.mem_map.mp hf
      rw [hpush msg hmsg]
    · rw [List.mem_singleton.mp hf, promptShow_eq hc]

/-- **What a running thread does on `accept`**: it changes the client, and
sends the welcome screen to the new one. -/
theorem onAccept_eq {n : ℤ} (hn : n ≠ invalidSocket) {d : Daemon} (hl : d.lost = false) :
    onAccept n d =
      ((.accept n :: (if d.sockClient ≠ invalidSocket then [.close d.sockClient] else []) ++
          [.epollAdd n] ++ (welcome ++ [promptText]).map (.send n), d.setTelnetClient n) :
        List (Action F) × Daemon) := by
  have hscreen : welcomeScreen (d.setTelnetClient n) =
      (((welcome ++ [promptText]).map (.send n), d.setTelnetClient n) :
        List (Action F) × Daemon) := welcomeScreen_eq hn hl
  rw [onAccept, Effect.andThen_of_running hl, hscreen]

/-- Descriptor 3 listens, and no command is registered. -/
abbrev plainSetup : Setup Unit := ⟨3, three_ne_invalidSocket, ∅, 0⟩

end TelnetServ
