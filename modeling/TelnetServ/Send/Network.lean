import TelnetServ.Send.Model
import Mathlib.Logic.Function.Basic
/-!
# Sending from two threads — model

The daemon thread and the log thread both call `sendMsgToTerminal`, with no
lock between them, and the daemon thread accepts and closes. One step is
one `send`, `close` or `accept`, one assignment of `sockClient_`, or the
part of `sendMsgToTerminal` before its first `send`. A connection is
numbered by its `accept`; a descriptor is whatever connection holds its
number at the time.
-/

namespace TelnetServ

/-- The threads that send. -/
inductive Thread where
  | daemon
  | log
  deriving DecidableEq

/-- A call of `sendMsgToTerminal` that is inside `SockSend`. -/
structure Call where
  /-- Which call it is, of all there have been. -/
  unit : ℕ
  localSock : ℤ
  frame : SendFrame

/-- Part of the unit has been sent, not all of it. -/
def Call.MidUnit (call : Call) : Prop := 0 < call.frame.nTotalSendLen

instance (call : Call) : Decidable call.MidUnit :=
  inferInstanceAs (Decidable (0 < call.frame.nTotalSendLen))

/-- Bytes of a unit, each with the call they are from: the same bytes in two
units are not the same. -/
def tagged (unit : ℕ) (bs : List UInt8) : List (ℕ × UInt8) := bs.map (unit, ·)

theorem tagged_append (unit : ℕ) (bs bs' : List UInt8) :
    tagged unit (bs ++ bs') = tagged unit bs ++ tagged unit bs' :=
  List.map_append

/-- A call goes on until `SockSend` returns. -/
def Call.settle (call : Call) : Option Call :=
  if call.frame.returned = none then some call else none

/-- Where the daemon thread is between a system call and the assignment of
`sockClient_` that belongs to it. -/
inductive DaemonPc where
  | loop
  /-- `accept` has returned; the old client is closed next. -/
  | accepted (newTelHandle : ℤ)
  | replaced (newTelHandle : ℤ)
  /-- The client has been closed; `setInvalidTelnetClient` is next. -/
  | closed
  deriving DecidableEq

/-- The two threads, the descriptors and the connections. -/
structure Net where
  sockClient : ℤ := invalidSocket
  pc : DaemonPc := .loop
  calls : Thread → Option Call := fun _ => none
  /-- The connection an open descriptor stands for. -/
  fds : ℤ → Option ℕ := fun _ => none
  /-- How many connections there have been. -/
  conns : ℕ := 0
  /-- What each connection has received. -/
  streams : ℕ → List (ℕ × UInt8) := fun _ => []
  /-- The units passed to `sendMsgToTerminal` so far. -/
  passed : List (List UInt8) := []
  /-- The connection the last bytes of a thread's unit went to. -/
  sentTo : Thread → Option ℕ := fun _ => none

/-- A step of one of the threads. -/
inductive NetStep where
  /-- `sendMsgToTerminal` copies the descriptor and enters `SockSend`. -/
  | call (t : Thread) (pchMsg : List UInt8)
  /-- A `send` takes `n` bytes. -/
  | send (t : Thread) (n : ℕ)
  /-- A `send` on a closed descriptor. -/
  | fail (t : Thread)
  | accept (fd : ℤ)
  /-- `if (sockClient_ != INVALID_SOCKET) close(sockClient_);` -/
  | closeOld
  | setTelnetClient
  | close
  | setInvalidTelnetClient
  deriving DecidableEq

namespace Net

variable (s : Net)

/-- The thread's call is replaced. -/
def setCall (t : Thread) (call : Option Call) : Net :=
  { s with calls := Function.update s.calls t call }

@[simp] theorem setCall_calls_self (t : Thread) (call : Option Call) :
    (s.setCall t call).calls t = call := Function.update_self ..

theorem setCall_calls_ne {t t' : Thread} (h : t' ≠ t) (call : Option Call) :
    (s.setCall t call).calls t' = s.calls t' := Function.update_of_ne h ..

/-- **What a step does.** -/
def step : NetStep → Net
  | .call t pchMsg =>
    { s.setCall t (Call.settle
        ⟨s.passed.length, s.sockClient, sockSend s.sockClient (some pchMsg)⟩) with
      passed := s.passed ++ [pchMsg]
      sentTo := Function.update s.sentTo t none }
  | .send t n =>
    match s.calls t with
    | none => s
    | some call =>
      -- whatever connection holds the descriptor now
      match s.fds call.localSock with
      | none => s
      | some c =>
        { s.setCall t (Call.settle { call with frame := (call.frame.attempt (some n)).2 }) with
          streams := Function.update s.streams c
            (s.streams c ++ tagged call.unit (call.frame.attempt (some n)).1)
          sentTo := Function.update s.sentTo t (some c) }
  | .fail t =>
    match s.calls t with
    | none => s
    | some call => s.setCall t (Call.settle { call with frame := (call.frame.attempt none).2 })
  | .accept fd =>
    { s with
      pc := .accepted fd
      fds := Function.update s.fds fd (some s.conns)
      conns := s.conns + 1 }
  | .closeOld =>
    match s.pc with
    | .accepted n =>
      { s with
        pc := .replaced n
        -- `sockClient_` is still the old client
        fds := if s.sockClient = invalidSocket then s.fds
          else Function.update s.fds s.sockClient none }
    | .loop | .replaced _ | .closed => s
  | .setTelnetClient =>
    match s.pc with
    | .replaced n => { s with pc := .loop, sockClient := n }
    | .loop | .accepted _ | .closed => s
  | .close => { s with pc := .closed, fds := Function.update s.fds s.sockClient none }
  | .setInvalidTelnetClient => { s with pc := .loop, sockClient := invalidSocket }

/-- **When a step can be taken.** The daemon thread does one thing at a
time; `send` takes at least one byte and at most what it is given; `accept`
returns a number that is not in use. -/
def Enabled : NetStep → Prop
  | .call t pchMsg =>
    s.calls t = none ∧ (t = .daemon → s.pc = .loop) ∧ pchMsg.length < 2 ^ 31
  | .send t n => ∃ call, s.calls t = some call ∧ s.fds call.localSock ≠ none ∧ 1 ≤ n ∧
      n ≤ call.frame.requested.length
  | .fail t => ∃ call, s.calls t = some call ∧ s.fds call.localSock = none
  | .accept fd => s.pc = .loop ∧ s.calls .daemon = none ∧ 0 ≤ fd ∧ s.fds fd = none
  | .closeOld => ∃ n, s.pc = .accepted n
  | .setTelnetClient => ∃ n, s.pc = .replaced n
  | .close => s.pc = .loop ∧ s.calls .daemon = none
  | .setInvalidTelnetClient => s.pc = .closed

/-- **No send breaks into a unit.** It continues its own unit only on the
connection that took the bytes before, and goes to no connection the other
thread is in the middle of a unit on. -/
def Undisturbed : NetStep → Prop
  | .send t _ => ∀ call c, s.calls t = some call → s.fds call.localSock = some c →
      (call.MidUnit → s.sentTo t = some c) ∧
      ∀ t' call', t' ≠ t → s.calls t' = some call' → s.sentTo t' = some c → ¬ call'.MidUnit
  | .call _ _ | .fail _ | .accept _ | .closeOld | .setTelnetClient | .close
  | .setInvalidTelnetClient => True

end Net

/-- **The two threads as a machine** over their interleaved steps. -/
def netMachine : Machine Net NetStep Empty where
  step s a := ([], s.step a)

end TelnetServ
