import TelnetServ.Print.Model
import TelnetServ.Queue.Model
import TelnetServ.Send.Model
/-!
# The log output — model

The way of a line through the server: `telPrintf` and `telPrintfNoTime` of any
number of threads, which format it and pass it to `appendToMsgBuf`; the log
thread, which hands buffers to `sendMsgToTerminal`; and `SockSend`, one `send`
at a time. The parts are those of their own modules; here they run against
each other.
-/

namespace TelnetServ

open Calendar

/-- **The server, as far as a line comes through it.** -/
structure LogOutput where
  /-- What each thread keeps for `formatTime`. -/
  caches : ℕ → Option TimeCache := fun _ => some {}
  queue : LogServer := {}
  /-- The `SockSend` the log thread is in. -/
  frame : Option SendFrame := none

/-- A step of the owner, of a thread that prints or of the log thread. -/
inductive OutputStep where
  | init
  | destory
  /-- `telPrintf` of a thread; `sockClient` is what `appendToMsgBuf` reads. -/
  | telPrintf (thread : ℕ) (call : PrintCall) (sockClient : ℤ)
  /-- `telPrintfNoTime`, with what it reads and what `appendToMsgBuf` reads. -/
  | telPrintfNoTime (sockClient : ℤ) (szFormat : Option Printed) (appendSock : ℤ)
  /-- A part of `LogOutPutFun`; `localSock` is what `sendMsgToTerminal`
  copies. -/
  | log (localSock : ℤ)
  /-- A `send` of the log thread. -/
  | send (r : SendResult)

/-- What is seen of a step. -/
inductive OutputEvent where
  | queued (e : LogEvent)
  /-- What a `send` has taken. -/
  | sent (bs : List UInt8)
  deriving DecidableEq

namespace LogOutput

variable (zone : ℤ → Tm) (s : LogOutput)

/-- Messages go to `appendToMsgBuf`. -/
def append (sockClient : ℤ) (msgs : List (List UInt8)) : List OutputEvent × LogOutput :=
  ((logMachine.outs s.queue (msgs.map (.append sockClient))).map .queued,
    { s with queue := logMachine.after s.queue (msgs.map (.append sockClient)) })

/-- The process ends. -/
def abort : LogOutput := { s with queue := s.queue.abort }

/-- A step of the queue alone. -/
def queueStep (a : LogStep) : List OutputEvent × LogOutput :=
  ((s.queue.step a).1.map .queued, { s with queue := (s.queue.step a).2 })

/-- **A step.** -/
def step : OutputStep → List OutputEvent × LogOutput
  | .init => s.queueStep .init
  | .destory => s.queueStep .destory
  | .telPrintf thread call sockClient =>
    let r := (printMachine zone).step (s.caches thread) call
    match r.2 with
    | none => ([], s.abort)
    | some c =>
      { s with caches := Function.update s.caches thread (some c) }.append sockClient r.1
  | .telPrintfNoTime sockClient szFormat appendSock =>
    let print := Untimed.telPrintfNoTime sockClient szFormat
    -- `vsprintf` has written over the end of `msg`
    if maxLogMsgLen < print.written.length then ([], s.abort)
    else s.append appendSock print.passed.toList
  | .log localSock =>
    let r := s.queue.step .log
    (r.1.map .queued,
      { s with
        queue := r.2
        frame := (handedOf r.1).head?.map fun msg => sockSend localSock (some msg) })
  | .send r =>
    match s.frame with
    | none => ([], s)
    | some f =>
      ([.sent (sendMachine.step f r).1], { s with frame := some (sendMachine.step f r).2 })

/-- **When a step can be taken.** The log thread goes on when `SockSend` has
returned. -/
def Enabled : OutputStep → Prop
  | .init => s.queue.Enabled .init
  | .log _ => s.queue.Enabled .log ∧ ∀ f ∈ s.frame, f.returned ≠ none
  | .send r => s.queue.aborted = false ∧ ∃ f ∈ s.frame, SendPossible f r
  | .destory | .telPrintf _ _ _ | .telPrintfNoTime _ _ _ => s.queue.aborted = false

/-- **Nothing outside fails**: `vsnprintf` does not return one of the errors
its caller takes for a length, there is a client to send to, and `send` does
not fail three times in a row. -/
def Unfailing : OutputStep → Prop
  | .telPrintf _ call _ => ∀ printed ∈ call.szFormat, ¬ (-21 ≤ printed.ret ∧ printed.ret ≤ -1)
  | .log localSock => localSock ≠ invalidSocket
  | .send r => r = none → ∀ f ∈ s.frame, f.nTryNum + 1 < 3
  | .init | .destory | .telPrintfNoTime _ _ _ => True

instance : ∀ a, Decidable (s.Enabled a)
  | .init => inferInstanceAs (Decidable (s.queue.Enabled .init))
  | .log _ => inferInstanceAs (Decidable (s.queue.Enabled .log ∧ ∀ f ∈ s.frame, f.returned ≠ none))
  | .send r =>
    inferInstanceAs (Decidable (s.queue.aborted = false ∧ ∃ f ∈ s.frame, SendPossible f r))
  | .destory | .telPrintf _ _ _ | .telPrintfNoTime _ _ _ =>
    inferInstanceAs (Decidable (s.queue.aborted = false))

instance : ∀ a, Decidable (s.Unfailing a)
  | .telPrintf _ call _ => inferInstanceAs (Decidable (∀ printed ∈ call.szFormat,
      ¬ (-21 ≤ printed.ret ∧ printed.ret ≤ -1)))
  | .log localSock => inferInstanceAs (Decidable (localSock ≠ invalidSocket))
  | .send r => inferInstanceAs (Decidable (r = none → ∀ f ∈ s.frame, f.nTryNum + 1 < 3))
  | .init | .destory | .telPrintfNoTime _ _ _ => inferInstanceAs (Decidable True)

end LogOutput

/-- **The log output as a machine** over the interleaved steps. -/
def outputMachine (zone : ℤ → Tm) : Machine LogOutput OutputStep OutputEvent where
  step s a := s.step zone a

/-! ## What a run prints -/

/-- The line that is to be printed: one of a valid length. -/
def lineFor (stamp : List UInt8) : Option Printed → List (List UInt8)
  | none => []
  | some printed =>
    if 1 ≤ printed.ret ∧ stamp.length + printed.ret < 2000 then [stamp ++ printed.text] else []

/-- **The lines a step is to print**, while there is a client. The stamp is
that of the call's second. -/
def linesOf (zone : ℤ → Tm) : OutputStep → List (List UInt8)
  | .telPrintf _ call sockClient =>
    if call.sockClient = invalidSocket ∨ sockClient = invalidSocket then []
    else lineFor (timeText (zone call.seconds)) call.szFormat
  | .telPrintfNoTime sockClient szFormat appendSock =>
    if sockClient = invalidSocket ∨ appendSock = invalidSocket then [] else lineFor [] szFormat
  | .init | .destory | .log _ | .send _ => []

/-- What happened at the queue. -/
def queuedOf (trace : List OutputEvent) : List LogEvent :=
  trace.filterMap fun | .queued e => some e | .sent _ => none

/-- **The bytes sent**, in order. -/
def sentOf (trace : List OutputEvent) : List UInt8 :=
  trace.flatMap fun | .sent bs => bs | .queued _ => []

end TelnetServ
