import TelnetServ.Queue.Buffers
import TelnetServ.Common.Decimal
/-!
# The asynchronous logger — model

`AsyncLogging`: `append` of any number of threads, `threadFunc`, and the owner
with `start` and `stop`. Its buffers go round as those of `LogServer` do, so
it has the same members and locals, `running_` being `isRunning`, and the same
locked section and recycling. What is different is the start, which waits for
a latch, the end of a long batch that is dropped, and the `LogFile` everything
goes to.
-/

namespace TelnetServ

/-- Where the owner is. -/
inductive AsyncOwner where
  | idle
  /-- In `latch_.wait()`, called by `start`. -/
  | starting
  /-- In `pthread_join`, called by `stop`. -/
  | stopping
  deriving DecidableEq

/-- **`AsyncLogging`**, and the log thread's locals. -/
structure AsyncLogging extends LogServer where
  /-- `count_` of `latch_`. -/
  latch : ℤ := 1
  /-- `started_` and `joined_` of `thread_`. -/
  started : Bool := false
  joined : Bool := false
  owner : AsyncOwner := .idle
  deriving DecidableEq

/-- A step of the owner, of a thread that logs or of the log thread. -/
inductive AsyncStep where
  | start
  /-- `latch_.wait()` returns, and `start` with it. -/
  | started
  | stop
  /-- `pthread_join` returns, and `stop` with it. -/
  | stopped
  | append (logline : List UInt8)
  /-- A part of `threadFunc`. `time` is `Timestamp::now`, formatted. -/
  | log (time : List UInt8)
  deriving DecidableEq

/-- What is seen of a step. -/
inductive AsyncEvent where
  /-- `append` has passed the message to `FixedBuffer::append`. -/
  | appended (logline : List UInt8)
  /-- The batch of an iteration has come to the test of its size. -/
  | batch (buffersToWrite : List FixedBuffer)
  /-- `output.append` of the line that says how many buffers are dropped. -/
  | dropped (line : List UInt8)
  /-- `output.append` of a buffer. -/
  | wrote (msg : List UInt8)
  /-- `output.flush`. -/
  | flushed
  deriving DecidableEq

/-- `if (buffersToWrite.size() > 25)`, all but the first two are erased. -/
def dropRest {α : Type*} (buffersToWrite : List α) : List α :=
  if 25 < buffersToWrite.length then buffersToWrite.take 2 else buffersToWrite

/-- `buf`, which has room for 255 bytes and a NUL. -/
def droppedLine (time : List UInt8) (size : ℕ) : List UInt8 :=
  (ascii "Dropped log messages at " ++ time ++ ascii ", " ++ Decimal.decimal (size - 2 : ℕ) ++
    ascii " larger buffers\n").take 255

/-- The line for a batch, if there is one. -/
def dropLines (time : List UInt8) (size : ℕ) : List AsyncEvent :=
  if 25 < size then [.dropped (droppedLine time size)] else []

namespace AsyncLogging

variable (s : AsyncLogging)

/-- An assertion has failed or a null pointer has been used. -/
def abort : AsyncLogging := { s with aborted := true }

/-- **`append`.** A message that fits no buffer is passed on all the same. -/
def append (logline : List UInt8) : List AsyncEvent × AsyncLogging :=
  match s.currentBuffer with
  | none => ([], s.abort)
  | some current =>
    if logline.length < current.avail then
      ([.appended logline], { s with currentBuffer := some (current.append logline) })
    else
      ([.appended logline],
        { s with
          buffers := s.buffers ++ [current]
          currentBuffer := some ((s.nextBuffer.getD .empty).append logline)
          nextBuffer := none })

/-- **`threadFunc`**, one part. -/
def threadFunc (time : List UInt8) : List AsyncEvent × AsyncLogging :=
  match s.pc with
  | .idle | .returned => ([], s)
  | .start =>
    -- `assert(running_ == true)`, then the latch is counted down
    if s.isRunning then
      ([], { s with
        latch := s.latch - 1
        pc := .loopHead
        newBuffer1 := some .empty
        newBuffer2 := some .empty
        buffersToWrite := [] })
    else ([], s.abort)
  | .loopHead =>
    if s.isRunning then
      -- the three assertions
      if LogServer.Spare s.newBuffer1 ∧ LogServer.Spare s.newBuffer2 ∧ s.buffersToWrite = [] then
        ([], { s with pc := .lock })
      else ([], s.abort)
    else
      ([.flushed], { s with
        pc := .returned, newBuffer1 := none, newBuffer2 := none, buffersToWrite := [] })
  | .lock =>
    if s.buffers = [] then ([], { s with pc := .waiting })
    else ([], { s with toLogServer := s.swap })
  | .waiting => ([], { s with toLogServer := s.swap })
  | .swapped =>
    if s.buffersToWrite = [] then ([], s.abort)
    else
      (.batch s.buffersToWrite :: dropLines time s.buffersToWrite.length,
        { s with pc := .sending 0, buffersToWrite := dropRest s.buffersToWrite })
  | .sending i =>
    match s.buffersToWrite[i]? with
    | some b => ([.wrote b.data], { s with pc := .sending (i + 1) })
    | none =>
      (if s.recycle.aborted then [] else [.flushed], { s with toLogServer := s.recycle })

/-- `start`, up to the latch. -/
def start : AsyncLogging :=
  -- `assert(!started_)`
  if s.started then { s with isRunning := true, aborted := true }
  else { s with isRunning := true, started := true, pc := .start, owner := .starting }

/-- `stop`, up to `pthread_join`. -/
def stop : AsyncLogging :=
  -- `assert(started_)` and `assert(!joined_)`
  if s.started ∧ ¬ s.joined then { s with isRunning := false, joined := true, owner := .stopping }
  else { s with isRunning := false, aborted := true }

/-- **A step.** -/
def step : AsyncStep → List AsyncEvent × AsyncLogging
  | .start => ([], s.start)
  | .started => ([], { s with owner := .idle })
  | .stop => ([], s.stop)
  | .stopped => ([], { s with owner := .idle })
  | .append logline => s.append logline
  | .log time => s.threadFunc time

/-- **When a step can be taken.** `latch_.wait()` returns when the latch has
been counted down, `pthread_join` when `threadFunc` has returned. -/
def Enabled (a : AsyncStep) : Prop :=
  s.aborted = false ∧
    match a with
    | .start | .stop => s.owner = .idle
    | .started => s.owner = .starting ∧ s.latch ≤ 0
    | .stopped => s.owner = .stopping ∧ s.pc = .returned
    | .append _ | .log _ => True

instance (a : AsyncStep) : Decidable (s.Enabled a) := by
  cases a <;> exact inferInstanceAs (Decidable (_ ∧ _))

end AsyncLogging

/-- **The asynchronous logger as a machine** over the interleaved steps. -/
def asyncMachine : Machine AsyncLogging AsyncStep AsyncEvent where
  step := AsyncLogging.step

/-! ## What a trace says -/

/-- The messages that have found room, in lock order. -/
def keptBy (trace : List AsyncEvent) : List (List UInt8) :=
  trace.filterMap fun
    | .appended logline => if logline.length < kLargeBuffer then some logline else none
    | .batch _ | .dropped _ | .wrote _ | .flushed => none

/-- The batches of the iterations, before anything is dropped. -/
def takenOf (trace : List AsyncEvent) : List (List FixedBuffer) :=
  trace.filterMap fun
    | .batch bs => some bs
    | .appended _ | .dropped _ | .wrote _ | .flushed => none

/-- Everything that goes to the `LogFile`. -/
def outputOf (trace : List AsyncEvent) : List (List UInt8) :=
  trace.filterMap fun
    | .wrote msg | .dropped msg => some msg
    | .appended _ | .batch _ | .flushed => none

end TelnetServ
