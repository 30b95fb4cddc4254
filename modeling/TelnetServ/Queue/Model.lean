import TelnetServ.Basic
import TelnetServ.Common.Machine
/-!
# The log queue — model

`appendToMsgBuf` of any number of producers, and `LogOutPutFun`. A step is
one locked section of a producer, or one part of the log thread's loop: its
test, its locked section, or the part of it before or after `waitForSeconds`,
the drop, one buffer of the send loop, the recycling. A pointer that may be
null is an `Option`, and a failed assertion or a null pointer used ends the
process.
-/

namespace TelnetServ

/-- `kLargeBuffer`. -/
abbrev kLargeBuffer : ℕ := 4000 * 1000

/-- **`FixedBuffer<kLargeBuffer>`**: the bytes from `data_` to `cur_`. -/
structure FixedBuffer where
  data : List UInt8
  length_le : data.length ≤ kLargeBuffer
  deriving DecidableEq

theorem length_nil_le : ([] : List UInt8).length ≤ kLargeBuffer := by decide

namespace FixedBuffer

variable (b : FixedBuffer)

/-- A new buffer. -/
def empty : FixedBuffer := ⟨[], length_nil_le⟩

def length : ℕ := b.data.length

def avail : ℕ := kLargeBuffer - b.length

/-- What does not fit is not copied. -/
def append (buf : List UInt8) : FixedBuffer :=
  if h : buf.length < b.avail then
    ⟨b.data ++ buf, by simp only [avail, length] at h; rw [List.length_append]; omega⟩
  else b

def resetData (_ : FixedBuffer) : FixedBuffer := empty

/-- What fits is copied whole. -/
theorem data_append {buf : List UInt8} (h : buf.length < b.avail) :
    (b.append buf).data = b.data ++ buf := by
  rw [append, dif_pos h]

/-- An empty buffer has room for every message that is let in. -/
theorem lt_avail {buf : List UInt8} (hb : b.data = []) (h : buf.length ≤ maxLogMsgLen) :
    buf.length < b.avail := by
  rw [avail, length, hb]
  exact Nat.lt_of_le_of_lt h (by decide)

end FixedBuffer

/-- Where the log thread is in `LogOutPutFun`. -/
inductive LogPc where
  /-- There is no log thread. -/
  | idle
  | start
  | loopHead
  /-- Before the lock. -/
  | lock
  /-- In `waitForSeconds`, the lock released. -/
  | waiting
  /-- Behind the locked section. -/
  | swapped
  /-- In the send loop, at buffer `i`. -/
  | sending (i : ℕ)
  | returned
  deriving DecidableEq

/-- The members the two functions share, and the log thread's locals. -/
structure LogServer where
  isRunning : Bool := false
  currentBuffer : Option FixedBuffer := some .empty
  nextBuffer : Option FixedBuffer := some .empty
  buffers : List FixedBuffer := []
  pc : LogPc := .idle
  newBuffer1 : Option FixedBuffer := none
  newBuffer2 : Option FixedBuffer := none
  buffersToWrite : List FixedBuffer := []
  /-- An assertion has failed or a null pointer has been used. -/
  aborted : Bool := false
  deriving DecidableEq

/-- A step of the owner, a producer or the log thread. -/
inductive LogStep where
  /-- `init` starts the log thread. -/
  | init
  /-- `destory` clears `isRunning_`. -/
  | destory
  /-- `appendToMsgBuf`, with the value of `sockClient_` it reads. -/
  | append (sockClient : ℤ) (logline : List UInt8)
  /-- A part of `LogOutPutFun`. From `waitForSeconds` the thread may wake
  up at any time. -/
  | log
  deriving DecidableEq

/-- What is seen of a step. -/
inductive LogEvent where
  /-- `appendToMsgBuf` has passed the message to `FixedBuffer::append`. -/
  | accepted (logline : List UInt8)
  /-- The batch of an iteration has come to the test of its size. -/
  | batch (buffersToWrite : List FixedBuffer)
  /-- A call of `sendMsgToTerminal`. -/
  | handed (msg : List UInt8)
  deriving DecidableEq

/-- `if (buffersToWrite.size() > 25)`, all but the last two are erased. -/
def dropTail {α : Type*} (buffersToWrite : List α) : List α :=
  if 25 < buffersToWrite.length then buffersToWrite.drop (buffersToWrite.length - 2)
  else buffersToWrite

/-- A spare buffer that is missing is taken from the back of the vector and
reset; `none` where the vector is empty. -/
def reclaim (newBuffer : Option FixedBuffer) (buffersToWrite : List FixedBuffer) :
    Option (FixedBuffer × List FixedBuffer) :=
  match newBuffer with
  | some b => some (b, buffersToWrite)
  | none => buffersToWrite.getLast?.map fun b => (b.resetData, buffersToWrite.dropLast)

namespace LogServer

variable (s : LogServer)

def abort : LogServer := { s with aborted := true }

/-- **`appendToMsgBuf`.** -/
def appendToMsgBuf (sockClient : ℤ) (logline : List UInt8) : List LogEvent × LogServer :=
  if sockClient = invalidSocket then ([], s)
  else if maxLogMsgLen < logline.length then ([], s)
  else
    -- from here on under `mutex_`
    match s.currentBuffer with
    | none => ([], s.abort)
    | some current =>
      if logline.length < current.avail then
        ([.accepted logline], { s with currentBuffer := some (current.append logline) })
      -- the full buffer is put away, for `nextBuffer_` or a new one
      else
        ([.accepted logline],
          { s with
            buffers := s.buffers ++ [current]
            currentBuffer := some ((s.nextBuffer.getD .empty).append logline)
            nextBuffer := none })

/-- The locked section of the log thread from `push_back` on. -/
def swap : LogServer :=
  match s.currentBuffer with
  | none => s.abort
  | some current =>
    { s with
      buffers := s.buffersToWrite
      currentBuffer := s.newBuffer1
      newBuffer1 := none
      buffersToWrite := s.buffers ++ [current]
      nextBuffer := s.nextBuffer.or s.newBuffer2
      newBuffer2 := if s.nextBuffer = none then none else s.newBuffer2
      pc := .swapped }

/-- Behind the send loop: the spare buffers are filled up again. -/
def recycle : LogServer :=
  match reclaim s.newBuffer1 (s.buffersToWrite.take 2) with
  | none => s.abort
  | some (newBuffer1, rest) =>
    match reclaim s.newBuffer2 rest with
    | none => s.abort
    | some (newBuffer2, _) =>
      { s with
        newBuffer1 := some newBuffer1
        newBuffer2 := some newBuffer2
        buffersToWrite := []
        pc := .loopHead }

/-- A spare buffer that passes the assertion at the loop head. -/
def Spare (newBuffer : Option FixedBuffer) : Prop := newBuffer.map FixedBuffer.length = some 0

instance (newBuffer : Option FixedBuffer) : Decidable (Spare newBuffer) := by
  unfold Spare; infer_instance

/-- **`LogOutPutFun`**, one part. -/
def logOutPutFun : List LogEvent × LogServer :=
  match s.pc with
  | .idle | .returned => ([], s)
  | .start =>
    -- `assert(isRunning_ == true)`
    if s.isRunning then
      ([], { s with
        pc := .loopHead
        newBuffer1 := some .empty
        newBuffer2 := some .empty
        buffersToWrite := [] })
    else ([], s.abort)
  | .loopHead =>
    if s.isRunning then
      -- the three assertions
      if Spare s.newBuffer1 ∧ Spare s.newBuffer2 ∧ s.buffersToWrite = [] then
        ([], { s with pc := .lock })
      else ([], s.abort)
    else
      ([], { s with
        pc := .returned, newBuffer1 := none, newBuffer2 := none, buffersToWrite := [] })
  -- the lock is released only in `waitForSeconds`
  | .lock => if s.buffers = [] then ([], { s with pc := .waiting }) else ([], s.swap)
  | .waiting => ([], s.swap)
  | .swapped =>
    if s.buffersToWrite = [] then ([], s.abort)
    else
      ([.batch s.buffersToWrite],
        { s with pc := .sending 0, buffersToWrite := dropTail s.buffersToWrite })
  | .sending i =>
    match s.buffersToWrite[i]? with
    | some b =>
      (if b.length = 0 then [] else [.handed b.data], { s with pc := .sending (i + 1) })
    | none => ([], s.recycle)

/-- **A step.** -/
def step : LogStep → List LogEvent × LogServer
  | .init => ([], { s with isRunning := true, pc := .start })
  | .destory => ([], { s with isRunning := false })
  | .append sockClient logline => s.appendToMsgBuf sockClient logline
  | .log => s.logOutPutFun

/-- **When a step can be taken.** The owner starts the log thread when there
is none, `destory` having joined the one before. -/
def Enabled (a : LogStep) : Prop :=
  s.aborted = false ∧ (a = .init → s.pc = .idle ∨ s.pc = .returned)

instance (a : LogStep) : Decidable (s.Enabled a) := by unfold Enabled; infer_instance

end LogServer

/-- **The log queue as a machine** over the interleaved steps. -/
def logMachine : Machine LogServer LogStep LogEvent where
  step := LogServer.step

/-! ## What a trace says -/

/-- The messages accepted, in lock order. -/
def acceptedOf (trace : List LogEvent) : List (List UInt8) :=
  trace.filterMap fun | .accepted logline => some logline | .batch _ | .handed _ => none

/-- What has been handed to `sendMsgToTerminal`, call by call. -/
def handedOf (trace : List LogEvent) : List (List UInt8) :=
  trace.filterMap fun | .handed msg => some msg | .accepted _ | .batch _ => none

/-- The batches of the iterations, before anything is dropped. -/
def batchesOf (trace : List LogEvent) : List (List FixedBuffer) :=
  trace.filterMap fun | .batch bs => some bs | .accepted _ | .handed _ => none

end TelnetServ
