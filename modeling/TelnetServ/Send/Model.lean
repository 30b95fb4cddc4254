import TelnetServ.Basic
import TelnetServ.Common.Machine
import Mathlib.Algebra.Group.Int.Defs
import Mathlib.Algebra.Group.Nat.Defs
/-!
# Sending — model

`SockSend` with the locals of its two loops. What `send` answers comes in
from outside, one result for each attempt; the bytes it accepted go out.
-/

namespace TelnetServ

/-- What `send` returns: `none` is `SOCKET_ERROR`. -/
abbrev SendResult := Option ℕ

/-- `SockSend` between two calls of `send`. -/
structure SendFrame where
  pchBuf : List UInt8
  nTotalSendLen : ℤ := 0
  nTryNum : ℕ := 0
  /-- What the function has returned, if it has. -/
  returned : Option Bool := none

namespace SendFrame

/-- `nTotalSendLen < dwLen`. The `int` is compared as a `uint32_t`. -/
def Short (f : SendFrame) : Prop := (f.nTotalSendLen % 2 ^ 32).toNat < f.pchBuf.length

instance (f : SendFrame) : Decidable f.Short := by unfold Short; infer_instance

/-- The head of the `while` loop: into the `for` loop, or out. -/
def loopHead (f : SendFrame) : SendFrame :=
  if f.Short then { f with nTryNum := 0 } else { f with returned := some true }

/-- What the next `send` is asked to send. -/
def requested (f : SendFrame) : List UInt8 := f.pchBuf.drop f.nTotalSendLen.toNat

/-- One call of `send`. The `ret` of the last attempt is added to the total,
an error included. -/
def attempt (f : SendFrame) : SendResult → List UInt8 × SendFrame
  | some n =>
    (f.requested.take n, loopHead { f with nTotalSendLen := f.nTotalSendLen + n })
  | none =>
    if f.nTryNum + 1 < 3 then ([], { f with nTryNum := f.nTryNum + 1 })
    else ([], loopHead { f with nTotalSendLen := f.nTotalSendLen + (-1) })

end SendFrame

/-- **`SockSend`**, up to its first `send`; `none` is the null pointer. -/
def sockSend (tSock : ℤ) : Option (List UInt8) → SendFrame
  | none => { pchBuf := [], returned := some false }
  | some pchBuf =>
    if tSock = invalidSocket then { pchBuf := pchBuf, returned := some false }
    else SendFrame.loopHead { pchBuf := pchBuf }

/-- **`SockSend` as a machine** over the results of `send`; its outputs are
the bytes accepted. -/
def sendMachine : Machine SendFrame SendResult UInt8 where
  step f r := if f.returned = none then f.attempt r else ([], f)

theorem sendMachine_step {f : SendFrame} (h : f.returned = none) (r : SendResult) :
    sendMachine.step f r = f.attempt r := if_pos h

/-- **What `send` can answer**: an error, or between one byte and all it was
asked for. It is asked only while the function runs. -/
def SendPossible (f : SendFrame) (r : SendResult) : Prop :=
  f.returned = none ∧ ∀ n ∈ r, 1 ≤ n ∧ n ≤ f.requested.length

instance (f : SendFrame) (r : SendResult) : Decidable (SendPossible f r) := by
  unfold SendPossible; infer_instance

namespace SendFrame

@[simp] theorem loopHead_pchBuf (f : SendFrame) : f.loopHead.pchBuf = f.pchBuf := by
  unfold loopHead; split <;> rfl

@[simp] theorem loopHead_nTotalSendLen (f : SendFrame) :
    f.loopHead.nTotalSendLen = f.nTotalSendLen := by
  unfold loopHead; split <;> rfl

/-- Behind the loop test the function is in the loop, with its tries to
come, or has returned `true`. -/
theorem loopHead_cases (f : SendFrame) (h : f.returned = none) :
    (f.Short ∧ f.loopHead.returned = none ∧ f.loopHead.nTryNum = 0) ∨
      (¬ f.Short ∧ f.loopHead.returned = some true) := by
  unfold loopHead
  by_cases hs : f.Short
  · rw [if_pos hs]
    exact Or.inl ⟨hs, h, rfl⟩
  · rw [if_neg hs]
    exact Or.inr ⟨hs, rfl⟩

/-- Where the total counts bytes of the buffer, the comparison is the one
meant. -/
theorem short_iff {f : SendFrame} (h0 : 0 ≤ f.nTotalSendLen)
    (hle : f.nTotalSendLen ≤ f.pchBuf.length) (hsize : f.pchBuf.length < 2 ^ 31) :
    f.Short ↔ f.nTotalSendLen < f.pchBuf.length := by
  rw [Short, Int.emod_eq_of_lt h0 (by omega)]
  omega

/-- At `-1` it is false, whatever the length. -/
theorem not_short {f : SendFrame} (h : f.nTotalSendLen = -1) (hsize : f.pchBuf.length < 2 ^ 31) :
    ¬ f.Short := by
  rw [Short, h]
  omega

end SendFrame

end TelnetServ
