import TelnetServ.Queue.Buffers
import TelnetServ.Common.Packets
import Mathlib.Data.List.Induction
/-!
# The log queue — nothing lost, doubled or torn

Seen from outside the queue is `Packets`: a buffer is a packet of whole
messages, an iteration takes all packets as a batch, and `dropTail` is the
rule that keeps only a part of a long one. `Carries` ties a trace and a
state to the packets behind them; `carries_step` keeps it at every step.
-/

namespace TelnetServ

/-- The bytes in a list of buffers. -/
def bytes (bs : List FixedBuffer) : List UInt8 := bs.flatMap FixedBuffer.data

/-- The calls made for a list of buffers: none for an empty one. -/
def callsFor (bs : List (List UInt8)) : List (List UInt8) := bs.filter (· ≠ [])

theorem callsFor_append (bs bs' : List (List UInt8)) :
    callsFor (bs ++ bs') = callsFor bs ++ callsFor bs' := List.filter_append ..

theorem flatten_callsFor (bs : List (List UInt8)) : (callsFor bs).flatten = bs.flatten :=
  List.flatten_filter_ne_nil

/-- **The messages behind a trace and a state**, packet by packet. -/
structure Carries (q : Packets (List UInt8)) (trace : List LogEvent) (s : LogServer) :
    Prop where
  /-- Every accepted message is in a packet, in lock order. -/
  accepted : q.contents = acceptedOf trace
  /-- The batches of the iterations are packets. -/
  batches : q.settled.map (·.map List.flatten) =
    (batchesOf trace).map (·.map FixedBuffer.data)
  undropped : q.batch.map List.flatten = s.undropped.map FixedBuffer.data
  buffers : q.full.map List.flatten = s.buffers.map FixedBuffer.data
  current : s.currentBuffer.map FixedBuffer.data = some q.filling.flatten
  /-- What has been handed on, and the rest of the batch, is what the rule
  keeps. -/
  handed : callsFor ((q.keptTaken dropTail).map List.flatten) =
    handedOf trace ++ callsFor (s.unsent.map FixedBuffer.data)

/-- **In order, no loss, no duplication, no tearing.** There are packets of
whole messages, all that were accepted in lock order, such that the bytes
handed on, those not yet sent, those in `buffers_` and those in
`currentBuffer_` are all bytes of the packets that are kept. -/
def Conserved (trace : List LogEvent) (s : LogServer) : Prop :=
  ∃ q, Carries q trace s ∧
    (handedOf trace).flatten ++ bytes s.unsent ++ bytes s.buffers ++
      bytes s.currentBuffer.toList = (q.kept dropTail).flatten.flatten

/-- **The message a step offers to the queue**: one that is not too long, and
only while a client is connected. -/
def LogStep.offered : LogStep → List (List UInt8)
  | .append sockClient logline =>
    if sockClient = invalidSocket ∨ maxLogMsgLen < logline.length then [] else [logline]
  | .init | .destory | .log => []

/-! ## Traces -/

section Traces

variable (trace : List LogEvent) (m : List UInt8) (bs : List FixedBuffer) (b : FixedBuffer)

/-- The trace of a buffer that goes through the send loop. -/
abbrev callOf : List LogEvent := if b.length = 0 then [] else [.handed b.data]

theorem acceptedOf_append (t : List LogEvent) :
    acceptedOf (trace ++ t) = acceptedOf trace ++ acceptedOf t := List.filterMap_append

@[simp] theorem acceptedOf_accepted :
    acceptedOf (trace ++ [.accepted m]) = acceptedOf trace ++ [m] := by simp [acceptedOf]

@[simp] theorem handedOf_accepted :
    handedOf (trace ++ [.accepted m]) = handedOf trace := by simp [handedOf]

@[simp] theorem batchesOf_accepted :
    batchesOf (trace ++ [.accepted m]) = batchesOf trace := by simp [batchesOf]

@[simp] theorem acceptedOf_batch :
    acceptedOf (trace ++ [.batch bs]) = acceptedOf trace := by simp [acceptedOf]

@[simp] theorem handedOf_batch :
    handedOf (trace ++ [.batch bs]) = handedOf trace := by simp [handedOf]

@[simp] theorem batchesOf_batch :
    batchesOf (trace ++ [.batch bs]) = batchesOf trace ++ [bs] := by simp [batchesOf]

@[simp] theorem acceptedOf_callOf :
    acceptedOf (trace ++ callOf b) = acceptedOf trace := by
  unfold callOf; split <;> simp [acceptedOf]

@[simp] theorem batchesOf_callOf :
    batchesOf (trace ++ callOf b) = batchesOf trace := by
  unfold callOf; split <;> simp [batchesOf]

/-- Only a buffer with bytes in it leads to a call. -/
@[simp] theorem handedOf_callOf :
    handedOf (trace ++ callOf b) = handedOf trace ++ callsFor [b.data] := by
  unfold callOf FixedBuffer.length callsFor
  by_cases h : b.data = [] <;> simp [handedOf, h]

end Traces

/-! ## One step -/

section Step

variable {q : Packets (List UInt8)} {trace t : List LogEvent} {s s' : LogServer} {a : LogStep}
variable {b b' : FixedBuffer}

/-- Before the swap the batch has gone. -/
theorem unsent_of_swapping (h : s.Swapping) : s.unsent = [] ∧ s.undropped = [] := by
  rcases h with h | h <;> simp [LogServer.unsent, LogServer.undropped, h]

/-- The packet being filled is the current buffer. -/
theorem Carries.current_data (hc : Carries q trace s) (hcur : s.currentBuffer = some b) :
    b.data = q.filling.flatten := by
  have := hc.current
  rwa [hcur, Option.map_some, Option.some_inj] at this

/-- The packets not taken away are the buffers of the queue. -/
theorem Carries.untaken (hc : Carries q trace s) (hcur : s.currentBuffer = some b) :
    q.untaken.map List.flatten = (s.buffers ++ [b]).map FixedBuffer.data := by
  rw [Packets.untaken, List.map_append, List.map_append, hc.buffers, List.map_singleton,
    List.map_singleton, hc.current_data hcur]

/-- A message goes into the packet being filled. -/
theorem Carries.put (hc : Carries q trace s) {m : List UInt8} (hcur : s.currentBuffer = some b)
    (hdata : b'.data = b.data ++ m) :
    Carries (q.put m) (trace ++ [.accepted m]) { s with currentBuffer := some b' } where
  accepted := by rw [Packets.contents_put, hc.accepted, acceptedOf_accepted]
  batches := by rw [batchesOf_accepted]; exact hc.batches
  undropped := hc.undropped
  buffers := hc.buffers
  current := by simp [Packets.put, hdata, hc.current_data hcur]
  handed := by rw [handedOf_accepted]; exact hc.handed

/-- A message goes into a new packet. -/
theorem Carries.roll (hc : Carries q trace s) {m : List UInt8} (hcur : s.currentBuffer = some b)
    (hdata : b'.data = m) :
    Carries (q.close.put m) (trace ++ [.accepted m])
      { s with
        buffers := s.buffers ++ [b], currentBuffer := some b', nextBuffer := none } where
  accepted := by
    rw [Packets.contents_put, Packets.contents_close, hc.accepted, acceptedOf_accepted]
  batches := by rw [batchesOf_accepted]; exact hc.batches
  undropped := hc.undropped
  buffers := hc.untaken hcur
  current := by simp [Packets.put, Packets.close, hdata]
  handed := by rw [handedOf_accepted]; exact hc.handed

/-- All packets are taken. -/
theorem Carries.swap (hc : Carries q trace s) (hswap : s.Swapping)
    (hcur : s.currentBuffer = some b) (hcur' : s'.currentBuffer = some b')
    (hdata : b'.data = []) (hbuf : s'.buffers = []) (hpc : s'.pc = .swapped)
    (hbatch : s'.buffersToWrite = s.buffers ++ [b]) : Carries q.take trace s' := by
  obtain ⟨hunsent, hundropped⟩ := unsent_of_swapping hswap
  have hbefore : q.batch = [] := by
    have := hc.undropped
    rwa [hundropped, List.map_nil, List.map_eq_nil_iff] at this
  have htaken : s'.undropped = s.buffers ++ [b] ∧ s'.unsent = s.buffers ++ [b] := by
    rw [LogServer.undropped, LogServer.unsent, hpc, hbatch]
    exact ⟨rfl, rfl⟩
  refine ⟨?_, hc.batches, ?_, ?_, ?_, ?_⟩
  · rw [Packets.contents_take q hbefore, hc.accepted]
  · rw [htaken.1]
    exact hc.untaken hcur
  · rw [hbuf]
    rfl
  · rw [hcur', Option.map_some, hdata]
    rfl
  · rw [Packets.keptTaken_take q _ hbefore, List.map_append, callsFor_append, hc.handed, hunsent,
      htaken.2, hc.untaken hcur]
    simp [callsFor]

/-- The rule is applied, the packets it does not keep are dropped. -/
theorem Carries.drop (hc : Carries q trace s) (hpc : s.pc = .swapped) :
    Carries q.settle (trace ++ [.batch s.buffersToWrite])
      { s with pc := .sending 0, buffersToWrite := dropTail s.buffersToWrite } := by
  have hbatch : q.batch.map List.flatten = s.buffersToWrite.map FixedBuffer.data := by
    have := hc.undropped
    rwa [LogServer.undropped, hpc] at this
  have hbefore : callsFor ((q.settled.flatMap dropTail).map List.flatten) = handedOf trace := by
    have := hc.handed
    rw [Packets.keptTaken, List.map_append, callsFor_append, LogServer.unsent, hpc, hbatch] at this
    exact List.append_cancel_right this
  refine ⟨?_, ?_, rfl, hc.buffers, hc.current, ?_⟩
  · rw [Packets.contents_settle, hc.accepted, acceptedOf_batch]
  · rw [batchesOf_batch, List.map_append, ← hc.batches, Packets.settle, List.map_append,
      List.map_singleton, List.map_singleton, hbatch]
  · rw [Packets.keptTaken_settle, List.map_append, callsFor_append, hbefore, handedOf_batch,
      ← dropTail_map, hbatch, dropTail_map]
    rfl

/-- The buffer the send loop is at comes first. -/
theorem unsent_of_sending {i : ℕ} (hpc : s.pc = .sending i)
    (hget : s.buffersToWrite[i]? = some b) :
    s.unsent = b :: s.buffersToWrite.drop (i + 1) := by
  obtain ⟨hi, rfl⟩ := List.getElem?_eq_some_iff.mp hget
  rw [LogServer.unsent, hpc]
  exact List.drop_eq_getElem_cons hi

/-- A buffer is handed on. -/
theorem Carries.hand (hc : Carries q trace s) {i : ℕ} (hpc : s.pc = .sending i)
    (hget : s.buffersToWrite[i]? = some b) :
    Carries q (trace ++ callOf b) { s with pc := .sending (i + 1) } := by
  refine ⟨?_, ?_, ?_, hc.buffers, hc.current, ?_⟩
  · rw [hc.accepted, acceptedOf_callOf]
  · rw [hc.batches, batchesOf_callOf]
  · rw [hc.undropped, LogServer.undropped, hpc]
    rfl
  · rw [hc.handed, unsent_of_sending hpc hget, List.map_cons, ← List.singleton_append,
      callsFor_append, handedOf_callOf, List.append_assoc]
    rfl

/-- **The step lemma.** -/
theorem carries_step (hc : Carries q trace s) (hmove : Move s a t s') :
    ∃ q', Carries q' (trace ++ t) s' := by
  cases hmove with
  | still current buffers unsent undropped _ _ =>
    rw [List.append_nil]
    exact ⟨q, hc.accepted, hc.batches, undropped ▸ hc.undropped, buffers ▸ hc.buffers,
      current ▸ hc.current, unsent ▸ hc.handed⟩
  | put current data => exact ⟨_, hc.put current data⟩
  | roll current data => exact ⟨_, hc.roll current data⟩
  | swap swapping current current' data buffers pc batch =>
    rw [List.append_nil]
    exact ⟨_, hc.swap swapping current current' data buffers pc batch⟩
  | drop pc => exact ⟨_, hc.drop pc⟩
  | hand pc get => exact ⟨_, hc.hand pc get⟩

end Step

/-! ## Every run -/

/-- Before anything happens. -/
theorem carries_init : Carries {} [] {} := by
  refine ⟨rfl, rfl, rfl, rfl, rfl, rfl⟩

/-- The packets account for every byte. -/
theorem Carries.bytes_eq {q : Packets (List UInt8)} {trace : List LogEvent} {s : LogServer}
    (hc : Carries q trace s) (hok : LogOk s) :
    (handedOf trace).flatten ++ bytes s.unsent ++ bytes s.buffers ++
      bytes s.currentBuffer.toList = (q.kept dropTail).flatten.flatten := by
  obtain ⟨b, hcur⟩ := hok.current
  have hsent : (handedOf trace).flatten ++ bytes s.unsent =
      ((q.keptTaken dropTail).map List.flatten).flatten := by
    have := congrArg List.flatten hc.handed
    rw [flatten_callsFor, List.flatten_append, flatten_callsFor] at this
    rw [this, bytes, List.flatMap_def]
  have hqueue : bytes s.buffers ++ bytes s.currentBuffer.toList =
      (q.untaken.map List.flatten).flatten := by
    rw [hc.untaken hcur, hcur, bytes, bytes, ← List.flatMap_append, List.flatMap_def]
    rfl
  rw [List.append_assoc, hqueue, hsent, Packets.kept, List.flatten_append, List.flatten_append,
    List.flatten_flatten, List.flatten_flatten]

/-- What holds of the trace and the state along a run. -/
def LogInv (trace : List LogEvent) (s : LogServer) : Prop :=
  LogOk s ∧ ∃ q, Carries q trace s

theorem logInv_init : LogInv [] {} := ⟨logOk_init, _, carries_init⟩

theorem logInv_step {trace : List LogEvent} {s : LogServer} {a : LogStep} (h : LogInv trace s)
    (hen : s.Enabled a) : LogInv (trace ++ (s.step a).1) (s.step a).2 := by
  obtain ⟨hok, q, hc⟩ := h
  obtain ⟨hok', hmove⟩ := LogServer.logOk_step hok hen
  exact ⟨hok', carries_step hc hmove⟩

theorem logInv_run {steps : List LogStep} (hv : logMachine.Valid LogServer.Enabled {} steps) :
    LogInv (logMachine.outs {} steps) (logMachine.after {} steps) :=
  logMachine.run_induct_valid logInv_init hv fun _ _ _ h ha => logInv_step h ha

/-- **`appendToMsgBuf` accepts exactly what is offered**: it never drops a
message without a word. -/
theorem appended_eq {s : LogServer} (hok : LogOk s) (sockClient : ℤ) (logline : List UInt8) :
    handedOf (s.step (.append sockClient logline)).1 = [] ∧
      acceptedOf (s.step (.append sockClient logline)).1 =
        (LogStep.append sockClient logline).offered := by
  obtain ⟨b, hb⟩ := hok.current
  rw [LogServer.step, LogServer.appendToMsgBuf, LogStep.offered]
  by_cases hsock : sockClient = invalidSocket
  · rw [if_pos hsock, if_pos (Or.inl hsock)]
    exact ⟨rfl, rfl⟩
  by_cases hlong : maxLogMsgLen < logline.length
  · rw [if_neg hsock, if_pos hlong, if_pos (Or.inr hlong)]
    exact ⟨rfl, rfl⟩
  rw [if_neg hsock, if_neg hlong, if_neg (not_or.mpr ⟨hsock, hlong⟩), hb]
  dsimp only
  split_ifs <;> exact ⟨rfl, rfl⟩

/-- No other step accepts anything. -/
theorem accepted_step {s : LogServer} {a : LogStep} (hok : LogOk s) (hen : s.Enabled a) :
    acceptedOf (s.step a).1 = a.offered := by
  cases a with
  | init => rfl
  | destory => rfl
  | append sockClient logline => exact (appended_eq hok sockClient logline).2
  | log =>
    have hmove := (LogServer.logOk_step hok hen).2
    generalize (s.step .log).1 = t at hmove
    generalize (s.step .log).2 = s' at hmove
    cases hmove with
    | still => rfl
    | swap => rfl
    | drop => rfl
    | hand => split_ifs <;> rfl

theorem accepted_run {steps : List LogStep}
    (hv : logMachine.Valid LogServer.Enabled {} steps) :
    acceptedOf (logMachine.outs {} steps) = steps.flatMap LogStep.offered := by
  induction steps using List.reverseRecOn with
  | nil => rfl
  | append_singleton steps a ih =>
    obtain ⟨hv, hen, -⟩ := logMachine.valid_append.mp hv
    rw [Machine.outs_concat, acceptedOf_append, ih hv, List.flatMap_append, List.flatMap_singleton]
    exact congrArg (_ ++ ·) (accepted_step (logInv_run hv).1 hen)

/-- **The log queue conserves its messages** in every run of producers, log
thread and owner: it accepts all that are offered, and what it has accepted is
on its way, or dropped with a long batch. -/
theorem conserved_of_valid {steps : List LogStep}
    (hv : logMachine.Valid LogServer.Enabled {} steps) :
    acceptedOf (logMachine.outs {} steps) = steps.flatMap LogStep.offered ∧
      Conserved (logMachine.outs {} steps) (logMachine.after {} steps) := by
  obtain ⟨hok, q, hc⟩ := logInv_run hv
  exact ⟨accepted_run hv, q, hc, hc.bytes_eq hok⟩

/-- Two messages, the second while the first is on its way. -/
abbrev overlapping : List LogStep :=
  [.init, .log, .append 5 [65, 66], .log, .log, .log, .append 5 [67], .log, .log]

theorem conserved_overlapping :
    acceptedOf (logMachine.outs {} overlapping) = overlapping.flatMap LogStep.offered ∧
      Conserved (logMachine.outs {} overlapping) (logMachine.after {} overlapping) := by
  have hv : logMachine.Valid LogServer.Enabled {} overlapping := by decide
  exact conserved_of_valid hv

end TelnetServ
