import TelnetServ.Async.Buffers
import TelnetServ.Queue.Shutdown
import TelnetServ.LogFile.Retention
/-!
# The asynchronous logger — from `append` to the files

Seen from outside the logger is `Packets` as the log queue is, with another
rule for the long batches and a line for each of them. `AsyncCarries` ties a
trace and a state to the packets and to what is written for each batch;
`asyncCarries_step` keeps it. With what is known of the `LogFile` behind it
comes the way of a message from `append` to a file (`onDisk_run`).
-/

namespace TelnetServ

open FileSystem

namespace AsyncLogging

/-- **What is written for a batch**: a line if it is too long, and the buffers
that are not dropped. -/
def Reported (batch : List (List (List UInt8))) (output : List (List UInt8)) : Prop :=
  ∃ time, output = (if 25 < batch.length then [droppedLine time batch.length] else []) ++
    (dropRest batch).map List.flatten

/-- **The messages behind a trace and a state**, packet by packet, and what is
written for each batch. -/
structure AsyncCarries (q : Packets (List UInt8)) (outputs : List (List (List UInt8)))
    (trace : List AsyncEvent) (s : LogServer) : Prop where
  /-- Every message that fits a buffer is in a packet, in lock order. -/
  kept : q.contents = keptBy trace
  /-- The batches of the iterations are packets. -/
  taken : q.settled.map (·.map List.flatten) = (takenOf trace).map (·.map FixedBuffer.data)
  reported : List.Forall₂ Reported q.settled outputs
  undropped : q.batch.map List.flatten = s.undropped.map FixedBuffer.data
  buffers : q.full.map List.flatten = s.buffers.map FixedBuffer.data
  current : s.currentBuffer.map FixedBuffer.data = some q.filling.flatten
  /-- What has been written, and the rest of the batch, is what is to be
  written. -/
  output : outputs.flatten ++ q.batch.map List.flatten =
    outputOf trace ++ s.unsent.map FixedBuffer.data

/-! ## Traces -/

section Traces

variable (trace : List AsyncEvent) (m line : List UInt8) (bs : List FixedBuffer)

@[simp] theorem keptBy_appended :
    keptBy (trace ++ [.appended m]) =
      keptBy trace ++ if m.length < kLargeBuffer then [m] else [] := by
  rw [keptBy, List.filterMap_append]
  congr 1
  by_cases h : m.length < kLargeBuffer <;> simp [h]

@[simp] theorem takenOf_appended : takenOf (trace ++ [.appended m]) = takenOf trace := by
  simp [takenOf]

@[simp] theorem outputOf_appended : outputOf (trace ++ [.appended m]) = outputOf trace := by
  simp [outputOf]

@[simp] theorem keptBy_flushed : keptBy (trace ++ [.flushed]) = keptBy trace := by
  simp [keptBy]

@[simp] theorem takenOf_flushed : takenOf (trace ++ [.flushed]) = takenOf trace := by
  simp [takenOf]

@[simp] theorem outputOf_flushed : outputOf (trace ++ [.flushed]) = outputOf trace := by
  simp [outputOf]

@[simp] theorem keptBy_wrote : keptBy (trace ++ [.wrote m]) = keptBy trace := by
  simp [keptBy]

@[simp] theorem takenOf_wrote : takenOf (trace ++ [.wrote m]) = takenOf trace := by
  simp [takenOf]

@[simp] theorem outputOf_wrote : outputOf (trace ++ [.wrote m]) = outputOf trace ++ [m] := by
  simp [outputOf]

/-- The line is no message, and belongs to the output. -/
theorem keptBy_batch (time : List UInt8) (n : ℕ) :
    keptBy (trace ++ .batch bs :: dropLines time n) = keptBy trace := by
  unfold dropLines
  split_ifs <;> simp [keptBy]

theorem takenOf_batch (time : List UInt8) (n : ℕ) :
    takenOf (trace ++ .batch bs :: dropLines time n) = takenOf trace ++ [bs] := by
  unfold dropLines
  split_ifs <;> simp [takenOf]

theorem outputOf_batch (time : List UInt8) (n : ℕ) :
    outputOf (trace ++ .batch bs :: dropLines time n) =
      outputOf trace ++ if 25 < n then [droppedLine time n] else [] := by
  unfold dropLines
  split_ifs <;> simp [outputOf]

end Traces

/-! ## One step -/

section Step

variable {q : Packets (List UInt8)} {outputs : List (List (List UInt8))}
variable {trace t : List AsyncEvent} {s : AsyncLogging} {s' : LogServer}
variable {b b' : FixedBuffer} {m : List UInt8}

/-- The packets not taken away are the buffers of the logger. -/
theorem AsyncCarries.untaken {s : LogServer} (hc : AsyncCarries q outputs trace s)
    (hcur : s.currentBuffer = some b) :
    q.untaken.map List.flatten = (s.buffers ++ [b]).map FixedBuffer.data := by
  have hdata := hc.current
  rw [hcur, Option.map_some, Option.some_inj] at hdata
  rw [Packets.untaken, List.map_append, List.map_append, hc.buffers, List.map_singleton,
    List.map_singleton, hdata]

/-- A message goes into the packet being filled. -/
theorem AsyncCarries.put (hc : AsyncCarries q outputs trace s.toLogServer)
    (hfits : m.length < kLargeBuffer) (hcur : s.currentBuffer = some b)
    (hdata : b'.data = b.data ++ m) :
    AsyncCarries (q.put m) outputs (trace ++ [.appended m])
      { s.toLogServer with currentBuffer := some b' } where
  kept := by rw [Packets.contents_put, hc.kept, keptBy_appended, if_pos hfits]
  taken := by rw [takenOf_appended]; exact hc.taken
  reported := hc.reported
  undropped := hc.undropped
  buffers := hc.buffers
  current := by
    have hb := hc.current
    rw [hcur, Option.map_some, Option.some_inj] at hb
    simp [Packets.put, hdata, hb]
  output := by rw [outputOf_appended]; exact hc.output

/-- A message goes into a new packet. -/
theorem AsyncCarries.roll (hc : AsyncCarries q outputs trace s.toLogServer)
    (hfits : m.length < kLargeBuffer) (hcur : s.currentBuffer = some b) (hdata : b'.data = m) :
    AsyncCarries (q.close.put m) outputs (trace ++ [.appended m])
      { s.toLogServer with
        buffers := s.buffers ++ [b], currentBuffer := some b', nextBuffer := none } where
  kept := by
    rw [Packets.contents_put, Packets.contents_close, hc.kept, keptBy_appended, if_pos hfits]
  taken := by rw [takenOf_appended]; exact hc.taken
  reported := hc.reported
  undropped := hc.undropped
  buffers := hc.untaken hcur
  current := by simp [Packets.put, Packets.close, hdata]
  output := by rw [outputOf_appended]; exact hc.output

/-- A message too long for a packet closes one all the same. -/
theorem AsyncCarries.lose (hc : AsyncCarries q outputs trace s.toLogServer)
    (hlong : kLargeBuffer ≤ m.length) (hcur : s.currentBuffer = some b) (hdata : b'.data = []) :
    AsyncCarries q.close outputs (trace ++ [.appended m])
      { s.toLogServer with
        buffers := s.buffers ++ [b], currentBuffer := some b', nextBuffer := none } where
  kept := by
    rw [Packets.contents_close, hc.kept, keptBy_appended, if_neg (Nat.not_lt.mpr hlong),
      List.append_nil]
  taken := by rw [takenOf_appended]; exact hc.taken
  reported := hc.reported
  undropped := hc.undropped
  buffers := hc.untaken hcur
  current := by simp [Packets.close, hdata]
  output := by rw [outputOf_appended]; exact hc.output

/-- All packets are taken. -/
theorem AsyncCarries.swap (hc : AsyncCarries q outputs trace s.toLogServer) (hswap : s.Swapping)
    (hcur : s.currentBuffer = some b) (hcur' : s'.currentBuffer = some b')
    (hdata : b'.data = []) (hbuf : s'.buffers = []) (hpc : s'.pc = .swapped)
    (hbatch : s'.buffersToWrite = s.buffers ++ [b]) : AsyncCarries q.take outputs trace s' := by
  obtain ⟨hunsent, hundropped⟩ := unsent_of_swapping hswap
  have hbefore : q.batch = [] := by
    have := hc.undropped
    rwa [hundropped, List.map_nil, List.map_eq_nil_iff] at this
  have htaken : s'.undropped = s.buffers ++ [b] ∧ s'.unsent = s.buffers ++ [b] := by
    rw [LogServer.undropped, LogServer.unsent, hpc, hbatch]
    exact ⟨rfl, rfl⟩
  have hout := hc.output
  rw [hbefore, hunsent, List.map_nil, List.map_nil, List.append_nil, List.append_nil] at hout
  refine ⟨?_, hc.taken, hc.reported, ?_, ?_, ?_, ?_⟩
  · rw [Packets.contents_take q hbefore, hc.kept]
  · rw [htaken.1]
    exact hc.untaken hcur
  · rw [hbuf]
    rfl
  · rw [hcur', Option.map_some, hdata]
    rfl
  · rw [hout, htaken.2]
    exact congrArg (outputOf trace ++ ·) (hc.untaken hcur)

/-- The batch comes to the test of its size. -/
theorem AsyncCarries.drop (hc : AsyncCarries q outputs trace s.toLogServer)
    (hpc : s.pc = .swapped) (time : List UInt8) :
    ∃ output, AsyncCarries q.settle (outputs ++ [output])
      (trace ++ .batch s.buffersToWrite :: dropLines time s.buffersToWrite.length)
      { s.toLogServer with pc := .sending 0, buffersToWrite := dropRest s.buffersToWrite } := by
  have hbatch : q.batch.map List.flatten = s.buffersToWrite.map FixedBuffer.data := by
    have := hc.undropped
    rwa [LogServer.undropped, hpc] at this
  have hlen : q.batch.length = s.buffersToWrite.length := by
    have := congrArg List.length hbatch
    rwa [List.length_map, List.length_map] at this
  have hbefore : outputs.flatten = outputOf trace := by
    have := hc.output
    rw [LogServer.unsent, hpc, hbatch] at this
    exact List.append_cancel_right this
  refine ⟨_, ?_, ?_, List.rel_append hc.reported
    (List.Forall₂.cons ⟨time, rfl⟩ List.Forall₂.nil), rfl, hc.buffers, hc.current, ?_⟩
  · rw [Packets.contents_settle, hc.kept, keptBy_batch]
  · rw [takenOf_batch, List.map_append, ← hc.taken, Packets.settle, List.map_append,
      List.map_singleton, List.map_singleton, hbatch]
  · show (outputs ++ [_]).flatten ++ [] = _
    rw [List.append_nil, List.flatten_append, List.flatten_singleton, hbefore, outputOf_batch, hlen,
      ← dropRest_map, hbatch, dropRest_map, List.append_assoc]
    rfl

/-- A buffer is written. -/
theorem AsyncCarries.write (hc : AsyncCarries q outputs trace s.toLogServer) {i : ℕ}
    (hpc : s.pc = .sending i) (hget : s.buffersToWrite[i]? = some b) :
    AsyncCarries q outputs (trace ++ [.wrote b.data])
      { s.toLogServer with pc := .sending (i + 1) } := by
  refine ⟨?_, ?_, hc.reported, ?_, hc.buffers, hc.current, ?_⟩
  · rw [hc.kept, keptBy_wrote]
  · rw [hc.taken, takenOf_wrote]
  · rw [hc.undropped, LogServer.undropped, hpc]
    rfl
  · rw [hc.output, unsent_of_sending hpc hget, List.map_cons, outputOf_wrote, List.append_assoc]
    rfl

/-- **The step lemma.** -/
theorem asyncCarries_step (hc : AsyncCarries q outputs trace s.toLogServer)
    (hmove : Moves s t s') : ∃ q' outputs', AsyncCarries q' outputs' (trace ++ t) s' := by
  cases hmove with
  | still quiet current buffers unsent undropped =>
    refine ⟨q, outputs, ?_⟩
    have hstill : AsyncCarries q outputs trace s' :=
      ⟨hc.kept, hc.taken, hc.reported, undropped ▸ hc.undropped, buffers ▸ hc.buffers,
        current ▸ hc.current, unsent ▸ hc.output⟩
    rcases quiet with rfl | rfl
    · rwa [List.append_nil]
    · refine ⟨?_, ?_, hstill.reported, hstill.undropped, hstill.buffers, hstill.current, ?_⟩
      · rw [keptBy_flushed, hstill.kept]
      · rw [takenOf_flushed, hstill.taken]
      · rw [outputOf_flushed, hstill.output]
  | put fits current data => exact ⟨_, _, hc.put fits current data⟩
  | roll fits current data => exact ⟨_, _, hc.roll fits current data⟩
  | lose long current data => exact ⟨_, _, hc.lose long current data⟩
  | swap swapping current current' data buffers pc batch =>
    rw [List.append_nil]
    exact ⟨_, _, hc.swap swapping current current' data buffers pc batch⟩
  | @drop time pc =>
    obtain ⟨output, h⟩ := hc.drop pc time
    exact ⟨_, _, h⟩
  | write pc get => exact ⟨_, _, hc.write pc get⟩

end Step

/-! ## Every run -/

variable {steps : List AsyncStep}

theorem asyncCarries_run (hv : Runs steps) :
    ∃ q outputs, AsyncCarries q outputs (asyncMachine.outs {} steps)
      (asyncMachine.after {} steps).toLogServer := by
  induction steps using List.reverseRecOn with
  | nil => exact ⟨{}, [], rfl, rfl, List.Forall₂.nil, rfl, rfl, rfl, rfl⟩
  | append_singleton steps a ih =>
    obtain ⟨hv, hen, -⟩ := asyncMachine.valid_append.mp hv
    obtain ⟨q, outputs, hc⟩ := ih hv
    rw [asyncMachine.after_concat, asyncMachine.outs_concat]
    exact asyncCarries_step hc (asyncStep (asyncOk_of_live hv hen.1) hen).1

/-- **Every buffer is accounted for.** The messages of all threads, as far as
one fits a buffer, lie in the order of the lock in packets that are not torn;
the packets make up the batches; and everything written to the `LogFile`,
together with what is to be written yet, is for each batch in turn the line
for its dropped buffers, if it has more than 25, and its first two buffers, or
else all of it. -/
theorem accounted_run (hv : Runs steps) :
    ∃ q outputs, AsyncCarries q outputs (asyncMachine.outs {} steps)
      (asyncMachine.after {} steps).toLogServer :=
  asyncCarries_run hv

theorem accounted_roundTrip :
    ∃ q outputs, AsyncCarries q outputs (asyncMachine.outs {} roundTrip)
      (asyncMachine.after {} roundTrip).toLogServer :=
  accounted_run (by decide)

/-! ## To the disk -/

/-- No batch is too long. -/
def Undelayed (trace : List AsyncEvent) : Prop := ∀ bs ∈ takenOf trace, bs.length ≤ 25

instance (trace : List AsyncEvent) : Decidable (Undelayed trace) := by
  unfold Undelayed
  infer_instance

/-- Of batches that are not too long everything is written, and nothing else. -/
theorem flatten_outputs {batches : List (List (List (List UInt8)))}
    {outputs : List (List (List UInt8))} (h : List.Forall₂ Reported batches outputs)
    (hsmall : ∀ batch ∈ batches, batch.length ≤ 25) :
    outputs.flatten = batches.flatten.map List.flatten := by
  induction h with
  | nil => rfl
  | @cons batch output batches outputs hreported _ ih =>
    obtain ⟨time, rfl⟩ := hreported
    rw [List.forall_mem_cons] at hsmall
    have hshort : ¬ 25 < batch.length := Nat.not_lt.mpr hsmall.1
    rw [List.flatten_cons, List.flatten_cons, List.map_append, ih hsmall.2, if_neg hshort, dropRest,
      if_neg hshort, List.nil_append]

/-- **Where no batch is too long every message is somewhere**: written, on its
way, or in one of the buffers. -/
theorem AsyncCarries.balance {q : Packets (List UInt8)} {outputs : List (List (List UInt8))}
    {trace : List AsyncEvent} {s : LogServer} (hc : AsyncCarries q outputs trace s)
    (hsmall : Undelayed trace) :
    (outputOf trace).flatten ++ bytes s.unsent ++ s.queued = (keptBy trace).flatten := by
  obtain ⟨b, hb, -⟩ := Option.map_eq_some_iff.mp hc.current
  -- a packet is a buffer, so the batches of packets are short as well
  have hshort : ∀ batch ∈ q.settled, batch.length ≤ 25 := by
    intro batch hbatch
    have hmem : batch.map List.flatten ∈ q.settled.map (·.map List.flatten) :=
      List.mem_map_of_mem hbatch
    rw [hc.taken] at hmem
    obtain ⟨bs, hbs, heq⟩ := List.mem_map.mp hmem
    have hlen := congrArg List.length heq
    rw [List.length_map, List.length_map] at hlen
    have := hsmall bs hbs
    omega
  have hwritten : (outputOf trace).flatten ++ bytes s.unsent =
      ((q.settled.flatten ++ q.batch).map List.flatten).flatten := by
    have hout := congrArg List.flatten hc.output
    rw [flatten_outputs hc.reported hshort, ← List.map_append, List.flatten_append] at hout
    rw [hout, bytes, List.flatMap_def]
  have hqueued : s.queued = (q.untaken.map List.flatten).flatten := by
    rw [hc.untaken hb, LogServer.queued, hb, bytes, bytes, ← List.flatMap_append, List.flatMap_def]
    rfl
  calc (outputOf trace).flatten ++ bytes s.unsent ++ s.queued
      = (q.packets.map List.flatten).flatten := by
        rw [hwritten, hqueued, ← List.flatten_append, ← List.map_append]
        rfl
    _ = q.contents.flatten := List.flatten_flatten.symm
    _ = (keptBy trace).flatten := by rw [hc.kept]

section Disk

variable {σ : Type*} {c : LogConfig} {out : Outside σ} {logFilePath : Path} {outside : σ}
variable {files : Path → Option (List UInt8)} {calls : List LogCall}

/-- **What a `LogFile` has been given is in its files**, byte by byte, if no
`fwrite` takes nothing. -/
theorem flatMap_bytes_openedFiles (htakes : out.Takes)
    (hlive : ((writerMachine c out).after (LogWriter.fresh logFilePath outside files)
      calls).aborted = false) :
    (openedFiles c out (LogWriter.fresh logFilePath outside files) calls).flatMap Opened.bytes =
      (messagesOf calls).flatten := by
  have hin : InOrder out ((writerMachine c out).outs _ calls) _ :=
    inOrder_fresh logFilePath outside files calls
  rw [← loggedIn_run hlive, ← hin.messages, List.flatten_eq_flatMap, List.flatMap_assoc]
  refine List.flatMap_congr fun o ho => ?_
  rw [Opened.bytes, List.flatMap_map]
  exact List.flatMap_congr fun e he => (hin.whole o ho e he).taken htakes

/-- **From `append` to the files.** Whatever the threads that log do, however
their steps fall between those of the log thread, and however the log file is
rolled: where no batch was too long, the files, in the order they were opened
in, the buffers on their way to them and those that wait hold the messages in
the order of the lock, each of them once and whole. -/
theorem onDisk_run (hv : Runs steps) (hsmall : Undelayed (asyncMachine.outs {} steps))
    (houtput : messagesOf calls = outputOf (asyncMachine.outs {} steps)) (htakes : out.Takes)
    (hlive : ((writerMachine c out).after (LogWriter.fresh logFilePath outside files)
      calls).aborted = false) :
    (openedFiles c out (LogWriter.fresh logFilePath outside files) calls).flatMap Opened.bytes ++
        bytes (asyncMachine.after {} steps).unsent ++ (asyncMachine.after {} steps).queued =
      (keptBy (asyncMachine.outs {} steps)).flatten := by
  obtain ⟨q, outputs, hc⟩ := asyncCarries_run hv
  rw [flatMap_bytes_openedFiles htakes hlive, houtput]
  exact hc.balance hsmall

end Disk

end AsyncLogging

end TelnetServ
