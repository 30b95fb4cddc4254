import TelnetServ.Queue.Conservation
/-!
# The log queue — the last flush

`destory` clears `isRunning_`, notifies the log thread and joins it. The
thread reads `isRunning_` at the head of its loop only: stopped between
that test and the swap it makes one more flush, stopped anywhere else it
makes none, and what is in the queue stays there. `flushed_iff` says when
the messages accepted before the stop have all been handed on.
-/

namespace TelnetServ

namespace LogServer

variable (s : LogServer)

/-- The bytes in `buffers_` and `currentBuffer_`. -/
def queued : List UInt8 := bytes s.buffers ++ bytes s.currentBuffer.toList

/-- The step does not drop anything. -/
def NoDrop (a : LogStep) : Prop :=
  a = .log → s.pc = .swapped → s.buffersToWrite.length ≤ 25

instance (a : LogStep) : Decidable (s.NoDrop a) := by unfold NoDrop; infer_instance

end LogServer

/-- **Shutdown flushes what was accepted**: everything accepted before the
stop has been handed on at the end. -/
def Flushed (before after : List LogStep) : Prop :=
  (acceptedOf (logMachine.outs {} before)).flatten <+:
    (handedOf (logMachine.outs {} (before ++ .destory :: after))).flatten

/-- What has left the queue: handed on, or on its way. -/
def through (trace : List LogEvent) (s : LogServer) : List UInt8 :=
  (handedOf trace).flatten ++ bytes s.unsent

/-- The trace and the state of a run that drops nothing. -/
structure Undropped (trace : List LogEvent) (s : LogServer) : Prop where
  inv : LogInv trace s
  small : ∀ bs ∈ batchesOf trace, bs.length ≤ 25

section Undropped

variable {trace t : List LogEvent} {s s' : LogServer} {a : LogStep}

/-- **Where nothing is dropped, what has been accepted has left the queue or
is in it.** -/
theorem Undropped.balance (h : Undropped trace s) :
    through trace s ++ s.queued = (acceptedOf trace).flatten := by
  obtain ⟨⟨hok, q, hc⟩, hsmall⟩ := h
  -- a packet is a buffer, so the batches of packets are short as well
  have hkeep : ∀ batch ∈ q.settled, dropTail batch = batch := by
    intro batch hbatch
    have hmem : batch.map List.flatten ∈ q.settled.map (·.map List.flatten) :=
      List.mem_map_of_mem hbatch
    rw [hc.batches] at hmem
    obtain ⟨bs, hbs, heq⟩ := List.mem_map.mp hmem
    have hlen := congrArg List.length heq
    rw [List.length_map, List.length_map] at hlen
    have := hsmall bs hbs
    exact if_neg (by omega)
  rw [← hc.accepted, ← Packets.flatten_kept q dropTail hkeep, ← hc.bytes_eq hok, through,
    LogServer.queued]
  simp only [List.append_assoc]

/-- A step that drops nothing. -/
theorem undropped_step (h : Undropped trace s) (hen : s.Enabled a) (hno : s.NoDrop a) :
    Undropped (trace ++ (s.step a).1) (s.step a).2 := by
  refine ⟨logInv_step h.inv hen, ?_⟩
  have hmove := (LogServer.logOk_step h.inv.1 hen).2
  generalize (s.step a).1 = t at hmove
  generalize (s.step a).2 = s' at hmove
  cases hmove with
  | still => rw [List.append_nil]; exact h.small
  | put => rw [batchesOf_accepted]; exact h.small
  | roll => rw [batchesOf_accepted]; exact h.small
  | swap => rw [List.append_nil]; exact h.small
  | drop pc =>
    rw [batchesOf_batch]
    intro bs hbs
    rcases List.mem_append.mp hbs with hbs | hbs
    · exact h.small bs hbs
    · rw [List.mem_singleton.mp hbs]
      exact hno rfl pc
  | hand => rw [batchesOf_callOf]; exact h.small

/-- **A step after the stop moves nothing out of the queue but the swap**,
which moves all of it. -/
theorem through_step (trace : List LogEvent) (hmove : Move s a t s')
    (hrun : s.isRunning = false) (hno : s.NoDrop a) :
    (through (trace ++ t) s' = through trace s ∧ (s'.Swapping ↔ s.Swapping)) ∨
      (s.Swapping ∧ ¬ s'.Swapping ∧ s'.queued = []) := by
  cases hmove with
  | still current buffers unsent undropped stays swapping =>
    -- a thread that is not running does not get to the lock
    refine Or.inl ⟨?_, fun h => ?_, stays⟩
    · rw [List.append_nil, through, through, unsent]
    · exact (swapping h).resolve_right (by rw [hrun]; decide)
  | put current data => exact Or.inl ⟨by rw [through, handedOf_accepted]; rfl, Iff.rfl⟩
  | roll current data => exact Or.inl ⟨by rw [through, handedOf_accepted]; rfl, Iff.rfl⟩
  | swap swapping current current' data buffers pc batch =>
    refine Or.inr ⟨swapping, LogServer.not_swapping (by simp [pc]) (by simp [pc]), ?_⟩
    rw [LogServer.queued, buffers, current']
    simp [bytes, data]
  | drop pc =>
    have hkeep : dropTail s.buffersToWrite = s.buffersToWrite :=
      if_neg (Nat.not_lt.mpr (hno rfl pc))
    refine Or.inl ⟨?_, iff_of_false ?_ ?_⟩
    · rw [through, handedOf_batch, hkeep, through, LogServer.unsent, LogServer.unsent, pc]
      rfl
    · exact LogServer.not_swapping (by simp) (by simp)
    · exact LogServer.not_swapping (by simp [pc]) (by simp [pc])
  | hand pc get =>
    refine Or.inl ⟨?_, iff_of_false ?_ ?_⟩
    · rw [through, through, handedOf_callOf, unsent_of_sending pc get, List.flatten_append,
        flatten_callsFor, List.append_assoc]
      simp [bytes, LogServer.unsent]
    · exact LogServer.not_swapping (by simp) (by simp)
    · exact LogServer.not_swapping (by simp [pc]) (by simp [pc])

end Undropped

/-! ## From the stop to the end -/

namespace LogServer

variable {s : LogServer}

theorem swap_isRunning : s.swap.isRunning = s.isRunning := by
  unfold swap; split <;> rfl

theorem recycle_isRunning : s.recycle.isRunning = s.isRunning := by
  unfold recycle
  split
  · rfl
  · split <;> rfl

/-- Only `init` sets `isRunning_`. -/
theorem step_isRunning {a : LogStep} (hrun : s.isRunning = false) (ha : a ≠ .init) :
    (s.step a).2.isRunning = false := by
  cases a with
  | init => exact absurd rfl ha
  | destory => rfl
  | append sockClient logline =>
    simp only [step, appendToMsgBuf]
    split_ifs <;> try exact hrun
    split
    · exact hrun
    · split_ifs <;> exact hrun
  | log =>
    simp only [step, logOutPutFun]
    split <;> try split_ifs
    all_goals first | exact hrun | exact swap_isRunning.trans hrun | skip
    split
    · exact hrun
    · exact recycle_isRunning.trans hrun

end LogServer

/-- What holds from the stop on, `trace₀` and `s₀` being the run up to it. -/
structure Stopped (trace₀ : List LogEvent) (s₀ : LogServer) (trace : List LogEvent)
    (s : LogServer) : Prop where
  undropped : Undropped trace s
  isRunning : s.isRunning = false
  accepted : (acceptedOf trace₀).flatten <+: (acceptedOf trace).flatten
  /-- One more flush takes everything. -/
  flushes : s₀.Swapping → s.Swapping ∨ (acceptedOf trace₀).flatten <+: through trace s
  /-- Without one nothing leaves the queue. -/
  stays : ¬ s₀.Swapping → ¬ s.Swapping ∧ through trace s = through trace₀ s₀

section Stopped

variable {trace₀ trace : List LogEvent} {s₀ s : LogServer} {a : LogStep}

/-- **The step lemma.** -/
theorem stopped_step (h : Stopped trace₀ s₀ trace s) (hen : s.Enabled a) (hno : s.NoDrop a)
    (ha : a ≠ .init) : Stopped trace₀ s₀ (trace ++ (s.step a).1) (s.step a).2 := by
  have hmove := (LogServer.logOk_step h.undropped.inv.1 hen).2
  have hstep := through_step trace hmove h.isRunning hno
  have hundropped := undropped_step h.undropped hen hno
  have haccepted : (acceptedOf trace₀).flatten <+:
      (acceptedOf (trace ++ (s.step a).1)).flatten := by
    refine h.accepted.trans ?_
    rw [acceptedOf_append, List.flatten_append]
    exact List.prefix_append _ _
  refine ⟨hundropped, LogServer.step_isRunning h.isRunning ha, haccepted, fun h₀ => ?_,
    fun h₀ => ?_⟩
  · rcases hstep with ⟨hthrough, hswap⟩ | ⟨-, -, hqueued⟩
    · rw [hthrough, hswap]
      exact h.flushes h₀
    · -- the swap: what has been accepted has now left the queue
      have := hundropped.balance
      rw [hqueued, List.append_nil] at this
      rw [this]
      exact Or.inr haccepted
  · obtain ⟨hout, hthrough₀⟩ := h.stays h₀
    rcases hstep with ⟨hthrough, hswap⟩ | ⟨hin, -⟩
    · exact ⟨fun hs => hout (hswap.mp hs), hthrough.trans hthrough₀⟩
    · exact absurd hin hout

/-- When `LogOutPutFun` has returned, what has left the queue has been
handed on. -/
theorem through_of_returned (hret : s.pc = .returned) :
    through trace s = (handedOf trace).flatten := by
  rw [through, LogServer.unsent, hret]
  exact List.append_nil _

/-- **At the end everything has been handed on if and only if** the thread
was about to swap at the stop, or nothing was in the queue. -/
theorem Stopped.handed_iff (h₀ : Undropped trace₀ s₀) (h : Stopped trace₀ s₀ trace s)
    (hret : s.pc = .returned) :
    (acceptedOf trace₀).flatten <+: (handedOf trace).flatten ↔ s₀.Swapping ∨ s₀.queued = [] := by
  rw [← through_of_returned hret]
  by_cases hswap : s₀.Swapping
  · refine iff_of_true ((h.flushes hswap).resolve_left ?_) (Or.inl hswap)
    exact LogServer.not_swapping (by simp [hret]) (by simp [hret])
  · -- what was queued at the stop is what is missing at the end
    rw [(h.stays hswap).2, ← h₀.balance, or_iff_right hswap]
    constructor
    · intro hprefix
      have := hprefix.length_le
      rw [List.length_append] at this
      exact List.eq_nil_of_length_eq_zero (by omega)
    · intro hqueued
      exact ⟨[], by rw [hqueued, List.append_nil, List.append_nil]⟩

end Stopped

/-- **When shutdown flushes.** In every run without drops, with one owner,
in which `LogOutPutFun` has returned after `destory`: every message accepted
before `destory` has been handed on if and only if `destory` came between
the log thread's test of `isRunning_` and its swap, or found the queue
empty. -/
theorem flushed_iff {before after : List LogStep}
    (hv : logMachine.Valid (fun s a => s.Enabled a ∧ s.NoDrop a) {}
      (before ++ .destory :: after))
    (hafter : ∀ a ∈ after, a ≠ .init)
    (hret : (logMachine.after {} (before ++ .destory :: after)).pc = .returned) :
    Flushed before after ↔
      (logMachine.after {} before).Swapping ∨ (logMachine.after {} before).queued = [] := by
  obtain ⟨hbefore, hstop, hrest⟩ := logMachine.valid_append.mp hv
  have h₀ : Undropped (logMachine.outs {} before) (logMachine.after {} before) :=
    logMachine.run_induct_valid (t := []) ⟨logInv_init, fun _ h => by cases h⟩ hbefore
      fun _ _ _ h ha => undropped_step h ha.1 ha.2
  have hstopped := undropped_step h₀ hstop.1 hstop.2
  rw [show ((logMachine.after {} before).step .destory).1 = [] from rfl, List.append_nil]
    at hstopped
  have hrun : Stopped (logMachine.outs {} before) (logMachine.after {} before)
      (logMachine.outs {} (before ++ .destory :: after))
      (logMachine.after {} (before ++ .destory :: after)) := by
    rw [logMachine.outs_append, logMachine.after_append, Machine.outs_cons, Machine.after_cons]
    refine logMachine.run_induct_valid ?_ (logMachine.valid_and_inputs hrest hafter)
      fun _ _ _ h ha => stopped_step h ha.1.1 ha.1.2 ha.2
    exact {
      undropped := hstopped
      isRunning := rfl
      accepted := List.prefix_rfl
      flushes := Or.inl
      stays := fun h => ⟨h, rfl⟩ }
  exact hrun.handed_iff h₀ hret

/-- Stopped in `waitForSeconds`, the log thread flushes once more. -/
theorem flushed_waiting :
    Flushed [.init, .log, .append 5 [65], .log, .log] [.log, .log, .log, .log, .log] := by
  have hv : logMachine.Valid (fun s a => s.Enabled a ∧ s.NoDrop a) {}
      ([.init, .log, .append 5 [65], .log, .log] ++ .destory ::
        [.log, .log, .log, .log, .log]) := by decide
  exact (flushed_iff hv (by decide) (by decide)).mpr (Or.inl (by decide))

/-- A message comes while the log thread is in its send loop. -/
abbrev lateMessage : List LogStep :=
  [.init, .log, .log, .log, .log, .log, .append 5 [65]]

/-- **Stopped in the send loop**, the log thread returns at its next test,
and the message stays in the current buffer. -/
theorem not_flushed_lateMessage :
    logMachine.Valid (fun s a => s.Enabled a ∧ s.NoDrop a) {}
        (lateMessage ++ .destory :: [.log, .log, .log]) ∧
      (logMachine.after {} (lateMessage ++ .destory :: [.log, .log, .log])).pc = .returned ∧
      (logMachine.after {} (lateMessage ++ .destory :: [.log, .log, .log])).queued = [65] ∧
      ¬ Flushed lateMessage [.log, .log, .log] := by
  refine ⟨by decide, by decide, by decide, ?_⟩
  unfold Flushed
  decide

end TelnetServ
