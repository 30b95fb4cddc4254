import TelnetServ.Output.Model
import TelnetServ.Print.Timed
import TelnetServ.Queue.Shutdown
import TelnetServ.Send.Delivery
/-!
# The log output — from the print to the socket

Each part has been dealt with alone: a line is printed whole, the queue
conserves its messages, and `SockSend` makes progress. Put together they say
what the client gets: the lines of all threads, each with the stamp of its own
second, in the order in which the lock let them in.
-/

namespace TelnetServ

open Calendar

/-! ## The call of `SockSend` -/

/-- What holds of a `SockSend` that has not failed three times in a row. -/
structure FrameOk (f : SendFrame) : Prop where
  progress : Progress f.pchBuf f (f.pchBuf.take f.nTotalSendLen.toNat)
  size : f.pchBuf.length < 2 ^ 31
  returned : f.returned ≠ some false

section Frame

variable {f : SendFrame} {r : SendResult}

/-- Behind the loop test. -/
theorem FrameOk.loopHead (h0 : 0 ≤ f.nTotalSendLen) (hle : f.nTotalSendLen ≤ f.pchBuf.length)
    (hsize : f.pchBuf.length < 2 ^ 31) (hrun : f.returned = none) : FrameOk f.loopHead where
  progress := by
    rw [f.loopHead_pchBuf, f.loopHead_nTotalSendLen]
    exact Progress.loopHead hsize rfl h0 hle rfl hrun
  size := by rwa [f.loopHead_pchBuf]
  returned := by
    rcases f.loopHead_cases hrun with ⟨-, h, -⟩ | ⟨-, h⟩ <;> simp [h]

theorem loopHead_requested (f : SendFrame) : f.loopHead.requested = f.requested := by
  rw [SendFrame.requested, f.loopHead_pchBuf, f.loopHead_nTotalSendLen, SendFrame.requested]

/-- A call on a client's socket is to send all of its bytes. -/
theorem frameOk_sockSend {tSock : ℤ} {msg : List UInt8} (hs : tSock ≠ invalidSocket)
    (hsize : msg.length < 2 ^ 31) :
    FrameOk (sockSend tSock (some msg)) ∧ (sockSend tSock (some msg)).requested = msg := by
  rw [sockSend, if_neg hs, loopHead_requested]
  exact ⟨FrameOk.loopHead (Int.le_refl 0) (Int.natCast_nonneg _) hsize rfl, rfl⟩

/-- A call that has returned has sent everything. -/
theorem FrameOk.requested_of_returned (h : FrameOk f) (hret : f.returned ≠ none) :
    f.requested = [] := by
  have htrue : f.returned = some true := by
    have hfalse := h.returned
    match hf : f.returned with
    | none => exact absurd hf hret
    | some true => rfl
    | some false => exact absurd hf hfalse
  have htotal := h.progress.done htrue
  rw [SendFrame.requested, List.drop_eq_nil_iff]
  omega

/-- **A `send`** takes the next bytes. -/
theorem frameOk_step (h : FrameOk f) (hposs : SendPossible f r)
    (htry : r = none → f.nTryNum + 1 < 3) :
    FrameOk (sendMachine.step f r).2 ∧
      (sendMachine.step f r).1 ++ (sendMachine.step f r).2.requested = f.requested := by
  rw [sendMachine_step hposs.1]
  have h0 := h.progress.nonneg
  have hle := h.progress.le
  cases r with
  | none =>
    rw [SendFrame.attempt, if_pos (htry rfl)]
    exact ⟨⟨⟨rfl, h0, hle, rfl, h.progress.running, h.progress.done⟩, h.size, h.returned⟩, rfl⟩
  | some n =>
    obtain ⟨-, hn⟩ := hposs.2 n rfl
    have hlen : f.requested.length = f.pchBuf.length - f.nTotalSendLen.toNat := List.length_drop
    refine ⟨FrameOk.loopHead (by dsimp only; omega) (by dsimp only; omega) h.size hposs.1, ?_⟩
    have htotal : (f.nTotalSendLen + n).toNat = f.nTotalSendLen.toNat + n := by omega
    show f.requested.take n ++ (SendFrame.loopHead _).requested = f.requested
    rw [loopHead_requested]
    show f.requested.take n ++ f.pchBuf.drop (f.nTotalSendLen + n).toNat = f.requested
    rw [htotal, ← List.drop_drop]
    exact List.take_append_drop n f.requested

end Frame

/-! ## The print -/

section Print

variable {zone : ℤ → Tm} {c : TimeCache}

/-- A line has room for its NUL. -/
theorem length_of_mem_lineFor {stamp line : List UInt8} {szFormat : Option Printed}
    (h : line ∈ lineFor stamp szFormat) : line.length ≤ maxLogMsgLen := by
  have hmax : maxLogMsgLen = 2000 := rfl
  cases szFormat with
  | none => cases h
  | some printed =>
    rw [lineFor] at h
    split_ifs at h with hfits
    · have hlen := printed.length_eq (by omega)
      rw [List.mem_singleton.mp h, List.length_append]
      omega
    · cases h

/-- **A call of `telPrintf` passes its line on**, with the stamp of its
second, and keeps the stamp what it should be. -/
theorem telPrintf_eq (hc : CacheOk zone c) (call : PrintCall)
    (hret : ∀ printed, call.szFormat = some printed → ¬ (-21 ≤ printed.ret ∧ printed.ret ≤ -1)) :
    ∃ c', CacheOk zone c' ∧
      telPrintf zone call c =
        (if call.sockClient = invalidSocket then []
          else lineFor (timeText (zone call.seconds)) call.szFormat, some c') := by
  have hlen : (timeText (zone call.seconds)).length = 21 := length_timeText _
  unfold telPrintf
  split_ifs with hclient
  · exact ⟨c, hc, rfl⟩
  · cases hformat : call.szFormat with
    | none => exact ⟨c, hc, rfl⟩
    | some printed =>
      obtain ⟨c', hformatTime, hc', hstamp⟩ := formatTime_spec hc call.seconds_pos
      refine ⟨c', hc', ?_⟩
      simp only [hformatTime, hstamp]
      rcases passedOn_stampedMsg hlen printed with ⟨hall, -⟩ | ⟨herror, -⟩
      · rw [lineFor]
        split_ifs with hfits
        · rw [hall.whole hfits.1 (by omega)]
        · rw [hall.nothing (by omega)]
      · exact absurd herror (hret printed hformat)

/-- **A call of `telPrintfNoTime` that stays inside its buffer** passes its
text on. -/
theorem telPrintfNoTime_eq (sockClient : ℤ) (szFormat : Option Printed) :
    (Untimed.telPrintfNoTime sockClient szFormat).passed.toList =
      if sockClient = invalidSocket then [] else lineFor [] szFormat := by
  have hmax : maxLogMsgLen = 2000 := rfl
  unfold Untimed.telPrintfNoTime printUntimed
  split_ifs with hclient
  · rfl
  · cases szFormat with
    | none => rfl
    | some printed =>
      have hlen := printed.length_eq
      rcases passedOn_cases (show 0 < maxLogMsgLen by decide) printed.le_ret printed.ret_lt
        (CStr.padded maxLogMsgLen printed.text) with ⟨h, heq⟩ | ⟨hne, hlo, hhi, heq⟩
      · simp only [heq, lineFor, List.length_nil]
        rw [if_neg (by omega)]
        rfl
      · have hret : (((0 : ℕ) : ℤ) + printed.ret).toNat = printed.text.length := by
          have := hlen (by omega)
          omega
        simp only [heq, lineFor, List.length_nil]
        rw [if_pos (by omega), hret, CStr.take_padded]
        rfl

end Print

/-! ## One step -/

section Step

variable {trace : List OutputEvent} {s : LogOutput} {zone : ℤ → Tm}

/-- What the `SockSend` of the log thread has still to send. -/
def LogOutput.inFlight (s : LogOutput) : List UInt8 := (s.frame.map SendFrame.requested).getD []

/-- **The invariant.** -/
structure OutputInv (zone : ℤ → Tm) (trace : List OutputEvent) (s : LogOutput) : Prop where
  queue : LogInv (queuedOf trace) s.queue
  caches : ∀ thread, ∃ c, s.caches thread = some c ∧ CacheOk zone c
  frame : ∀ f, s.frame = some f → FrameOk f
  sent : sentOf trace ++ s.inFlight = (handedOf (queuedOf trace)).flatten

theorem queuedOf_append (t : List OutputEvent) :
    queuedOf (trace ++ t) = queuedOf trace ++ queuedOf t := List.filterMap_append

theorem sentOf_append (t : List OutputEvent) : sentOf (trace ++ t) = sentOf trace ++ sentOf t :=
  List.flatMap_append

theorem handedOf_append (t t' : List LogEvent) : handedOf (t ++ t') = handedOf t ++ handedOf t' :=
  List.filterMap_append

@[simp] theorem queuedOf_map (t : List LogEvent) : queuedOf (t.map .queued) = t := by
  induction t with
  | nil => rfl
  | cons e t ih => exact congrArg (e :: ·) ih

@[simp] theorem sentOf_map (t : List LogEvent) : sentOf (t.map .queued) = [] := by
  rw [sentOf, List.flatMap_map]
  exact List.flatMap_eq_nil_iff.mpr fun _ _ => rfl

/-- **A step of the queue** in which nothing is handed on. -/
theorem OutputInv.queueStep (h : OutputInv zone trace s) {a : LogStep} (hen : s.queue.Enabled a)
    (hhanded : handedOf (s.queue.step a).1 = []) :
    OutputInv zone (trace ++ (s.queueStep a).1) (s.queueStep a).2 := by
  refine ⟨?_, h.caches, h.frame, ?_⟩
  · rw [LogOutput.queueStep, queuedOf_append, queuedOf_map]
    exact logInv_step h.queue hen
  · rw [LogOutput.queueStep, queuedOf_append, queuedOf_map, sentOf_append, sentOf_map,
      List.append_nil, handedOf_append, hhanded, List.append_nil]
    exact h.sent

/-- **At most one line is appended.** -/
theorem OutputInv.append (h : OutputInv zone trace s) (hlive : s.queue.aborted = false)
    (sockClient : ℤ) {lines : List (List UInt8)} (hone : lines.length ≤ 1)
    (hlen : ∀ line ∈ lines, line.length ≤ maxLogMsgLen) :
    OutputInv zone (trace ++ (s.append sockClient lines).1) (s.append sockClient lines).2 ∧
      acceptedOf (queuedOf (s.append sockClient lines).1) =
        if sockClient = invalidSocket then [] else lines := by
  match lines with
  | [] =>
    rw [show s.append sockClient [] = ([], s) from rfl, List.append_nil]
    exact ⟨h, (ite_self _).symm⟩
  | [line] =>
    have happ : s.append sockClient [line] = s.queueStep (.append sockClient line) := by
      simp [LogOutput.append, LogOutput.queueStep, Machine.outs, Machine.after, logMachine]
    obtain ⟨hhanded, haccepted⟩ := appended_eq h.queue.1 sockClient line
    simp only [LogStep.offered, Nat.not_lt.mpr (hlen line List.mem_cons_self), or_false]
      at haccepted
    rw [happ]
    refine ⟨h.queueStep ⟨hlive, (fun heq => by cases heq)⟩ hhanded, ?_⟩
    rw [LogOutput.queueStep, queuedOf_map]
    exact haccepted
  | _ :: _ :: _ => simp at hone

/-- A part of `LogOutPutFun` hands on at most one buffer. -/
theorem handed_cases {s : LogServer} (hok : LogOk s) (hen : s.Enabled .log) :
    handedOf (s.step .log).1 = [] ∨ ∃ b : FixedBuffer, handedOf (s.step .log).1 = [b.data] := by
  have hmove := (LogServer.logOk_step hok hen).2
  generalize (s.step .log).1 = t at hmove
  generalize (s.step .log).2 = s' at hmove
  cases hmove with
  | still => exact Or.inl rfl
  | swap => exact Or.inl rfl
  | drop pc => exact Or.inl rfl
  | @hand i b pc get =>
    split_ifs
    · exact Or.inl rfl
    · exact Or.inr ⟨b, rfl⟩

/-- **The log thread** calls `SockSend` with what it hands on. -/
theorem OutputInv.log (h : OutputInv zone trace s) {localSock : ℤ}
    (hen : s.Enabled (.log localSock)) (hsock : localSock ≠ invalidSocket) :
    OutputInv zone (trace ++ (s.step zone (.log localSock)).1)
      (s.step zone (.log localSock)).2 := by
  obtain ⟨hqueue, hreturned⟩ := hen
  have hnone : s.inFlight = [] := by
    rw [LogOutput.inFlight]
    cases hf : s.frame with
    | none => rfl
    | some f => exact (h.frame f hf).requested_of_returned (hreturned f hf)
  have hsent := h.sent
  rw [hnone, List.append_nil] at hsent
  have hhanded := handed_cases h.queue.1 hqueue
  refine ⟨?_, h.caches, fun f hf => ?_, ?_⟩
  · rw [LogOutput.step, queuedOf_append, queuedOf_map]
    exact logInv_step h.queue hqueue
  · simp only [LogOutput.step] at hf
    rcases hhanded with hhanded | ⟨b, hhanded⟩
    · rw [hhanded] at hf
      cases hf
    · rw [hhanded] at hf
      cases hf
      exact (frameOk_sockSend hsock (b.length_le.trans_lt (by decide))).1
  · simp only [LogOutput.step, LogOutput.inFlight]
    rw [queuedOf_append, queuedOf_map, sentOf_append, sentOf_map, List.append_nil, handedOf_append,
      List.flatten_append, hsent]
    rcases hhanded with hhanded | ⟨b, hhanded⟩
    · rw [hhanded]
      rfl
    · rw [hhanded, List.flatten_singleton]
      exact congrArg (_ ++ ·) (frameOk_sockSend hsock (b.length_le.trans_lt (by decide))).2

/-- **A `send`** of the log thread. -/
theorem OutputInv.send (h : OutputInv zone trace s) {r : SendResult} (hen : s.Enabled (.send r))
    (htry : s.Unfailing (.send r)) :
    OutputInv zone (trace ++ (s.step zone (.send r)).1) (s.step zone (.send r)).2 := by
  obtain ⟨-, f, hf, hposs⟩ := hen
  obtain ⟨hframe, htaken⟩ := frameOk_step (h.frame f hf) hposs fun hr => htry hr f hf
  change s.frame = some f at hf
  simp only [LogOutput.step, hf]
  have hsent := h.sent
  rw [LogOutput.inFlight, hf, Option.map_some, Option.getD_some, ← htaken] at hsent
  refine ⟨?_, h.caches, fun f' hf' => ?_, ?_⟩
  · rw [queuedOf_append]
    exact (List.append_nil _).symm ▸ h.queue
  · cases hf'
    exact hframe
  · rw [queuedOf_append, sentOf_append, List.append_assoc]
    show _ ++ (_ ++ _) = (handedOf (queuedOf trace ++ [])).flatten
    rw [List.append_nil, ← hsent]
    simp [sentOf, LogOutput.inFlight]

/-- A call of `telPrintf` or `telPrintfNoTime` passes its line to
`appendToMsgBuf`, which lets it in while there is a client. -/
theorem appended_lines {sockClient appendSock : ℤ} {stamp : List UInt8} {szFormat : Option Printed}
    {r : List OutputEvent}
    (h : acceptedOf (queuedOf r) = if appendSock = invalidSocket then [] else
      if sockClient = invalidSocket then [] else lineFor stamp szFormat) :
    acceptedOf (queuedOf r) = if sockClient = invalidSocket ∨ appendSock = invalidSocket then []
      else lineFor stamp szFormat := by
  rw [h]
  split_ifs with h₁ h₂ h₃ <;> simp_all

theorem length_lineFor_le (stamp : List UInt8) (szFormat : Option Printed) :
    (lineFor stamp szFormat).length ≤ 1 := by
  cases szFormat with
  | none => exact Nat.zero_le _
  | some printed =>
    rw [lineFor]
    split_ifs <;> simp

/-- A line, or nothing where there is no client. -/
theorem lines_ok (sockClient : ℤ) (stamp : List UInt8) (szFormat : Option Printed) :
    (if sockClient = invalidSocket then [] else lineFor stamp szFormat).length ≤ 1 ∧
      ∀ line ∈ (if sockClient = invalidSocket then [] else lineFor stamp szFormat),
        line.length ≤ maxLogMsgLen := by
  split_ifs
  · exact ⟨Nat.zero_le _, fun line hline => absurd hline List.not_mem_nil⟩
  · exact ⟨length_lineFor_le stamp szFormat, fun line hline => length_of_mem_lineFor hline⟩

/-- **The step lemma.** A step keeps the invariant, and lets in the lines it
is to print, or the process ends. -/
theorem outputInv_step (h : OutputInv zone trace s) {a : OutputStep} (hen : s.Enabled a)
    (hun : s.Unfailing a) :
    (s.step zone a).2.queue.aborted = true ∨
      OutputInv zone (trace ++ (s.step zone a).1) (s.step zone a).2 ∧
        acceptedOf (queuedOf (s.step zone a).1) = linesOf zone a := by
  cases a with
  | init => exact Or.inr ⟨h.queueStep hen rfl, rfl⟩
  | destory =>
    exact Or.inr ⟨h.queueStep (a := .destory) ⟨hen, (fun heq => by cases heq)⟩ rfl, rfl⟩
  | telPrintf thread call sockClient =>
    obtain ⟨c, hcache, hc⟩ := h.caches thread
    obtain ⟨c', hc', heq⟩ := telPrintf_eq hc call hun
    have hcaches : OutputInv zone trace
        { s with caches := Function.update s.caches thread (some c') } := by
      refine ⟨h.queue, fun other => ?_, h.frame, h.sent⟩
      by_cases hother : other = thread
      · rw [hother]
        exact ⟨c', Function.update_self .., hc'⟩
      · obtain ⟨d, hd, hok⟩ := h.caches other
        exact ⟨d, (Function.update_of_ne hother ..).trans hd, hok⟩
    obtain ⟨hone, hlen⟩ :=
      lines_ok call.sockClient (timeText (zone call.seconds)) call.szFormat
    obtain ⟨hinv, haccepted⟩ :=
      hcaches.append hen sockClient hone hlen
    have hstep : s.step zone (.telPrintf thread call sockClient) =
        { s with caches := Function.update s.caches thread (some c') }.append sockClient
          (if call.sockClient = invalidSocket then []
            else lineFor (timeText (zone call.seconds)) call.szFormat) := by
      simp only [LogOutput.step, printMachine, hcache, heq]
    rw [hstep]
    exact Or.inr ⟨hinv, appended_lines haccepted⟩
  | telPrintfNoTime sockClient szFormat appendSock =>
    simp only [LogOutput.step]
    split_ifs with hover
    · exact Or.inl rfl
    · rw [telPrintfNoTime_eq]
      obtain ⟨hone, hlen⟩ := lines_ok sockClient [] szFormat
      obtain ⟨hinv, haccepted⟩ := h.append hen appendSock hone hlen
      exact Or.inr ⟨hinv, appended_lines haccepted⟩
  | log localSock =>
    refine Or.inr ⟨h.log hen hun, ?_⟩
    simp only [LogOutput.step]
    rw [queuedOf_map]
    exact accepted_step h.queue.1 hen.1
  | send r =>
    refine Or.inr ⟨h.send hen hun, ?_⟩
    obtain ⟨-, f, hf, -⟩ := hen
    change s.frame = some f at hf
    simp only [LogOutput.step, hf]
    rfl

end Step

/-! ## Every run -/

/-- **What the client gets.** `lines` are in packets that are not torn, the
batches of the log thread are packets, and what has been sent, with what is
still on its way, is all that the rule for long batches keeps; without a long
batch it is all there is. -/
def LogOutput.Delivers (trace : List OutputEvent) (lines : List (List UInt8)) (s : LogOutput) :
    Prop :=
  let out := sentOf trace ++ s.inFlight ++ bytes s.queue.unsent ++ s.queue.queued
  (∃ q : Packets (List UInt8), q.contents = lines ∧
    q.settled.map (·.map List.flatten) =
      (batchesOf (queuedOf trace)).map (·.map FixedBuffer.data) ∧
    out = (q.kept dropTail).flatten.flatten) ∧
  ((∀ bs ∈ batchesOf (queuedOf trace), bs.length ≤ 25) → out = lines.flatten)

variable {zone : ℤ → Tm} {steps : List OutputStep}

/-- A run of the server in which nothing outside fails. -/
abbrev OutputRuns (zone : ℤ → Tm) (steps : List OutputStep) : Prop :=
  (outputMachine zone).Valid (fun s a => s.Enabled a ∧ s.Unfailing a) {} steps

theorem outputInv_init (zone : ℤ → Tm) : OutputInv zone [] {} where
  queue := logInv_init
  caches := fun _ => ⟨{}, rfl, fun h => absurd rfl h⟩
  frame := (fun f hf => by cases hf)
  sent := rfl

/-- A step is taken while the process has not ended. -/
theorem LogOutput.Enabled.live {s : LogOutput} {a : OutputStep} (h : s.Enabled a) :
    s.queue.aborted = false := by
  cases a with
  | init => exact h.1
  | log localSock => exact h.1.1
  | send r => exact h.1
  | destory => exact h
  | telPrintf thread call sockClient => exact h
  | telPrintfNoTime sockClient szFormat appendSock => exact h

theorem outputInv_run (hv : OutputRuns zone steps)
    (hlive : ((outputMachine zone).after {} steps).queue.aborted = false) :
    OutputInv zone ((outputMachine zone).outs {} steps) ((outputMachine zone).after {} steps) ∧
      acceptedOf (queuedOf ((outputMachine zone).outs {} steps)) =
        steps.flatMap (linesOf zone) := by
  induction steps using List.reverseRecOn with
  | nil => exact ⟨outputInv_init zone, rfl⟩
  | append_singleton steps a ih =>
    obtain ⟨hv, ⟨hen, hun⟩, -⟩ := (outputMachine zone).valid_append.mp hv
    obtain ⟨hinv, haccepted⟩ := ih hv hen.live
    rw [Machine.after_concat] at hlive
    rw [Machine.after_concat, Machine.outs_concat]
    rcases outputInv_step hinv hen hun with haborted | ⟨hinv', haccepted'⟩
    · rw [show ((outputMachine zone).step _ a).2.queue.aborted = true from haborted] at hlive
      cases hlive
    · refine ⟨hinv', ?_⟩
      rw [queuedOf_append, acceptedOf_append, haccepted, List.flatMap_append,
        List.flatMap_singleton]
      exact congrArg (_ ++ ·) haccepted'

/-- **From the print to the socket.** However the steps of the threads that
print fall between those of the log thread and its `send`s: as long as the
process has not ended, the client has been sent the lines of all threads, in
the order in which the lock let them in, each once and whole and with the
stamp of its own second, up to what is on its way and what is dropped with a
buffer of a long batch. -/
theorem delivers_run (hv : OutputRuns zone steps)
    (hlive : ((outputMachine zone).after {} steps).queue.aborted = false) :
    ((outputMachine zone).after {} steps).Delivers ((outputMachine zone).outs {} steps)
      (steps.flatMap (linesOf zone)) := by
  obtain ⟨hinv, haccepted⟩ := outputInv_run hv hlive
  obtain ⟨hok, q, hc⟩ := hinv.queue
  refine ⟨⟨q, hc.accepted.trans haccepted, hc.batches, ?_⟩, fun hsmall => ?_⟩
  · rw [hinv.sent, ← hc.bytes_eq hok, LogServer.queued, List.append_assoc, List.append_assoc,
      List.append_assoc]
  · rw [hinv.sent, ← haccepted, ← Undropped.balance ⟨hinv.queue, hsmall⟩]
    rfl

/-- Two threads print in the same second; the socket takes the first line in
two pieces. -/
def twoPrints : List OutputStep :=
  [.init, .log 5, .telPrintf 1 (mayCall (printedText [72, 105])) 5, .log 5, .log 5,
    .telPrintfNoTime 5 (some (printedText [33])) 5, .log 5, .log 5, .log 5, .send (some 20),
    .send none, .send (some 4)]

theorem delivers_twoPrints :
    ((outputMachine fun _ => mayMorning).after {} twoPrints).Delivers
      ((outputMachine fun _ => mayMorning).outs {} twoPrints)
      (twoPrints.flatMap (linesOf fun _ => mayMorning)) := by
  have hv : OutputRuns (fun _ => mayMorning) twoPrints := by decide +kernel
  exact delivers_run hv (by decide +kernel)

end TelnetServ
