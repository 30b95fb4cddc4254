import TelnetServ.Async.Model
import Mathlib.Data.List.Induction
/-!
# The asynchronous logger — no assertion fails

The buffers go round as in the log queue, so `LogOk` is kept here as well
(`asyncStep`). The start is different: the owner is kept in `start` until the
log thread has passed its first assertion, and cannot stop it before. So
whether an assertion fails depends on the owner's calls and on nothing else
(`neverFails_iff`).
-/

namespace TelnetServ

/-! ## Small pieces -/

theorem dropRest_ne_nil {α : Type*} {l : List α} (h : l ≠ []) : dropRest l ≠ [] := by
  unfold dropRest
  split_ifs with hlong
  · rw [Ne, List.take_eq_nil_iff]
    exact fun hnil => hnil.elim (by decide) h
  · exact h

theorem two_le_length_dropRest {α : Type*} {l : List α} (h : 2 ≤ l.length) :
    2 ≤ (dropRest l).length := by
  unfold dropRest
  split_ifs
  · rw [List.length_take]
    omega
  · exact h

theorem dropRest_map {α β : Type*} (f : α → β) (l : List α) :
    dropRest (l.map f) = (dropRest l).map f := by
  unfold dropRest
  rw [List.length_map]
  split_ifs
  · rw [List.map_take]
  · rfl

namespace AsyncLogging

variable {s : AsyncLogging}

/-- **What a step does to the buffers.** -/
inductive Moves (s : AsyncLogging) : List AsyncEvent → LogServer → Prop
  /-- Nothing, or no more than a flush. -/
  | still {t : List AsyncEvent} {s' : LogServer} (quiet : t = [] ∨ t = [.flushed])
      (current : s'.currentBuffer = s.currentBuffer) (buffers : s'.buffers = s.buffers)
      (unsent : s'.unsent = s.unsent) (undropped : s'.undropped = s.undropped) : Moves s t s'
  /-- A message goes into the current buffer. -/
  | put {logline : List UInt8} {b b' : FixedBuffer} (fits : logline.length < kLargeBuffer)
      (current : s.currentBuffer = some b) (data : b'.data = b.data ++ logline) :
      Moves s [.appended logline] { s.toLogServer with currentBuffer := some b' }
  /-- A message goes into a new buffer. -/
  | roll {logline : List UInt8} {b b' : FixedBuffer} (fits : logline.length < kLargeBuffer)
      (current : s.currentBuffer = some b) (data : b'.data = logline) :
      Moves s [.appended logline]
        { s.toLogServer with
          buffers := s.buffers ++ [b], currentBuffer := some b', nextBuffer := none }
  /-- A message that no buffer is large enough for brings a new buffer, and is
  lost. -/
  | lose {logline : List UInt8} {b b' : FixedBuffer} (long : kLargeBuffer ≤ logline.length)
      (current : s.currentBuffer = some b) (data : b'.data = []) :
      Moves s [.appended logline]
        { s.toLogServer with
          buffers := s.buffers ++ [b], currentBuffer := some b', nextBuffer := none }
  /-- The log thread takes all buffers. -/
  | swap {s' : LogServer} {b b' : FixedBuffer} (swapping : s.Swapping)
      (current : s.currentBuffer = some b) (current' : s'.currentBuffer = some b')
      (data : b'.data = []) (buffers : s'.buffers = []) (pc : s'.pc = .swapped)
      (batch : s'.buffersToWrite = s.buffers ++ [b]) : Moves s [] s'
  /-- The batch is cut down if it is too long. -/
  | drop {time : List UInt8} (pc : s.pc = .swapped) :
      Moves s (.batch s.buffersToWrite :: dropLines time s.buffersToWrite.length)
        { s.toLogServer with pc := .sending 0, buffersToWrite := dropRest s.buffersToWrite }
  /-- A buffer is written. -/
  | write {i : ℕ} {b : FixedBuffer} (pc : s.pc = .sending i) (get : s.buffersToWrite[i]? = some b) :
      Moves s [.wrote b.data] { s.toLogServer with pc := .sending (i + 1) }

/-- What a step of the log thread or of a thread that logs leaves alone. -/
structure SameOwner (s s' : AsyncLogging) : Prop where
  started : s'.started = s.started
  joined : s'.joined = s.joined
  owner : s'.owner = s.owner
  isRunning : s'.isRunning = s.isRunning
  aborted : s'.aborted = s.aborted

/-! ## `append` -/

/-- What a new buffer makes of a message. -/
theorem data_fresh (hok : LogOk s.toLogServer) (logline : List UInt8) :
    ((s.nextBuffer.getD .empty).append logline).data =
      if logline.length < kLargeBuffer then logline else [] := by
  have hdata : (s.nextBuffer.getD .empty).data = [] := by
    cases h : s.nextBuffer with
    | none => rfl
    | some b => exact hok.next_data b h
  have havail : (s.nextBuffer.getD .empty).avail = kLargeBuffer := by
    rw [FixedBuffer.avail, FixedBuffer.length, hdata]
    rfl
  split_ifs with hfits
  · rw [FixedBuffer.data_append _ (by rw [havail]; exact hfits), hdata, List.nil_append]
  · rw [FixedBuffer.append, dif_neg (by rw [havail]; exact hfits), hdata]

theorem asyncOk_append (hok : LogOk s.toLogServer) (logline : List UInt8) :
    LogOk (s.append logline).2.toLogServer ∧
      Moves s (s.append logline).1 (s.append logline).2.toLogServer ∧
      SameOwner s (s.append logline).2 ∧ (s.append logline).2.latch = s.latch ∧
      (s.append logline).2.pc = s.pc := by
  obtain ⟨b, hb⟩ := hok.current
  have hmax : b.avail ≤ kLargeBuffer := Nat.sub_le ..
  simp only [append, hb]
  by_cases hroom : logline.length < b.avail
  · rw [if_pos hroom]
    exact ⟨{ hok with current := ⟨_, rfl⟩ },
      Moves.put (hroom.trans_le hmax) hb (b.data_append hroom), ⟨rfl, rfl, rfl, rfl, rfl⟩, rfl, rfl⟩
  · rw [if_neg hroom]
    have hdata := data_fresh hok logline
    refine ⟨{ hok with
      current := ⟨_, rfl⟩
      next_data := (fun _ h => by cases h)
      next_none := fun _ => by simp }, ?_, ⟨rfl, rfl, rfl, rfl, rfl⟩, rfl, rfl⟩
    by_cases hfits : logline.length < kLargeBuffer
    · rw [if_pos hfits] at hdata
      exact Moves.roll hfits hb hdata
    · rw [if_neg hfits] at hdata
      exact Moves.lose (Nat.not_lt.mp hfits) hb hdata

/-! ## `threadFunc` -/

theorem moves_swap (hok : LogOk s.toLogServer) (hpc : s.Swapping) :
    Moves s [] s.swap ∧ s.swap.aborted = s.aborted ∧ s.swap.isRunning = s.isRunning := by
  obtain ⟨b, b₁, b₂, hb, hb₁, hb₂, heq⟩ := LogServer.swap_eq hok hpc
  rw [heq]
  exact ⟨Moves.swap hpc hb rfl (hok.spare1 b₁ hb₁) rfl rfl rfl, rfl, rfl⟩

theorem moves_recycle (hok : LogOk s.toLogServer) {i : ℕ} (hpc : s.pc = .sending i)
    (hget : s.buffersToWrite[i]? = none) :
    Moves s [.flushed] s.recycle ∧ s.recycle.aborted = s.aborted ∧
      s.recycle.isRunning = s.isRunning ∧ s.recycle.pc = .loopHead := by
  have hspares : SparesOk s.newBuffer1 s.newBuffer2 s.buffersToWrite := by
    simpa only [LogServer.LocalsOk, hpc] using hok.locals
  obtain ⟨b₁, b₂, hb₁, hb₂, heq⟩ := LogServer.recycle_eq hok hspares
  rw [heq]
  refine ⟨Moves.still (Or.inr rfl) rfl rfl ?_ ?_, rfl, rfl, rfl⟩
  · rw [List.getElem?_eq_none_iff] at hget
    simp [LogServer.unsent, hpc, List.drop_eq_nil_of_le hget]
  · simp [LogServer.undropped, hpc]

/-- Where the log thread gets to. -/
structure Advances (s s' : AsyncLogging) : Prop where
  latch : s'.latch = if s.pc = .start then s.latch - 1 else s.latch
  begun : s'.pc ≠ .start
  idle : s'.pc = .idle ↔ s.pc = .idle
  returned : s'.pc = .returned → s.pc = .returned ∨ s.isRunning = false
  stays : s.pc = .returned → s'.pc = .returned

/-- What a part of `threadFunc` does. -/
structure ThreadStep (s : AsyncLogging) (r : List AsyncEvent × AsyncLogging) : Prop where
  ok : LogOk r.2.toLogServer
  moves : Moves s r.1 r.2.toLogServer
  owner : SameOwner s r.2
  advances : Advances s r.2

theorem threadStep_swap (hok : LogOk s.toLogServer) (hpc : s.Swapping) :
    ThreadStep s ([], { s with toLogServer := s.swap }) := by
  obtain ⟨hmoves, haborted, hrunning⟩ := moves_swap hok hpc
  have hswapped : s.swap.pc = .swapped := by
    obtain ⟨b, b₁, b₂, -, -, -, heq⟩ := LogServer.swap_eq hok hpc
    rw [heq]
  have hnot : ¬ s.pc = .start := by
    rcases hpc with h | h <;> simp [h]
  refine ⟨(LogServer.logOk_swap hok hpc).1, hmoves, ⟨rfl, rfl, rfl, hrunning, haborted⟩, ?_⟩
  have hthere : s.pc ≠ .idle ∧ s.pc ≠ .returned := by
    rcases hpc with h | h <;> simp [h]
  refine ⟨(if_neg hnot).symm, ?_, ?_, ?_, ?_⟩ <;> simp [hswapped, hthere]

/-- **A part of `threadFunc`** keeps the invariant, if the thread is running
at its start. -/
theorem threadStep (hok : LogOk s.toLogServer) (hlive : s.aborted = false)
    (hrun : s.pc = .start → s.isRunning = true) (time : List UInt8) :
    ThreadStep s (s.threadFunc time) := by
  have hlocals := hok.locals
  unfold LogServer.LocalsOk at hlocals
  cases hpc : s.pc with
  | idle =>
    simp only [threadFunc, hpc]
    exact ⟨hok, Moves.still (Or.inl rfl) rfl rfl rfl rfl, ⟨rfl, rfl, rfl, rfl, rfl⟩,
      ⟨by simp [hpc], by simp [hpc], Iff.rfl, fun h => Or.inl h, fun h => h⟩⟩
  | returned =>
    simp only [threadFunc, hpc]
    exact ⟨hok, Moves.still (Or.inl rfl) rfl rfl rfl rfl, ⟨rfl, rfl, rfl, rfl, rfl⟩,
      ⟨by simp [hpc], by simp [hpc], Iff.rfl, fun _ => Or.inl hpc, fun h => h⟩⟩
  | start =>
    simp only [threadFunc, hpc, hrun hpc, if_true]
    refine ⟨{ hok with
      spare1 := fun b h => ?_, spare2 := fun b h => ?_, locals := ⟨by simp, by simp, rfl⟩ },
      Moves.still (Or.inl rfl) rfl rfl ?_ ?_, ⟨rfl, rfl, rfl, (hrun hpc).symm, rfl⟩, ?_⟩
    · cases h; rfl
    · cases h; rfl
    · simp [LogServer.unsent, hpc]
    · simp [LogServer.undropped, hpc]
    · exact ⟨by simp [hpc], by simp, by simp [hpc], by simp, by simp [hpc]⟩
  | loopHead =>
    rw [hpc] at hlocals
    obtain ⟨hspare1, hspare2, hempty⟩ := hlocals
    have hspares : LogServer.Spare s.newBuffer1 ∧ LogServer.Spare s.newBuffer2 ∧
        s.buffersToWrite = [] :=
      ⟨LogServer.spare_of_data hspare1 hok.spare1, LogServer.spare_of_data hspare2 hok.spare2,
        hempty⟩
    simp only [threadFunc, hpc, if_pos hspares]
    split_ifs with hrunning
    · exact ⟨{ hok with locals := ⟨hspare1, hspare2, hempty⟩ },
        Moves.still (Or.inl rfl) rfl rfl (by simp [LogServer.unsent, hpc])
          (by simp [LogServer.undropped, hpc]), ⟨rfl, rfl, rfl, rfl, rfl⟩,
        ⟨by simp [hpc], by simp, by simp [hpc], by simp, by simp [hpc]⟩⟩
    · -- the locals go with the thread
      exact ⟨{ hok with
        spare1 := (fun _ h => by cases h), spare2 := (fun _ h => by cases h), locals := rfl },
        Moves.still (Or.inr rfl) rfl rfl (by simp [LogServer.unsent, hpc])
          (by simp [LogServer.undropped, hpc]), ⟨rfl, rfl, rfl, rfl, rfl⟩,
        ⟨by simp [hpc], by simp, by simp [hpc], fun _ => Or.inr (Bool.eq_false_iff.mpr hrunning),
          by simp [hpc]⟩⟩
  | lock =>
    rw [hpc] at hlocals
    simp only [threadFunc, hpc]
    split_ifs
    · exact ⟨{ hok with locals := hlocals },
        Moves.still (Or.inl rfl) rfl rfl (by simp [LogServer.unsent, hpc])
          (by simp [LogServer.undropped, hpc]), ⟨rfl, rfl, rfl, rfl, rfl⟩,
        ⟨by simp [hpc], by simp, by simp [hpc], by simp, by simp [hpc]⟩⟩
    · exact threadStep_swap hok (Or.inl hpc)
  | waiting =>
    simp only [threadFunc, hpc]
    exact threadStep_swap hok (Or.inr hpc)
  | swapped =>
    rw [hpc] at hlocals
    simp only [threadFunc, hpc, if_neg hlocals.ne_nil]
    -- the two buffers that are left give back what the swap has cost
    exact ⟨{ hok with
      locals := ⟨hlocals.spare1, dropRest_ne_nil hlocals.ne_nil,
        fun h => two_le_length_dropRest (hlocals.spare2 h)⟩ }, Moves.drop hpc,
      ⟨rfl, rfl, rfl, rfl, rfl⟩, ⟨by simp [hpc], by simp, by simp [hpc], by simp, by simp [hpc]⟩⟩
  | sending i =>
    rw [hpc] at hlocals
    cases hget : s.buffersToWrite[i]? with
    | some b =>
      simp only [threadFunc, hpc, hget]
      exact ⟨{ hok with locals := hlocals }, Moves.write hpc hget, ⟨rfl, rfl, rfl, rfl, rfl⟩,
        ⟨by simp [hpc], by simp, by simp [hpc], by simp, by simp [hpc]⟩⟩
    | none =>
      obtain ⟨hmoves, haborted, hrunning, hhead⟩ := moves_recycle hok hpc hget
      simp only [threadFunc, hpc, hget, haborted, hlive, Bool.false_eq_true, if_false]
      exact ⟨(LogServer.logOk_recycle hok hpc hget).1, hmoves,
        ⟨rfl, rfl, rfl, hrunning, haborted⟩,
        ⟨by simp [hpc], by simp [hhead], by simp [hhead, hpc], by simp [hhead], by simp [hpc]⟩⟩

/-! ## The owner's calls -/

/-- The calls of `start` and `stop`. -/
def ownerCalls (steps : List AsyncStep) : List AsyncStep :=
  steps.filter fun a => a = .start ∨ a = .stop

/-- **What holds behind the owner's calls.** While the log thread is at its
start, the owner is in `start`. -/
inductive Phase (s : AsyncLogging) : List AsyncStep → Prop
  | created (started : s.started = false) (joined : s.joined = false) (owner : s.owner = .idle)
      (latch : s.latch = 1) (pc : s.pc = .idle) : Phase s []
  | running (started : s.started = true) (joined : s.joined = false)
      (isRunning : s.isRunning = true) (owner : s.owner = .starting ∨ s.owner = .idle)
      (waits : s.owner = .idle → s.latch ≤ 0) (latch : s.latch = if s.pc = .start then 1 else 0)
      (pc : s.pc ≠ .idle) (stays : s.pc ≠ .returned) : Phase s [.start]
  | stopped (started : s.started = true) (joined : s.joined = true)
      (owner : s.owner = .stopping ∨ s.owner = .idle) (begun : s.pc ≠ .start) (pc : s.pc ≠ .idle)
      (joins : s.owner = .idle → s.pc = .returned) : Phase s [.start, .stop]

/-- **The invariant** of a logger that has not failed. -/
structure AsyncOk (s : AsyncLogging) (calls : List AsyncStep) : Prop where
  ok : LogOk s.toLogServer
  live : s.aborted = false
  phase : Phase s calls

theorem asyncOk_init : AsyncOk {} [] :=
  ⟨logOk_init, rfl, Phase.created rfl rfl rfl rfl rfl⟩

theorem AsyncOk.running_of_start {calls : List AsyncStep} (h : AsyncOk s calls)
    (hpc : s.pc = .start) : s.isRunning = true := by
  cases h.phase with
  | created started joined owner latch pc => rw [hpc] at pc; cases pc
  | running started joined isRunning => exact isRunning
  | stopped started joined owner begun => exact absurd hpc begun

variable {s' : AsyncLogging} {calls : List AsyncStep}

/-- A step of another thread, the log thread staying where it is. -/
theorem Phase.congr (h : Phase s calls) (hsame : SameOwner s s') (hlatch : s'.latch = s.latch)
    (hpc : s'.pc = s.pc) : Phase s' calls := by
  obtain ⟨hstarted, hjoined, howner, hrunning, -⟩ := hsame
  cases h with
  | created started joined owner latch pc =>
    exact Phase.created (hstarted.trans started) (hjoined.trans joined) (howner.trans owner)
      (hlatch.trans latch) (hpc.trans pc)
  | running started joined isRunning owner waits latch pc stays =>
    refine Phase.running (hstarted.trans started) (hjoined.trans joined)
      (hrunning.trans isRunning) ?_ ?_ ?_ ?_ ?_
    · rwa [howner]
    · rwa [howner, hlatch]
    · rwa [hlatch, hpc]
    · rwa [hpc]
    · rwa [hpc]
  | stopped started joined owner begun pc joins =>
    refine Phase.stopped (hstarted.trans started) (hjoined.trans joined) ?_ ?_ ?_ ?_
    · rwa [howner]
    · rwa [hpc]
    · rwa [hpc]
    · rwa [howner, hpc]

/-- A step of the log thread. -/
theorem Phase.advance (h : Phase s calls) (hsame : SameOwner s s') (hadv : Advances s s') :
    Phase s' calls := by
  obtain ⟨hstarted, hjoined, howner, hrunning, -⟩ := hsame
  cases h with
  | created started joined owner latch pc =>
    have hlatch := hadv.latch
    rw [if_neg (by rw [pc]; simp)] at hlatch
    exact Phase.created (hstarted.trans started) (hjoined.trans joined) (howner.trans owner)
      (hlatch.trans latch) (hadv.idle.mpr pc)
  | running started joined isRunning owner waits latch pc stays =>
    have hzero : s'.latch = 0 := by
      rw [hadv.latch, latch]
      split_ifs <;> rfl
    refine Phase.running (hstarted.trans started) (hjoined.trans joined)
      (hrunning.trans isRunning) ?_ ?_ ?_ ?_ ?_
    · rwa [howner]
    · exact fun _ => hzero.le
    · rw [hzero, if_neg hadv.begun]
    · exact fun h => pc (hadv.idle.mp h)
    · intro h
      rcases hadv.returned h with h | h
      · exact stays h
      · rw [isRunning] at h
        cases h
  | stopped started joined owner begun pc joins =>
    refine Phase.stopped (hstarted.trans started) (hjoined.trans joined) ?_ hadv.begun ?_ ?_
    · rwa [howner]
    · exact fun h => pc (hadv.idle.mp h)
    · intro h
      rw [howner] at h
      exact hadv.stays (joins h)

/-- `start` starts the thread of a logger that has none; a second one finds it
has one, and so does one behind `stop`. -/
theorem asyncOk_start (h : AsyncOk s calls) :
    Moves s [] s.start.toLogServer ∧ (AsyncOk s.start (calls ++ ownerCalls [.start]) ∨
      (s.start.aborted = true ∧ ¬ calls ++ ownerCalls [.start] <+: [.start, .stop])) := by
  cases h.phase with
  | created started joined owner latch pc =>
    have hstart : s.start =
        { s with isRunning := true, started := true, pc := .start, owner := .starting } :=
      if_neg (by rw [started]; simp)
    rw [hstart]
    have hlocals := h.ok.locals
    simp only [LogServer.LocalsOk, pc] at hlocals
    refine ⟨Moves.still (Or.inl rfl) rfl rfl (by simp [LogServer.unsent, pc])
      (by simp [LogServer.undropped, pc]), Or.inl ?_⟩
    exact ⟨{ h.ok with locals := hlocals }, h.live, Phase.running rfl joined rfl (Or.inl rfl)
      (fun howner => by cases howner) (by simp [latch]) (by simp) (by simp)⟩
  | running started | stopped started =>
    have hstart : s.start = { s with isRunning := true, aborted := true } := if_pos started
    rw [hstart]
    exact ⟨Moves.still (Or.inl rfl) rfl rfl rfl rfl, Or.inr ⟨rfl, by simp [ownerCalls]⟩⟩

/-- `stop` ends the thread of a logger that has been started; there has to be
one, and it can be joined once. -/
theorem asyncOk_stop (h : AsyncOk s calls) (hidle : s.owner = .idle) :
    Moves s [] s.stop.toLogServer ∧ (AsyncOk s.stop (calls ++ ownerCalls [.stop]) ∨
      (s.stop.aborted = true ∧ ¬ calls ++ ownerCalls [.stop] <+: [.start, .stop])) := by
  cases h.phase with
  | created started joined owner latch pc =>
    have hstop : s.stop = { s with isRunning := false, aborted := true } :=
      if_neg (by simp [started])
    rw [hstop]
    exact ⟨Moves.still (Or.inl rfl) rfl rfl rfl rfl, Or.inr ⟨rfl, by simp [ownerCalls]⟩⟩
  | running started joined isRunning owner waits latch pc stays =>
    have hstop : s.stop = { s with isRunning := false, joined := true, owner := .stopping } :=
      if_pos ⟨started, by rw [joined]; simp⟩
    -- `start` has returned, so the latch has been counted down
    have hbegun : s.pc ≠ .start := by
      intro hpc
      rw [if_pos hpc] at latch
      have := waits hidle
      omega
    rw [hstop]
    exact ⟨Moves.still (Or.inl rfl) rfl rfl rfl rfl, Or.inl ⟨{ h.ok with }, h.live,
      Phase.stopped started rfl (Or.inl rfl) hbegun pc (fun howner => by cases howner)⟩⟩
  | stopped started joined =>
    have hstop : s.stop = { s with isRunning := false, aborted := true } :=
      if_neg (by simp [joined])
    rw [hstop]
    exact ⟨Moves.still (Or.inl rfl) rfl rfl rfl rfl, Or.inr ⟨rfl, by simp [ownerCalls]⟩⟩

/-- **A step keeps the invariant**, or the owner has called `start` or `stop`
where it may not. -/
theorem asyncStep (h : AsyncOk s calls) {a : AsyncStep} (hen : s.Enabled a) :
    Moves s (s.step a).1 (s.step a).2.toLogServer ∧
      (AsyncOk (s.step a).2 (calls ++ ownerCalls [a]) ∨
        ((s.step a).2.aborted = true ∧ ¬ calls ++ ownerCalls [a] <+: [.start, .stop])) := by
  have hstill : Moves s [] s.toLogServer := Moves.still (Or.inl rfl) rfl rfl rfl rfl
  cases a with
  | append logline =>
    obtain ⟨hok, hmoves, hsame, hlatch, hpc⟩ := asyncOk_append h.ok logline
    refine ⟨hmoves, Or.inl ⟨hok, hsame.aborted.trans h.live, ?_⟩⟩
    rw [show ownerCalls [.append logline] = [] from rfl, List.append_nil]
    exact h.phase.congr hsame hlatch hpc
  | log time =>
    have ht := threadStep h.ok h.live h.running_of_start time
    refine ⟨ht.moves, Or.inl ⟨ht.ok, ht.owner.aborted.trans h.live, ?_⟩⟩
    rw [show ownerCalls [.log time] = [] from rfl, List.append_nil]
    exact h.phase.advance ht.owner ht.advances
  | start => exact asyncOk_start h
  | started =>
    obtain ⟨howner, hlatch⟩ : s.owner = .starting ∧ s.latch ≤ 0 := hen.2
    refine ⟨hstill, Or.inl ⟨h.ok, h.live, ?_⟩⟩
    rw [show ownerCalls [.started] = [] from rfl, List.append_nil]
    cases h.phase with
    | created started joined owner => rw [howner] at owner; cases owner
    | running started joined isRunning owner waits latch pc stays =>
      exact Phase.running started joined isRunning (Or.inr rfl) (fun _ => hlatch) latch pc stays
    | stopped started joined owner => rw [howner] at owner; simp at owner
  | stop => exact asyncOk_stop h hen.2
  | stopped =>
    obtain ⟨howner, hreturned⟩ : s.owner = .stopping ∧ s.pc = .returned := hen.2
    refine ⟨hstill, Or.inl ⟨h.ok, h.live, ?_⟩⟩
    rw [show ownerCalls [.stopped] = [] from rfl, List.append_nil]
    cases h.phase with
    | created started joined owner => rw [howner] at owner; cases owner
    | running started joined isRunning owner => rw [howner] at owner; simp at owner
    | stopped started joined owner begun pc joins =>
      exact Phase.stopped started joined (Or.inr rfl) begun pc fun _ => hreturned

/-! ## Whole runs -/

/-- A run of the logger the constructor has left. -/
abbrev Runs (steps : List AsyncStep) : Prop :=
  asyncMachine.Valid AsyncLogging.Enabled {} steps

theorem ownerCalls_concat (steps : List AsyncStep) (a : AsyncStep) :
    ownerCalls (steps ++ [a]) = ownerCalls steps ++ ownerCalls [a] :=
  List.filter_append ..

/-- **After a run** the invariant holds, or the owner's calls are not one
`start` and one `stop` after it. -/
theorem asyncOk_run {steps : List AsyncStep} (hv : Runs steps) :
    AsyncOk (asyncMachine.after {} steps) (ownerCalls steps) ∨
      ((asyncMachine.after {} steps).aborted = true ∧
        ¬ ownerCalls steps <+: [.start, .stop]) := by
  induction steps using List.reverseRecOn with
  | nil => exact Or.inl asyncOk_init
  | append_singleton steps a ih =>
    obtain ⟨hv, hen, -⟩ := asyncMachine.valid_append.mp hv
    rw [asyncMachine.after_concat, ownerCalls_concat]
    rcases ih hv with h | ⟨haborted, -⟩
    · exact (asyncStep h hen).2
    · -- nothing can be done after a failed assertion
      rw [hen.1] at haborted
      cases haborted

theorem AsyncOk.prefix_of_calls (h : AsyncOk s calls) : calls <+: [.start, .stop] := by
  cases h.phase with
  | created => exact List.nil_prefix
  | running => exact ⟨[.stop], rfl⟩
  | stopped => exact List.prefix_rfl

/-- A run in which nothing has failed keeps the invariant. -/
theorem asyncOk_of_live {steps : List AsyncStep} (hv : Runs steps)
    (hlive : (asyncMachine.after {} steps).aborted = false) :
    AsyncOk (asyncMachine.after {} steps) (ownerCalls steps) := by
  rcases asyncOk_run hv with h | ⟨haborted, -⟩
  · exact h
  · rw [hlive] at haborted
    cases haborted

/-- **When an assertion fails.** Whatever the threads that log do and however
their steps fall between those of the log thread, no assertion fails and no
null pointer is used, if and only if the owner has called `start` at most once
and `stop` at most once and not before. -/
theorem neverFails_iff {steps : List AsyncStep} (hv : Runs steps) :
    (asyncMachine.after {} steps).aborted = false ↔ ownerCalls steps <+: [.start, .stop] := by
  rcases asyncOk_run hv with h | ⟨haborted, hcalls⟩
  · exact ⟨fun _ => h.prefix_of_calls, fun _ => h.live⟩
  · rw [haborted]
    exact ⟨(fun h => by cases h), fun h => absurd h hcalls⟩

/-- The log thread starts, waits, is woken up and writes what there is; the
owner has stopped it, and it returns. -/
def roundTrip : List AsyncStep :=
  [.start, .log [], .started, .append [72, 105], .log [], .log [], .append [33], .stop, .log [],
    .log [], .log [], .log [], .log [], .stopped]

theorem neverFails_roundTrip :
    (asyncMachine.after {} roundTrip).aborted = false ↔ ownerCalls roundTrip <+: [.start, .stop] :=
  neverFails_iff (by decide)

end AsyncLogging

end TelnetServ
