import TelnetServ.Queue.Model
/-!
# The log queue — the buffers go round

Between the steps `currentBuffer_` is never null, and `nextBuffer_` is null
only if `buffers_` is not empty: so a batch that has cost the log thread
both its spare buffers is at least two buffers long, and gives it two back.
`logOk_step` keeps that, and says what each step does to the queue.
-/

namespace TelnetServ

/-- A batch that gives back the spare buffers it has cost. -/
structure SparesOk (newBuffer1 newBuffer2 : Option FixedBuffer) (batch : List FixedBuffer) :
    Prop where
  spare1 : newBuffer1 = none
  ne_nil : batch ≠ []
  spare2 : newBuffer2 = none → 2 ≤ batch.length

namespace LogServer

variable (s : LogServer)

/-- What holds of the log thread's locals where it is. -/
def LocalsOk : Prop :=
  match s.pc with
  | .idle | .start | .returned => s.buffersToWrite = []
  | .loopHead | .lock | .waiting =>
    s.newBuffer1 ≠ none ∧ s.newBuffer2 ≠ none ∧ s.buffersToWrite = []
  | .swapped | .sending _ => SparesOk s.newBuffer1 s.newBuffer2 s.buffersToWrite

/-- The buffers not yet through the send loop. -/
def unsent : List FixedBuffer :=
  match s.pc with
  | .swapped => s.buffersToWrite
  | .sending i => s.buffersToWrite.drop i
  | .idle | .start | .loopHead | .lock | .waiting | .returned => []

/-- The batch whose size has not been tested yet. -/
def undropped : List FixedBuffer :=
  match s.pc with
  | .swapped => s.buffersToWrite
  | .idle | .start | .loopHead | .lock | .waiting | .sending _ | .returned => []

/-- The log thread has passed its test of `isRunning_` and not yet swapped. -/
def Swapping : Prop := s.pc = .lock ∨ s.pc = .waiting

instance : Decidable s.Swapping := by unfold Swapping; infer_instance

end LogServer

/-- **The invariant.** -/
structure LogOk (s : LogServer) : Prop where
  current : ∃ current, s.currentBuffer = some current
  next_data : ∀ b, s.nextBuffer = some b → b.data = []
  next_none : s.nextBuffer = none → s.buffers ≠ []
  spare1 : ∀ b, s.newBuffer1 = some b → b.data = []
  spare2 : ∀ b, s.newBuffer2 = some b → b.data = []
  locals : s.LocalsOk

/-- **What a step does to the queue.** -/
inductive Move (s : LogServer) : LogStep → List LogEvent → LogServer → Prop
  /-- Nothing. The log thread gets past its test only while it is running. -/
  | still {a : LogStep} {s' : LogServer} (current : s'.currentBuffer = s.currentBuffer)
      (buffers : s'.buffers = s.buffers) (unsent : s'.unsent = s.unsent)
      (undropped : s'.undropped = s.undropped) (stays : s.Swapping → s'.Swapping)
      (swapping : s'.Swapping → s.Swapping ∨ s.isRunning = true) : Move s a [] s'
  /-- A message goes into the current buffer. -/
  | put {sockClient : ℤ} {logline : List UInt8} {b b' : FixedBuffer}
      (current : s.currentBuffer = some b) (data : b'.data = b.data ++ logline) :
      Move s (.append sockClient logline) [.accepted logline]
        { s with currentBuffer := some b' }
  /-- A message goes into a new buffer. -/
  | roll {sockClient : ℤ} {logline : List UInt8} {b b' : FixedBuffer}
      (current : s.currentBuffer = some b) (data : b'.data = logline) :
      Move s (.append sockClient logline) [.accepted logline]
        { s with buffers := s.buffers ++ [b], currentBuffer := some b', nextBuffer := none }
  /-- The log thread takes all buffers. -/
  | swap {s' : LogServer} {b b' : FixedBuffer} (swapping : s.Swapping)
      (current : s.currentBuffer = some b) (current' : s'.currentBuffer = some b')
      (data : b'.data = []) (buffers : s'.buffers = []) (pc : s'.pc = .swapped)
      (batch : s'.buffersToWrite = s.buffers ++ [b]) : Move s .log [] s'
  /-- The batch is cut down if it is too long. -/
  | drop (pc : s.pc = .swapped) :
      Move s .log [.batch s.buffersToWrite]
        { s with pc := .sending 0, buffersToWrite := dropTail s.buffersToWrite }
  /-- A buffer goes through the send loop. -/
  | hand {i : ℕ} {b : FixedBuffer} (pc : s.pc = .sending i) (get : s.buffersToWrite[i]? = some b) :
      Move s .log (if b.length = 0 then [] else [.handed b.data]) { s with pc := .sending (i + 1) }

/-! ## Small pieces -/

theorem dropTail_ne_nil {α : Type*} {l : List α} (h : l ≠ []) : dropTail l ≠ [] := by
  unfold dropTail
  split
  · intro hnil
    have := congrArg List.length hnil
    simp only [List.length_drop, List.length_nil] at this
    omega
  · exact h

theorem two_le_length_dropTail {α : Type*} {l : List α} (h : 2 ≤ l.length) :
    2 ≤ (dropTail l).length := by
  unfold dropTail
  split
  · rw [List.length_drop]; omega
  · exact h

theorem dropTail_map {α β : Type*} (f : α → β) (l : List α) :
    dropTail (l.map f) = (dropTail l).map f := by
  unfold dropTail
  rw [List.length_map]
  split
  · rw [List.map_drop]
  · rfl

theorem reclaim_none {l : List FixedBuffer} (h : l ≠ []) :
    ∃ b, b.data = [] ∧ reclaim none l = some (b, l.dropLast) :=
  ⟨(l.getLast h).resetData, rfl, by rw [reclaim, List.getLast?_eq_some_getLast h]; rfl⟩

namespace LogServer

variable {s : LogServer}

/-- **Both spare buffers can be had** behind the send loop. -/
theorem reclaims (hok : LogOk s) (hbatch : SparesOk s.newBuffer1 s.newBuffer2 s.buffersToWrite) :
    ∃ b₁ rest b₂ rest', b₁.data = [] ∧ b₂.data = [] ∧
      reclaim s.newBuffer1 (s.buffersToWrite.take 2) = some (b₁, rest) ∧
      reclaim s.newBuffer2 rest = some (b₂, rest') := by
  have htake : s.buffersToWrite.take 2 ≠ [] := by
    rw [Ne, List.take_eq_nil_iff]
    exact fun h => h.elim (by decide) hbatch.ne_nil
  obtain ⟨b₁, hb₁, hr₁⟩ := reclaim_none htake
  rw [hbatch.spare1]
  cases h₂ : s.newBuffer2 with
  | some b₂ => exact ⟨b₁, _, b₂, _, hb₁, hok.spare2 b₂ h₂, hr₁, rfl⟩
  | none =>
    -- both are missing: the batch has two buffers
    have hlast : (s.buffersToWrite.take 2).dropLast ≠ [] := by
      intro hnil
      have := congrArg List.length hnil
      have := hbatch.spare2 h₂
      simp only [List.length_dropLast, List.length_take, List.length_nil] at *
      omega
    obtain ⟨b₂, hb₂, hr₂⟩ := reclaim_none hlast
    exact ⟨b₁, _, b₂, _, hb₁, hb₂, hr₁, hr₂⟩

/-- **Every batch gives the spare buffers back.** -/
theorem recycle_eq (hok : LogOk s)
    (hbatch : SparesOk s.newBuffer1 s.newBuffer2 s.buffersToWrite) :
    ∃ b₁ b₂, b₁.data = [] ∧ b₂.data = [] ∧ s.recycle =
      { s with
        newBuffer1 := some b₁, newBuffer2 := some b₂, buffersToWrite := [], pc := .loopHead } := by
  obtain ⟨b₁, rest, b₂, rest', hb₁, hb₂, hr₁, hr₂⟩ := reclaims hok hbatch
  exact ⟨b₁, b₂, hb₁, hb₂, by simp only [recycle, hr₁, hr₂]⟩

/-- The buffer a message rolls over to has room for it. -/
theorem fresh_append (hok : LogOk s) {logline : List UInt8}
    (hlen : logline.length ≤ maxLogMsgLen) :
    ((s.nextBuffer.getD .empty).append logline).data = logline := by
  have hdata : (s.nextBuffer.getD .empty).data = [] := by
    cases h : s.nextBuffer with
    | none => rfl
    | some b => exact hok.next_data b h
  rw [FixedBuffer.data_append _ (FixedBuffer.lt_avail _ hdata hlen), hdata, List.nil_append]

/-- An empty spare buffer passes the assertion. -/
theorem spare_of_data {newBuffer : Option FixedBuffer} (hne : newBuffer ≠ none)
    (hdata : ∀ b, newBuffer = some b → b.data = []) : Spare newBuffer := by
  obtain ⟨b, rfl⟩ := Option.ne_none_iff_exists'.mp hne
  rw [Spare, Option.map_some, FixedBuffer.length, hdata b rfl]
  rfl

/-- **`appendToMsgBuf` does nothing, puts the message into the current
buffer or rolls over to a new one.** -/
theorem appendToMsgBuf_cases (hok : LogOk s) (sockClient : ℤ) (logline : List UInt8) :
    s.appendToMsgBuf sockClient logline = ([], s) ∨
      ∃ b b', s.currentBuffer = some b ∧
        ((b'.data = b.data ++ logline ∧ s.appendToMsgBuf sockClient logline =
            ([.accepted logline], { s with currentBuffer := some b' })) ∨
          (b'.data = logline ∧ s.appendToMsgBuf sockClient logline =
            ([.accepted logline],
              { s with
                buffers := s.buffers ++ [b], currentBuffer := some b', nextBuffer := none }))) := by
  obtain ⟨b, hb⟩ := hok.current
  unfold appendToMsgBuf
  rw [hb]
  by_cases hclient : sockClient = invalidSocket
  · rw [if_pos hclient]
    exact Or.inl rfl
  rw [if_neg hclient]
  by_cases hlen : maxLogMsgLen < logline.length
  · rw [if_pos hlen]
    exact Or.inl rfl
  rw [if_neg hlen]
  by_cases hroom : logline.length < b.avail
  · exact Or.inr ⟨b, b.append logline, rfl, Or.inl ⟨b.data_append hroom, if_pos hroom⟩⟩
  · exact Or.inr ⟨b, _, rfl, Or.inr ⟨fresh_append hok (Nat.not_lt.mp hlen), if_neg hroom⟩⟩

/-! ## The step lemma -/

theorem logOk_append (hok : LogOk s) (sockClient : ℤ) (logline : List UInt8) :
    LogOk (s.appendToMsgBuf sockClient logline).2 ∧
      Move s (.append sockClient logline) (s.appendToMsgBuf sockClient logline).1
        (s.appendToMsgBuf sockClient logline).2 := by
  rcases appendToMsgBuf_cases hok sockClient logline with
    h | ⟨b, b', hb, ⟨hdata, h⟩ | ⟨hdata, h⟩⟩
  · rw [h]
    exact ⟨hok, Move.still rfl rfl rfl rfl id Or.inl⟩
  · rw [h]
    exact ⟨{ hok with current := ⟨b', rfl⟩ }, Move.put hb hdata⟩
  · rw [h]
    exact ⟨{ hok with
      current := ⟨b', rfl⟩
      next_data := (fun _ h => by cases h)
      next_none := fun _ => by simp }, Move.roll hb hdata⟩

/-- What the swap comes to: both spare buffers are there to be used. -/
theorem swap_eq (hok : LogOk s) (hpc : s.Swapping) :
    ∃ b b₁ b₂, s.currentBuffer = some b ∧ s.newBuffer1 = some b₁ ∧ s.newBuffer2 = some b₂ ∧
      s.swap = { s with
        buffers := []
        currentBuffer := some b₁
        newBuffer1 := none
        buffersToWrite := s.buffers ++ [b]
        nextBuffer := s.nextBuffer.or (some b₂)
        newBuffer2 := if s.nextBuffer = none then none else some b₂
        pc := .swapped } := by
  obtain ⟨b, hb⟩ := hok.current
  have hlocals : s.newBuffer1 ≠ none ∧ s.newBuffer2 ≠ none ∧ s.buffersToWrite = [] := by
    have := hok.locals
    rcases hpc with h | h <;> simpa only [LocalsOk, h] using this
  obtain ⟨hspare1, hspare2, hempty⟩ := hlocals
  obtain ⟨b₁, hb₁⟩ := Option.ne_none_iff_exists'.mp hspare1
  obtain ⟨b₂, hb₂⟩ := Option.ne_none_iff_exists'.mp hspare2
  exact ⟨b, b₁, b₂, hb, hb₁, hb₂, by rw [swap, hb, hb₁, hb₂, hempty]⟩

/-- The swap: it costs the second spare buffer only if `buffers_` was not
empty. -/
theorem logOk_swap (hok : LogOk s) (hpc : s.Swapping) : LogOk s.swap ∧ Move s .log [] s.swap := by
  obtain ⟨b, b₁, b₂, hb, hb₁, hb₂, heq⟩ := swap_eq hok hpc
  rw [heq]
  refine ⟨?_, Move.swap hpc hb rfl (hok.spare1 b₁ hb₁) rfl rfl rfl⟩
  constructor
  case current => exact ⟨b₁, rfl⟩
  case next_data =>
    intro c h
    rcases Option.or_eq_some_iff.mp h with h | ⟨-, h⟩
    · exact hok.next_data c h
    · cases h
      exact hok.spare2 b₂ hb₂
  case next_none => exact fun h => absurd (Option.or_eq_none_iff.mp h).2 (by simp)
  case spare1 => exact fun c h => by cases h
  case spare2 =>
    intro c h
    by_cases hn : s.nextBuffer = none
    · simp [hn] at h
    · simp only [hn, if_false] at h
      cases h
      exact hok.spare2 b₂ hb₂
  case locals =>
    refine ⟨rfl, by simp, fun h => ?_⟩
    -- the second spare buffer has gone to `nextBuffer_`
    have hn : s.nextBuffer = none := by
      by_contra hn
      simp [hn] at h
    have := List.length_pos_iff.mpr (hok.next_none hn)
    rw [List.length_append, List.length_singleton]
    omega

/-- Away from the locked section the thread is not about to swap. -/
theorem not_swapping (hlock : s.pc ≠ .lock) (hwaiting : s.pc ≠ .waiting) : ¬ s.Swapping :=
  fun h => h.elim hlock hwaiting

/-- Behind the send loop: the two spare buffers are back, the batch is
gone. -/
theorem logOk_recycle (hok : LogOk s) {i : ℕ} (hpc : s.pc = .sending i)
    (hget : s.buffersToWrite[i]? = none) : LogOk s.recycle ∧ Move s .log [] s.recycle := by
  have hspares : SparesOk s.newBuffer1 s.newBuffer2 s.buffersToWrite := by
    simpa only [LocalsOk, hpc] using hok.locals
  obtain ⟨b₁, b₂, hb₁, hb₂, heq⟩ := recycle_eq hok hspares
  rw [heq]
  refine ⟨{ hok with
    spare1 := (fun _ h => by cases h; exact hb₁)
    spare2 := (fun _ h => by cases h; exact hb₂)
    locals := ⟨by simp, by simp, rfl⟩ }, Move.still rfl rfl ?_ ?_ ?_ ?_⟩
  · rw [List.getElem?_eq_none_iff] at hget
    simp [unsent, hpc, List.drop_eq_nil_of_le hget]
  · simp [undropped, hpc]
  · exact fun h => absurd h (not_swapping (by simp [hpc]) (by simp [hpc]))
  · exact fun h => absurd h (not_swapping (by simp) (by simp))

/-- The start of the thread: two new spare buffers, where it is running. -/
theorem logOk_start (hok : LogOk s) (hpc : s.pc = .start) :
    LogOk s.logOutPutFun.2 ∧ Move s .log s.logOutPutFun.1 s.logOutPutFun.2 := by
  simp only [logOutPutFun, hpc]
  split
  · refine ⟨{ hok with
      spare1 := fun b h => ?_, spare2 := fun b h => ?_, locals := ⟨by simp, by simp, rfl⟩ },
      Move.still rfl rfl ?_ ?_ ?_ ?_⟩
    · cases h; rfl
    · cases h; rfl
    · simp [unsent, hpc]
    · simp [undropped, hpc]
    · exact fun h => absurd h (not_swapping (by simp [hpc]) (by simp [hpc]))
    · exact fun h => absurd h (not_swapping (by simp) (by simp))
  · exact ⟨{ hok with }, Move.still rfl rfl rfl rfl id Or.inl⟩

/-- The loop head: the assertions hold, so the thread goes on or returns. -/
theorem logOk_loopHead (hok : LogOk s) (hpc : s.pc = .loopHead) :
    LogOk s.logOutPutFun.2 ∧ Move s .log s.logOutPutFun.1 s.logOutPutFun.2 := by
  obtain ⟨hspare1, hspare2, hempty⟩ :
      s.newBuffer1 ≠ none ∧ s.newBuffer2 ≠ none ∧ s.buffersToWrite = [] := by
    simpa only [LocalsOk, hpc] using hok.locals
  have hspares : Spare s.newBuffer1 ∧ Spare s.newBuffer2 ∧ s.buffersToWrite = [] :=
    ⟨spare_of_data hspare1 hok.spare1, spare_of_data hspare2 hok.spare2, hempty⟩
  have hout : ¬ s.Swapping := not_swapping (by simp [hpc]) (by simp [hpc])
  simp only [logOutPutFun, hpc, if_pos hspares]
  split
  case isTrue hrun =>
    exact ⟨{ hok with locals := ⟨hspare1, hspare2, hempty⟩ },
      Move.still rfl rfl (by simp [unsent, hpc]) (by simp [undropped, hpc])
        (fun h => absurd h hout) fun _ => Or.inr hrun⟩
  case isFalse =>
    -- the locals go with the thread
    exact ⟨{ hok with
      spare1 := (fun _ h => by cases h), spare2 := (fun _ h => by cases h), locals := rfl },
      Move.still rfl rfl (by simp [unsent, hpc]) (by simp [undropped, hpc])
        (fun h => absurd h hout) fun h => absurd h (not_swapping (by simp) (by simp))⟩

/-- A part of `LogOutPutFun`. -/
theorem logOk_logOutPutFun (hok : LogOk s) :
    LogOk s.logOutPutFun.2 ∧ Move s .log s.logOutPutFun.1 s.logOutPutFun.2 := by
  have hlocals := hok.locals
  unfold LocalsOk at hlocals
  cases hpc : s.pc with
  | idle =>
    simp only [logOutPutFun, hpc]
    exact ⟨hok, Move.still rfl rfl rfl rfl id Or.inl⟩
  | returned =>
    simp only [logOutPutFun, hpc]
    exact ⟨hok, Move.still rfl rfl rfl rfl id Or.inl⟩
  | start => exact logOk_start hok hpc
  | loopHead => exact logOk_loopHead hok hpc
  | lock =>
    rw [hpc] at hlocals
    simp only [logOutPutFun, hpc]
    split
    · exact ⟨{ hok with locals := hlocals },
        Move.still rfl rfl (by simp [unsent, hpc]) (by simp [undropped, hpc])
          (fun _ => Or.inr rfl) fun _ => Or.inl (Or.inl hpc)⟩
    · exact logOk_swap hok (Or.inl hpc)
  | waiting =>
    simp only [logOutPutFun, hpc]
    exact logOk_swap hok (Or.inr hpc)
  | swapped =>
    rw [hpc] at hlocals
    simp only [logOutPutFun, hpc, if_neg hlocals.ne_nil]
    -- what is left after the drop still gives back what the swap has cost
    exact ⟨{ hok with
      locals := ⟨hlocals.spare1, dropTail_ne_nil hlocals.ne_nil,
        fun h => two_le_length_dropTail (hlocals.spare2 h)⟩ }, Move.drop hpc⟩
  | sending i =>
    rw [hpc] at hlocals
    cases hget : s.buffersToWrite[i]? with
    | some b =>
      simp only [logOutPutFun, hpc, hget]
      exact ⟨{ hok with locals := hlocals }, Move.hand hpc hget⟩
    | none =>
      simp only [logOutPutFun, hpc, hget]
      exact logOk_recycle hok hpc hget

/-- **Every step keeps the invariant**, and does one of six things to the
queue. -/
theorem logOk_step (hok : LogOk s) {a : LogStep} (hen : s.Enabled a) :
    LogOk (s.step a).2 ∧ Move s a (s.step a).1 (s.step a).2 := by
  cases a with
  | init =>
    have hempty : s.buffersToWrite = [] := by
      have := hok.locals
      rcases hen.2 rfl with h | h <;> simpa only [LocalsOk, h] using this
    refine ⟨{ hok with locals := hempty }, Move.still rfl rfl ?_ ?_ ?_ ?_⟩
    · rcases hen.2 rfl with h | h <;> simp [unsent, h, step]
    · rcases hen.2 rfl with h | h <;> simp [undropped, h, step]
    · rcases hen.2 rfl with h | h <;>
        exact fun hswap => absurd hswap (not_swapping (by simp [h]) (by simp [h]))
    · exact fun h => absurd h (not_swapping (by simp [step]) (by simp [step]))
  | destory => exact ⟨{ hok with }, Move.still rfl rfl rfl rfl id Or.inl⟩
  | append sockClient logline => exact logOk_append hok sockClient logline
  | log => exact logOk_logOutPutFun hok

end LogServer

theorem logOk_init : LogOk {} where
  current := ⟨_, rfl⟩
  next_data := fun _ h => by cases h; rfl
  next_none := fun h => by cases h
  spare1 := fun _ h => by cases h
  spare2 := fun _ h => by cases h
  locals := rfl

end TelnetServ
