import TelnetServ.Send.Network
import Mathlib.Data.List.Basic
/-!
# Sending from two threads — what a connection receives

A connection should receive whole units, the last one perhaps cut by the
connection's end. Nothing in the code sees to it: neither thread holds a
lock over the sends of a unit, and the descriptor it sends on is a copy.
`wholeUnits_of_undisturbed` says what has to be seen to, in every run whose
sends do not break into a unit.
-/

namespace TelnetServ

namespace Net

variable (s : Net)

/-- The connection has ended. -/
def Closed (c : ℕ) : Prop := ∀ fd, s.fds fd ≠ some c

/-- The thread is in the middle of a unit on the connection. -/
structure MidOn (t : Thread) (c : ℕ) (call : Call) : Prop where
  calls : s.calls t = some call
  mid : call.MidUnit
  sentTo : s.sentTo t = some c

/-- What has been sent of a call's unit. -/
def sentPart (call : Call) : List (ℕ × UInt8) :=
  tagged call.unit (call.frame.pchBuf.take call.frame.nTotalSendLen.toNat)

/-- The bytes of the units with these numbers. -/
def unitBytes (passed : List (List UInt8)) (us : List ℕ) : List (ℕ × UInt8) :=
  us.flatMap fun u => tagged u (passed.getD u [])

/-- The connection's stream is whole units and `tail`. -/
def UnitsThen (c : ℕ) (tail : List (ℕ × UInt8)) : Prop :=
  ∃ us : List ℕ, (∀ u ∈ us, u < s.passed.length) ∧ s.streams c = unitBytes s.passed us ++ tail

/-- It is a part of a unit, from its beginning. -/
def PartOfUnit (passed : List (List UInt8)) (tail : List (ℕ × UInt8)) : Prop :=
  ∃ u bs, passed[u]? = some bs ∧ tail <+: tagged u bs

/-- **The connection has received whole units**, and of one more a part
that is still being sent or that its end has cut. -/
def WholeUnits (c : ℕ) : Prop :=
  ∃ tail, s.UnitsThen c tail ∧
    (tail = [] ∨ (∃ t call, s.MidOn t c call ∧ tail = sentPart call) ∨
      (s.Closed c ∧ PartOfUnit s.passed tail))

/-- The invariant of a connection: while it is open, the part it has of a
unit is the part a thread is in the middle of. -/
def ConnOk (c : ℕ) : Prop :=
  ∃ tail, s.UnitsThen c tail ∧
    ((∃ t call, s.MidOn t c call ∧ tail = sentPart call) ∨
      (tail = [] ∧ ∀ t call, ¬ s.MidOn t c call) ∨
      (s.Closed c ∧ (tail = [] ∨ PartOfUnit s.passed tail)))

end Net

/-- A call that is inside the loop of `SockSend`. -/
structure CallOk (passed : List (List UInt8)) (call : Call) : Prop where
  running : call.frame.returned = none
  size : call.frame.pchBuf.length < 2 ^ 31
  nonneg : 0 ≤ call.frame.nTotalSendLen
  lt : call.frame.nTotalSendLen < call.frame.pchBuf.length
  buf : passed[call.unit]? = some call.frame.pchBuf

/-- **The invariant.** -/
structure NetOk (s : Net) : Prop where
  calls : ∀ t call, s.calls t = some call → CallOk s.passed call
  fds_lt : ∀ fd c, s.fds fd = some c → c < s.conns
  fds_inj : ∀ fd fd' c, s.fds fd = some c → s.fds fd' = some c → fd = fd'
  fresh : ∀ c, s.conns ≤ c → s.streams c = []
  mid : ∀ t c call, s.MidOn t c call →
    c < s.conns ∧ (s.fds call.localSock = some c ∨ s.Closed c)
  conn : ∀ c, s.ConnOk c

/-! ## One attempt -/

theorem Call.settle_eq_some {call call' : Call} :
    call.settle = some call' ↔ call = call' ∧ call.frame.returned = none := by
  unfold Call.settle
  by_cases h : call.frame.returned = none <;> simp [h]

section Attempt

variable {passed : List (List UInt8)} {call call' : Call}

/-- A unit keeps its number. -/
theorem getElem?_of_prefix {passed' : List (List UInt8)} (hsub : passed <+: passed') {u : ℕ}
    {bs : List UInt8} (h : passed[u]? = some bs) : passed'[u]? = some bs := by
  obtain ⟨more, rfl⟩ := hsub
  rw [List.getElem?_append_left (List.getElem?_eq_some_iff.mp h).1, h]

theorem CallOk.mono {passed' : List (List UInt8)} (h : CallOk passed call)
    (hsub : passed <+: passed') : CallOk passed' call :=
  ⟨h.running, h.size, h.nonneg, h.lt, getElem?_of_prefix hsub h.buf⟩

theorem Net.PartOfUnit.mono {passed' : List (List UInt8)} {tail : List (ℕ × UInt8)}
    (h : Net.PartOfUnit passed tail) (hsub : passed <+: passed') : Net.PartOfUnit passed' tail := by
  obtain ⟨u, bs, hu, hp⟩ := h
  exact ⟨u, bs, getElem?_of_prefix hsub hu, hp⟩

theorem Net.unitBytes_mono {passed' : List (List UInt8)} (hsub : passed <+: passed') {us : List ℕ}
    (hus : ∀ u ∈ us, u < passed.length) : Net.unitBytes passed' us = Net.unitBytes passed us := by
  refine List.flatMap_congr fun u hu => ?_
  have hget := List.getElem?_eq_getElem (hus u hu)
  rw [List.getD_eq_getElem?_getD, List.getD_eq_getElem?_getD, getElem?_of_prefix hsub hget, hget]

/-- A successful `send`: the total grows by what was taken, and the call is
over when that is all. -/
theorem CallOk.attempt_some (h : CallOk passed call) {n : ℕ}
    (hn : n ≤ call.frame.requested.length) :
    ((call.frame.attempt (some n)).2.returned = none ∧
        call.frame.nTotalSendLen + n < call.frame.pchBuf.length) ∨
      ((call.frame.attempt (some n)).2.returned ≠ none ∧
        call.frame.nTotalSendLen + n = call.frame.pchBuf.length) := by
  have h0 := h.nonneg
  have hlt := h.lt
  rw [SendFrame.requested, List.length_drop] at hn
  have hle : call.frame.nTotalSendLen + n ≤ call.frame.pchBuf.length := by omega
  have hshort := SendFrame.short_iff
    (f := { call.frame with nTotalSendLen := call.frame.nTotalSendLen + n })
    (by dsimp only; omega) hle h.size
  rcases SendFrame.loopHead_cases
      { call.frame with nTotalSendLen := call.frame.nTotalSendLen + n } h.running with
    ⟨hs, hret, -⟩ | ⟨hs, hret⟩
  · exact Or.inl ⟨hret, hshort.mp hs⟩
  · refine Or.inr ⟨?_, ?_⟩
    · rw [SendFrame.attempt, hret]
      exact Option.some_ne_none _
    · exact Int.le_antisymm hle (Int.not_lt.mp (mt hshort.mpr hs))

/-- The call behind it. -/
theorem CallOk.settle_some (h : CallOk passed call) {n : ℕ}
    (hn : n ≤ call.frame.requested.length)
    (hsettle : Call.settle { call with frame := (call.frame.attempt (some n)).2 } = some call') :
    CallOk passed call' ∧ call'.localSock = call.localSock ∧ call'.unit = call.unit ∧
      call'.frame.pchBuf = call.frame.pchBuf ∧
      call'.frame.nTotalSendLen = call.frame.nTotalSendLen + n := by
  obtain ⟨rfl, hret⟩ := Call.settle_eq_some.mp hsettle
  have htotal : (call.frame.attempt (some n)).2.nTotalSendLen =
      call.frame.nTotalSendLen + n := SendFrame.loopHead_nTotalSendLen _
  have hbuf : (call.frame.attempt (some n)).2.pchBuf = call.frame.pchBuf :=
    SendFrame.loopHead_pchBuf _
  have hlt := ((h.attempt_some hn).resolve_right fun hr => hr.1 hret).2
  have h0 := h.nonneg
  refine ⟨⟨hret, ?_, ?_, ?_, ?_⟩, rfl, rfl, hbuf, htotal⟩
  · exact hbuf ▸ h.size
  · dsimp only; omega
  · dsimp only; rw [htotal, hbuf]; exact hlt
  · dsimp only; rw [hbuf]; exact h.buf

/-- A failed `send`: the total stays or falls by one, and the call is over
when it falls below zero. -/
theorem CallOk.settle_none (h : CallOk passed call)
    (hsettle : Call.settle { call with frame := (call.frame.attempt none).2 } = some call') :
    CallOk passed call' ∧ call'.frame.nTotalSendLen ≤ call.frame.nTotalSendLen := by
  obtain ⟨rfl, hret⟩ := Call.settle_eq_some.mp hsettle
  revert hret
  dsimp only
  rw [SendFrame.attempt]
  split_ifs with htry
  · exact fun _ => ⟨⟨h.running, h.size, h.nonneg, h.lt, h.buf⟩, Int.le_refl _⟩
  · intro hret
    have h0 := h.nonneg
    have hlt := h.lt
    -- at `-1` the loop test fails and the call is over
    have hpos : 0 ≤ call.frame.nTotalSendLen + (-1) := by
      by_contra hneg
      have hs := SendFrame.not_short
        (f := { call.frame with nTotalSendLen := call.frame.nTotalSendLen + (-1) })
        (by dsimp only; omega) h.size
      rcases SendFrame.loopHead_cases
          { call.frame with nTotalSendLen := call.frame.nTotalSendLen + (-1) } h.running with
        ⟨hs', -⟩ | ⟨-, hret'⟩
      · exact hs hs'
      · rw [hret'] at hret; cases hret
    refine ⟨⟨hret, ?_, ?_, ?_, ?_⟩, ?_⟩
    · rw [SendFrame.loopHead_pchBuf]; exact h.size
    · rw [SendFrame.loopHead_nTotalSendLen]; exact hpos
    · rw [SendFrame.loopHead_nTotalSendLen, SendFrame.loopHead_pchBuf]; dsimp only; omega
    · rw [SendFrame.loopHead_pchBuf]; exact h.buf
    · rw [SendFrame.loopHead_nTotalSendLen]; dsimp only; omega

end Attempt

/-! ## Connections a step does not send to -/

/-- A thread that a step does not move is in the middle of what it was. -/
theorem Net.midOn_congr {s s' : Net} {t : Thread} (hcalls : s'.calls t = s.calls t)
    (hsent : s'.sentTo t = s.sentTo t) (c : ℕ) (call : Call) :
    s'.MidOn t c call ↔ s.MidOn t c call :=
  ⟨fun h => ⟨hcalls ▸ h.calls, h.mid, hsent ▸ h.sentTo⟩,
    fun h => ⟨hcalls.trans h.calls, h.mid, hsent.trans h.sentTo⟩⟩

/-- **A connection's invariant is kept** where its stream is not touched and
the threads in the middle of a unit on it stay so, unless it has ended. -/
theorem Net.ConnOk.keep {s s' : Net} {c : ℕ} (h : s.ConnOk c) (hok : NetOk s)
    (hpassed : s.passed <+: s'.passed) (hstream : s'.streams c = s.streams c)
    (hclosed : s.Closed c → s'.Closed c)
    (hmid : ∀ t call, s.MidOn t c call → s'.MidOn t c call ∨ s'.Closed c)
    (hmid' : ∀ t call, s'.MidOn t c call → s.MidOn t c call ∨ s'.Closed c) : s'.ConnOk c := by
  obtain ⟨tail, ⟨us, hus, hsplit⟩, htail⟩ := h
  refine ⟨tail, ⟨us, fun u hu => (hus u hu).trans_le hpassed.length_le, ?_⟩, ?_⟩
  · rw [hstream, hsplit, Net.unitBytes_mono hpassed hus]
  rcases htail with ⟨t, call, hm, rfl⟩ | ⟨rfl, hno⟩ | ⟨hcl, hcut⟩
  · rcases hmid t call hm with hm' | hcl'
    · exact Or.inl ⟨t, call, hm', rfl⟩
    · have hpart : Net.PartOfUnit s.passed (Net.sentPart call) :=
        ⟨_, _, (hok.calls t call hm.calls).buf, (List.take_prefix _ _).map _⟩
      exact Or.inr (Or.inr ⟨hcl', Or.inr (hpart.mono hpassed)⟩)
  · by_cases hcl' : s'.Closed c
    · exact Or.inr (Or.inr ⟨hcl', Or.inl rfl⟩)
    · exact Or.inr (Or.inl ⟨rfl, fun t call hm =>
        hno t call ((hmid' t call hm).resolve_right hcl')⟩)
  · exact Or.inr (Or.inr ⟨hclosed hcl, hcut.imp_right fun hpart => hpart.mono hpassed⟩)

/-! ## The steps -/

section Step

variable {s : Net}

/-- `sendMsgToTerminal` is entered at the beginning of its unit. -/
theorem callOk_enter {unit : ℕ} {sock : ℤ} {pchMsg : List UInt8} {passed : List (List UInt8)}
    (hsize : pchMsg.length < 2 ^ 31) (hmem : passed[unit]? = some pchMsg) {call : Call}
    (hcall : Call.settle ⟨unit, sock, sockSend sock (some pchMsg)⟩ = some call) :
    CallOk passed call ∧ call.frame.nTotalSendLen = 0 := by
  obtain ⟨rfl, hret⟩ := Call.settle_eq_some.mp hcall
  dsimp only at hret ⊢
  by_cases hsock : sock = invalidSocket
  · rw [sockSend, if_pos hsock] at hret
    cases hret
  · rw [sockSend, if_neg hsock] at hret ⊢
    have hshort := SendFrame.short_iff (f := { pchBuf := pchMsg }) (Int.le_refl 0)
      (Int.natCast_nonneg _) hsize
    rcases SendFrame.loopHead_cases { pchBuf := pchMsg } rfl with ⟨hs, -, -⟩ | ⟨-, hret'⟩
    · refine ⟨⟨hret, ?_, ?_, ?_, ?_⟩, by rw [SendFrame.loopHead_nTotalSendLen]⟩
      · rw [SendFrame.loopHead_pchBuf]; exact hsize
      · exact Int.le_of_eq (SendFrame.loopHead_nTotalSendLen { pchBuf := pchMsg }).symm
      · rw [SendFrame.loopHead_nTotalSendLen, SendFrame.loopHead_pchBuf]; exact hshort.mp hs
      · rw [SendFrame.loopHead_pchBuf]; exact hmem
    · rw [hret'] at hret; cases hret

theorem netOk_call {t : Thread} {pchMsg : List UInt8} (hok : NetOk s)
    (hen : s.Enabled (.call t pchMsg)) : NetOk (s.step (.call t pchMsg)) := by
  obtain ⟨hidle, -, hsize⟩ := hen
  have hpassed : s.passed <+: (s.step (.call t pchMsg)).passed := List.prefix_append _ _
  have hself : (s.step (.call t pchMsg)).calls t =
      Call.settle ⟨s.passed.length, s.sockClient, sockSend s.sockClient (some pchMsg)⟩ :=
    s.setCall_calls_self t _
  have hother : ∀ t', t' ≠ t → (s.step (.call t pchMsg)).calls t' = s.calls t' ∧
      (s.step (.call t pchMsg)).sentTo t' = s.sentTo t' :=
    fun t' ht => ⟨s.setCall_calls_ne ht _, Function.update_of_ne ht ..⟩
  have hnew : ∀ call, (s.step (.call t pchMsg)).calls t = some call →
      CallOk (s.step (.call t pchMsg)).passed call ∧ call.frame.nTotalSendLen = 0 :=
    fun call hcall => callOk_enter hsize List.getElem?_concat_length (hself.symm.trans hcall)
  have hmid : ∀ t' c call, (s.step (.call t pchMsg)).MidOn t' c call ↔ s.MidOn t' c call := by
    intro t' c call
    by_cases ht : t' = t
    · -- the call begins, so it is not in the middle of its unit
      subst ht
      refine iff_of_false (fun h => ?_) fun h => ?_
      · have hpos : 0 < call.frame.nTotalSendLen := h.mid
        rw [(hnew call h.calls).2] at hpos
        exact absurd hpos (Int.lt_irrefl 0)
      · rw [h.calls] at hidle; cases hidle
    · exact Net.midOn_congr (hother t' ht).1 (hother t' ht).2 c call
  refine ⟨fun t' call hcall => ?_, hok.fds_lt, hok.fds_inj, hok.fresh,
    fun t' c call hm => hok.mid t' c call ((hmid t' c call).mp hm), fun c => ?_⟩
  · by_cases ht : t' = t
    · subst ht
      exact (hnew call hcall).1
    · exact (hok.calls t' call ((hother t' ht).1.symm.trans hcall)).mono hpassed
  · exact (hok.conn c).keep hok hpassed rfl id (fun t' call hm => Or.inl ((hmid t' c call).mpr hm))
      fun t' call hm => Or.inl ((hmid t' c call).mp hm)

/-- A send that fails changes no stream, and the connection its unit began
on has ended. -/
theorem netOk_fail {t : Thread} (hok : NetOk s) (hen : s.Enabled (.fail t)) :
    NetOk (s.step (.fail t)) := by
  obtain ⟨call, hcall, hfd⟩ := hen
  have hstep : s.step (.fail t) =
      s.setCall t (Call.settle { call with frame := (call.frame.attempt none).2 }) := by
    simp only [Net.step, hcall]
  rw [hstep]
  generalize hset : Call.settle { call with frame := (call.frame.attempt none).2 } = x
  have hcallOk := hok.calls t call hcall
  -- the unit began on a connection whose descriptor is gone
  have hended : ∀ c, s.MidOn t c call → s.Closed c := fun c hm =>
    (hok.mid t c call hm).2.resolve_left fun h => by rw [hfd] at h; cases h
  have hback : ∀ t' c call', (s.setCall t x).MidOn t' c call' →
      s.MidOn t' c call' ∨ (c < s.conns ∧ s.Closed c) := by
    intro t' c call' hm
    by_cases ht : t' = t
    · subst ht
      have hle := (hcallOk.settle_none (hset.trans ((s.setCall_calls_self t' x).symm.trans
        hm.calls))).2
      have hpos : 0 < call'.frame.nTotalSendLen := hm.mid
      have hprev : s.MidOn t' c call := ⟨hcall, by rw [Call.MidUnit]; omega, hm.sentTo⟩
      exact Or.inr ⟨(hok.mid t' c call hprev).1, hended c hprev⟩
    · exact Or.inl ((Net.midOn_congr (s.setCall_calls_ne ht x) rfl c call').mp hm)
  refine ⟨fun t' call' hcall' => ?_, hok.fds_lt, hok.fds_inj, hok.fresh, fun t' c call' hm => ?_,
    fun c => ?_⟩
  · by_cases ht : t' = t
    · subst ht
      exact (hcallOk.settle_none (hset.trans ((s.setCall_calls_self t' x).symm.trans hcall'))).1
    · exact hok.calls t' call' ((s.setCall_calls_ne ht x).symm.trans hcall')
  · exact (hback t' c call' hm).elim (hok.mid t' c call') fun h => ⟨h.1, Or.inr h.2⟩
  · refine (hok.conn c).keep hok List.prefix_rfl rfl id (fun t' call' hm => ?_)
      fun t' call' hm => (hback t' c call' hm).imp_right And.right
    by_cases ht : t' = t
    · subst ht
      obtain rfl : call' = call := Option.some_inj.mp (hm.calls.symm.trans hcall)
      exact Or.inr (hended c hm)
    · exact Or.inl ((Net.midOn_congr (s.setCall_calls_ne ht x) rfl c call').mpr hm)

/-- The bytes a successful `send` takes extend the part already sent. -/
theorem sentPart_attempt {passed : List (List UInt8)} {call : Call} (h : CallOk passed call)
    (n : ℕ) :
    Net.sentPart call ++ tagged call.unit (call.frame.attempt (some n)).1 =
      tagged call.unit (call.frame.pchBuf.take (call.frame.nTotalSendLen + n).toNat) := by
  have h0 := h.nonneg
  have hsum : (call.frame.nTotalSendLen + n).toNat = call.frame.nTotalSendLen.toNat + n := by
    omega
  rw [hsum, List.take_add, tagged_append]
  rfl

/-- The connection an undisturbed send goes to has the part of the unit sent
before, and nothing of another. -/
theorem unitsThen_sentPart {t : Thread} {call : Call} {c n : ℕ} (hok : NetOk s)
    (hcall : s.calls t = some call) (hfd : s.fds call.localSock = some c)
    (hund : s.Undisturbed (.send t n)) : s.UnitsThen c (Net.sentPart call) := by
  obtain ⟨hown, hothers⟩ := hund call c hcall hfd
  have hzero : ¬ call.MidUnit → Net.sentPart call = [] := by
    intro h
    have h0 := (hok.calls t call hcall).nonneg
    have htotal : call.frame.nTotalSendLen = 0 := by rw [Call.MidUnit] at h; omega
    rw [Net.sentPart, htotal]
    rfl
  obtain ⟨tail, hunits, ⟨t', call', hm, rfl⟩ | ⟨rfl, hno⟩ | ⟨hcl, -⟩⟩ := hok.conn c
  · by_cases ht : t' = t
    · subst ht
      obtain rfl : call' = call := Option.some_inj.mp (hm.calls.symm.trans hcall)
      exact hunits
    · exact absurd hm.mid (hothers t' call' ht hm.calls hm.sentTo)
  · have hnot : ¬ call.MidUnit := fun hmid => hno t call ⟨hcall, hmid, hown hmid⟩
    rw [hzero hnot]
    exact hunits
  · exact absurd hfd (hcl call.localSock)

/-- What a successful `send` to the connection `c₀` does. -/
structure Sent (s s' : Net) (t : Thread) (call : Call) (c₀ n : ℕ) : Prop where
  calls : s'.calls t = Call.settle { call with frame := (call.frame.attempt (some n)).2 }
  sentTo : s'.sentTo t = some c₀
  other : ∀ t', t' ≠ t → s'.calls t' = s.calls t' ∧ s'.sentTo t' = s.sentTo t'
  stream : s'.streams c₀ = s.streams c₀ ++ tagged call.unit (call.frame.attempt (some n)).1
  streams : ∀ c, c ≠ c₀ → s'.streams c = s.streams c
  fds : s'.fds = s.fds
  conns : s'.conns = s.conns
  passed : s'.passed = s.passed

theorem sent_step {t : Thread} {call : Call} {c₀ n : ℕ} (hcall : s.calls t = some call)
    (hfd : s.fds call.localSock = some c₀) : Sent s (s.step (.send t n)) t call c₀ n := by
  have hstep : s.step (.send t n) =
      { s.setCall t (Call.settle { call with frame := (call.frame.attempt (some n)).2 }) with
        streams := Function.update s.streams c₀
          (s.streams c₀ ++ tagged call.unit (call.frame.attempt (some n)).1)
        sentTo := Function.update s.sentTo t (some c₀) } := by
    simp only [Net.step, hcall, hfd]
  rw [hstep]
  exact {
    calls := s.setCall_calls_self t _
    sentTo := Function.update_self ..
    other := fun t' ht => ⟨s.setCall_calls_ne ht _, Function.update_of_ne ht ..⟩
    stream := Function.update_self ..
    streams := fun c hc => Function.update_of_ne hc ..
    fds := rfl
    conns := rfl
    passed := rfl }

section Sent

variable {s' : Net} {t : Thread} {call : Call} {c₀ n : ℕ}

theorem Sent.closed_iff (h : Sent s s' t call c₀ n) (c : ℕ) : s'.Closed c ↔ s.Closed c := by
  rw [Net.Closed, Net.Closed, h.fds]

/-- The other thread's units are where they were. -/
theorem Sent.midOn_iff (h : Sent s s' t call c₀ n) {t' : Thread} (ht : t' ≠ t) (c : ℕ)
    (call' : Call) : s'.MidOn t' c call' ↔ s.MidOn t' c call' :=
  Net.midOn_congr (h.other t' ht).1 (h.other t' ht).2 c call'

/-- The unit goes on: the connection has a longer part of it. -/
theorem connOk_goesOn {us : List ℕ} (h : Sent s s' t call c₀ n)
    (hcallOk : CallOk s.passed call) (hn1 : 1 ≤ n) (hn : n ≤ call.frame.requested.length)
    (hus : ∀ u ∈ us, u < s.passed.length)
    (hret : (call.frame.attempt (some n)).2.returned = none)
    (hstream : s'.streams c₀ = Net.unitBytes s.passed us ++
      tagged call.unit (call.frame.pchBuf.take (call.frame.nTotalSendLen + n).toNat)) :
    s'.ConnOk c₀ := by
  have hx : Call.settle { call with frame := (call.frame.attempt (some n)).2 } =
      some { call with frame := (call.frame.attempt (some n)).2 } :=
    Call.settle_eq_some.mpr ⟨rfl, hret⟩
  obtain ⟨-, -, -, hbuf, htotal⟩ := hcallOk.settle_some hn hx
  have h0 := hcallOk.nonneg
  refine ⟨_, ⟨us, h.passed ▸ hus, h.passed.symm ▸ hstream⟩,
    Or.inl ⟨t, _, ⟨h.calls.trans hx, ?_, h.sentTo⟩, ?_⟩⟩
  · rw [Call.MidUnit, htotal]; omega
  · rw [Net.sentPart, hbuf, htotal]

/-- The unit is complete: the connection has one more whole unit. -/
theorem connOk_complete {us : List ℕ} (h : Sent s s' t call c₀ n)
    (hcallOk : CallOk s.passed call) (hus : ∀ u ∈ us, u < s.passed.length)
    (hothers : ∀ t' call', t' ≠ t → s.calls t' = some call' → s.sentTo t' = some c₀ →
      ¬ call'.MidUnit)
    (hret : (call.frame.attempt (some n)).2.returned ≠ none)
    (hstream : s'.streams c₀ =
      Net.unitBytes s.passed us ++ tagged call.unit call.frame.pchBuf) : s'.ConnOk c₀ := by
  have hdone : s'.calls t = none := by rw [h.calls, Call.settle, if_neg hret]
  refine ⟨[], ⟨us ++ [call.unit], fun u hu => ?_, ?_⟩, Or.inr (Or.inl ⟨rfl, ?_⟩)⟩
  · rw [h.passed]
    rcases List.mem_append.mp hu with hu | hu
    · exact hus u hu
    · rw [List.mem_singleton.mp hu]
      exact (List.getElem?_eq_some_iff.mp hcallOk.buf).1
  · rw [hstream, h.passed, Net.unitBytes, Net.unitBytes, List.flatMap_append,
      List.flatMap_singleton, List.getD_eq_getElem?_getD, hcallOk.buf, List.append_nil,
      Option.getD_some]
  · intro t' call' hm
    by_cases ht : t' = t
    · subst ht
      have := hdone.symm.trans hm.calls
      cases this
    · have hm' := (h.midOn_iff ht c₀ call').mp hm
      exact hothers t' call' ht hm'.calls hm'.sentTo hm'.mid

/-- **The connection an undisturbed send goes to** has a part of the unit or
the whole of it. -/
theorem connOk_sent (hok : NetOk s) (h : Sent s s' t call c₀ n) (hcall : s.calls t = some call)
    (hfd : s.fds call.localSock = some c₀) (hn1 : 1 ≤ n)
    (hn : n ≤ call.frame.requested.length) (hund : s.Undisturbed (.send t n)) :
    s'.ConnOk c₀ := by
  have hcallOk := hok.calls t call hcall
  obtain ⟨us, hus, hbefore⟩ := unitsThen_sentPart hok hcall hfd hund
  have hstream : s'.streams c₀ = Net.unitBytes s.passed us ++
      tagged call.unit (call.frame.pchBuf.take (call.frame.nTotalSendLen + n).toNat) := by
    rw [h.stream, hbefore, List.append_assoc, sentPart_attempt hcallOk n]
  rcases hcallOk.attempt_some hn with ⟨hret, -⟩ | ⟨hret, hall⟩
  · exact connOk_goesOn h hcallOk hn1 hn hus hret hstream
  · rw [hall, Int.toNat_natCast, List.take_length] at hstream
    exact connOk_complete h hcallOk hus (hund call c₀ hcall hfd).2 hret hstream

/-- Another connection is not concerned: a thread in the middle of a unit on
it does not send to `c₀`. -/
theorem connOk_sent_ne (hok : NetOk s) (h : Sent s s' t call c₀ n)
    (hcall : s.calls t = some call) (hfd : s.fds call.localSock = some c₀)
    (hund : s.Undisturbed (.send t n)) {c : ℕ} (hc : c ≠ c₀) : s'.ConnOk c := by
  refine (hok.conn c).keep hok (h.passed ▸ List.prefix_rfl) (h.streams c hc)
    (h.closed_iff c).mpr (fun t' call' hm => ?_) fun t' call' hm => ?_
  · by_cases ht : t' = t
    · subst ht
      obtain rfl : call' = call := Option.some_inj.mp (hm.calls.symm.trans hcall)
      have hto := (hund _ c₀ hcall hfd).1 hm.mid
      exact absurd (Option.some_inj.mp (hm.sentTo.symm.trans hto)) hc
    · exact Or.inl ((h.midOn_iff ht c call').mpr hm)
  · by_cases ht : t' = t
    · subst ht
      exact absurd (Option.some_inj.mp (hm.sentTo.symm.trans h.sentTo)) hc
    · exact Or.inl ((h.midOn_iff ht c call').mp hm)

end Sent

/-- **An undisturbed send** adds to the unit its connection has a part
of. -/
theorem netOk_send {t : Thread} {n : ℕ} (hok : NetOk s) (hen : s.Enabled (.send t n))
    (hund : s.Undisturbed (.send t n)) : NetOk (s.step (.send t n)) := by
  obtain ⟨call, hcall, hopen, hn1, hn⟩ := hen
  obtain ⟨c₀, hfd⟩ := Option.ne_none_iff_exists'.mp hopen
  have h := sent_step (n := n) hcall hfd
  generalize s.step (.send t n) = s' at h
  have hnew : ∀ call', s'.calls t = some call' →
      CallOk s.passed call' ∧ call'.localSock = call.localSock := fun call' hcall' =>
    have hsettled := (hok.calls t call hcall).settle_some hn (h.calls.symm.trans hcall')
    ⟨hsettled.1, hsettled.2.1⟩
  refine ⟨fun t' call' hcall' => ?_, fun fd c hc => ?_, fun fd fd' c hc hc' => ?_,
    fun c hc => ?_, fun t' c call' hm => ?_, fun c => ?_⟩
  · rw [h.passed]
    by_cases ht : t' = t
    · subst ht
      exact (hnew call' hcall').1
    · exact hok.calls t' call' ((h.other t' ht).1.symm.trans hcall')
  · rw [h.conns]
    exact hok.fds_lt fd c (h.fds ▸ hc)
  · exact hok.fds_inj fd fd' c (h.fds ▸ hc) (h.fds ▸ hc')
  · rw [h.conns] at hc
    have hne : c ≠ c₀ := fun heq => by
      have := hok.fds_lt _ _ hfd
      omega
    exact (h.streams c hne).trans (hok.fresh c hc)
  · rw [h.conns, h.fds, h.closed_iff]
    by_cases ht : t' = t
    · subst ht
      obtain rfl : c₀ = c := Option.some_inj.mp (h.sentTo.symm.trans hm.sentTo)
      exact ⟨hok.fds_lt _ _ hfd, Or.inl ((hnew call' hm.calls).2 ▸ hfd)⟩
    · exact hok.mid t' c call' ((h.midOn_iff ht c call').mp hm)
  · by_cases hc : c = c₀
    · exact hc ▸ connOk_sent hok h hcall hfd hn1 hn hund
    · exact connOk_sent_ne hok h hcall hfd hund hc

/-- **Steps on descriptors.** They send nothing; what has to be seen to is
that an ended connection stays ended, and that one whose descriptor is gone
has ended. -/
theorem netOk_fds {s' : Net} (hok : NetOk s) (hcalls : s'.calls = s.calls)
    (hsent : s'.sentTo = s.sentTo) (hstreams : s'.streams = s.streams)
    (hpassed : s'.passed = s.passed) (hconns : s.conns ≤ s'.conns)
    (hlt : ∀ fd c, s'.fds fd = some c → c < s'.conns)
    (hinj : ∀ fd fd' c, s'.fds fd = some c → s'.fds fd' = some c → fd = fd')
    (hclosed : ∀ c < s.conns, s.Closed c → s'.Closed c)
    (hopen : ∀ fd c, s.fds fd = some c → s'.fds fd = some c ∨ s'.Closed c) : NetOk s' := by
  have hmid : ∀ t c call, s'.MidOn t c call ↔ s.MidOn t c call := fun t =>
    Net.midOn_congr (congrFun hcalls t) (congrFun hsent t)
  refine ⟨fun t call h => ?_, hlt, hinj, fun c hc => ?_, fun t c call hm => ?_, fun c => ?_⟩
  · rw [hpassed]
    exact hok.calls t call (hcalls ▸ h)
  · rw [hstreams]
    exact hok.fresh c (hconns.trans hc)
  · obtain ⟨hc, hfd⟩ := hok.mid t c call ((hmid t c call).mp hm)
    exact ⟨hc.trans_le hconns, hfd.elim (hopen _ c) fun hcl => Or.inr (hclosed c hc hcl)⟩
  · by_cases hc : c < s.conns
    · exact (hok.conn c).keep hok (hpassed ▸ List.prefix_rfl) (by rw [hstreams]) (hclosed c hc)
        (fun t call hm => Or.inl ((hmid t c call).mpr hm))
        fun t call hm => Or.inl ((hmid t c call).mp hm)
    · -- a connection that has just begun, or not yet
      refine ⟨[], ⟨[], fun u hu => absurd hu List.not_mem_nil, ?_⟩, Or.inr (Or.inl ⟨rfl, ?_⟩)⟩
      · rw [hstreams, hok.fresh c (Nat.not_lt.mp hc)]
        rfl
      · exact fun t call hm => hc (hok.mid t c call ((hmid t c call).mp hm)).1

/-- Closing a descriptor ends its connection. -/
theorem netOk_closeFd {s' : Net} (fd₀ : ℤ) (hok : NetOk s) (hcalls : s'.calls = s.calls)
    (hsent : s'.sentTo = s.sentTo) (hstreams : s'.streams = s.streams)
    (hpassed : s'.passed = s.passed) (hconns : s'.conns = s.conns)
    (hfds : s'.fds = Function.update s.fds fd₀ none) : NetOk s' := by
  have hold : ∀ fd c, s'.fds fd = some c → fd ≠ fd₀ ∧ s.fds fd = some c := by
    intro fd c h
    rw [hfds] at h
    by_cases hfd : fd = fd₀
    · rw [hfd, Function.update_self] at h; cases h
    · exact ⟨hfd, by rwa [Function.update_of_ne hfd] at h⟩
  refine netOk_fds hok hcalls hsent hstreams hpassed hconns.ge
    (fun fd c h => hconns ▸ hok.fds_lt fd c (hold fd c h).2)
    (fun fd fd' c h h' => hok.fds_inj fd fd' c (hold fd c h).2 (hold fd' c h').2)
    (fun c _ hcl fd h => hcl fd (hold fd c h).2) fun fd c h => ?_
  by_cases hfd : fd = fd₀
  · refine Or.inr fun fd' h' => ?_
    obtain ⟨hne, hfd'⟩ := hold fd' c h'
    exact hne ((hok.fds_inj fd' fd c hfd' h).trans hfd)
  · rw [hfds, Function.update_of_ne hfd]
    exact Or.inl h

theorem netOk_accept {fd₀ : ℤ} (hok : NetOk s) (hen : s.Enabled (.accept fd₀)) :
    NetOk (s.step (.accept fd₀)) := by
  have hfree : s.fds fd₀ = none := hen.2.2.2
  have hfds : (s.step (.accept fd₀)).fds = Function.update s.fds fd₀ (some s.conns) := rfl
  have hold : ∀ fd c, (s.step (.accept fd₀)).fds fd = some c →
      (fd = fd₀ ∧ c = s.conns) ∨ (fd ≠ fd₀ ∧ s.fds fd = some c) := by
    intro fd c h
    rw [hfds] at h
    by_cases hfd : fd = fd₀
    · rw [hfd, Function.update_self] at h
      exact Or.inl ⟨hfd, (Option.some_inj.mp h).symm⟩
    · exact Or.inr ⟨hfd, by rwa [Function.update_of_ne hfd] at h⟩
  refine netOk_fds hok rfl rfl rfl rfl (Nat.le_succ _) (fun fd c h => ?_)
    (fun fd fd' c h h' => ?_) (fun c hc hcl fd h => ?_) fun fd c h => ?_
  · rcases hold fd c h with ⟨-, rfl⟩ | ⟨-, h⟩
    · exact Nat.lt_succ_self _
    · exact Nat.lt_succ_of_lt (hok.fds_lt fd c h)
  · rcases hold fd c h with ⟨hfd, hc⟩ | ⟨-, ho⟩ <;>
      rcases hold fd' c h' with ⟨hfd', hc'⟩ | ⟨-, ho'⟩
    · exact hfd.trans hfd'.symm
    · exact absurd (hok.fds_lt fd' c ho') (hc ▸ Nat.lt_irrefl _)
    · exact absurd (hok.fds_lt fd c ho) (hc' ▸ Nat.lt_irrefl _)
    · exact hok.fds_inj fd fd' c ho ho'
  · rcases hold fd c h with ⟨-, rfl⟩ | ⟨-, h⟩
    · exact Nat.lt_irrefl _ hc
    · exact hcl fd h
  · have hne : fd ≠ fd₀ := by rintro rfl; rw [hfree] at h; cases h
    rw [hfds, Function.update_of_ne hne]
    exact Or.inl h

/-- **The step lemma.** -/
theorem netOk_step {a : NetStep} (hok : NetOk s) (hen : s.Enabled a) (hund : s.Undisturbed a) :
    NetOk (s.step a) := by
  have hsame : ∀ {s' : Net}, s'.calls = s.calls → s'.sentTo = s.sentTo →
      s'.streams = s.streams → s'.passed = s.passed → s'.conns = s.conns → s'.fds = s.fds →
      NetOk s' := by
    intro s' hcalls hsent hstreams hpassed hconns hfds
    refine netOk_fds hok hcalls hsent hstreams hpassed hconns.ge
      (fun fd c h => hconns ▸ hok.fds_lt fd c (hfds ▸ h))
      (fun fd fd' c h h' => hok.fds_inj fd fd' c (hfds ▸ h) (hfds ▸ h'))
      (fun c _ hcl fd h => hcl fd (hfds ▸ h)) fun fd c h => Or.inl (by rw [hfds]; exact h)
  cases a with
  | call t pchMsg => exact netOk_call hok hen
  | send t n => exact netOk_send hok hen hund
  | fail t => exact netOk_fail hok hen
  | accept fd => exact netOk_accept hok hen
  | closeOld =>
    obtain ⟨n, hpc⟩ := hen
    simp only [Net.step, hpc]
    split_ifs
    · exact hsame rfl rfl rfl rfl rfl rfl
    · exact netOk_closeFd s.sockClient hok rfl rfl rfl rfl rfl rfl
  | setTelnetClient =>
    obtain ⟨n, hpc⟩ := hen
    simp only [Net.step, hpc]
    exact hsame rfl rfl rfl rfl rfl rfl
  | close => exact netOk_closeFd s.sockClient hok rfl rfl rfl rfl rfl rfl
  | setInvalidTelnetClient => exact hsame rfl rfl rfl rfl rfl rfl

end Step

/-! ## Every run -/

/-- Before anything happens. -/
theorem netOk_init : NetOk {} where
  calls := fun _ _ h => by cases h
  fds_lt := fun _ _ h => by cases h
  fds_inj := fun _ _ _ h => by cases h
  fresh := fun _ _ => rfl
  mid := fun _ _ _ hm => by cases hm.calls
  conn := fun _ => ⟨[], ⟨[], fun _ h => absurd h List.not_mem_nil, rfl⟩,
    Or.inr (Or.inl ⟨rfl, fun _ _ hm => by cases hm.calls⟩)⟩

theorem NetOk.wholeUnits {s : Net} (hok : NetOk s) (c : ℕ) : s.WholeUnits c := by
  obtain ⟨tail, hunits, hmid | ⟨rfl, -⟩ | ⟨hcl, rfl | hcut⟩⟩ := hok.conn c
  · exact ⟨tail, hunits, Or.inr (Or.inl hmid)⟩
  · exact ⟨[], hunits, Or.inl rfl⟩
  · exact ⟨[], hunits, Or.inl rfl⟩
  · exact ⟨tail, hunits, Or.inr (Or.inr ⟨hcl, hcut⟩)⟩

/-- **Every connection receives whole units** in every run whose sends are
undisturbed, whatever else the two threads and the clients do. -/
theorem wholeUnits_of_undisturbed {steps : List NetStep}
    (hv : netMachine.Valid (fun s a => s.Enabled a ∧ s.Undisturbed a) {} steps) (c : ℕ) :
    (netMachine.after {} steps).WholeUnits c :=
  (netMachine.after_induct_valid netOk_init hv
    fun _ _ hok ha => netOk_step hok ha.1 ha.2).wholeUnits c

/-- The other thread's call begins when the first unit is through. -/
abbrev oneAtATime : List NetStep :=
  [.accept 5, .closeOld, .setTelnetClient, .call .daemon [65, 66], .send .daemon 2,
    .call .log [88, 89], .send .log 1]

/-- While one thread sends, the other has no call. -/
theorem wholeUnits_inTurn : (netMachine.after {} oneAtATime).WholeUnits 0 := by
  have hvalid : netMachine.Valid (fun s a => s.Enabled a ∧ s.Undisturbed a) {} oneAtATime := by
    refine ⟨⟨⟨rfl, rfl, by decide, rfl⟩, trivial⟩, ⟨⟨5, rfl⟩, trivial⟩, ⟨⟨5, rfl⟩, trivial⟩,
      ⟨⟨rfl, (fun _ => rfl), by decide⟩, trivial⟩,
      ⟨⟨_, rfl, by decide, by decide, by decide⟩, fun call c hcall hfd => ⟨fun h => ?_, ?_⟩⟩,
      ⟨⟨rfl, (fun h => by cases h), by decide⟩, trivial⟩,
      ⟨⟨_, rfl, by decide, by decide, by decide⟩, fun call c hcall hfd => ⟨fun h => ?_, ?_⟩⟩,
      trivial⟩
    · obtain rfl := Option.some_inj.mp hcall
      exact absurd h (by decide)
    · rintro (_ | _) call' ht h
      · exact absurd rfl ht
      · cases h
    · obtain rfl := Option.some_inj.mp hcall
      exact absurd h (by decide)
    · rintro (_ | _) call' ht h
      · cases h
      · exact absurd rfl ht
  exact wholeUnits_of_undisturbed hvalid 0

/-- The steps of a send between two sends of the other thread. -/
abbrev interleaved : List NetStep :=
  [.accept 5, .closeOld, .setTelnetClient, .call .daemon [65, 66], .send .daemon 1,
    .call .log [88, 89], .send .log 2]

/-- **One thread sends between two sends of the other**, and the client
receives `AXY` of the units `AB` and `XY`. -/
theorem not_wholeUnits_interleaved :
    netMachine.Valid Net.Enabled {} interleaved ∧
      ¬ (netMachine.after {} interleaved).WholeUnits 0 := by
  refine ⟨⟨⟨rfl, rfl, by decide, rfl⟩, ⟨5, rfl⟩, ⟨5, rfl⟩, ⟨rfl, fun _ => rfl, by decide⟩,
    ⟨_, rfl, by decide, by decide, by decide⟩, ⟨rfl, (fun h => by cases h), by decide⟩,
    ⟨_, rfl, by decide, by decide, by decide⟩, trivial⟩, ?_⟩
  rintro ⟨tail, ⟨us, hus, hstream⟩, htail⟩
  have hreceived : (netMachine.after {} interleaved).streams 0 = [(0, 65), (1, 88), (1, 89)] := rfl
  have hpassed : (netMachine.after {} interleaved).passed = [[65, 66], [88, 89]] := rfl
  rw [hreceived, hpassed] at hstream
  rw [hpassed] at hus
  cases us with
  | cons u us =>
    -- neither unit begins as the stream does
    have hu : u < 2 := hus u List.mem_cons_self
    rw [Net.unitBytes, List.flatMap_cons] at hstream
    obtain rfl | rfl : u = 0 ∨ u = 1 := by omega
    · cases hstream
    · cases hstream
  | nil =>
    have htail' : tail = [(0, 65), (1, 88), (1, 89)] := hstream.symm
    subst htail'
    rcases htail with h | ⟨t, call, hm, htail⟩ | ⟨hcl, -⟩
    · cases h
    · cases t with
      | daemon =>
        obtain rfl := Option.some_inj.mp hm.calls
        exact absurd htail (by decide)
      | log => cases hm.calls
    · exact hcl 5 rfl

end TelnetServ
