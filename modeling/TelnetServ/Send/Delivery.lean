import TelnetServ.Send.Model
import Mathlib.Data.List.Induction
import Mathlib.Data.List.Infix
/-!
# Sending — what is delivered

`SockSend` gives up on nothing: after three failed attempts at an offset it
adds the error code to its total and goes on from the byte before, or, at
offset zero, leaves the loop and reports success. `tries` says where the
attempts at an offset begin, `progress` what holds while no three attempts
in a row have failed, and `exactDelivery_iff` that this is the whole
condition.
-/

namespace TelnetServ

/-- Three attempts in a row that fail. -/
abbrev threeFailures : List SendResult := [none, none, none]

section Run

variable {tSock : ℤ} {pchBuf : List UInt8} {rs : List SendResult}

/-- The frame after these results. -/
def frameAfter (tSock : ℤ) (pchBuf : List UInt8) (rs : List SendResult) : SendFrame :=
  sendMachine.after (sockSend tSock (some pchBuf)) rs

/-- The bytes `send` has accepted, in call order. -/
def accepted (tSock : ℤ) (pchBuf : List UInt8) (rs : List SendResult) : List UInt8 :=
  sendMachine.outs (sockSend tSock (some pchBuf)) rs

/-- **A run of `SockSend` that returns**: on a valid socket, for a buffer
whose length is an `int`, with these results of `send`. -/
structure Returns (tSock : ℤ) (pchBuf : List UInt8) (rs : List SendResult) : Prop where
  socket : tSock ≠ invalidSocket
  size : pchBuf.length < 2 ^ 31
  possible : sendMachine.Valid SendPossible (sockSend tSock (some pchBuf)) rs
  returned : (frameAfter tSock pchBuf rs).returned ≠ none

/-- **Exact delivery.** Success means the buffer, each byte once; three
failed attempts at one offset mean failure, and the prefix up to it. -/
structure ExactDelivery (tSock : ℤ) (pchBuf : List UInt8) (rs : List SendResult) : Prop where
  complete : (frameAfter tSock pchBuf rs).returned = some true →
    accepted tSock pchBuf rs = pchBuf
  gaveUp : ∀ pre post, rs = pre ++ threeFailures ++ post →
    (frameAfter tSock pchBuf pre).nTryNum = 0 →
    (frameAfter tSock pchBuf rs).returned = some false ∧
      accepted tSock pchBuf rs =
        pchBuf.take (frameAfter tSock pchBuf pre).nTotalSendLen.toNat

theorem frameAfter_nil (hs : tSock ≠ invalidSocket) :
    frameAfter tSock pchBuf [] = SendFrame.loopHead { pchBuf := pchBuf } := if_neg hs

theorem frameAfter_concat (r : SendResult) :
    frameAfter tSock pchBuf (rs ++ [r]) =
      (sendMachine.step (frameAfter tSock pchBuf rs) r).2 := Machine.after_concat ..

theorem accepted_concat (r : SendResult) :
    accepted tSock pchBuf (rs ++ [r]) =
      accepted tSock pchBuf rs ++ (sendMachine.step (frameAfter tSock pchBuf rs) r).1 :=
  Machine.outs_concat ..

/-- On a valid socket `false` is never returned. -/
theorem returned_ne_false (hs : tSock ≠ invalidSocket) (rs : List SendResult) :
    (frameAfter tSock pchBuf rs).returned ≠ some false := by
  have hhead : ∀ f : SendFrame, f.returned = none → f.loopHead.returned ≠ some false := by
    intro f hf
    rcases f.loopHead_cases hf with ⟨-, h, -⟩ | ⟨-, h⟩ <;> simp [h]
  refine Machine.after_induct _ (I := fun f : SendFrame => f.returned ≠ some false) ?_ ?_ rs
  · rw [sockSend, if_neg hs]
    exact hhead _ rfl
  · intro f r hf
    by_cases hrun : f.returned = none
    · rw [sendMachine_step hrun]
      cases r with
      | some n => exact hhead _ hrun
      | none =>
        rw [SendFrame.attempt]
        split_ifs
        · exact hf
        · exact hhead _ hrun
    · simpa [sendMachine, hrun] using hf

/-- **Where the attempts at an offset begin**: `nTryNum` failures ago. -/
theorem tries (hs : tSock ≠ invalidSocket)
    (hv : sendMachine.Valid SendPossible (sockSend tSock (some pchBuf)) rs)
    (hrun : (frameAfter tSock pchBuf rs).returned = none) :
    ∃ pre, rs = pre ++ List.replicate (frameAfter tSock pchBuf rs).nTryNum none ∧
      (frameAfter tSock pchBuf pre).nTryNum = 0 ∧
      (frameAfter tSock pchBuf rs).nTryNum < 3 := by
  -- a new round of attempts begins where the loop head has been passed
  have hround : ∀ (rs : List SendResult) (f : SendFrame), frameAfter tSock pchBuf rs = f.loopHead →
      f.returned = none → (frameAfter tSock pchBuf rs).returned = none →
      ∃ pre, rs = pre ++ List.replicate (frameAfter tSock pchBuf rs).nTryNum none ∧
        (frameAfter tSock pchBuf pre).nTryNum = 0 ∧
        (frameAfter tSock pchBuf rs).nTryNum < 3 := by
    intro rs f hf hfrun hrun
    have h0 : (frameAfter tSock pchBuf rs).nTryNum = 0 := by
      rw [hf] at hrun ⊢
      rcases f.loopHead_cases hfrun with ⟨-, -, h⟩ | ⟨-, h⟩
      · exact h
      · rw [h] at hrun; cases hrun
    exact ⟨rs, by rw [h0, List.replicate_zero, List.append_nil], h0, by omega⟩
  induction rs using List.reverseRecOn with
  | nil => exact hround [] _ (frameAfter_nil hs) rfl hrun
  | append_singleton rs r ih =>
    obtain ⟨hvrs, hposs, -⟩ := sendMachine.valid_append.mp hv
    have hprev : (frameAfter tSock pchBuf rs).returned = none := hposs.1
    have hstep : frameAfter tSock pchBuf (rs ++ [r]) =
        ((frameAfter tSock pchBuf rs).attempt r).2 := by
      rw [frameAfter_concat, sendMachine_step hprev]
    cases r with
    | some n => exact hround _ _ hstep hprev hrun
    | none =>
      rw [SendFrame.attempt] at hstep
      split_ifs at hstep with hlt
      · -- one more failure of the same round
        obtain ⟨pre, hpre, h0, -⟩ := ih hvrs hprev
        refine ⟨pre, ?_, h0, by rw [hstep]; exact hlt⟩
        rw [hstep]
        conv_lhs => rw [hpre]
        rw [List.replicate_succ', List.append_assoc]
      · exact hround _ _ hstep hprev hrun

/-- What holds of the frame while no three attempts in a row have failed. -/
structure Progress (pchBuf : List UInt8) (f : SendFrame) (out : List UInt8) : Prop where
  buf : f.pchBuf = pchBuf
  nonneg : 0 ≤ f.nTotalSendLen
  le : f.nTotalSendLen ≤ pchBuf.length
  delivered : out = pchBuf.take f.nTotalSendLen.toNat
  running : f.returned = none → f.nTotalSendLen < pchBuf.length
  done : f.returned = some true → f.nTotalSendLen = pchBuf.length

/-- The loop test keeps the progress made. -/
theorem Progress.loopHead {f : SendFrame} {out : List UInt8} (hsize : pchBuf.length < 2 ^ 31)
    (hbuf : f.pchBuf = pchBuf) (h0 : 0 ≤ f.nTotalSendLen) (hle : f.nTotalSendLen ≤ pchBuf.length)
    (hout : out = pchBuf.take f.nTotalSendLen.toNat) (hrun : f.returned = none) :
    Progress pchBuf f.loopHead out := by
  have hshort := SendFrame.short_iff h0 (hbuf ▸ hle) (hbuf ▸ hsize)
  rw [hbuf] at hshort
  refine ⟨by rw [f.loopHead_pchBuf, hbuf], by rwa [f.loopHead_nTotalSendLen],
    by rwa [f.loopHead_nTotalSendLen], by rwa [f.loopHead_nTotalSendLen], fun h => ?_, fun h => ?_⟩
  · rw [f.loopHead_nTotalSendLen]
    rcases f.loopHead_cases hrun with ⟨hs, -⟩ | ⟨-, hret⟩
    · exact hshort.mp hs
    · rw [hret] at h; cases h
  · rw [f.loopHead_nTotalSendLen]
    rcases f.loopHead_cases hrun with ⟨-, hret, -⟩ | ⟨hs, -⟩
    · rw [hret] at h; cases h
    · exact Int.le_antisymm hle (Int.not_lt.mp (mt hshort.mpr hs))

/-- **Every run makes progress** until three attempts in a row have
failed. -/
theorem progress (hs : tSock ≠ invalidSocket) (hsize : pchBuf.length < 2 ^ 31)
    (hv : sendMachine.Valid SendPossible (sockSend tSock (some pchBuf)) rs)
    (hno : ¬ threeFailures <:+: rs) :
    Progress pchBuf (frameAfter tSock pchBuf rs) (accepted tSock pchBuf rs) := by
  induction rs using List.reverseRecOn with
  | nil =>
    rw [frameAfter_nil hs]
    exact Progress.loopHead hsize rfl (Int.le_refl 0) (Int.natCast_nonneg _) rfl rfl
  | append_singleton rs r ih =>
    have hvrs := (sendMachine.valid_append.mp hv).1
    have hposs := (sendMachine.valid_append.mp hv).2.1
    have hprev : (frameAfter tSock pchBuf rs).returned = none := hposs.1
    have hp := ih hvrs fun h => hno (h.trans (List.prefix_append _ _).isInfix)
    have hlt := hp.running hprev
    rw [frameAfter_concat, accepted_concat, sendMachine_step hprev]
    cases r with
    | some n =>
      obtain ⟨hn1, hn⟩ := hposs.2 n rfl
      have hreq : (frameAfter tSock pchBuf rs).requested =
          pchBuf.drop (frameAfter tSock pchBuf rs).nTotalSendLen.toNat := by
        rw [SendFrame.requested, hp.buf]
      change n ≤ (frameAfter tSock pchBuf rs).requested.length at hn
      rw [hreq, List.length_drop] at hn
      have h0 := hp.nonneg
      refine Progress.loopHead hsize hp.buf (by dsimp only; omega) (by dsimp only; omega) ?_ hprev
      have hsum : ((frameAfter tSock pchBuf rs).nTotalSendLen + n).toNat =
          (frameAfter tSock pchBuf rs).nTotalSendLen.toNat + n := by omega
      simp only [SendFrame.attempt, hreq, hsum]
      rw [hp.delivered, List.take_add]
    | none =>
      rw [SendFrame.attempt]
      split_ifs with htry
      · rw [List.append_nil]
        exact ⟨hp.buf, hp.nonneg, hp.le, hp.delivered, hp.running, hp.done⟩
      · -- the third failure in a row
        exfalso
        obtain ⟨pre, hpre, -, hlt3⟩ := tries hs hvrs hprev
        have h2 : (frameAfter tSock pchBuf rs).nTryNum = 2 := by omega
        rw [h2] at hpre
        exact hno ⟨pre, [], by rw [hpre]; simp [threeFailures]⟩

/-- **`SockSend` delivers exactly as promised if and only if** no three
attempts in a row fail. -/
theorem exactDelivery_iff (h : Returns tSock pchBuf rs) :
    ExactDelivery tSock pchBuf rs ↔ ¬ threeFailures <:+: rs := by
  constructor
  · rintro hexact ⟨a, b, hrs⟩
    have hva : sendMachine.Valid SendPossible (sockSend tSock (some pchBuf))
        (a ++ (threeFailures ++ b)) := by
      rw [← List.append_assoc, hrs]
      exact h.possible
    obtain ⟨hva, hposs, -⟩ := sendMachine.valid_append.mp hva
    obtain ⟨pre, hpre, h0, -⟩ := tries h.socket hva hposs.1
    -- the failures before `a` ends belong to the same round
    refine returned_ne_false h.socket rs (hexact.gaveUp pre
      (List.replicate (frameAfter tSock pchBuf a).nTryNum none ++ b) ?_ h0).1
    have hthree : threeFailures = List.replicate 3 (none : SendResult) := rfl
    rw [← hrs]
    conv_lhs => rw [hpre]
    rw [hthree, List.append_assoc pre, List.append_assoc pre, List.append_assoc pre,
      ← List.append_assoc (List.replicate 3 none), List.replicate_append_replicate,
      List.replicate_append_replicate, Nat.add_comm]
  · intro hno
    have hp := progress h.socket h.size h.possible hno
    refine ⟨fun hret => ?_, fun pre post hrs _ => absurd ⟨pre, post, hrs.symm⟩ hno⟩
    rw [hp.delivered, hp.done hret, Int.toNat_natCast, List.take_length]

end Run

/-- A failure, then one byte at a time. -/
theorem exactDelivery_retried : ExactDelivery 5 [65, 66] [none, some 1, none, none, some 1] :=
  (exactDelivery_iff ⟨by decide, by decide, by decide, by decide⟩).mpr (by decide)

/-- **A connection that fails at the start**: nothing is delivered and
`true` is returned. -/
theorem not_exactDelivery_failed :
    Returns 5 [65] [none, none, none] ∧ ¬ ExactDelivery 5 [65] [none, none, none] :=
  ⟨⟨by decide, by decide, by decide, by decide⟩,
    fun h => absurd (h.complete (by decide)) (by decide)⟩

end TelnetServ
