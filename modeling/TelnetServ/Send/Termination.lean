import TelnetServ.Send.Delivery
import Mathlib.Algebra.BigOperators.Group.Finset.Basic
import Mathlib.Data.Nat.Count
/-!
# Sending — when it ends

The results of `send` are an infinite sequence here. A round whose three
attempts all fail takes a byte back from the total, so bytes sent and bytes
taken back can balance for ever. While no round fails the bytes accepted are
the measure: `paced_or_done` bounds attempts and rounds by them, and
`terminates_iff` says that nothing less is enough.
-/

namespace TelnetServ

section Run

variable {tSock : ℤ} {pchBuf : List UInt8} {results : ℕ → SendResult}

/-- The frame after the first `n` results. -/
def frameAt (tSock : ℤ) (pchBuf : List UInt8) (results : ℕ → SendResult) (n : ℕ) : SendFrame :=
  frameAfter tSock pchBuf ((List.range n).map results)

/-- **Results that `send` can give for ever**: each is asked for while the
function runs. -/
def EverPossible (tSock : ℤ) (pchBuf : List UInt8) (results : ℕ → SendResult) : Prop :=
  ∀ n, (frameAt tSock pchBuf results n).returned = none →
    SendPossible (frameAt tSock pchBuf results n) (results n)

/-- The next attempt is the first of a round of the `while` loop. -/
def RoundBegins (tSock : ℤ) (pchBuf : List UInt8) (results : ℕ → SendResult) (n : ℕ) : Prop :=
  (frameAt tSock pchBuf results n).returned = none ∧
    (frameAt tSock pchBuf results n).nTryNum = 0

instance : DecidablePred (RoundBegins tSock pchBuf results) := fun _ =>
  inferInstanceAs (Decidable (_ ∧ _))

/-- The rounds begun within the first `n` attempts. -/
def rounds (tSock : ℤ) (pchBuf : List UInt8) (results : ℕ → SendResult) (n : ℕ) : ℕ :=
  Nat.count (RoundBegins tSock pchBuf results) n

/-- The next three attempts fail. -/
def FailsAt (results : ℕ → SendResult) (n : ℕ) : Prop :=
  results n = none ∧ results (n + 1) = none ∧ results (n + 2) = none

/-- The bytes in the first `n` results. -/
def sentBefore (results : ℕ → SendResult) (n : ℕ) : ℕ :=
  ∑ k ∈ Finset.range n, (results k).getD 0

/-- **Termination.** The loop ends, after at most one round more than there
are bytes; its total never decreases, and a failed round is the last. -/
structure Terminates (tSock : ℤ) (pchBuf : List UInt8) (results : ℕ → SendResult) : Prop where
  ends : ∃ n, (frameAt tSock pchBuf results n).returned ≠ none
  bounded : ∀ n, rounds tSock pchBuf results n ≤ pchBuf.length + 1
  grows : ∀ n, (frameAt tSock pchBuf results n).nTotalSendLen ≤
    (frameAt tSock pchBuf results (n + 1)).nTotalSendLen
  last : ∀ n, RoundBegins tSock pchBuf results n → FailsAt results n →
    (frameAt tSock pchBuf results (n + 3)).returned ≠ none

/-- Three attempts in a row fail only behind the last byte. -/
def RetriesSuffice (pchBuf : List UInt8) (results : ℕ → SendResult) : Prop :=
  ∀ n, FailsAt results n → pchBuf.length ≤ sentBefore results n

theorem frameAt_succ (n : ℕ) : frameAt tSock pchBuf results (n + 1) =
    (sendMachine.step (frameAt tSock pchBuf results n) (results n)).2 := by
  rw [frameAt, List.range_succ, List.map_append, List.map_singleton, frameAfter_concat]
  rfl

/-- Behind its return the function stays as it is. -/
theorem frameAt_succ_of_returned {n : ℕ} (h : (frameAt tSock pchBuf results n).returned ≠ none) :
    frameAt tSock pchBuf results (n + 1) = frameAt tSock pchBuf results n := by
  rw [frameAt_succ]
  simp [sendMachine, h]

theorem sentBefore_succ (results : ℕ → SendResult) (n : ℕ) :
    sentBefore results (n + 1) = sentBefore results n + (results n).getD 0 :=
  Finset.sum_range_succ _ _

theorem sentBefore_mono (results : ℕ → SendResult) {m n : ℕ} (h : m ≤ n) :
    sentBefore results m ≤ sentBefore results n := by
  induction h with
  | refl => exact le_rfl
  | step _ ih => exact ih.trans (by rw [sentBefore_succ]; omega)

theorem rounds_succ (tSock : ℤ) (pchBuf : List UInt8) (results : ℕ → SendResult) (n : ℕ) :
    rounds tSock pchBuf results (n + 1) =
      rounds tSock pchBuf results n + if RoundBegins tSock pchBuf results n then 1 else 0 :=
  Nat.count_succ _ _

/-! ## The measure -/

/-- What holds while the function runs and no round has failed: the total is
what was accepted, and it pays for the attempts and the rounds. -/
structure Paced (tSock : ℤ) (pchBuf : List UInt8) (results : ℕ → SendResult) (n : ℕ) : Prop where
  running : (frameAt tSock pchBuf results n).returned = none
  buf : (frameAt tSock pchBuf results n).pchBuf = pchBuf
  total : (frameAt tSock pchBuf results n).nTotalSendLen = sentBefore results n
  short : sentBefore results n < pchBuf.length
  tries : (frameAt tSock pchBuf results n).nTryNum < 3
  failed : ∀ k < (frameAt tSock pchBuf results n).nTryNum, k < n ∧ results (n - 1 - k) = none
  attempts : n ≤ 3 * sentBefore results n + (frameAt tSock pchBuf results n).nTryNum
  rounds : rounds tSock pchBuf results n ≤
    sentBefore results n + if (frameAt tSock pchBuf results n).nTryNum = 0 then 0 else 1

/-- What holds behind the return. -/
structure Done (tSock : ℤ) (pchBuf : List UInt8) (results : ℕ → SendResult) (n : ℕ) : Prop where
  returned : (frameAt tSock pchBuf results n).returned ≠ none
  total : (frameAt tSock pchBuf results n).nTotalSendLen = pchBuf.length
  sent : pchBuf.length ≤ sentBefore results n
  rounds : rounds tSock pchBuf results n ≤ pchBuf.length

/-- **No round has failed**: three failures in a row come only behind the
last byte, and bytes are still missing. -/
theorem Paced.not_failsAt {m n : ℕ} (hp : Paced tSock pchBuf results n) (hm : m ≤ n)
    (hfails : FailsAt results m → pchBuf.length ≤ sentBefore results m) : ¬ FailsAt results m := by
  intro h
  have hle := hfails h
  have hmono := sentBefore_mono results hm
  have hshort := hp.short
  omega

/-- At the loop head with this total, the function goes on or is done. -/
theorem paced_or_done_of_loopHead {n : ℕ} {f : SendFrame} (hsize : pchBuf.length < 2 ^ 31)
    (hf : frameAt tSock pchBuf results n = f.loopHead) (hrun : f.returned = none)
    (hbuf : f.pchBuf = pchBuf) (htotal : f.nTotalSendLen = sentBefore results n)
    (hle : sentBefore results n ≤ pchBuf.length) (hattempts : n ≤ 3 * sentBefore results n)
    (hrounds : TelnetServ.rounds tSock pchBuf results n ≤ sentBefore results n) :
    Paced tSock pchBuf results n ∨ Done tSock pchBuf results n := by
  have hshort : f.Short ↔ sentBefore results n < pchBuf.length := by
    rw [SendFrame.short_iff (by omega) (by rw [htotal, hbuf]; exact_mod_cast hle)
      (by rw [hbuf]; exact hsize), htotal, hbuf]
    omega
  rcases f.loopHead_cases hrun with ⟨hs, hret, htry⟩ | ⟨hs, hret⟩
  · left
    rw [← hf] at hret htry
    refine ⟨hret, by rw [hf, f.loopHead_pchBuf, hbuf], by rw [hf, f.loopHead_nTotalSendLen, htotal],
      hshort.mp hs, by omega, fun k hk => by omega, by omega, ?_⟩
    rw [if_pos htry]
    exact hrounds
  · right
    have hsent : sentBefore results n = pchBuf.length := by
      have := mt hshort.mpr hs
      omega
    refine ⟨by rw [hf, hret]; simp, ?_, hsent.ge, hsent ▸ hrounds⟩
    rw [hf, f.loopHead_nTotalSendLen, htotal, hsent]

/-- **One attempt**, where three failures in a row come only behind the last
byte. -/
theorem paced_or_done_succ {n : ℕ} (hsize : pchBuf.length < 2 ^ 31)
    (hposs : EverPossible tSock pchBuf results) (hp : Paced tSock pchBuf results n)
    (hfails : ∀ m < n, FailsAt results m → pchBuf.length ≤ sentBefore results m) :
    Paced tSock pchBuf results (n + 1) ∨ Done tSock pchBuf results (n + 1) := by
  have hstep : frameAt tSock pchBuf results (n + 1) =
      ((frameAt tSock pchBuf results n).attempt (results n)).2 := by
    rw [frameAt_succ, sendMachine_step hp.running]
  have hsent := sentBefore_succ results n
  have htotal := hp.total
  have hattempts := hp.attempts
  have htries := hp.tries
  -- the first attempt of a round counts it
  have hround : rounds tSock pchBuf results (n + 1) ≤ sentBefore results n + 1 := by
    have hrounds := hp.rounds
    have hsucc := rounds_succ tSock pchBuf results n
    by_cases h0 : (frameAt tSock pchBuf results n).nTryNum = 0
    · rw [if_pos ⟨hp.running, h0⟩] at hsucc
      rw [if_pos h0] at hrounds
      omega
    · rw [if_neg fun h => h0 h.2] at hsucc
      rw [if_neg h0] at hrounds
      omega
  cases hres : results n with
  | some k =>
    obtain ⟨hk1, hk⟩ := (hposs n hp.running).2 k hres
    rw [SendFrame.requested, List.length_drop, hp.buf, hp.total] at hk
    rw [hres] at hstep hsent
    change sentBefore results (n + 1) = sentBefore results n + k at hsent
    refine paced_or_done_of_loopHead hsize hstep hp.running hp.buf ?_ (by omega) (by omega)
      (by omega)
    change (frameAt tSock pchBuf results n).nTotalSendLen + k = _
    omega
  | none =>
    rw [hres] at hstep hsent
    change sentBefore results (n + 1) = sentBefore results n at hsent
    rw [SendFrame.attempt] at hstep
    split_ifs at hstep with htry
    · -- one more failure of the same round
      left
      refine ⟨by rw [hstep]; exact hp.running, by rw [hstep]; exact hp.buf,
        by rw [hstep, hsent]; exact hp.total, by rw [hsent]; exact hp.short,
        by rw [hstep]; exact htry, ?_, ?_, ?_⟩
      · rw [hstep]
        intro k hk
        change k < (frameAt tSock pchBuf results n).nTryNum + 1 at hk
        cases k with
        | zero => exact ⟨by omega, hres⟩
        | succ k =>
          obtain ⟨hlt, hnone⟩ := hp.failed k (by omega)
          exact ⟨by omega, by rwa [show n + 1 - 1 - (k + 1) = n - 1 - k by omega]⟩
      · rw [hstep, hsent]
        change n + 1 ≤ 3 * sentBefore results n + ((frameAt tSock pchBuf results n).nTryNum + 1)
        omega
      · rw [hstep, hsent, if_neg (by simp)]
        exact hround
    · -- the third failure in a row
      obtain ⟨-, h1⟩ := hp.failed 0 (by omega)
      obtain ⟨hlt, h2⟩ := hp.failed 1 (by omega)
      have hthree : FailsAt results (n - 2) := ⟨h2, by rwa [show n - 2 + 1 = n - 1 by omega],
        by rwa [show n - 2 + 2 = n by omega]⟩
      exact absurd hthree (hp.not_failsAt (by omega) (hfails (n - 2) (by omega)))

/-- **Every attempt is paid for by a byte**, or the function has returned,
as long as three failures in a row come only behind the last byte. -/
theorem paced_or_done (hs : tSock ≠ invalidSocket) (hsize : pchBuf.length < 2 ^ 31)
    (hposs : EverPossible tSock pchBuf results) {n : ℕ}
    (hfails : ∀ m < n, FailsAt results m → pchBuf.length ≤ sentBefore results m) :
    Paced tSock pchBuf results n ∨ Done tSock pchBuf results n := by
  induction n with
  | zero =>
    exact paced_or_done_of_loopHead hsize (frameAfter_nil hs) rfl rfl rfl (Nat.zero_le _)
      (Nat.zero_le _) (Nat.zero_le _)
  | succ n ih =>
    rcases ih fun m hm => hfails m (by omega) with hp | hd
    · exact paced_or_done_succ hsize hposs hp fun m hm => hfails m (by omega)
    · right
      have hsame := frameAt_succ_of_returned hd.returned
      refine ⟨by rw [hsame]; exact hd.returned, by rw [hsame]; exact hd.total,
        hd.sent.trans (sentBefore_mono results (Nat.le_succ n)), ?_⟩
      rw [rounds_succ, if_neg fun h => hd.returned h.1]
      exact hd.rounds

/-! ## The condition -/

/-- Without a socket the function returns at once. -/
theorem terminates_of_invalidSocket (results : ℕ → SendResult) :
    Terminates invalidSocket pchBuf results := by
  have hframe : ∀ n, frameAt invalidSocket pchBuf results n =
      { pchBuf := pchBuf, returned := some false } := by
    intro n
    induction n with
    | zero => rfl
    | succ n ih => rw [frameAt_succ_of_returned (by rw [ih]; simp), ih]
  refine ⟨⟨0, by rw [hframe]; simp⟩, fun n => ?_, fun n => by rw [hframe, hframe], fun n h => ?_⟩
  · have h0 : rounds invalidSocket pchBuf results n = 0 := by
      induction n with
      | zero => exact Nat.count_zero _
      | succ n ih =>
        rw [rounds_succ, ih, if_neg]
        intro h
        have hrun := h.1
        rw [hframe] at hrun
        cases hrun
    omega
  · have hrun := h.1
    rw [hframe] at hrun
    cases hrun

/-- **The function ends** where three failures in a row come only behind
the last byte. -/
theorem terminates_of_retriesSuffice (hs : tSock ≠ invalidSocket) (hsize : pchBuf.length < 2 ^ 31)
    (hposs : EverPossible tSock pchBuf results) (hr : RetriesSuffice pchBuf results) :
    Terminates tSock pchBuf results := by
  have hall : ∀ n, Paced tSock pchBuf results n ∨ Done tSock pchBuf results n := fun n =>
    paced_or_done hs hsize hposs fun m _ => hr m
  refine ⟨⟨3 * pchBuf.length, ?_⟩, fun n => ?_, fun n => ?_, fun n hbegins hfails => ?_⟩
  · rcases hall (3 * pchBuf.length) with hp | hd
    · have hattempts := hp.attempts
      have hshort := hp.short
      have htries := hp.tries
      omega
    · exact hd.returned
  · rcases hall n with hp | hd
    · have hrounds := hp.rounds
      have hshort := hp.short
      split_ifs at hrounds <;> omega
    · exact hd.rounds.trans (Nat.le_succ _)
  · rcases hall n with hp | hd
    · have hshort := hp.short
      rw [hp.total]
      rcases hall (n + 1) with hp' | hd'
      · rw [hp'.total]
        exact_mod_cast sentBefore_mono results (Nat.le_succ n)
      · rw [hd'.total]
        exact_mod_cast hshort.le
    · rw [frameAt_succ_of_returned hd.returned]
  · rcases hall n with hp | hd
    · exact absurd hfails (hp.not_failsAt le_rfl (hr n))
    · exact absurd hbegins.1 hd.returned

/-- A failed attempt that is not the last of its round counts as a try and
changes nothing else. -/
theorem retry {n : ℕ} (hrun : (frameAt tSock pchBuf results n).returned = none)
    (hres : results n = none) (htry : (frameAt tSock pchBuf results n).nTryNum + 1 < 3) :
    (frameAt tSock pchBuf results (n + 1)).returned = none ∧
      (frameAt tSock pchBuf results (n + 1)).nTryNum =
        (frameAt tSock pchBuf results n).nTryNum + 1 ∧
      (frameAt tSock pchBuf results (n + 1)).nTotalSendLen =
        (frameAt tSock pchBuf results n).nTotalSendLen := by
  rw [frameAt_succ, sendMachine_step hrun, hres, SendFrame.attempt, if_pos htry]
  exact ⟨hrun, rfl, rfl⟩

/-- A failed round takes one from the total. -/
theorem total_of_failsAt {n : ℕ} (hbegins : RoundBegins tSock pchBuf results n)
    (hfails : FailsAt results n) : (frameAt tSock pchBuf results (n + 3)).nTotalSendLen =
      (frameAt tSock pchBuf results n).nTotalSendLen - 1 := by
  obtain ⟨hrun, htry⟩ := hbegins
  obtain ⟨hrun1, htry1, htotal1⟩ := retry hrun hfails.1 (by omega)
  obtain ⟨hrun2, htry2, htotal2⟩ := retry hrun1 hfails.2.1 (by omega)
  have htotal3 : (frameAt tSock pchBuf results (n + 3)).nTotalSendLen =
      (frameAt tSock pchBuf results (n + 2)).nTotalSendLen + (-1) := by
    rw [frameAt_succ, sendMachine_step hrun2, hfails.2.2, SendFrame.attempt, if_neg (by omega),
      SendFrame.loopHead_nTotalSendLen]
  rw [htotal3, htotal2, htotal1, Int.sub_eq_add_neg]

/-- **`SockSend` terminates as promised if and only if** it has no socket,
or three attempts in a row fail only behind the last byte. -/
theorem terminates_iff (hsize : pchBuf.length < 2 ^ 31)
    (hposs : EverPossible tSock pchBuf results) :
    Terminates tSock pchBuf results ↔ tSock = invalidSocket ∨ RetriesSuffice pchBuf results := by
  by_cases hs : tSock = invalidSocket
  · exact ⟨fun _ => Or.inl hs, fun _ => hs ▸ terminates_of_invalidSocket results⟩
  constructor
  · intro hterm
    right
    intro n
    -- the first failures before the last byte are a whole round
    induction n using Nat.strong_induction_on with
    | _ n ih =>
      intro hfails
      rcases paced_or_done hs hsize hposs ih with hp | hd
      · exfalso
        have htry : (frameAt tSock pchBuf results n).nTryNum = 0 := by
          by_contra h0
          obtain ⟨hlt, hnone⟩ := hp.failed 0 (by omega)
          have hthree : FailsAt results (n - 1) := ⟨hnone,
            by rw [show n - 1 + 1 = n by omega]; exact hfails.1,
            by rw [show n - 1 + 2 = n + 1 by omega]; exact hfails.2.1⟩
          exact hp.not_failsAt (by omega) (ih (n - 1) (by omega)) hthree
        have htotal := total_of_failsAt ⟨hp.running, htry⟩ hfails
        have hgrows := (hterm.grows n).trans ((hterm.grows (n + 1)).trans (hterm.grows (n + 2)))
        rw [show n + 2 + 1 = n + 3 from rfl, htotal] at hgrows
        omega
      · exact hd.sent
  · rintro (h | h)
    · exact absurd h hs
    · exact terminates_of_retriesSuffice hs hsize hposs h

end Run

/-- A byte at a time. -/
theorem terminates_bytewise : Terminates 5 [65, 66] fun _ => some 1 := by
  have hframe : ∀ n, (frameAt 5 [65, 66] (fun _ => some 1) (n + 2)).returned ≠ none := by
    intro n
    induction n with
    | zero => decide
    | succ n ih => rwa [show n + 1 + 2 = n + 2 + 1 by omega, frameAt_succ_of_returned ih]
  refine (terminates_iff (by decide) fun n hrun => ?_).mpr (Or.inr fun n h => ?_)
  · match n with
    | 0 => decide
    | 1 => decide
    | n + 2 => exact absurd hrun (hframe n)
  · exact absurd h.1 (by simp)

/-- A byte sent, then a failed round, for ever. -/
def seesaw (n : ℕ) : SendResult := if n % 4 = 0 then some 1 else none

theorem seesaw_mod (n : ℕ) : seesaw n = seesaw (n % 4) := by
  unfold seesaw
  rw [Nat.mod_mod]

/-- Each failed round takes back the byte sent before it. -/
theorem frameAt_seesaw (n : ℕ) :
    frameAt 5 [65, 66] seesaw n = frameAt 5 [65, 66] seesaw (n % 4) := by
  induction n with
  | zero => rfl
  | succ n ih =>
    have hsucc : frameAt 5 [65, 66] seesaw (n + 1) = frameAt 5 [65, 66] seesaw (n % 4 + 1) := by
      rw [frameAt_succ, frameAt_succ, ih, seesaw_mod]
    by_cases h : n % 4 = 3
    · rw [hsucc, h, show (n + 1) % 4 = 0 by omega]
      rfl
    · rw [hsucc, show (n + 1) % 4 = n % 4 + 1 by omega]

/-- **A connection that takes a byte, then fails three times, and so on**:
the two bytes are never sent, and `SockSend` never returns. -/
theorem not_terminates_seesaw : EverPossible 5 [65, 66] seesaw ∧
    (∀ n, (frameAt 5 [65, 66] seesaw n).returned = none) ∧ ¬ Terminates 5 [65, 66] seesaw := by
  have hperiod : ∀ n < 4, SendPossible (frameAt 5 [65, 66] seesaw n) (seesaw n) := by decide
  have hposs : ∀ n, SendPossible (frameAt 5 [65, 66] seesaw n) (seesaw n) := by
    intro n
    rw [frameAt_seesaw, seesaw_mod]
    exact hperiod _ (Nat.mod_lt _ (by omega))
  refine ⟨fun n _ => hposs n, fun n => (hposs n).1, fun h => ?_⟩
  obtain ⟨n, hn⟩ := h.ends
  exact hn (hposs n).1

end TelnetServ
