import TelnetServ.Common.Monitor
import Mathlib.Data.ENat.Lattice
/-!
# Queues and latches between threads

`BlockingQueue`, `BoundedBlockingQueue` and `CountDownLatch`, with any number
of threads that call them in any order. What is taken is what has been put, in
order; and a call blocks only where the calls of the others leave it no way on
(`serves_run`, `latch_opens`).
-/

namespace TelnetServ

open Monitor

/-! ## Queues -/

/-- `put` and `take`. -/
inductive QueueOp (τ : Type*) where
  | put (x : τ)
  | take
  deriving DecidableEq

/-- `notEmpty_` and `notFull_`. -/
inductive QueueCond where
  | notEmpty
  | notFull
  deriving DecidableEq

/-- **A queue with a lock.** `full` is what `put` waits to end, `taken` what
`take` signals. -/
def queueMonitor (τ : Type*) (full : List τ → Bool) (taken : Signal QueueCond) :
    Monitor QueueCond (List τ) (QueueOp τ) (Option τ) where
  attempt
    | .put x, queue =>
      if full queue then .waits .notFull else .returns (queue ++ [x]) none (.notify .notEmpty)
    | .take, [] => .waits .notEmpty
    | .take, front :: queue => .returns queue (some front) taken

/-- **`BlockingQueue`.** -/
def blockingQueue (τ : Type*) : Monitor QueueCond (List τ) (QueueOp τ) (Option τ) :=
  queueMonitor τ (fun _ => false) .silent

/-- **`BoundedBlockingQueue`**; its buffer is full at `maxSize`. -/
def boundedBlockingQueue (τ : Type*) (maxSize : ℕ) :
    Monitor QueueCond (List τ) (QueueOp τ) (Option τ) :=
  queueMonitor τ (fun queue => maxSize ≤ queue.length) (.notify .notFull)

/-- What has been put, in order. -/
def putsOf {τ : Type*} (done : List (QueueOp τ × Option τ)) : List τ :=
  done.filterMap fun e => match e.1 with
    | .put x => some x
    | .take => none

/-- **What has been taken**, in order. -/
def takesOf {τ : Type*} (done : List (QueueOp τ × Option τ)) : List τ := done.filterMap Prod.snd

/-- Whether an operation is a `put`. -/
def QueueOp.isPut {τ : Type*} : QueueOp τ → Bool
  | .put _ => true
  | .take => false

section Queue

variable {τ : Type*} {full : List τ → Bool} {taken : Signal QueueCond} {cap : ℕ∞}

/-- What can go on of each kind of call. -/
def queueRoom (cap : ℕ∞) : QueueCond → List τ → ℕ∞
  | .notEmpty, queue => queue.length
  | .notFull, queue => cap - queue.length

/-- What an operation may have to wait for. -/
def queueWaits (cap : ℕ∞) : QueueOp τ → Option QueueCond
  | .put _ => if cap = ⊤ then none else some .notFull
  | .take => some .notEmpty

/-- **A queue is full at its capacity**, and if it has one, `take` signals. -/
structure HoldsUpTo (full : List τ → Bool) (taken : Signal QueueCond) (cap : ℕ∞) : Prop where
  full : ∀ queue, full queue = true ↔ cap ≤ queue.length
  taken : (cap = ⊤ ∧ taken = .silent) ∨ (cap ≠ ⊤ ∧ taken = .notify .notFull)

theorem holdsUpTo_blockingQueue : HoldsUpTo (fun _ : List τ => false) .silent ⊤ where
  full queue := by simp
  taken := Or.inl ⟨rfl, rfl⟩

theorem holdsUpTo_boundedBlockingQueue (maxSize : ℕ) :
    HoldsUpTo (fun queue : List τ => maxSize ≤ queue.length) (.notify .notFull) maxSize where
  full queue := by simp
  taken := Or.inr ⟨ENat.natCast_ne_top _, rfl⟩

/-- **Each operation signals what it makes room for.** -/
theorem supplied_queue (h : HoldsUpTo full taken cap) :
    (queueMonitor τ full taken).Supplied (queueRoom cap) (queueWaits cap) where
  waits o queue c hwaits := by
    cases o with
    | put x =>
      unfold queueMonitor at hwaits
      dsimp only at hwaits
      split_ifs at hwaits with hfull
      obtain rfl := Attempt.waits.inj hwaits
      have hle := (h.full queue).mp hfull
      refine ⟨if_neg ?_, tsub_eq_zero_of_le hle⟩
      rintro rfl
      exact absurd (top_le_iff.mp hle) (ENat.natCast_ne_top _)
    | take =>
      cases queue with
      | nil =>
        obtain rfl := Attempt.waits.inj hwaits
        exact ⟨rfl, rfl⟩
      | cons x queue => cases hwaits
  returns o queue queue' result signal hreturns c := by
    cases o with
    | put x =>
      unfold queueMonitor at hreturns
      dsimp only at hreturns
      split_ifs at hreturns with hfull
      obtain ⟨rfl, -, rfl⟩ := Attempt.returns.inj hreturns
      cases c with
      | notEmpty =>
        have hnot : queueWaits cap (QueueOp.put x) ≠ some .notEmpty := by
          unfold queueWaits
          split_ifs <;> simp
        simp [queueRoom, makes, hnot]
      | notFull =>
        have hroom := mt (h.full queue).mpr hfull
        unfold queueRoom
        cases cap using ENat.recTopCoe with
        | top => simp
        | coe n =>
          rw [Nat.cast_le] at hroom
          simp only [queueWaits, ENat.natCast_ne_top, if_false, if_true, List.length_append,
            List.length_singleton, makes, reduceCtorEq, add_zero]
          norm_cast
          omega
    | take =>
      cases queue with
      | nil => cases hreturns
      | cons front rest =>
        obtain ⟨rfl, -, rfl⟩ := Attempt.returns.inj hreturns
        cases c with
        | notEmpty =>
          simp only [queueRoom, queueWaits, if_true, List.length_cons]
          norm_cast
          exact le_self_add
        | notFull =>
          simp only [queueRoom, queueWaits, Option.some.injEq, reduceCtorEq, if_false,
            List.length_cons, Nat.cast_zero, add_zero]
          rcases h.taken with ⟨rfl, rfl⟩ | ⟨hcap, rfl⟩
          · simp
          · obtain ⟨n, rfl⟩ := ENat.ne_top_iff_exists.mp hcap
            simp only [makes, if_true]
            norm_cast
            omega
  blocks o queue c hop hroom := by
    cases o with
    | put x =>
      unfold queueWaits at hop
      split_ifs at hop with hcap
      obtain rfl := Option.some_inj.mp hop
      have hle : cap ≤ queue.length := tsub_eq_zero_iff_le.mp hroom
      exact if_pos ((h.full queue).mpr hle)
    | take =>
      obtain rfl := Option.some_inj.mp hop
      change (queue.length : ℕ∞) = 0 at hroom
      have hnil : queue = [] := List.length_eq_zero_iff.mp (by exact_mod_cast hroom)
      rw [hnil]
      rfl

/-! ## What a queue serves -/

/-- How many of some calls are a `put`. -/
def puts (calls : List (QueueOp τ)) : ℕ := calls.countP QueueOp.isPut

/-- How many are a `take`. -/
def takes (calls : List (QueueOp τ)) : ℕ := calls.countP fun o => !o.isPut

/-- **The invariant of a queue**: what has been put is what has been taken, in
order, and what is in the queue. -/
structure Fifo (cap : ℕ∞) (done : List (QueueOp τ × Option τ)) (queue : List τ) : Prop where
  order : takesOf done ++ queue = putsOf done
  bounded : queue.length ≤ cap
  put : (putsOf done).length = puts (done.map Prod.fst)
  taken : (takesOf done).length = takes (done.map Prod.fst)

section Concat

variable {done : List (QueueOp τ × Option τ)} {x : τ}

theorem putsOf_put {r : Option τ} : putsOf (done ++ [(.put x, r)]) = putsOf done ++ [x] := by
  rw [putsOf, List.filterMap_append]
  rfl

theorem putsOf_take {r : Option τ} : putsOf (done ++ [(.take, r)]) = putsOf done := by
  rw [putsOf, List.filterMap_append]
  exact List.append_nil _

theorem takesOf_put : takesOf (done ++ [(.put x, none)]) = takesOf done := by
  rw [takesOf, List.filterMap_append]
  exact List.append_nil _

theorem takesOf_take : takesOf (done ++ [(.take, some x)]) = takesOf done ++ [x] := by
  rw [takesOf, List.filterMap_append]
  rfl

theorem puts_concat (calls : List (QueueOp τ)) (o : QueueOp τ) :
    puts (calls ++ [o]) = puts calls + if o.isPut then 1 else 0 := by
  simp only [puts, List.countP_append, List.countP_singleton]

theorem takes_concat (calls : List (QueueOp τ)) (o : QueueOp τ) :
    takes (calls ++ [o]) = takes calls + if o.isPut then 0 else 1 := by
  simp only [takes, List.countP_append, List.countP_singleton]
  cases o.isPut <;> rfl

end Concat

theorem fifo_step (h : HoldsUpTo full taken cap) {done : List (QueueOp τ × Option τ)}
    {queue queue' : List τ} {o : QueueOp τ} {result : Option τ} {signal : Signal QueueCond}
    (hf : Fifo cap done queue)
    (hreturns : (queueMonitor τ full taken).attempt o queue = .returns queue' result signal) :
    Fifo cap (done ++ [(o, result)]) queue' := by
  obtain ⟨horder, hbounded, hputs, htakes⟩ := hf
  cases o with
  | put x =>
    unfold queueMonitor at hreturns
    dsimp only at hreturns
    split_ifs at hreturns with hfull
    obtain ⟨rfl, rfl, -⟩ := Attempt.returns.inj hreturns
    have hroom := not_le.mp (mt (h.full queue).mpr hfull)
    refine ⟨?_, ?_, ?_, ?_⟩
    · rw [takesOf_put, putsOf_put, ← List.append_assoc, horder]
    · rw [List.length_append, List.length_singleton, Nat.cast_succ]
      exact Order.add_one_le_of_lt hroom
    · rw [putsOf_put, List.length_append, hputs, List.map_append, List.map_singleton, puts_concat]
      rfl
    · rw [takesOf_put, htakes, List.map_append, List.map_singleton, takes_concat]
      rfl
  | take =>
    cases queue with
    | nil => cases hreturns
    | cons front rest =>
      obtain ⟨rfl, rfl, -⟩ := Attempt.returns.inj hreturns
      refine ⟨?_, ?_, ?_, ?_⟩
      · rw [takesOf_take, putsOf_take, ← horder, List.append_assoc, List.singleton_append]
      · refine le_trans ?_ hbounded
        rw [List.length_cons]
        exact_mod_cast Nat.le_succ _
      · rw [putsOf_take, hputs, List.map_append, List.map_singleton, puts_concat]
        rfl
      · rw [takesOf_take, List.length_append, htakes, List.map_append, List.map_singleton,
          takes_concat]
        rfl

/-- **After every run.** -/
theorem fifo_run (h : HoldsUpTo full taken cap) (as : List (MonitorStep (QueueOp τ))) :
    Fifo cap ((queueMonitor τ full taken).machine.outs ⟨[], []⟩ as)
      ((queueMonitor τ full taken).machine.after ⟨[], []⟩ as).shared :=
  returns_induct (s := ⟨[], []⟩) ⟨rfl, zero_le, rfl, rfl⟩
    (fun _ _ _ _ _ _ hf hreturns => fifo_step h hf hreturns) as

/-- **What a run of a queue comes to.** -/
structure Serves (cap : ℕ∞) (called : List (QueueOp τ)) (done : List (QueueOp τ × Option τ))
    (s : MonitorState QueueCond (List τ) (QueueOp τ)) : Prop where
  /-- Each item is taken once, in the order of the puts. -/
  order : takesOf done ++ s.shared = putsOf done
  bounded : s.shared.length ≤ cap
  /-- Where nobody is on the way, as many have returned as there can be. -/
  taken : Quiet s → takes (done.map Prod.fst) = min (puts called) (takes called)
  put : Quiet s → (puts (done.map Prod.fst) : ℕ∞) = min (puts called : ℕ∞) (takes called + cap)

/-- In a quiet state a `put` waits for a full queue, and a `take` for an empty
one. -/
theorem waiting_of_quiet (h : HoldsUpTo full taken cap)
    {s : MonitorState QueueCond (List τ) (QueueOp τ)}
    (hserved : Served (queueRoom cap) (queueWaits cap) s) (hquiet : Quiet s) :
    (puts (s.callers.map Caller.op) ≠ 0 → cap ≤ s.shared.length) ∧
      (takes (s.callers.map Caller.op) ≠ 0 → s.shared = []) := by
  constructor
  · intro hput
    obtain ⟨o, ho, hisPut⟩ := List.countP_pos_iff.mp (Nat.pos_of_ne_zero hput)
    obtain ⟨t, ht, rfl⟩ := List.mem_map.mp ho
    obtain ⟨c, hop, hroom, -⟩ := blocked_of_quiet (supplied_queue h) hserved hquiet ht
    cases hcase : t.op with
    | put x =>
      rw [hcase, queueWaits] at hop
      split_ifs at hop
      obtain rfl := Option.some_inj.mp hop
      exact tsub_eq_zero_iff_le.mp hroom
    | take =>
      rw [hcase] at hisPut
      cases hisPut
  · intro htake
    obtain ⟨o, ho, hisTake⟩ := List.countP_pos_iff.mp (Nat.pos_of_ne_zero htake)
    obtain ⟨t, ht, rfl⟩ := List.mem_map.mp ho
    obtain ⟨c, hop, hroom, -⟩ := blocked_of_quiet (supplied_queue h) hserved hquiet ht
    cases hcase : t.op with
    | put x =>
      rw [hcase] at hisTake
      cases hisTake
    | take =>
      rw [hcase] at hop
      obtain rfl := Option.some_inj.mp hop
      change (s.shared.length : ℕ∞) = 0 at hroom
      exact List.length_eq_zero_iff.mp (by exact_mod_cast hroom)

/-- **A queue serves its callers.** -/
theorem serves_run (h : HoldsUpTo full taken cap) (hcap : 0 < cap)
    (as : List (MonitorStep (QueueOp τ))) :
    Serves cap (as.flatMap calledBy) ((queueMonitor τ full taken).machine.outs ⟨[], []⟩ as)
      ((queueMonitor τ full taken).machine.after ⟨[], []⟩ as) := by
  have hf := fifo_run h as
  have hserved := served_run (supplied_queue h) (served_init []) as
  have hperm := calls_perm (M := queueMonitor τ full taken) ⟨[], []⟩ as
  generalize (queueMonitor τ full taken).machine.outs ⟨[], []⟩ as = done at *
  generalize (queueMonitor τ full taken).machine.after ⟨[], []⟩ as = s at *
  rw [List.map_nil, List.nil_append] at hperm
  have hputs : puts (as.flatMap calledBy) =
      puts (done.map Prod.fst) + puts (s.callers.map Caller.op) := by
    rw [puts, hperm.countP_eq, List.countP_append]
    rfl
  have htakes : takes (as.flatMap calledBy) =
      takes (done.map Prod.fst) + takes (s.callers.map Caller.op) := by
    rw [takes, hperm.countP_eq, List.countP_append]
    rfl
  have hlen := congrArg List.length hf.order
  rw [List.length_append, hf.put, hf.taken] at hlen
  have hbounded := hf.bounded
  refine ⟨hf.order, hbounded, fun hquiet => ?_, fun hquiet => ?_⟩
  · obtain ⟨hfull, hempty⟩ := waiting_of_quiet h hserved hquiet
    rcases Nat.eq_zero_or_pos (takes (s.callers.map Caller.op)) with h0 | hpos
    · omega
    · have hnil := hempty hpos.ne'
      rw [hnil, List.length_nil] at hfull hlen
      -- a queue that is empty is not full
      have hnone : puts (s.callers.map Caller.op) = 0 := by
        by_contra hne
        exact absurd (hfull hne) (not_le.mpr hcap)
      omega
  · obtain ⟨hfull, hempty⟩ := waiting_of_quiet h hserved hquiet
    rcases Nat.eq_zero_or_pos (puts (s.callers.map Caller.op)) with h0 | hpos
    · rw [hputs, h0, Nat.add_zero, eq_comm, min_eq_left_iff, ← hlen, htakes]
      push_cast
      rw [add_assoc]
      exact add_le_add_right (hbounded.trans le_add_self) _
    · have heq : cap = s.shared.length := le_antisymm (hfull hpos.ne') hbounded
      have hnone : takes (s.callers.map Caller.op) = 0 := by
        by_contra hne
        rw [heq, hempty hne] at hcap
        exact absurd hcap (lt_irrefl 0)
      rw [heq, htakes, hnone, hputs, ← hlen, Nat.add_zero, ← Nat.cast_add]
      exact (min_eq_right (by exact_mod_cast Nat.le_add_right _ _)).symm

end Queue

/-- **`BoundedBlockingQueue`, whatever its threads do.** The items are taken
once and in the order they are put, and at most `maxSize` are in the buffer. The
callers come to rest, and whenever all calls that have not returned wait, as
many have returned as possible: each `take` that has an item, each `put` that
has room. -/
theorem boundedBlockingQueue_serves {τ : Type*} {maxSize : ℕ} (hmax : 0 < maxSize)
    (as : List (MonitorStep (QueueOp τ))) :
    let done := (boundedBlockingQueue τ maxSize).machine.outs ⟨[], []⟩ as
    let s := (boundedBlockingQueue τ maxSize).machine.after ⟨[], []⟩ as
    Serves maxSize (as.flatMap calledBy) done s ∧ (boundedBlockingQueue τ maxSize).Rests s :=
  ⟨serves_run (holdsUpTo_boundedBlockingQueue maxSize) (by exact_mod_cast hmax) as, rests _ _⟩

/-- Two puts and a take, of a queue with room for one. -/
def oneSlot : List (MonitorStep (QueueOp ℕ)) :=
  [.call (.put 7), .call (.put 8), .lock 0 0, .lock 0 0, .call .take, .lock 1 0, .lock 0 0]

theorem boundedBlockingQueue_serves_oneSlot :
    let done := (boundedBlockingQueue ℕ 1).machine.outs ⟨[], []⟩ oneSlot
    let s := (boundedBlockingQueue ℕ 1).machine.after ⟨[], []⟩ oneSlot
    Serves (1 : ℕ) (oneSlot.flatMap calledBy) done s ∧ (boundedBlockingQueue ℕ 1).Rests s :=
  boundedBlockingQueue_serves Nat.one_pos oneSlot

/-- **`BlockingQueue`** has no bound, so no `put` waits. -/
theorem blockingQueue_serves (τ : Type*) (as : List (MonitorStep (QueueOp τ))) :
    let done := (blockingQueue τ).machine.outs ⟨[], []⟩ as
    let s := (blockingQueue τ).machine.after ⟨[], []⟩ as
    Serves ⊤ (as.flatMap calledBy) done s ∧ (blockingQueue τ).Rests s :=
  ⟨serves_run holdsUpTo_blockingQueue (by simp) as, rests _ _⟩

/-! ## Latches -/

/-- `wait` and `countDown`. -/
inductive LatchOp where
  | wait
  | countDown
  deriving DecidableEq

/-- **`CountDownLatch`**, over `count_`, which is not counted down so often that
the `int` underflows. -/
def countDownLatch : Monitor Unit ℤ LatchOp Unit where
  attempt
    | .wait, count => if 0 < count then .waits () else .returns count () .silent
    | .countDown, count =>
      .returns (count - 1) () (if count - 1 = 0 then .notifyAll () else .silent)

/-- Once it is open, all that wait can go on. -/
def latchRoom (_ : Unit) (count : ℤ) : ℕ∞ := if 0 < count then 0 else ⊤

/-- Only `wait` waits. -/
def latchWaits : LatchOp → Option Unit
  | .wait => some ()
  | .countDown => none

theorem supplied_latch : countDownLatch.Supplied latchRoom latchWaits where
  waits o count c hwaits := by
    cases o with
    | wait =>
      unfold countDownLatch at hwaits
      dsimp only at hwaits
      split_ifs at hwaits with hclosed
      exact ⟨rfl, if_pos hclosed⟩
    | countDown => cases hwaits
  returns o count count' result signal hreturns c := by
    cases o with
    | wait =>
      unfold countDownLatch at hreturns
      dsimp only at hreturns
      split_ifs at hreturns with hclosed
      obtain ⟨rfl, -, -⟩ := Attempt.returns.inj hreturns
      rw [latchRoom, if_neg hclosed, top_add]
      exact le_top
    | countDown =>
      obtain ⟨rfl, -, rfl⟩ := Attempt.returns.inj hreturns
      rw [latchWaits, if_neg (by simp), Nat.cast_zero, add_zero]
      -- the count that opens the latch tells all of it
      by_cases hopen : count - 1 = 0
      · rw [if_pos hopen, makes, if_pos rfl, add_top]
        exact le_top
      · rw [if_neg hopen, makes, add_zero, latchRoom, latchRoom]
        split_ifs with hclosed hclosed' hclosed'
        · exact le_refl _
        · exact le_top
        · omega
        · exact le_refl _
  blocks o count c hop hroom := by
    cases o with
    | wait =>
      rw [latchRoom] at hroom
      split_ifs at hroom with hclosed
      · exact if_pos hclosed
      · cases hroom
    | countDown => cases hop

/-- How many of some calls count down. -/
def countDowns (calls : List LatchOp) : ℕ := calls.count .countDown

/-- The latch counts, and has let nobody through too early. -/
structure LatchOk (count : ℤ) (ops : List LatchOp) (n : ℤ) : Prop where
  counts : n = count - countDowns ops
  waited : ∀ i, ops[i]? = some .wait → count ≤ countDowns (ops.take i)

theorem latchOk_step {count n n' : ℤ} {ops : List LatchOp} {o : LatchOp} {result : Unit}
    {signal : Signal Unit} (h : LatchOk count ops n)
    (hreturns : countDownLatch.attempt o n = .returns n' result signal) :
    LatchOk count (ops ++ [o]) n' := by
  obtain ⟨hcounts, hwaited⟩ := h
  have hcases : (o = .wait ∧ n ≤ 0 ∧ n' = n) ∨ (o = .countDown ∧ n' = n - 1) := by
    cases o with
    | wait =>
      unfold countDownLatch at hreturns
      dsimp only at hreturns
      split_ifs at hreturns with hclosed
      obtain ⟨rfl, -, -⟩ := Attempt.returns.inj hreturns
      exact Or.inl ⟨rfl, by omega, rfl⟩
    | countDown =>
      obtain ⟨rfl, -, -⟩ := Attempt.returns.inj hreturns
      exact Or.inr ⟨rfl, rfl⟩
  unfold countDowns at hcounts hwaited
  refine ⟨?_, fun i hi => ?_⟩
  · rw [countDowns, List.count_append, List.count_singleton]
    rcases hcases with ⟨rfl, -, rfl⟩ | ⟨rfl, rfl⟩
    · simpa using hcounts
    · rw [hcounts]
      simp
      omega
  · rw [countDowns]
    rcases Nat.lt_or_ge i ops.length with hlt | hge
    · rw [List.getElem?_append_left hlt] at hi
      rw [List.take_append_of_le_length hlt.le]
      exact hwaited i hi
    · -- the operation that has just returned
      rw [List.getElem?_append_right hge, List.getElem?_singleton] at hi
      split_ifs at hi with hlast
      obtain rfl := Option.some_inj.mp hi
      rw [show i = ops.length by omega, List.take_left]
      rcases hcases with ⟨-, hopen, -⟩ | ⟨hcount, -⟩
      · omega
      · cases hcount

/-- **After every run.** -/
theorem latchOk_run (count : ℤ) (as : List (MonitorStep LatchOp)) :
    LatchOk count ((countDownLatch.machine.outs ⟨count, []⟩ as).map Prod.fst)
      (countDownLatch.machine.after ⟨count, []⟩ as).shared := by
  refine returns_induct (s := ⟨count, []⟩)
    (I := fun done n => LatchOk count (done.map Prod.fst) n)
    ⟨by simp [countDowns], fun i hi => by cases hi⟩ ?_ as
  intro done n o n' result signal h hreturns
  rw [List.map_append]
  exact latchOk_step h hreturns

/-- **Where nobody is on the way** and the latch has been counted down, nobody
is left. -/
theorem callers_of_quiet {count : ℤ} {as : List (MonitorStep LatchOp)}
    (hquiet : Quiet (countDownLatch.machine.after ⟨count, []⟩ as))
    (hcalled : count ≤ countDowns (as.flatMap calledBy)) :
    (countDownLatch.machine.after ⟨count, []⟩ as).callers = [] := by
  have hok := latchOk_run count as
  have hserved := served_run supplied_latch (served_init count) as
  have hperm := calls_perm (M := countDownLatch) ⟨count, []⟩ as
  generalize countDownLatch.machine.outs ⟨count, []⟩ as = done at *
  generalize countDownLatch.machine.after ⟨count, []⟩ as = s at *
  by_contra hne
  obtain ⟨t, ht⟩ := List.exists_mem_of_ne_nil _ hne
  obtain ⟨c, hop, hroom, -⟩ := blocked_of_quiet supplied_latch hserved hquiet ht
  -- who counts down does not wait, so all who count down have returned
  have hwaiting : countDowns (s.callers.map Caller.op) = 0 := by
    rw [countDowns, List.count_eq_zero]
    intro hmem
    obtain ⟨u, hu, hcount⟩ := List.mem_map.mp hmem
    obtain ⟨d, hop', -, -⟩ := blocked_of_quiet supplied_latch hserved hquiet hu
    rw [hcount] at hop'
    cases hop'
  have hsum : countDowns (as.flatMap calledBy) =
      countDowns (done.map Prod.fst) + countDowns (s.callers.map Caller.op) := by
    rw [List.map_nil, List.nil_append] at hperm
    rw [countDowns, hperm.count_eq, List.count_append]
    rfl
  have hcounts := hok.counts
  rw [latchRoom] at hroom
  split_ifs at hroom with hclosed
  · omega
  · cases hroom

/-- **`CountDownLatch`, whatever its threads do.** No `wait` returns before the
latch has been counted down to zero; and when it has been, the callers come to
rest with no call left behind. -/
theorem latch_opens (count : ℤ) (as : List (MonitorStep LatchOp)) :
    (∀ i, ((countDownLatch.machine.outs ⟨count, []⟩ as).map Prod.fst)[i]? = some .wait →
        count ≤ countDowns (((countDownLatch.machine.outs ⟨count, []⟩ as).map Prod.fst).take i)) ∧
      (Quiet (countDownLatch.machine.after ⟨count, []⟩ as) →
        count ≤ countDowns (as.flatMap calledBy) →
          (countDownLatch.machine.after ⟨count, []⟩ as).callers = []) ∧
      countDownLatch.Rests (countDownLatch.machine.after ⟨count, []⟩ as) :=
  ⟨(latchOk_run count as).waited, callers_of_quiet, rests _ _⟩

end TelnetServ
