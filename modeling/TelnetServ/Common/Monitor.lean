import TelnetServ.Common.Machine
import Mathlib.Data.ENat.Basic
import Mathlib.Data.List.Perm.Basic
import Mathlib.Tactic.Ring
/-!
# Monitors

An object behind a lock, with conditions its operations wait for: an operation
that holds the lock waits in a loop until it can go on, then does its work,
signals a condition and gives the lock back. Who gets the lock, whom a signal
wakes and who wakes without one is up to the run.

What an operation does it does at once, so an invariant of the object has only
to be kept by operations that return (`returns_induct`). That no signal is
missing is a property of the object too: where each operation that makes room
for another signals it (`Supplied`), a call that waits while nobody is on the
way has to wait (`blocked_of_quiet`). And the callers come to rest (`rests`).
-/

namespace Monitor

/-- What is sent when an operation ends. -/
inductive Signal (κ : Type*) where
  | silent
  | notify (c : κ)
  | notifyAll (c : κ)

/-- **What comes of an operation that holds the lock**: its loop waits, or it
returns. -/
inductive Attempt (κ σ ρ : Type*) where
  | waits (c : κ)
  | returns (shared : σ) (result : ρ) (signal : Signal κ)

/-- A call that has not returned. -/
structure Caller (κ ο : Type*) where
  op : ο
  /-- The condition; `none` where only the lock is waited for. -/
  waitsFor : Option κ
  deriving DecidableEq

end Monitor

/-- **An object with its operations.** -/
structure Monitor (κ σ ο ρ : Type*) where
  /-- One turn of an operation. -/
  attempt : ο → σ → Monitor.Attempt κ σ ρ

namespace Monitor

/-- The object and the calls on it. -/
structure MonitorState (κ σ ο : Type*) where
  shared : σ
  callers : List (Caller κ ο) := []

/-- A step: a call comes, one that is not waiting gets the lock, or one wakes
without a signal. `pick` is the waiter that is woken, if one is. -/
inductive MonitorStep (ο : Type*) where
  | call (o : ο)
  | lock (i pick : ℕ)
  | wake (i : ℕ)

section Callers

variable {κ ο : Type*}

/-- The place of a caller in the list. -/
theorem exists_split {α : Type*} {ts : List α} {i : ℕ} {t : α} (h : ts[i]? = some t) :
    ∃ pre post, ts = pre ++ t :: post ∧ ts.eraseIdx i = pre ++ post ∧
      ∀ u, ts.set i u = pre ++ u :: post := by
  obtain ⟨hi, rfl⟩ := List.getElem?_eq_some_iff.mp h
  refine ⟨ts.take i, ts.drop (i + 1), ?_, List.eraseIdx_eq_take_drop_succ .., fun u => ?_⟩
  · rw [← List.drop_eq_getElem_cons hi, List.take_append_drop]
  · rw [List.set_eq_take_append_cons_drop, if_pos hi]

variable [DecidableEq κ]

/-- The callers that wait for a condition. -/
def waiters (c : κ) (callers : List (Caller κ ο)) : ℕ :=
  callers.countP fun t => t.waitsFor = some c

/-- The `n`-th of those that wait for `c` is woken. -/
def wakeNth (c : κ) : ℕ → List (Caller κ ο) → List (Caller κ ο)
  | _, [] => []
  | n, t :: ts =>
    if t.waitsFor = some c then
      if n = 0 then ⟨t.op, none⟩ :: ts else t :: wakeNth c (n - 1) ts
    else t :: wakeNth c n ts

/-- **A signal**: one of those that wait is woken, or all of them. -/
def signalled (pick : ℕ) : Signal κ → List (Caller κ ο) → List (Caller κ ο)
  | .silent, callers => callers
  | .notify c, callers => wakeNth c (pick % waiters c callers) callers
  | .notifyAll c, callers =>
    callers.map fun t => if t.waitsFor = some c then ⟨t.op, none⟩ else t

/-- One that waits for `c` is woken. -/
def WakesOne (c : κ) (ts ts' : List (Caller κ ο)) : Prop :=
  ∃ pre o post, ts = pre ++ ⟨o, some c⟩ :: post ∧ ts' = pre ++ ⟨o, none⟩ :: post

/-- The callers on their way to what `c` stands for. -/
def onTheWay (waitsOn : ο → Option κ) (c : κ) (callers : List (Caller κ ο)) : ℕ :=
  callers.countP fun t => t.waitsFor = none ∧ waitsOn t.op = some c

variable {c : κ} {ts pre post : List (Caller κ ο)} {waitsOn : ο → Option κ}

theorem waiters_split (t : Caller κ ο) : waiters c (pre ++ t :: post) =
    waiters c (pre ++ post) + if t.waitsFor = some c then 1 else 0 := by
  simp only [waiters, List.countP_append, List.countP_cons, decide_eq_true_eq]
  omega

theorem onTheWay_split (t : Caller κ ο) : onTheWay waitsOn c (pre ++ t :: post) =
    onTheWay waitsOn c (pre ++ post) +
      if t.waitsFor = none ∧ waitsOn t.op = some c then 1 else 0 := by
  simp only [onTheWay, List.countP_append, List.countP_cons, decide_eq_true_eq]
  omega

theorem waiters_eq_zero_iff : waiters c ts = 0 ↔ ∀ t ∈ ts, t.waitsFor ≠ some c := by
  rw [waiters, List.countP_eq_zero]
  simp only [decide_eq_true_eq, Ne]

theorem wakesOne_wakeNth {n : ℕ} (h : n < waiters c ts) : WakesOne c ts (wakeNth c n ts) := by
  induction ts generalizing n with
  | nil => cases h
  | cons t ts ih =>
    rw [waiters, List.countP_cons] at h
    rw [wakeNth]
    by_cases ht : t.waitsFor = some c
    · rw [if_pos (decide_eq_true ht)] at h
      rw [if_pos ht]
      split_ifs with hn
      · exact ⟨[], t.op, ts, by rw [← ht]; rfl, rfl⟩
      · have hn1 : n - 1 < waiters c ts := by
          unfold waiters
          omega
        obtain ⟨pre, o, post, hts, hwoken⟩ := ih hn1
        exact ⟨t :: pre, o, post, by rw [hts]; rfl, by rw [hwoken]; rfl⟩
    · rw [if_neg ht]
      rw [if_neg (by simpa using ht), Nat.add_zero] at h
      obtain ⟨pre, o, post, hts, hwoken⟩ := ih h
      exact ⟨t :: pre, o, post, by rw [hts]; rfl, by rw [hwoken]; rfl⟩

theorem wakeNth_of_none {n : ℕ} (h : waiters c ts = 0) : wakeNth c n ts = ts := by
  induction ts generalizing n with
  | nil => rfl
  | cons t ts ih =>
    rw [waiters_eq_zero_iff] at h
    rw [wakeNth, if_neg (h t List.mem_cons_self),
      ih (waiters_eq_zero_iff.mpr fun u hu => h u (List.mem_cons_of_mem _ hu))]

/-- **`notify` wakes one, if one waits.** -/
theorem notify_cases (pick : ℕ) (c : κ) (ts : List (Caller κ ο)) :
    (waiters c ts = 0 ∧ signalled pick (.notify c) ts = ts) ∨
      WakesOne c ts (signalled pick (.notify c) ts) := by
  rcases Nat.eq_zero_or_pos (waiters c ts) with h0 | hpos
  · exact Or.inl ⟨h0, wakeNth_of_none h0⟩
  · exact Or.inr (wakesOne_wakeNth (Nat.mod_lt _ hpos))

/-- The operations stay what they are. -/
theorem map_op_signalled (pick : ℕ) (signal : Signal κ) (ts : List (Caller κ ο)) :
    (signalled pick signal ts).map Caller.op = ts.map Caller.op := by
  cases signal with
  | silent => rfl
  | notify c =>
    rcases notify_cases pick c ts with ⟨-, heq⟩ | ⟨pre, o, post, hts, heq⟩
    · rw [heq]
    · rw [heq, hts]
      simp only [List.map_append, List.map_cons]
  | notifyAll c =>
    rw [signalled, List.map_map]
    refine List.map_congr_left fun t _ => ?_
    rw [Function.comp_apply]
    split_ifs <;> rfl

end Callers

variable {κ σ ο ρ : Type*} [DecidableEq κ] (M : Monitor κ σ ο ρ)

/-- **A step of the monitor**; its output is what has returned. -/
def step (s : MonitorState κ σ ο) : MonitorStep ο → List (ο × ρ) × MonitorState κ σ ο
  | .call o => ([], { s with callers := s.callers ++ [⟨o, none⟩] })
  | .wake i =>
    match s.callers[i]? with
    | none => ([], s)
    | some t => ([], { s with callers := s.callers.set i ⟨t.op, none⟩ })
  | .lock i pick =>
    match s.callers[i]? with
    | none => ([], s)
    | some t =>
      match t.waitsFor with
      | some _ => ([], s)
      | none =>
        match M.attempt t.op s.shared with
        | .waits c => ([], { s with callers := s.callers.set i ⟨t.op, some c⟩ })
        | .returns shared result signal =>
          ([(t.op, result)], ⟨shared, signalled pick signal (s.callers.eraseIdx i)⟩)

/-- The monitor as a machine. -/
def machine : Machine (MonitorState κ σ ο) (MonitorStep ο) (ο × ρ) where
  step s a := M.step s a

/-- **What a step does**, `called` being the operation it begins and `done` the
one that has returned. -/
inductive Moves (s : MonitorState κ σ ο) :
    List ο → List (ο × ρ) → MonitorState κ σ ο → Prop
  | call (o : ο) : Moves s [o] [] ⟨s.shared, s.callers ++ [⟨o, none⟩]⟩
  | idle : Moves s [] [] s
  | wake {pre post : List (Caller κ ο)} {o : ο} {c : κ}
      (h : s.callers = pre ++ ⟨o, some c⟩ :: post) :
      Moves s [] [] ⟨s.shared, pre ++ ⟨o, none⟩ :: post⟩
  | waits {pre post : List (Caller κ ο)} {o : ο} {c : κ}
      (h : s.callers = pre ++ ⟨o, none⟩ :: post) (hwaits : M.attempt o s.shared = .waits c) :
      Moves s [] [] ⟨s.shared, pre ++ ⟨o, some c⟩ :: post⟩
  | returns {pre post : List (Caller κ ο)} {o : ο} {shared : σ} {result : ρ} {signal : Signal κ}
      (pick : ℕ) (h : s.callers = pre ++ ⟨o, none⟩ :: post)
      (hreturns : M.attempt o s.shared = .returns shared result signal) :
      Moves s [] [(o, result)] ⟨shared, signalled pick signal (pre ++ post)⟩

/-- The operation a step begins. -/
def calledBy : MonitorStep ο → List ο
  | .call o => [o]
  | .lock _ _ | .wake _ => []

/-- **Every step is one of these.** -/
theorem moves (s : MonitorState κ σ ο) (a : MonitorStep ο) :
    M.Moves s (calledBy a) (M.step s a).1 (M.step s a).2 := by
  cases a with
  | call o => exact .call o
  | wake i =>
    unfold step
    dsimp only
    cases hget : s.callers[i]? with
    | none => exact .idle
    | some t =>
      obtain ⟨pre, post, hsplit, -, hset⟩ := exists_split hget
      obtain ⟨o, w⟩ := t
      dsimp only
      rw [hset]
      cases w with
      | none =>
        rw [← hsplit]
        exact .idle
      | some c => exact .wake hsplit
  | lock i pick =>
    unfold step
    dsimp only
    cases hget : s.callers[i]? with
    | none => exact .idle
    | some t =>
      obtain ⟨pre, post, hsplit, herase, hset⟩ := exists_split hget
      obtain ⟨o, w⟩ := t
      cases w with
      | some c => exact .idle
      | none =>
        dsimp only
        cases hattempt : M.attempt o s.shared with
        | waits c =>
          dsimp only
          rw [hset]
          exact .waits hsplit hattempt
        | returns shared result signal =>
          dsimp only
          rw [herase]
          exact .returns pick hsplit hattempt

/-! ## The object -/

variable {M} {s s' : MonitorState κ σ ο} {called : List ο} {done : List (ο × ρ)}

/-- The object changes when an operation returns. -/
theorem Moves.shared_cases (h : M.Moves s called done s') :
    (done = [] ∧ s'.shared = s.shared) ∨ ∃ o result signal, done = [(o, result)] ∧
      M.attempt o s.shared = .returns s'.shared result signal := by
  cases h with
  | call o => exact Or.inl ⟨rfl, rfl⟩
  | idle => exact Or.inl ⟨rfl, rfl⟩
  | wake h => exact Or.inl ⟨rfl, rfl⟩
  | waits h _ => exact Or.inl ⟨rfl, rfl⟩
  | returns pick h hreturns => exact Or.inr ⟨_, _, _, rfl, hreturns⟩

/-- **An invariant of the object**, kept by every operation that returns,
holds after every run. `done` is what has returned, in order. -/
theorem returns_induct {I : List (ο × ρ) → σ → Prop} (h : I [] s.shared)
    (hstep : ∀ done x o x' result signal, I done x →
      M.attempt o x = .returns x' result signal → I (done ++ [(o, result)]) x')
    (as : List (MonitorStep ο)) : I (M.machine.outs s as) (M.machine.after s as).shared := by
  have hv : M.machine.Valid (fun _ _ => True) s as :=
    M.machine.valid_of_inputs (P := fun _ => True) fun _ _ => trivial
  refine M.machine.run_induct_valid (I := fun done s => I done s.shared) (t := []) h hv ?_
  intro done s a hI _
  show I (done ++ (M.step s a).1) (M.step s a).2.shared
  rcases (M.moves s a).shared_cases with ⟨hnone, hsame⟩ | ⟨o, result, signal, hdone, hreturns⟩
  · rwa [hnone, hsame, List.append_nil]
  · rw [hdone]
    exact hstep _ _ _ _ _ _ hI hreturns

/-- The calls of a step are those that come, and those that go have been
there. -/
theorem Moves.perm (h : M.Moves s called done s') :
    (s.callers.map Caller.op ++ called).Perm (done.map Prod.fst ++ s'.callers.map Caller.op) := by
  cases h with
  | call o => simp
  | idle => simp
  | wake h => simp [h]
  | waits h _ => simp [h]
  | returns pick h _ =>
    rw [h, map_op_signalled]
    simp only [List.map_append, List.map_cons, List.append_nil, List.map_nil]
    exact List.perm_middle

/-- **No call is lost, and none returns twice.** -/
theorem calls_perm (s : MonitorState κ σ ο) (as : List (MonitorStep ο)) :
    (s.callers.map Caller.op ++ as.flatMap calledBy).Perm
      ((M.machine.outs s as).map Prod.fst ++ (M.machine.after s as).callers.map Caller.op) := by
  induction as generalizing s with
  | nil => simp
  | cons a as ih =>
    have hstep := (M.moves s a).perm
    have hrun := ih (M.step s a).2
    rw [Machine.outs_cons, Machine.after_cons, List.flatMap_cons, List.map_append,
      ← List.append_assoc]
    refine (hstep.append_right _).trans ?_
    rw [List.append_assoc, List.append_assoc]
    exact hrun.append_left _

/-! ## Waiting -/

/-- How many of `c` a signal tells of. -/
def makes (c : κ) : Signal κ → ℕ∞
  | .silent => 0
  | .notify d => if d = c then 1 else 0
  | .notifyAll d => if d = c then ⊤ else 0

/-- **No operation keeps what it makes to itself.** `room c` bounds how many
operations that wait for `c` can go on; who waits finds no room, and each step
that makes room for another signals it. -/
structure Supplied (M : Monitor κ σ ο ρ) (room : κ → σ → ℕ∞) (waitsOn : ο → Option κ) : Prop where
  waits : ∀ o x c, M.attempt o x = .waits c → waitsOn o = some c ∧ room c x = 0
  returns : ∀ o x x' result signal, M.attempt o x = .returns x' result signal → ∀ c,
    room c x' + (if waitsOn o = some c then 1 else 0 : ℕ) ≤ room c x + makes c signal
  blocks : ∀ o x c, waitsOn o = some c → room c x = 0 → M.attempt o x = .waits c

/-- **The invariant.** Where somebody waits, there is room for no more than
those on their way. -/
structure Served (room : κ → σ → ℕ∞) (waitsOn : ο → Option κ) (s : MonitorState κ σ ο) : Prop where
  placed : ∀ t ∈ s.callers, ∀ c, t.waitsFor = some c → waitsOn t.op = some c
  served : ∀ c, 0 < waiters c s.callers → room c s.shared ≤ onTheWay waitsOn c s.callers

variable {room : κ → σ → ℕ∞} {waitsOn : ο → Option κ} {ts : List (Caller κ ο)}

theorem served_init (x : σ) : Served room waitsOn (⟨x, []⟩ : MonitorState κ σ ο) :=
  ⟨fun _ ht => absurd ht List.not_mem_nil, fun _ hw => absurd hw (Nat.lt_irrefl 0)⟩

/-- Who is behind a signal was there before. -/
theorem mem_of_mem_signalled {pick : ℕ} {signal : Signal κ} {t : Caller κ ο}
    (h : t ∈ signalled pick signal ts) : t ∈ ts ∨ t.waitsFor = none := by
  cases signal with
  | silent => exact Or.inl h
  | notify d =>
    rcases notify_cases pick d ts with ⟨-, heq⟩ | ⟨pre, o, post, hts, heq⟩
    · rw [heq] at h
      exact Or.inl h
    · rw [heq, List.mem_append, List.mem_cons] at h
      rw [hts, List.mem_append, List.mem_cons]
      rcases h with h | rfl | h
      · exact Or.inl (Or.inl h)
      · exact Or.inr rfl
      · exact Or.inl (Or.inr (Or.inr h))
  | notifyAll d =>
    obtain ⟨u, hu, rfl⟩ := List.mem_map.mp h
    split_ifs
    · exact Or.inr rfl
    · exact Or.inl hu

/-- **What a signal does for those that wait for `c`**: if one still waits, as
many as it tells of are on their way. -/
theorem served_signalled (hplaced : ∀ t ∈ ts, ∀ c, t.waitsFor = some c → waitsOn t.op = some c)
    (pick : ℕ) (signal : Signal κ) (c : κ) (hstill : 0 < waiters c (signalled pick signal ts)) :
    0 < waiters c ts ∧ (onTheWay waitsOn c ts : ℕ∞) + makes c signal ≤
      onTheWay waitsOn c (signalled pick signal ts) := by
  cases signal with
  | silent => exact ⟨hstill, by rw [makes, add_zero]; rfl⟩
  | notify d =>
    rcases notify_cases pick d ts with ⟨h0, heq⟩ | ⟨pre, o, post, hts, heq⟩
    · rw [heq] at hstill ⊢
      have hne : d ≠ c := by
        rintro rfl
        omega
      exact ⟨hstill, by rw [makes, if_neg hne, add_zero]⟩
    · have hop := hplaced ⟨o, some d⟩ (by rw [hts]; exact List.mem_append_cons_self) d rfl
      rw [heq, waiters_split] at hstill
      rw [heq, hts, waiters_split, onTheWay_split, onTheWay_split, makes]
      by_cases hd : d = c
      · subst hd
        simp only [hop, if_true, and_true, reduceCtorEq, if_false]
        exact ⟨by omega, by norm_cast⟩
      · have hne : waitsOn o ≠ some c := by
          rw [hop]
          exact fun h => hd (Option.some_inj.mp h)
        simp only [hd, hne, if_false, and_false, add_zero, Option.some.injEq,
          reduceCtorEq] at hstill ⊢
        exact ⟨hstill, le_refl _⟩
  | notifyAll d =>
    rw [signalled] at hstill ⊢
    by_cases hd : d = c
    · subst hd
      refine absurd (waiters_eq_zero_iff.mpr fun t ht => ?_) hstill.ne'
      obtain ⟨u, -, rfl⟩ := List.mem_map.mp ht
      split_ifs with hu
      · simp
      · exact hu
    · rw [makes, if_neg hd, add_zero]
      refine ⟨?_, ?_⟩
      · refine hstill.trans_le ?_
        rw [waiters, List.countP_map]
        refine List.countP_mono_left fun t _ ht => ?_
        simp only [Function.comp_apply, decide_eq_true_eq] at ht ⊢
        split_ifs at ht with hu
        exact ht
      · rw [Nat.cast_le, onTheWay, onTheWay, List.countP_map]
        refine List.countP_mono_left fun t _ ht => ?_
        simp only [Function.comp_apply, decide_eq_true_eq] at ht ⊢
        rw [if_neg (by simp [ht.1])]
        exact ht

/-- **Each step keeps it.** -/
theorem Served.step (hsup : Supplied M room waitsOn) (h : Served room waitsOn s)
    (hmoves : M.Moves s called done s') : Served room waitsOn s' := by
  obtain ⟨hplaced, hserved⟩ := h
  cases hmoves with
  | call o =>
    refine ⟨fun t ht c hc => ?_, fun c hw => ?_⟩
    · rcases List.mem_append.mp ht with ht | ht
      · exact hplaced t ht c hc
      · rw [List.mem_singleton.mp ht] at hc
        cases hc
    · rw [waiters_split, List.append_nil] at hw
      refine (hserved c (by simpa using hw)).trans ?_
      rw [Nat.cast_le, onTheWay_split, List.append_nil]
      omega
  | idle => exact ⟨hplaced, hserved⟩
  | wake hsplit =>
    rw [hsplit] at hplaced hserved
    refine ⟨fun t ht c hc => ?_, fun c hw => ?_⟩
    · rcases List.mem_append.mp ht with ht | ht
      · exact hplaced t (List.mem_append_left _ ht) c hc
      · rcases List.mem_cons.mp ht with rfl | ht
        · cases hc
        · exact hplaced t (List.mem_append_right _ (List.mem_cons_of_mem _ ht)) c hc
    · have hold := hserved c
      rw [waiters_split, onTheWay_split] at hold
      rw [waiters_split] at hw
      rw [onTheWay_split]
      refine (hold (by simp only [reduceCtorEq, if_false] at hw; omega)).trans ?_
      rw [Nat.cast_le]
      simp only [reduceCtorEq, false_and, if_false]
      omega
  | @waits pre post o d hsplit hwaits =>
    obtain ⟨hop, hroom⟩ := hsup.waits _ _ _ hwaits
    rw [hsplit] at hplaced hserved
    refine ⟨fun t ht c hc => ?_, fun c hw => ?_⟩
    · rcases List.mem_append.mp ht with ht | ht
      · exact hplaced t (List.mem_append_left _ ht) c hc
      · rcases List.mem_cons.mp ht with rfl | ht
        · rw [← hc]
          exact hop
        · exact hplaced t (List.mem_append_right _ (List.mem_cons_of_mem _ ht)) c hc
    · by_cases hd : d = c
      · subst hd
        show room d s.shared ≤ _
        rw [hroom]
        exact zero_le
      · have hold := hserved c
        rw [waiters_split, onTheWay_split] at hold
        rw [waiters_split] at hw
        rw [onTheWay_split]
        simp only [hop, hd, Option.some.injEq, reduceCtorEq, if_false, and_false,
          Nat.add_zero] at hold hw ⊢
        exact hold hw
  | @returns pre post o shared result signal pick hsplit hreturns =>
    rw [hsplit] at hplaced hserved
    have hrest : ∀ t ∈ pre ++ post, ∀ c, t.waitsFor = some c → waitsOn t.op = some c := by
      intro t ht
      refine hplaced t ?_
      rw [List.mem_append] at ht
      rw [List.mem_append, List.mem_cons]
      exact ht.imp_right Or.inr
    refine ⟨fun t ht c hc => ?_, fun c hw => ?_⟩
    · rcases mem_of_mem_signalled ht with ht | ht
      · exact hrest t ht c hc
      · rw [ht] at hc
        cases hc
    · obtain ⟨hbefore, hwoken⟩ := served_signalled hrest pick signal c hw
      have hold := hserved c
      rw [waiters_split, onTheWay_split] at hold
      simp only [true_and] at hold
      have hroom := hsup.returns _ _ _ _ _ hreturns c
      refine le_trans ?_ hwoken
      -- the room there is now is what there was, less what was taken
      have hsum := hroom.trans (add_le_add_left (hold (by omega)) (makes c signal))
      rw [Nat.cast_add, add_right_comm] at hsum
      exact (ENat.add_le_add_iff_right (ENat.natCast_ne_top _)).mp hsum

/-- **So it holds after every run.** -/
theorem served_run (hsup : Supplied M room waitsOn) (h : Served room waitsOn s)
    (as : List (MonitorStep ο)) : Served room waitsOn (M.machine.after s as) :=
  M.machine.after_induct h (fun s a h => h.step hsup (M.moves s a)) as

/-- Nobody is on the way: all calls wait for a condition. -/
def Quiet (s : MonitorState κ σ ο) : Prop := ∀ t ∈ s.callers, t.waitsFor ≠ none

/-- **No signal is missing.** Where nobody is on the way, each call that waits
would have to wait again. -/
theorem blocked_of_quiet (hsup : Supplied M room waitsOn) (h : Served room waitsOn s)
    (hquiet : Quiet s) {t : Caller κ ο} (ht : t ∈ s.callers) :
    ∃ c, waitsOn t.op = some c ∧ room c s.shared = 0 ∧ M.attempt t.op s.shared = .waits c := by
  obtain ⟨c, hc⟩ := Option.ne_none_iff_exists'.mp (hquiet t ht)
  have hop := h.placed t ht c hc
  have hw : 0 < waiters c s.callers := by
    rw [waiters, List.countP_pos_iff]
    exact ⟨t, ht, decide_eq_true hc⟩
  have hnone : onTheWay waitsOn c s.callers = 0 := by
    rw [onTheWay, List.countP_eq_zero]
    intro u hu
    simp [hquiet u hu]
  have hroom : room c s.shared = 0 := by
    have := h.served c hw
    rw [hnone] at this
    exact nonpos_iff_eq_zero.mp this
  exact ⟨c, hop, hroom, hsup.blocks _ _ _ hop hroom⟩

/-! ## Coming to rest -/

/-- A caller that does not wait gets the lock. -/
def Busy (s : MonitorState κ σ ο) : MonitorStep ο → Prop
  | .lock i _ => ∃ t, s.callers[i]? = some t ∧ t.waitsFor = none
  | .call _ | .wake _ => False

/-- How many callers are ready for the lock. -/
def ready (s : MonitorState κ σ ο) : ℕ := s.callers.countP fun t => t.waitsFor = none

/-- What is left to do: each call that returns may wake all the others. -/
def toDo (s : MonitorState κ σ ο) : ℕ := s.callers.length * s.callers.length + ready s

/-- **What a turn comes to.** -/
theorem busy_cases {i pick : ℕ} (hbusy : Busy s (.lock i pick)) :
    ∃ pre o post, s.callers = pre ++ ⟨o, none⟩ :: post ∧
      ((∃ c, M.attempt o s.shared = .waits c ∧
          M.step s (.lock i pick) = ([], ⟨s.shared, pre ++ ⟨o, some c⟩ :: post⟩)) ∨
        ∃ shared result signal, M.attempt o s.shared = .returns shared result signal ∧
          M.step s (.lock i pick) =
            ([(o, result)], ⟨shared, signalled pick signal (pre ++ post)⟩)) := by
  obtain ⟨⟨o, w⟩, hget, hw⟩ := hbusy
  dsimp only at hw
  subst hw
  obtain ⟨pre, post, hsplit, herase, hset⟩ := exists_split hget
  refine ⟨pre, o, post, hsplit, ?_⟩
  unfold step
  dsimp only
  rw [hget]
  dsimp only
  cases hattempt : M.attempt o s.shared with
  | waits c => exact Or.inl ⟨c, rfl, by dsimp only; rw [hset]⟩
  | returns shared result signal =>
    refine Or.inr ⟨shared, result, signal, rfl, ?_⟩
    dsimp only
    rw [herase]

/-- **There is less to do behind each turn.** -/
theorem toDo_lt {a : MonitorStep ο} (hbusy : Busy s a) : toDo (M.step s a).2 < toDo s := by
  cases a with
  | call o => cases hbusy
  | wake i => cases hbusy
  | lock i pick =>
    obtain ⟨pre, o, post, hsplit, hcases⟩ := busy_cases (M := M) hbusy
    have hready : ready s = pre.countP (fun t => t.waitsFor = none) +
        (post.countP (fun t => t.waitsFor = none) + 1) := by
      rw [ready, hsplit, List.countP_append, List.countP_cons]
      simp only [decide_true, if_true]
    have hlen : s.callers.length = pre.length + (post.length + 1) := by
      rw [hsplit, List.length_append, List.length_cons]
    rcases hcases with ⟨c, -, hstep⟩ | ⟨shared, result, signal, -, hstep⟩
    · rw [hstep, toDo, toDo, hready, ready, hsplit]
      simp only [List.length_append, List.length_cons, List.countP_append, List.countP_cons,
        reduceCtorEq, decide_false, Bool.false_eq_true, if_false]
      omega
    · have hops := congrArg List.length (map_op_signalled pick signal (pre ++ post))
      rw [List.length_map, List.length_map, List.length_append] at hops
      have hle :
          ready ⟨shared, signalled pick signal (pre ++ post)⟩ ≤ pre.length + post.length := by
        rw [ready, ← hops]
        exact List.countP_le_length
      have hsq : (pre.length + (post.length + 1)) * (pre.length + (post.length + 1)) =
          (pre.length + post.length) * (pre.length + post.length) + 2 * (pre.length + post.length)
            + 1 := by ring
      rw [hstep]
      dsimp only
      rw [toDo, toDo, hlen, hready, hops]
      omega

/-- **The callers come to rest**: as long as nobody calls and nobody wakes
without a signal, at most `toDo s` turns can be taken, and turns lead to a state
where nobody is on the way. -/
def Rests (M : Monitor κ σ ο ρ) (s : MonitorState κ σ ο) : Prop :=
  (∀ as, M.machine.Valid Busy s as → as.length ≤ toDo s) ∧
    ∃ as, M.machine.Valid Busy s as ∧ Quiet (M.machine.after s as)

theorem length_le_toDo {as : List (MonitorStep ο)} (hv : M.machine.Valid Busy s as) :
    as.length ≤ toDo s := by
  induction as generalizing s with
  | nil => exact Nat.zero_le _
  | cons a as ih =>
    have hlt := toDo_lt (M := M) hv.1
    have hle := ih hv.2
    rw [List.length_cons]
    exact (Nat.succ_le_succ hle).trans hlt

theorem exists_quiet (M : Monitor κ σ ο ρ) (s : MonitorState κ σ ο) :
    ∃ as, M.machine.Valid Busy s as ∧ Quiet (M.machine.after s as) := by
  induction hn : toDo s using Nat.strong_induction_on generalizing s with
  | _ n ih =>
    by_cases hquiet : Quiet s
    · exact ⟨[], trivial, hquiet⟩
    · obtain ⟨t, ht, hready⟩ : ∃ t ∈ s.callers, t.waitsFor = none := by
        simpa [Quiet] using hquiet
      obtain ⟨i, hi⟩ := List.mem_iff_getElem?.mp ht
      have hbusy : Busy s (.lock i 0) := ⟨t, hi, hready⟩
      obtain ⟨as, hv, hrest⟩ := ih _ (hn ▸ toDo_lt (M := M) hbusy) (M.step s (.lock i 0)).2 rfl
      exact ⟨.lock i 0 :: as, ⟨hbusy, hv⟩, hrest⟩

/-- **From every state.** -/
theorem rests (M : Monitor κ σ ο ρ) (s : MonitorState κ σ ο) : M.Rests s :=
  ⟨fun _ hv => length_le_toDo hv, M.exists_quiet s⟩

end Monitor
