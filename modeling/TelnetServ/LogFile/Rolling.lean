import TelnetServ.LogFile.Writer
import Mathlib.Data.List.ModifyLast
import Mathlib.Algebra.BigOperators.Group.List.Basic
/-!
# The log file — when it is rolled

Behind each `append` the file is rolled if it has become too long, and every
`checkEveryN_` calls if the day is another one; but not twice in a second.
`rolled_rollFile` says what `rollFile` can do. `Sized` is kept by every call,
whatever the clock shows, and `Rolls` where the clock goes on. From them come
the two bounds on what a file can hold: `sizeBounded_run` and
`dayBounded_run`.
-/

namespace TelnetServ

open Calendar FileSystem Stdio

/-! ## What a file has been given -/

/-- **A file that has been opened**: when, and the messages it was given. -/
structure Opened where
  file : Path
  now : ℤ
  appends : List Appended := []

/-- A message goes to the file. -/
def Opened.add (o : Opened) (e : Appended) : Opened := { o with appends := o.appends ++ [e] }

/-- One event. -/
def addEvent (os : List Opened) : FileEvent → List Opened
  | .opened file now => os ++ [{ file := file, now := now }]
  | .appended e => os.modifyLast (·.add e)
  | .flushed => os

/-- **The files of a trace**, in the order they were opened in. -/
def filesOf (trace : List FileEvent) : List Opened := trace.foldl addEvent []

/-- How many bytes the messages have. -/
def lengths (es : List Appended) : ℕ := (es.map (·.logline.length)).sum

/-- Messages of another day than the file's. -/
def Opened.late (o : Opened) : List Appended :=
  o.appends.filter fun e => periodOf e.now ≠ periodOf o.now

/-- **The size bound**: behind a message that has left the file too long there
is another only if the clock showed the roll no later second than the one the
file was opened in. -/
def Opened.SizeBounded (c : LogConfig) (o : Opened) : Prop :=
  ∀ es x e rest, o.appends = es ++ x :: e :: rest →
    lengths (es ++ [x]) ≤ c.rollSize ∨ x.roll ≤ o.now

/-- All messages but the last fit `rollSize_`, or came in the second the file
was opened in. -/
def Opened.SecondBounded (c : LogConfig) (o : Opened) : Prop :=
  ∀ es e, o.appends = es ++ [e] → lengths es ≤ c.rollSize ∨ ∀ x ∈ es, x.now = o.now

/-- **The day bound**: there are at most `checkEveryN_` messages of a later
day. -/
def Opened.DayBounded (c : LogConfig) (o : Opened) : Prop :=
  (o.late.length : ℤ) ≤ max c.checkEveryN 1

theorem lengths_append (es es' : List Appended) :
    lengths (es ++ es') = lengths es + lengths es' := by
  rw [lengths, List.map_append, List.sum_append]
  rfl

theorem filesOf_append (t t' : List FileEvent) :
    filesOf (t ++ t') = t'.foldl addEvent (filesOf t) := List.foldl_append

theorem filesOf_opened (t : List FileEvent) (p : Path) (now : ℤ) :
    filesOf (t ++ [.opened p now]) = filesOf t ++ [{ file := p, now := now }] := filesOf_append ..

theorem filesOf_appended {t : List FileEvent} {os : List Opened} {o : Opened}
    (h : filesOf t = os ++ [o]) (e : Appended) :
    filesOf (t ++ [.appended e]) = os ++ [o.add e] := by
  rw [filesOf_append, h]
  exact List.modifyLast_concat _ _ _

@[simp] theorem filesOf_flushed (t : List FileEvent) : filesOf (t ++ [.flushed]) = filesOf t :=
  filesOf_append ..

/-! ## Periods -/

theorem periodOf_eq {now : ℤ} (h : 0 ≤ now) : periodOf now = now / 86400 * 86400 := by
  rw [periodOf, Int.tdiv_eq_ediv_of_nonneg h]
  rfl

/-- Between two times of a day there is no other. -/
theorem periodOf_between {a b d : ℤ} (h0 : 0 ≤ a) (hab : a ≤ b) (hbd : b ≤ d)
    (h : periodOf d = periodOf a) : periodOf b = periodOf a := by
  rw [periodOf_eq h0, periodOf_eq (by omega)] at h
  rw [periodOf_eq h0, periodOf_eq (by omega)]
  omega

/-! ## What `rollFile` does -/

variable {σ : Type*} {c : LogConfig} {out : Outside σ} {s s' : LogWriter σ} {ans : LogAnswers}

namespace LogWriter

/-- What is behind `deleteExpiredFile` in `rollFile`. -/
def expired (out : Outside σ) (s : LogWriter σ) (ans : LogAnswers) (isUseFilePath : Bool) (disk : σ)
    (commands : List (List UInt8)) : LogWriter σ :=
  { s with
    logFilePath :=
      if isUseFilePath then (rollDir s.logFilePath isUseFilePath).path else s.logFilePath
    outside := disk
    files := removeFiles s.files (commands.flatMap out.sh.removes)
    seen := ans.expire }

/-- The file `rollFile` opens. -/
def rollPath (c : LogConfig) (out : Outside σ) (s : LogWriter σ) (ans : LogAnswers)
    (isUseFilePath : Bool) : Path := absolute (s.filename c out ans.roll isUseFilePath)

/-- And what is behind its `fopen`, with the old file closed. -/
def rolled (c : LogConfig) (out : Outside σ) (s : LogWriter σ) (ans : LogAnswers)
    (isUseFilePath : Bool) (disk : σ) (commands : List (List UInt8)) : LogWriter σ :=
  { (s.expired out ans isUseFilePath disk commands).flushFile out with
    lastRoll := ans.roll
    lastFlush := ans.roll
    startOfPeriod := periodOf ans.roll
    file := some { file := s.rollPath c out ans isUseFilePath }
    files := openFile ((s.expired out ans isUseFilePath disk commands).flushFile out).files
      (s.rollPath c out ans isUseFilePath) }

/-- The commands `rollFile` gives. -/
def Expires (c : LogConfig) (out : Outside σ) (s : LogWriter σ) (ans : LogAnswers)
    (isUseFilePath : Bool) (commands : List (List UInt8)) : Prop :=
  c.deleteExpiredFile out.zone ans.expire (some (rollDir s.logFilePath isUseFilePath).path)
    ans.readDir = some commands

/-- **What `rollFile` does**: the process ends, before or behind the removal of
the expired files; a new file is opened in a new second; or nothing but the
expired files are removed. -/
inductive Rolled (c : LogConfig) (out : Outside σ) (s : LogWriter σ) (ans : LogAnswers) :
    List FileEvent → LogWriter σ → Prop
  | aborted : Rolled c out s ans [] s.abort
  | failed {isUseFilePath : Bool} {disk : σ} {commands : List (List UInt8)}
      (expires : s.Expires c out ans isUseFilePath commands) :
      Rolled c out s ans [] (s.expired out ans isUseFilePath disk commands).abort
  | opened {isUseFilePath : Bool} {disk : σ} {commands : List (List UInt8)}
      (later : s.lastRoll < ans.roll) (expires : s.Expires c out ans isUseFilePath commands) :
      Rolled c out s ans [.opened (s.rollPath c out ans isUseFilePath) ans.roll]
        (s.rolled c out ans isUseFilePath disk commands)
  | kept {isUseFilePath : Bool} {disk : σ} {commands : List (List UInt8)}
      (same : ans.roll ≤ s.lastRoll) (expires : s.Expires c out ans isUseFilePath commands) :
      Rolled c out s ans [] (s.expired out ans isUseFilePath disk commands)

theorem rolled_rollFile (c : LogConfig) (out : Outside σ) (s : LogWriter σ) (ans : LogAnswers) :
    Rolled c out s ans (rollFile c out s ans).1.1 (rollFile c out s ans).1.2 := by
  unfold rollFile
  cases huse : useFilePath out.fs s.logFilePath s.outside with
  | none => exact Rolled.aborted
  | some r =>
    obtain ⟨isUseFilePath, disk⟩ := r
    dsimp only
    cases hdel : c.deleteExpiredFile out.zone ans.expire
        (some (rollDir s.logFilePath isUseFilePath).path) ans.readDir with
    | none => exact Rolled.aborted
    | some commands =>
      by_cases hlater : s.lastRoll < ans.roll
      · by_cases hopens : ans.opens = true
        · simp only [if_pos hlater, hopens, if_true]
          exact Rolled.opened hlater hdel
        · simp only [if_pos hlater, if_neg hopens]
          exact Rolled.failed hdel
      · simp only [if_neg hlater]
        exact Rolled.kept (Int.not_lt.mp hlater) hdel

/-- **What `append_unlocked` does** behind the write: it rolls a file that has
become too long, or one of another day, or it flushes the file, or it does no
more than count. -/
inductive Appends (c : LogConfig) (out : Outside σ) (s : LogWriter σ) (f : AppendFile)
    (logline : List UInt8) (ans : LogAnswers) : List FileEvent → LogWriter σ → Prop
  | full {t : List FileEvent} {s' : LogWriter σ}
      (long : c.rollSize < f.writtenBytes + logline.length)
      (rolled : Rolled c out (s.written out f logline ans.check) ans t s') :
      Appends c out s f logline ans (.appended (s.appended out f logline ans) :: t) s'
  | nextDay {t : List FileEvent} {s' : LogWriter σ}
      (fits : f.writtenBytes + logline.length ≤ c.rollSize)
      (day : periodOf ans.check ≠ s.startOfPeriod)
      (rolled : Rolled c out { s.written out f logline ans.check with count := 0 } ans t s') :
      Appends c out s f logline ans (.appended (s.appended out f logline ans) :: t) s'
  | flushed (fits : f.writtenBytes + logline.length ≤ c.rollSize)
      (day : periodOf ans.check = s.startOfPeriod) :
      Appends c out s f logline ans [.appended (s.appended out f logline ans), .flushed]
        { (s.written out f logline ans.check).flushFile out with
          count := 0, lastFlush := ans.check }
  | sameDay (fits : f.writtenBytes + logline.length ≤ c.rollSize)
      (day : periodOf ans.check = s.startOfPeriod) :
      Appends c out s f logline ans [.appended (s.appended out f logline ans)]
        { s.written out f logline ans.check with count := 0 }
  | counted (fits : f.writtenBytes + logline.length ≤ c.rollSize)
      (early : s.count + 1 < c.checkEveryN) :
      Appends c out s f logline ans [.appended (s.appended out f logline ans)]
        { s.written out f logline ans.check with count := s.count + 1 }

theorem appends_appendUnlocked {f : AppendFile} (hf : s.file = some f) (logline : List UInt8)
    (ans : LogAnswers) : Appends c out s f logline ans (s.appendUnlocked c out logline ans).1
      (s.appendUnlocked c out logline ans).2 := by
  simp only [appendUnlocked, hf]
  by_cases hlong : c.rollSize < f.writtenBytes + logline.length
  · rw [if_pos hlong]
    exact Appends.full hlong (rolled_rollFile ..)
  rw [if_neg hlong]
  by_cases hdue : c.checkEveryN ≤ s.count + 1
  · rw [if_pos hdue]
    by_cases hday : periodOf ans.check ≠ s.startOfPeriod
    · rw [if_pos hday]
      exact Appends.nextDay (Nat.not_lt.mp hlong) hday (rolled_rollFile ..)
    · rw [if_neg hday]
      have hsame := not_not.mp hday
      by_cases hflush : c.flushInterval < ans.check - s.lastFlush
      · rw [if_pos hflush]
        exact Appends.flushed (Nat.not_lt.mp hlong) hsame
      · rw [if_neg hflush]
        exact Appends.sameDay (Nat.not_lt.mp hlong) hsame
  · rw [if_neg hdue]
    exact Appends.counted (Nat.not_lt.mp hlong) (Int.not_le.mp hdue)

/-- A process that has ended does nothing. -/
theorem step_of_aborted (hab : s.aborted = true) (a : LogCall) : s.step c out a = ([], s) := by
  cases a <;> simp [step, hab]

/-- And one that has not ended had not ended before. -/
theorem live_of_step {a : LogCall} (hlive : (s.step c out a).2.aborted = false) :
    s.aborted = false := by
  cases hab : s.aborted with
  | false => rfl
  | true =>
    rw [step_of_aborted hab, hab] at hlive
    cases hlive

/-- **What every call keeps**, told by its parts: a write, what `rollFile` does,
and a flush; the counters are not read. `A` is what is known of the answers. -/
structure Keeps (c : LogConfig) (out : Outside σ) (A : LogAnswers → Prop)
    (P : List FileEvent → LogWriter σ → Prop) : Prop where
  write : ∀ t s f logline ans, s.file = some f → P t s →
    P (t ++ [.appended (s.appended out f logline ans)]) (s.written out f logline ans.check)
  count : ∀ t s n l, P t s → P t { s with count := n, lastFlush := l }
  abort : ∀ t s, P t s → P t s.abort
  roll : ∀ t s ans t' s', A ans → Rolled c out s ans t' s' → P t s → P (t ++ t') s'
  flush : ∀ t s, P t s → P (t ++ [.flushed]) (s.flushFile out)

variable {A : LogAnswers → Prop} {P : List FileEvent → LogWriter σ → Prop}

theorem Keeps.step (hk : Keeps c out A P) {trace : List FileEvent} {a : LogCall}
    (ha : ∀ ans ∈ a.answers, A ans) (h : P trace s) :
    P (trace ++ (s.step c out a).1) (s.step c out a).2 := by
  have hstill : P (trace ++ []) s := by
    rw [List.append_nil]
    exact h
  cases a with
  | construct ans =>
    rw [LogWriter.step]
    split_ifs
    · exact hstill
    · exact hk.roll _ _ ans _ _ (ha ans rfl) (rolled_rollFile ..) h
  | append logline ans =>
    rw [LogWriter.step]
    split_ifs
    · exact hstill
    cases hf : s.file with
    | none =>
      rw [appendUnlocked, hf]
      exact hk.abort _ _ hstill
    | some f =>
      have happ : Appends c out s f logline ans _ _ := appends_appendUnlocked hf logline ans
      have hw := hk.write _ _ f logline ans hf h
      generalize s.appendUnlocked c out logline ans = r at happ ⊢
      obtain ⟨t, s'⟩ := r
      cases happ with
      | full long rolled =>
        rw [List.append_cons]
        exact hk.roll _ _ ans _ _ (ha ans rfl) rolled hw
      | nextDay fits day rolled =>
        rw [List.append_cons]
        exact hk.roll _ _ ans _ _ (ha ans rfl) rolled (hk.count _ _ _ _ hw)
      | flushed fits day =>
        rw [List.append_cons]
        exact hk.count _ _ _ _ (hk.flush _ _ hw)
      | sameDay fits day => exact hk.count _ _ _ s.lastFlush hw
      | counted fits early => exact hk.count _ _ _ s.lastFlush hw
  | flush =>
    rw [LogWriter.step]
    split_ifs
    · exact hstill
    · exact hk.abort _ _ hstill
    · exact hk.flush _ _ h

/-- **The invariant rule** of a `LogFile`. -/
theorem Keeps.run (hk : Keeps c out A P) {start : LogWriter σ} {calls : List LogCall}
    (ha : ∀ a ∈ calls, ∀ ans ∈ a.answers, A ans) (h : P [] start) :
    P ((writerMachine c out).outs start calls) ((writerMachine c out).after start calls) :=
  (writerMachine c out).run_induct_valid h ((writerMachine c out).valid_of_inputs ha)
    fun _ _ _ h ha => hk.step ha h

end LogWriter

/-! ## Whatever the clock shows -/

/-- The file that is open, and how long it is. -/
structure OpenSized (c : LogConfig) (s : LogWriter σ) (f : AppendFile) (o : Opened) : Prop where
  now : o.now = s.lastRoll
  bytes : f.writtenBytes = lengths o.appends
  roll : ∀ es x, o.appends = es ++ [x] → f.writtenBytes ≤ c.rollSize ∨ x.roll ≤ o.now

/-- **What holds along every run.** Of the file that is open nothing is said
where the process has ended. -/
structure Sized (c : LogConfig) (trace : List FileEvent) (s : LogWriter σ) : Prop where
  bounded : ∀ o ∈ filesOf trace, o.SizeBounded c
  /-- No two files of one second. -/
  times : (filesOf trace).Pairwise fun o o' => o.now < o'.now
  below : ∀ o ∈ filesOf trace, o.now ≤ s.lastRoll
  opened : s.aborted = false → ∀ f, s.file = some f →
    ∃ os o, filesOf trace = os ++ [o] ∧ OpenSized c s f o

section Sizes

variable {trace t : List FileEvent} {f f' : AppendFile} {o : Opened} {os : List Opened}
variable {e : Appended} {logline : List UInt8}

/-- One more message. -/
theorem OpenSized.sizeBounded_add (h : OpenSized c s f o) (ho : o.SizeBounded c) (e : Appended) :
    (o.add e).SizeBounded c := by
  intro es x e' rest hes
  rcases List.eq_nil_or_concat rest with rfl | ⟨rest, e'', rfl⟩
  · -- the message comes behind `x`, the last one so far
    have hlast : o.appends ++ [e] = (es ++ [x]) ++ [e'] := by
      rw [List.append_assoc]
      exact hes
    have hx := List.append_inj_left' hlast rfl
    rw [← hx, ← h.bytes]
    exact h.roll es x hx
  · have hlast : o.appends ++ [e] = (es ++ x :: e' :: rest) ++ [e''] := by
      rw [List.concat_eq_append] at hes
      rw [List.append_assoc]
      exact hes
    exact ho es x e' rest (List.append_inj_left' hlast rfl)

/-- The files behind a write, whatever has become of the one that is open. -/
theorem Sized.add (h : Sized c trace s) (hos : filesOf trace = os ++ [o])
    (hopen : OpenSized c s f o) (e : Appended) (hroll : s'.lastRoll = s.lastRoll)
    (hopen' : s'.aborted = false → ∀ f', s'.file = some f' → OpenSized c s' f' (o.add e)) :
    Sized c (trace ++ [.appended e]) s' := by
  have hfiles := filesOf_appended hos e
  have htimes := h.times
  have hbounded := h.bounded
  have hbelow := h.below
  rw [hos] at htimes hbounded hbelow
  rw [List.pairwise_append] at htimes
  rw [List.forall_mem_append, List.forall_mem_singleton] at hbounded hbelow
  refine ⟨?_, ?_, ?_, fun hlive f' hf' => ⟨os, o.add e, hfiles, hopen' hlive f' hf'⟩⟩
  · rw [hfiles, List.forall_mem_append, List.forall_mem_singleton]
    exact ⟨hbounded.1, hopen.sizeBounded_add hbounded.2 e⟩
  · rw [hfiles, List.pairwise_append]
    refine ⟨htimes.1, List.pairwise_singleton .., fun x hx y hy => ?_⟩
    rw [List.mem_singleton.mp hy]
    exact htimes.2.2 x hx o (List.mem_singleton_self o)
  · rw [hfiles, List.forall_mem_append, List.forall_mem_singleton, hroll]
    exact hbelow

/-- What has no part in it changes nothing. -/
theorem Sized.congr (h : Sized c trace s) (hfiles : filesOf (trace ++ t) = filesOf trace)
    (hroll : s'.lastRoll = s.lastRoll)
    (hfile : s'.aborted = false → ∀ f', s'.file = some f' → s.aborted = false ∧
      ∃ f, s.file = some f ∧ f'.writtenBytes = f.writtenBytes) : Sized c (trace ++ t) s' := by
  refine ⟨hfiles ▸ h.bounded, hfiles ▸ h.times, by rw [hfiles, hroll]; exact h.below,
    fun hlive f' hf' => ?_⟩
  obtain ⟨hlive, f, hf, hbytes⟩ := hfile hlive f' hf'
  obtain ⟨os, o, hos, hopen⟩ := h.opened hlive f hf
  exact ⟨os, o, hfiles.trans hos, hopen.now.trans hroll.symm, hbytes.trans hopen.bytes,
    by rw [hbytes]; exact hopen.roll⟩

/-- A new file in a new second. -/
theorem Sized.roll (h : Sized c trace s) (hroll : s'.lastRoll = s.lastRoll)
    {isUseFilePath : Bool} {disk : σ} {commands : List (List UInt8)}
    (hlater : s'.lastRoll < ans.roll) :
    Sized c (trace ++ [.opened (s'.rollPath c out ans isUseFilePath) ans.roll])
      (s'.rolled c out ans isUseFilePath disk commands) := by
  rw [hroll] at hlater
  refine ⟨?_, ?_, ?_, fun _ f hf => ?_⟩
  · rw [filesOf_opened, List.forall_mem_append, List.forall_mem_singleton]
    exact ⟨h.bounded, fun es x e rest hes => absurd hes (by simp)⟩
  · rw [filesOf_opened, List.pairwise_append]
    refine ⟨h.times, List.pairwise_singleton .., fun x hx y hy => ?_⟩
    rw [List.mem_singleton.mp hy]
    exact lt_of_le_of_lt (h.below x hx) hlater
  · rw [filesOf_opened, List.forall_mem_append, List.forall_mem_singleton]
    exact ⟨fun x hx => ((h.below x hx).trans_lt hlater).le, le_rfl⟩
  · cases hf
    exact ⟨_, _, filesOf_opened .., rfl, rfl, fun es x hes => absurd hes (by simp)⟩

/-- **What `rollFile` leaves behind a write**: where it opens no file the
clock shows no later second. -/
theorem Sized.add_rolled (h : Sized c trace s) (hos : filesOf trace = os ++ [o])
    (hopen : OpenSized c s f o) {w : LogWriter σ} (hr : LogWriter.Rolled c out w ans t s')
    (hfile : w.file = some f') (hbytes : f'.writtenBytes = f.writtenBytes + e.logline.length)
    (hroll : w.lastRoll = s.lastRoll) (hshown : e.roll = ans.roll) :
    Sized c (trace ++ [.appended e] ++ t) s' := by
  have hnow : o.now = w.lastRoll := hopen.now.trans hroll.symm
  have hlen : f'.writtenBytes = lengths (o.add e).appends := by
    rw [hbytes, hopen.bytes, Opened.add, lengths_append]
    rfl
  cases hr with
  | aborted =>
    rw [List.append_nil]
    exact h.add hos hopen e hroll fun hlive => by cases hlive
  | failed expires =>
    rw [List.append_nil]
    exact h.add hos hopen e hroll fun hlive => by cases hlive
  | kept same expires =>
    rw [List.append_nil]
    refine h.add hos hopen e hroll fun _ g hg => ?_
    obtain rfl : f' = g := Option.some_inj.mp (hfile.symm.trans hg)
    refine ⟨hnow, hlen, fun es x hes => Or.inr ?_⟩
    obtain rfl : e = x := List.singleton_inj.mp (List.append_inj_right' hes rfl)
    show e.roll ≤ o.now
    omega
  | opened later expires =>
    have hw : Sized c (trace ++ [.appended e]) { w with aborted := true } :=
      h.add hos hopen e hroll fun hlive => by cases hlive
    have hsame : w.lastRoll = { w with aborted := true }.lastRoll := rfl
    exact hw.roll hsame later

/-- **An `append` keeps the invariant.** -/
theorem sized_append (h : Sized c trace s) (hlive : s.aborted = false) (hf : s.file = some f)
    (ha : LogWriter.Appends c out s f logline ans t s') : Sized c (trace ++ t) s' := by
  obtain ⟨os, o, hos, hopen⟩ := h.opened hlive f hf
  -- a file that is still short enough
  have hstays : f.writtenBytes + logline.length ≤ c.rollSize → ∀ {u : LogWriter σ},
      u.lastRoll = s.lastRoll → (∀ f', u.file = some f' →
        f'.writtenBytes = f.writtenBytes + logline.length) →
      Sized c (trace ++ [.appended (s.appended out f logline ans)]) u := by
    intro fits u hroll hfile
    refine h.add hos hopen _ hroll fun _ f' hf' => ⟨hopen.now.trans hroll.symm, ?_, ?_⟩
    · rw [hfile f' hf', hopen.bytes, Opened.add, lengths_append]
      rfl
    · exact fun es x _ => Or.inl ((hfile f' hf').le.trans fits)
  cases ha with
  | full long rolled =>
    rw [List.append_cons]
    exact h.add_rolled hos hopen rolled rfl rfl rfl rfl
  | nextDay fits day rolled =>
    rw [List.append_cons]
    exact h.add_rolled hos hopen rolled rfl rfl rfl rfl
  | flushed fits day =>
    rw [List.append_cons]
    refine (hstays fits (u := s.written out f logline ans.check) rfl ?_).congr
      (filesOf_flushed _) (LogWriter.lastRoll_flushFile ..) fun _ f' hf' => ?_
    · rintro f' hf'
      cases hf'
      rfl
    · obtain ⟨g, hg, rfl⟩ := Option.map_eq_some_iff.mp
        ((LogWriter.file_flushFile ..).symm.trans hf')
      exact ⟨hlive, g, hg, rfl⟩
  | sameDay fits day =>
    refine hstays fits rfl fun f' hf' => ?_
    cases hf'
    rfl
  | counted fits early =>
    refine hstays fits rfl fun f' hf' => ?_
    cases hf'
    rfl

/-- The constructor opens the first file. -/
theorem sized_construct (h : Sized c trace s) (hr : LogWriter.Rolled c out s ans t s') :
    Sized c (trace ++ t) s' := by
  cases hr with
  | aborted => exact h.congr (by rw [List.append_nil]) rfl fun hlive => by cases hlive
  | failed expires => exact h.congr (by rw [List.append_nil]) rfl fun hlive => by cases hlive
  | opened later expires => exact h.roll rfl later
  | kept same expires =>
    exact h.congr (by rw [List.append_nil]) rfl fun hlive f' hf' => ⟨hlive, f', hf', rfl⟩

/-- **The step lemma.** -/
theorem sized_step (h : Sized c trace s) (a : LogCall) :
    Sized c (trace ++ (s.step c out a).1) (s.step c out a).2 := by
  by_cases hab : s.aborted = true
  · rw [LogWriter.step_of_aborted hab, List.append_nil]
    exact h
  have hlive := Bool.eq_false_iff.mpr hab
  have hended : Sized c (trace ++ []) s.abort :=
    h.congr (by rw [List.append_nil]) rfl fun hlive => by cases hlive
  cases a with
  | construct ans =>
    rw [LogWriter.step, if_neg hab]
    exact sized_construct h (LogWriter.rolled_rollFile ..)
  | append logline ans =>
    rw [LogWriter.step, if_neg hab]
    cases hf : s.file with
    | none =>
      rw [LogWriter.appendUnlocked, hf]
      exact hended
    | some f => exact sized_append h hlive hf (LogWriter.appends_appendUnlocked hf logline ans)
  | flush =>
    rw [LogWriter.step, if_neg hab]
    split_ifs with hf
    · exact hended
    · refine h.congr (filesOf_flushed _) (LogWriter.lastRoll_flushFile ..) fun _ f' hf' => ?_
      obtain ⟨g, hg, rfl⟩ := Option.map_eq_some_iff.mp
        ((LogWriter.file_flushFile ..).symm.trans hf')
      exact ⟨hlive, g, hg, rfl⟩

end Sizes

/-! ## Where the clock goes on -/

/-- The file that is open, and what the members say of it. -/
structure OpenOk (c : LogConfig) (s : LogWriter σ) (f : AppendFile) (o : Opened) : Prop where
  now : o.now = s.lastRoll
  pos : 0 < o.now
  period : s.startOfPeriod = periodOf o.now
  after : ∀ e ∈ o.appends, o.now ≤ e.now ∧ e.now ≤ s.seen
  bytes : f.writtenBytes = lengths o.appends
  small : f.writtenBytes ≤ c.rollSize ∨ ∀ e ∈ o.appends, e.now = o.now
  late : (o.late.length : ℤ) ≤ s.count

/-- What is promised of every file. -/
structure Opened.Bounded (c : LogConfig) (o : Opened) : Prop where
  second : o.SecondBounded c
  day : o.DayBounded c

/-- What holds of all files there have been. -/
structure Filed (c : LogConfig) (trace : List FileEvent) (s : LogWriter σ) : Prop where
  count_nonneg : 0 ≤ s.count
  count_le : s.count ≤ max (c.checkEveryN - 1) 0
  bounded : ∀ o ∈ filesOf trace, o.Bounded c

/-- **What holds along a run** whose clock goes on. -/
structure Rolls (c : LogConfig) (trace : List FileEvent) (s : LogWriter σ) : Prop where
  filed : Filed c trace s
  seen : s.lastRoll ≤ s.seen
  unopened : s.file = none → filesOf trace = [] ∧ s.lastRoll = 0
  opened : ∀ f, s.file = some f → ∃ os o, filesOf trace = os ++ [o] ∧ OpenOk c s f o

/-- What is said of a run: the invariant holds, or the process has ended. -/
def RollInv (c : LogConfig) (trace : List FileEvent) (s : LogWriter σ) : Prop :=
  (s.aborted = true ∧ ∀ o ∈ filesOf trace, o.Bounded c) ∨ Rolls c trace s

section Step

variable {trace t : List FileEvent} {f f' : AppendFile} {o : Opened} {os : List Opened}
variable {e : Appended} {logline : List UInt8}

theorem late_add (o : Opened) (e : Appended) :
    (o.add e).late = o.late ++ if periodOf e.now ≠ periodOf o.now then [e] else [] := by
  rw [Opened.late, Opened.add, List.filter_append, Opened.late]
  congr 1
  by_cases h : periodOf e.now = periodOf o.now <;> simp [h]

/-- Behind one more message the file is bounded, whatever comes next. -/
theorem OpenOk.bounded_add (h : OpenOk c s f o) (hcount : s.count ≤ max (c.checkEveryN - 1) 0)
    (e : Appended) : (o.add e).Bounded c := by
  refine ⟨?_, ?_⟩
  · intro es e' hes
    obtain rfl := List.append_inj_left' hes rfl
    rw [← h.bytes]
    exact h.small
  · have hlate := h.late
    rw [Opened.DayBounded, late_add, List.length_append]
    split_ifs <;> simp only [List.length_singleton, List.length_nil] <;> omega

/-- Where the day has not changed, no message is late. -/
theorem OpenOk.late_add_eq_nil (h : OpenOk c s f o) (he : s.seen ≤ e.now)
    (hday : periodOf e.now = periodOf o.now) : (o.add e).late = [] := by
  have hpos := h.pos
  rw [Opened.late, List.filter_eq_nil_iff]
  intro x hx
  rw [decide_eq_true_eq, not_not]
  show periodOf x.now = periodOf o.now
  rcases List.mem_append.mp hx with hx | hx
  · have hafter := h.after x hx
    exact periodOf_between (by omega) hafter.1 (by omega) hday
  · rw [List.mem_singleton.mp hx]
    exact hday

/-- The files behind a write. -/
theorem Rolls.bounded_add (h : Rolls c trace s) (hos : filesOf trace = os ++ [o])
    (hopen : OpenOk c s f o) (e : Appended) :
    ∀ x ∈ filesOf (trace ++ [.appended e]), x.Bounded c := by
  have hbounded := h.filed.bounded
  rw [hos, List.forall_mem_append, List.forall_mem_singleton] at hbounded
  rw [filesOf_appended hos e, List.forall_mem_append, List.forall_mem_singleton]
  exact ⟨hbounded.1, hopen.bounded_add h.filed.count_le e⟩

/-- A new file. -/
theorem Filed.roll (h : Filed c trace s) {isUseFilePath : Bool} {disk : σ}
    {commands : List (List UInt8)} (hexpire : ans.roll ≤ ans.expire) (hpos : 0 < ans.roll) :
    Rolls c (trace ++ [.opened (s.rollPath c out ans isUseFilePath) ans.roll])
      (s.rolled c out ans isUseFilePath disk commands) := by
  have hnew : Opened.Bounded c
      { file := s.rollPath c out ans isUseFilePath, now := ans.roll } :=
    ⟨fun es e hes => absurd hes (by simp), by
      show ((0 : ℕ) : ℤ) ≤ max c.checkEveryN 1
      omega⟩
  have hcount : (s.rolled c out ans isUseFilePath disk commands).count = s.count :=
    LogWriter.count_flushFile ..
  have hseen : (s.rolled c out ans isUseFilePath disk commands).seen = ans.expire :=
    LogWriter.seen_flushFile ..
  refine ⟨⟨?_, ?_, ?_⟩, hexpire.trans_eq hseen.symm, (fun hnone => by cases hnone), ?_⟩
  · exact h.count_nonneg.trans_eq hcount.symm
  · exact hcount.trans_le h.count_le
  · rw [filesOf_opened, List.forall_mem_append, List.forall_mem_singleton]
    exact ⟨h.bounded, hnew⟩
  · intro f hf
    cases hf
    refine ⟨_, _, filesOf_opened .., ?_⟩
    exact {
      now := rfl
      pos := hpos
      period := rfl
      after := fun e he => absurd he List.not_mem_nil
      bytes := rfl
      small := Or.inl (Nat.zero_le _)
      late := h.count_nonneg.trans_eq hcount.symm }

/-- The file stays open behind a write. -/
theorem Rolls.keep (h : Rolls c trace s) (hos : filesOf trace = os ++ [o])
    (hopen : OpenOk c s f o) (he : s.seen ≤ e.now) (hfile : s'.file = some f')
    (hroll : s'.lastRoll = s.lastRoll) (hseen : e.now ≤ s'.seen)
    (hcount : 0 ≤ s'.count) (hcount' : s'.count ≤ max (c.checkEveryN - 1) 0)
    (hopen' : OpenOk c s' f' (o.add e)) : Rolls c (trace ++ [.appended e]) s' := by
  refine ⟨⟨hcount, hcount', h.bounded_add hos hopen e⟩, ?_, fun hnone => ?_, fun g hg => ?_⟩
  · have := h.seen
    omega
  · rw [hfile] at hnone
    cases hnone
  · rw [hfile] at hg
    obtain rfl := Option.some_inj.mp hg
    exact ⟨os, o.add e, filesOf_appended hos e, hopen'⟩

/-- One more message in the file that is open. -/
theorem OpenOk.add (h : OpenOk c s f o) (he : s.seen ≤ e.now) (hle : s.lastRoll ≤ s.seen)
    (hbytes : f'.writtenBytes = f.writtenBytes + e.logline.length)
    (hroll : s'.lastRoll = s.lastRoll) (hperiod : s'.startOfPeriod = s.startOfPeriod)
    (hseen : e.now ≤ s'.seen)
    (hsmall : f'.writtenBytes ≤ c.rollSize ∨ ∀ x ∈ (o.add e).appends, x.now = o.now)
    (hlate : ((o.add e).late.length : ℤ) ≤ s'.count) : OpenOk c s' f' (o.add e) where
  now := h.now.trans hroll.symm
  pos := h.pos
  period := hperiod.trans h.period
  after := by
    have hnow := h.now
    intro x hx
    show o.now ≤ x.now ∧ x.now ≤ s'.seen
    rcases List.mem_append.mp hx with hx | hx
    · have := h.after x hx
      omega
    · rw [List.mem_singleton.mp hx]
      omega
  bytes := by
    rw [hbytes, h.bytes, Opened.add, lengths_append]
    rfl
  small := hsmall
  late := hlate

/-- What `rollFile` leaves behind a write. -/
theorem rollInv_rolled (h : Rolls c trace s) (hf : s.file = some f) {w : LogWriter σ}
    (hr : LogWriter.Rolled c out w ans t s') (hfile : w.file = some f') (htimely : s.Timely ans)
    (hnow : e.now = ans.check) (hbytes : f'.writtenBytes = f.writtenBytes + e.logline.length)
    (hroll : w.lastRoll = s.lastRoll) (hperiod : w.startOfPeriod = s.startOfPeriod)
    (hcount : 0 ≤ w.count) (hcount' : w.count ≤ max (c.checkEveryN - 1) 0) :
    RollInv c (trace ++ [.appended e] ++ t) s' := by
  obtain ⟨hseen, hcheck, hexpire, hpos⟩ := htimely
  obtain ⟨os, o, hos, hopen⟩ := h.opened f hf
  have hle := h.seen
  have hlast := hopen.now
  have he : s.seen ≤ e.now := by omega
  have hbounded := h.bounded_add hos hopen e
  cases hr with
  | aborted => exact Or.inl ⟨rfl, by rw [List.append_nil]; exact hbounded⟩
  | failed expires => exact Or.inl ⟨rfl, by rw [List.append_nil]; exact hbounded⟩
  | opened later expires => exact Or.inr (Filed.roll ⟨hcount, hcount', hbounded⟩ hexpire hpos)
  | kept same expires =>
    -- the clock shows the second of the last roll
    right
    have hsecond : e.now = o.now := by omega
    rw [List.append_nil]
    refine h.keep hos hopen he hfile hroll (hnow ▸ hcheck.trans hexpire) hcount hcount' ?_
    refine hopen.add he hle hbytes hroll hperiod (hnow ▸ hcheck.trans hexpire)
      (Or.inr fun x hx => ?_) ?_
    · rcases List.mem_append.mp hx with hx | hx
      · have := hopen.after x hx
        omega
      · rw [List.mem_singleton.mp hx, hsecond]
    · rw [hopen.late_add_eq_nil he (congrArg periodOf hsecond)]
      exact hcount

/-- A flush changes nothing of it. -/
theorem Rolls.flush (h : Rolls c trace s) :
    Rolls c (trace ++ [.flushed]) (s.flushFile out) := by
  have hfiles : filesOf (trace ++ [.flushed]) = filesOf trace := filesOf_flushed trace
  refine ⟨⟨?_, ?_, hfiles ▸ h.filed.bounded⟩, ?_, fun hnone => ?_, fun f' hf' => ?_⟩
  · simpa using h.filed.count_nonneg
  · simpa using h.filed.count_le
  · simpa using h.seen
  · rw [LogWriter.file_flushFile, Option.map_eq_none_iff] at hnone
    simpa [hfiles] using h.unopened hnone
  · obtain ⟨f, hf, rfl⟩ := Option.map_eq_some_iff.mp ((LogWriter.file_flushFile ..).symm.trans hf')
    obtain ⟨os, o, hos, hopen⟩ := h.opened f hf
    refine ⟨os, o, hfiles.trans hos, ?_⟩
    exact {
      now := by simpa using hopen.now
      pos := hopen.pos
      period := by simpa using hopen.period
      after := by simpa using hopen.after
      bytes := hopen.bytes
      small := hopen.small
      late := by simpa using hopen.late }

/-! ## Every run -/

/-- **An `append` keeps the invariant.** -/
theorem rollInv_append (h : Rolls c trace s) (hf : s.file = some f) (htimely : s.Timely ans)
    (ha : LogWriter.Appends c out s f logline ans t s') : RollInv c (trace ++ t) s' := by
  have hcount := h.filed.count_nonneg
  have hcount' := h.filed.count_le
  obtain ⟨os, o, hos, hopen⟩ := h.opened f hf
  have he : s.seen ≤ (s.appended out f logline ans).now := htimely.1
  -- a file of this day that is short enough
  have hstays : f.writtenBytes + logline.length ≤ c.rollSize →
      periodOf ans.check = s.startOfPeriod → ∀ lastFlush,
      Rolls c (trace ++ [.appended (s.appended out f logline ans)])
        { s.written out f logline ans.check with count := 0, lastFlush := lastFlush } := by
    intro fits day lastFlush
    refine h.keep hos hopen he rfl rfl le_rfl le_rfl (le_max_right _ _) ?_
    refine hopen.add he h.seen rfl rfl rfl le_rfl (Or.inl fits) ?_
    rw [hopen.late_add_eq_nil he (day.trans hopen.period)]
    exact le_rfl
  cases ha with
  | full long rolled =>
    rw [List.append_cons]
    exact rollInv_rolled h hf rolled rfl htimely rfl rfl rfl rfl hcount hcount'
  | nextDay fits day rolled =>
    rw [List.append_cons]
    exact rollInv_rolled h hf rolled rfl htimely rfl rfl rfl rfl le_rfl (le_max_right _ _)
  | flushed fits day =>
    rw [List.append_cons]
    exact Or.inr (hstays fits day ans.check).flush
  | sameDay fits day => exact Or.inr (hstays fits day s.lastFlush)
  | counted fits early =>
    right
    have hnext : 0 ≤ s.count + 1 ∧ s.count + 1 ≤ max (c.checkEveryN - 1) 0 := by omega
    refine h.keep hos hopen he rfl rfl le_rfl hnext.1 hnext.2 ?_
    refine hopen.add he h.seen rfl rfl rfl le_rfl (Or.inl fits) ?_
    have hlate := hopen.late
    show ((o.add _).late.length : ℤ) ≤ s.count + 1
    rw [late_add, List.length_append]
    split_ifs <;> simp only [List.length_singleton, List.length_nil] <;> omega

/-- The constructor opens the first file. -/
theorem rollInv_construct (h : Rolls c trace s) (hf : s.file = none) (htimely : s.Timely ans)
    (hr : LogWriter.Rolled c out s ans t s') : RollInv c (trace ++ t) s' := by
  obtain ⟨-, -, hexpire, hpos⟩ := htimely
  have hlast := (h.unopened hf).2
  cases hr with
  | aborted => exact Or.inl ⟨rfl, by rw [List.append_nil]; exact h.filed.bounded⟩
  | failed expires => exact Or.inl ⟨rfl, by rw [List.append_nil]; exact h.filed.bounded⟩
  | opened later expires => exact Or.inr (h.filed.roll hexpire hpos)
  | kept same expires => omega

theorem rollInv_fresh (logFilePath : Path) (outside : σ) (files : Path → Option (List UInt8)) :
    RollInv c [] (LogWriter.fresh logFilePath outside files) := by
  refine Or.inr ⟨⟨le_rfl, le_max_right _ _, ?_⟩, le_rfl, ?_, ?_⟩
  · exact fun o ho => absurd ho List.not_mem_nil
  · exact fun _ => ⟨rfl, rfl⟩
  · intro f hf
    cases hf

/-- **Every call keeps the invariant.** -/
theorem rollInv_step (h : RollInv c trace s) {a : LogCall} (hen : s.Enabled a) :
    RollInv c (trace ++ (s.step c out a).1) (s.step c out a).2 := by
  by_cases hab : s.aborted = true
  · rw [LogWriter.step_of_aborted hab, List.append_nil]
    exact h
  have hrolls := h.resolve_left fun hended => hab hended.1
  have hended : RollInv c (trace ++ []) s.abort :=
    Or.inl ⟨rfl, by rw [List.append_nil]; exact hrolls.filed.bounded⟩
  cases a with
  | construct ans =>
    rw [LogWriter.step, if_neg hab]
    exact rollInv_construct hrolls hen.1 hen.2 (LogWriter.rolled_rollFile ..)
  | append logline ans =>
    rw [LogWriter.step, if_neg hab]
    cases hf : s.file with
    | none =>
      rw [LogWriter.appendUnlocked, hf]
      exact hended
    | some f => exact rollInv_append hrolls hf hen (LogWriter.appends_appendUnlocked hf logline ans)
  | flush =>
    rw [LogWriter.step, if_neg hab]
    split_ifs with hf
    · exact hended
    · exact Or.inr hrolls.flush

end Step

section Run

variable {logFilePath : Path} {outside : σ} {files : Path → Option (List UInt8)}
variable {calls : List LogCall}

/-- The run of a `LogFile` from its constructor on. -/
abbrev openedFiles (c : LogConfig) (out : Outside σ) (start : LogWriter σ) (calls : List LogCall) :
    List Opened := filesOf ((writerMachine c out).outs start calls)

theorem sized_run (c : LogConfig) (out : Outside σ) (logFilePath : Path) (outside : σ)
    (files : Path → Option (List UInt8)) (calls : List LogCall) :
    Sized c ((writerMachine c out).outs (LogWriter.fresh logFilePath outside files) calls)
      ((writerMachine c out).after (LogWriter.fresh logFilePath outside files) calls) := by
  have hstart : Sized c [] (LogWriter.fresh logFilePath outside files) :=
    ⟨fun o ho => absurd ho List.not_mem_nil, List.Pairwise.nil,
      fun o ho => absurd ho List.not_mem_nil, fun _ f hf => by cases hf⟩
  exact (writerMachine c out).run_induct_valid hstart
    ((writerMachine c out).valid_of_inputs fun _ _ => trivial) fun _ _ a h _ => sized_step h a

/-- **The bounds hold along a run** whose clock goes on. -/
theorem bounded_run
    (hv : (writerMachine c out).Valid LogWriter.Enabled
      (LogWriter.fresh logFilePath outside files) calls) :
    ∀ o ∈ openedFiles c out (LogWriter.fresh logFilePath outside files) calls, o.Bounded c := by
  have h := (writerMachine c out).run_induct_valid (t := [])
    (rollInv_fresh (c := c) logFilePath outside files) hv fun _ _ _ h hen => rollInv_step h hen
  rcases h with ⟨-, h⟩ | h
  · exact h
  · exact h.filed.bounded

/-- **No file outgrows `rollSize_` by more than a message**, unless the clock
shows a roll no later second than the one the file was opened in: that second
itself, where the clock goes on. And no two files are opened in one second. -/
theorem sizeBounded_run (c : LogConfig) (out : Outside σ) (logFilePath : Path) (outside : σ)
    (files : Path → Option (List UInt8)) (calls : List LogCall) :
    (∀ o ∈ openedFiles c out (LogWriter.fresh logFilePath outside files) calls,
      o.SizeBounded c) ∧
    (openedFiles c out (LogWriter.fresh logFilePath outside files) calls).Pairwise
      (fun o o' => o.now < o'.now) ∧
    ((writerMachine c out).Valid LogWriter.Enabled (LogWriter.fresh logFilePath outside files)
        calls →
      ∀ o ∈ openedFiles c out (LogWriter.fresh logFilePath outside files) calls,
        o.SecondBounded c) :=
  have h := sized_run c out logFilePath outside files calls
  ⟨h.bounded, h.times, fun hv o ho => (bounded_run hv o ho).second⟩

/-- A disk on which everything succeeds. -/
def easyOutside : Outside Unit where
  fs := {
    access := fun _ _ => true
    mkdir := fun _ _ => (none, ())
    access_created := fun _ _ _ => rfl
    access_mono := fun _ _ _ _ => rfl
    mkdir_failed := fun _ _ h => absurd rfl h
    access_parent := fun _ _ _ _ _ _ => rfl }
  stdio := holding bufferSize
  sh := literalShell
  zone := fun _ => newYearsEve
  hostname := ascii "host"
  slash_notMem := by decide
  pid := 7

/-- Three bytes to a file, and a look at the day with every second call. -/
def smallConfig : LogConfig where
  basename := ascii "srv"
  reserveLogDate := 120
  slash_notMem := by decide
  rollSize := 3
  flushInterval := 3
  checkEveryN := 2

/-- What is answered at one time, where `log/` has these files. -/
def answersAt (names : List FileName) (now : ℤ) : LogAnswers where
  check := now
  roll := now
  expire := now
  readDir := fun dir => if dir = ascii "log/" then some names else none
  opens := true

/-- Four bytes in the first second, and one in the second. -/
def overfullCalls : List LogCall :=
  [.construct (answersAt [] 100), .append [65, 66] (answersAt [] 100),
    .append [67, 68] (answersAt [] 100), .append [69] (answersAt [] 101)]

theorem sizeBounded_overfull :
    ∀ o ∈ openedFiles smallConfig easyOutside (LogWriter.fresh (ascii "log/") () fun _ => none)
      overfullCalls, o.SecondBounded smallConfig :=
  (sizeBounded_run smallConfig easyOutside (ascii "log/") () (fun _ => none) overfullCalls).2.2
    (by decide +kernel)

/-- **A file takes at most `checkEveryN_` messages of another day**, and one
where that is no positive number. -/
theorem dayBounded_run
    (hv : (writerMachine c out).Valid LogWriter.Enabled
      (LogWriter.fresh logFilePath outside files) calls) :
    ∀ o ∈ openedFiles c out (LogWriter.fresh logFilePath outside files) calls, o.DayBounded c :=
  fun o ho => (bounded_run hv o ho).day

/-- A message, and two of the next day. -/
def nextDayCalls (names : List FileName) : List LogCall :=
  [.construct (answersAt names 100), .append [65] (answersAt names 200),
    .append [66] (answersAt names 90000), .append [67] (answersAt names 90001)]

theorem dayBounded_nextDay :
    (∀ o ∈ openedFiles smallConfig easyOutside (LogWriter.fresh (ascii "log/") () fun _ => none)
        (nextDayCalls []), o.DayBounded smallConfig) ∧
      (openedFiles smallConfig easyOutside (LogWriter.fresh (ascii "log/") () fun _ => none)
        (nextDayCalls [])).length = 2 :=
  ⟨dayBounded_run (by decide +kernel), by decide +kernel⟩

end Run

end TelnetServ
