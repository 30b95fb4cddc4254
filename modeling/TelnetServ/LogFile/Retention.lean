import TelnetServ.LogFile.Rolling
/-!
# The log file — what stays on the disk

A roll removes files, and what it removes is told by their names. Among the
names a `LogFile` gives itself only those of an expired date are taken
(`not_mem_removed`), so a file keeps everything it was given for as long as
its date has not expired (`retained_run`), and the file being written to
stays where it is (`current_run`). What has been given to a file is on the
disk or, as long as the file is open, in the buffer of its `AppendFile`:
`held` is the two together, and no write, flush or roll loses any of it.
-/

namespace TelnetServ

open Calendar FileSystem Stdio

/-! ## Own names -/

section Names

variable {dir dir' name name' : Path}

/-- The part of a path behind its last slash is known. -/
theorem name_eq_of_append_eq (hdir : dir.getLast? = some slash) (hdir' : dir'.getLast? = some slash)
    (hname : slash ∉ name) (hname' : slash ∉ name') (h : dir ++ name = dir' ++ name') :
    name = name' := by
  have key : ∀ {d d' m n m' : Path}, d'.getLast? = some slash → slash ∉ n → d ++ m = d' →
      n = m ++ m' → m = [] := by
    intro d d' m n m' hlast hn hd hm
    by_contra hne
    rw [← hd, List.getLast?_append, List.getLast?_eq_some_getLast hne, Option.some_or] at hlast
    refine hn (hm ▸ List.mem_append_left _ ?_)
    rw [← Option.some_inj.mp hlast]
    exact List.getLast_mem hne
  rcases List.append_eq_append_iff.mp h with ⟨m, hd, hm⟩ | ⟨m, hd, hm⟩
  · rw [key hdir' hname hd.symm hm, List.nil_append] at hm
    exact hm
  · rw [key hdir hname' hd.symm hm, List.nil_append] at hm
    exact hm.symm

variable {c : LogConfig} {tm : Tm} {hostname : List UInt8} {pid : Int32}

theorem slash_notMem_of_digits {l : List UInt8} (h : ∀ b ∈ l, b = 45 ∨ Decimal.IsDigit b) :
    slash ∉ l := fun hmem => absurd (h slash hmem) (by decide)

/-- `getLogFileName` makes a name, not a path. -/
theorem slash_notMem_getLogFileName (hbase : slash ∉ c.basename) (hhost : slash ∉ hostname) :
    slash ∉ getLogFileName c.basename tm hostname pid := by
  have hymd : slash ∉ tm.ymd := slash_notMem_of_digits fun b hb => Or.inr (tm.isDigit_of_mem_ymd hb)
  have hhms : slash ∉ tm.hms := by
    refine slash_notMem_of_digits fun b hb => Or.inr ?_
    rcases List.mem_append.mp hb with hb | hb
    · rcases List.mem_append.mp hb with hb | hb <;> exact Decimal.isDigit_of_mem_padLeft hb
    · exact Decimal.isDigit_of_mem_padLeft hb
  have hpid : slash ∉ Decimal.decimal pid.toInt :=
    slash_notMem_of_digits fun b => Decimal.mem_decimal
  have hdot : slash ∉ ascii "." := by decide
  have hdash : slash ∉ ascii "-" := by decide
  have hlog : slash ∉ ascii ".log" := by decide
  simp only [getLogFileName, List.mem_append, not_or]
  exact ⟨⟨⟨⟨hbase, ⟨⟨⟨hdot, hymd⟩, hdash⟩, hhms⟩, hdot⟩, hhost⟩, hdot, hpid⟩, hlog⟩

end Names

variable {σ : Type*} {c : LogConfig} {out : Outside σ} {s s' : LogWriter σ} {ans : LogAnswers}

/-- A file of this process, from this time. -/
def OwnPath (c : LogConfig) (out : Outside σ) (now : ℤ) (p : Path) : Prop :=
  ∃ dir : LogDir, p = dir.path ++ getLogFileName c.basename (out.zone now) out.hostname out.pid

theorem LogDir.slash_mem (dir : LogDir) : slash ∈ dir.path := by
  have hlast := dir.slash_last
  exact List.mem_of_getLast? hlast

/-- **`rollFile` opens a file of its own.** -/
theorem ownPath_rollPath (s : LogWriter σ) (ans : LogAnswers) (isUseFilePath : Bool) :
    OwnPath c out ans.roll (s.rollPath c out ans isUseFilePath) := by
  have hname : slash ∉ getLogFileName c.basename (out.zone ans.roll) out.hostname out.pid :=
    slash_notMem_getLogFileName c.slash_notMem out.slash_notMem
  refine ⟨rollDir s.logFilePath isUseFilePath, ?_⟩
  rw [LogWriter.rollPath, LogWriter.filename]
  cases isUseFilePath with
  | true =>
    rw [if_pos rfl, absolute, if_pos (List.mem_append_left _ (LogDir.slash_mem _))]
  | false =>
    rw [if_neg Bool.false_ne_true, absolute, if_neg hname]
    rfl

/-! ## What a roll removes -/

/-- **What a roll finds to be removed are plain names**: short, no paths, and
without a meaning to the shell. -/
def LogAnswers.Tame (c : LogConfig) (out : Outside σ) (ans : LogAnswers) : Prop :=
  ∀ dir names, ans.readDir dir = some names → ∀ n ∈ names,
    Taken c.toLogFile out.zone ans.expire n →
      slash ∉ n.name ∧ dir.length + n.name.length ≤ 249 ∧ Plain (dir ++ n.name)

/-- The file's date has expired. -/
def ExpiredBy (c : LogConfig) (out : Outside σ) (now : ℤ) (ans : LogAnswers) : Prop :=
  (out.zone now).Earlier (c.cutOff out.zone ans.expire)

variable {isUseFilePath : Bool} {commands : List (List UInt8)} {p : Path} {now : ℤ}

/-- What `rm` is asked to remove is a name that was taken. -/
theorem exists_taken (htame : ans.Tame c out) (hdel : s.Expires c out ans isUseFilePath commands)
    (hp : p ∈ commands.flatMap out.sh.removes) :
    ∃ n, Taken c.toLogFile out.zone ans.expire n ∧ slash ∉ n.name ∧
      p = (rollDir s.logFilePath isUseFilePath).path ++ n.name := by
  rw [LogWriter.Expires, LogFile.deleteExpiredFile] at hdel
  cases hread : ans.readDir (rollDir s.logFilePath isUseFilePath).path with
  | none =>
    rw [hread] at hdel
    rw [← Option.some_inj.mp hdel] at hp
    exact absurd hp List.not_mem_nil
  | some names =>
    rw [hread] at hdel
    dsimp only at hdel
    split_ifs at hdel with hfits
    rw [← Option.some_inj.mp hdel, List.mem_flatMap] at hp
    obtain ⟨cmd, hcmd, hmem⟩ := hp
    obtain ⟨n, hn, rfl⟩ := List.mem_map.mp hcmd
    rw [List.mem_filter, List.mem_filter, decide_eq_true_eq, decide_eq_true_eq] at hn
    have htaken : Taken c.toLogFile out.zone ans.expire n := ⟨hn.1.2, hn.2⟩
    obtain ⟨hslash, hlen, hplain⟩ := htame _ names hread n hn.1.1 htaken
    rw [removes_rmCommand out.sh hlen hplain, List.mem_singleton] at hmem
    exact ⟨n, htaken, hslash, hmem⟩

/-- **Of the files of this process a roll removes those that have
expired.** -/
theorem not_mem_removed (htame : ans.Tame c out)
    (hdel : s.Expires c out ans isUseFilePath commands) (hown : OwnPath c out now p)
    (hdate : ¬ ExpiredBy c out now ans) : p ∉ (commands.flatMap out.sh.removes).map absolute := by
  intro hmem
  obtain ⟨q, hq, habs⟩ := List.mem_map.mp hmem
  obtain ⟨n, htaken, hslash, rfl⟩ := exists_taken htame hdel hq
  obtain ⟨dir, rfl⟩ := hown
  rw [absolute, if_pos (List.mem_append_left _ (LogDir.slash_mem _))] at habs
  have hname := name_eq_of_append_eq (LogDir.slash_last _) dir.slash_last hslash
    (slash_notMem_getLogFileName c.slash_notMem out.slash_notMem) habs
  exact hdate ((sortsBefore_own hname).mp htaken.2)

theorem removeFiles_of_notMem {files : Path → Option (List UInt8)} {paths : List Path}
    (h : p ∉ paths.map absolute) : removeFiles files paths p = files p :=
  if_neg (mt List.contains_iff_mem.mp h)

/-! ## What an append leaves -/

/-- **The rule of the loop**: what one more `fwrite` keeps, the loop keeps. -/
theorem appendLoop_induct {P : Written UInt8 → Prop} {logline : List UInt8}
    (hstep : ∀ w s, P w → P (w.next (out.stdio.fwrite s w.buffer (logline.drop w.taken)).1))
    {w : Written UInt8} (h : P w) (disk : σ) : P (appendLoop out logline w disk).1 := by
  fun_induction appendLoop out logline w disk with
  | case1 w disk hlt r hzero => exact hstep w disk h
  | case2 w disk hlt r hpos ih => exact ih (hstep w disk h)
  | case3 w disk hge => exact h

/-- **Where no write fails, none is lost.** -/
theorem accounts_appendFile (h : out.stdio.Lossless) (buffer logline : List UInt8) (disk : σ) :
    Accounts buffer logline (appendFile out buffer logline disk).1 :=
  appendLoop_induct (fun _ _ hw => hw.next (h.fwrite ..)) (h.fwrite ..) _

theorem length_buffer_appendFile {buffer : List UInt8} (h : buffer.length ≤ bufferSize)
    (logline : List UInt8) (disk : σ) :
    (appendFile out buffer logline disk).1.buffer.length ≤ bufferSize :=
  appendLoop_induct (fun _ _ hw => out.stdio.fwrite_buffer _ _ _ hw)
    (out.stdio.fwrite_buffer _ _ _ h) _

/-! ## What a file holds -/

/-- The bytes of a message that were taken. -/
def Appended.bytes (e : Appended) : List UInt8 := e.logline.take e.taken

/-- What is in the buffer of the file, if it is the one that is open. -/
def LogWriter.pending (s : LogWriter σ) (p : Path) : List UInt8 :=
  match s.file with
  | none => []
  | some f => if f.file = p then f.buffer else []

/-- **What a file holds**, on the disk and in its buffer. -/
def LogWriter.held (s : LogWriter σ) (p : Path) : Option (List UInt8) :=
  (s.files p).map (· ++ s.pending p)

/-- **These bytes are on the disk**, but for those at their end that are still
in the buffer. -/
def LogWriter.Holds (s : LogWriter σ) (p : Path) (bs : List UInt8) : Prop :=
  ∃ kept, s.files p = some kept ∧ kept ++ s.pending p = bs ∧ (s.pending p).length ≤ bufferSize

section Held

variable {f : AppendFile}

theorem pending_of_file (h : s.file = some f) (p : Path) :
    s.pending p = if f.file = p then f.buffer else [] := by
  rw [LogWriter.pending, h]

/-- **A flush empties the buffer.** -/
theorem pending_flushFile (s : LogWriter σ) (p : Path) : (s.flushFile out).pending p = [] := by
  cases hf : s.file with
  | none => rw [LogWriter.flushFile_of_none out hf, LogWriter.pending, hf]
  | some f => rw [LogWriter.flushFile_of_file out hf, pending_of_file rfl, ite_self]

theorem files_flushFile (h : out.stdio.Lossless) (s : LogWriter σ) (p : Path) :
    (s.flushFile out).files p = s.held p := by
  cases hf : s.file with
  | none =>
    rw [LogWriter.flushFile_of_none out hf, LogWriter.held, LogWriter.pending, hf]
    simp
  | some f =>
    rw [LogWriter.flushFile_of_file out hf, LogWriter.held, pending_of_file hf]
    simp only [h.fflush, writeFile]
    by_cases hp : f.file = p
    · rw [← hp, Function.update_self, if_pos rfl]
    · rw [Function.update_of_ne (Ne.symm hp), if_neg hp]
      simp

/-- And what was in it is on the disk. -/
theorem held_flushFile (h : out.stdio.Lossless) (s : LogWriter σ) (p : Path) :
    (s.flushFile out).held p = s.held p := by
  rw [LogWriter.held, pending_flushFile, files_flushFile h]
  simp

/-- **An append adds what has been taken of the message** to the file that is
open. -/
theorem held_written (h : out.stdio.Lossless) (hf : s.file = some f) (logline : List UInt8)
    (ans : LogAnswers) (p : Path) : (s.written out f logline ans.check).held p =
      (s.held p).map (· ++ if f.file = p then (s.appended out f logline ans).bytes else []) := by
  have haccounts := (accounts_appendFile h f.buffer logline s.outside).eq
  have hpending := pending_of_file (s := s.written out f logline ans.check) rfl p
  rw [LogWriter.held, LogWriter.held, hpending, pending_of_file hf, Option.map_map]
  by_cases hp : f.file = p
  · subst hp
    rw [if_pos rfl, if_pos rfl, if_pos rfl]
    show (Function.update s.files f.file _ f.file).map _ = _
    rw [Function.update_self, Option.map_map]
    congr 1
    funext bs
    show bs ++ _ ++ _ = bs ++ f.buffer ++ _
    rw [List.append_assoc, haccounts, List.append_assoc]
    rfl
  · rw [if_neg hp, if_neg hp, if_neg hp]
    show (Function.update s.files f.file _ p).map _ = _
    rw [Function.update_of_ne (Ne.symm hp)]
    congr 1
    funext bs
    simp

theorem held_expired {disk : σ} (hp : p ∉ (commands.flatMap out.sh.removes).map absolute) :
    (s.expired out ans isUseFilePath disk commands).held p = s.held p :=
  congrArg (Option.map _) (removeFiles_of_notMem hp)

/-- **A new file begins with what was there under its name**, and the others
are left alone. -/
theorem held_rolled (h : out.stdio.Lossless) (c : LogConfig) (s : LogWriter σ) (ans : LogAnswers)
    (isUseFilePath : Bool) (disk : σ) (commands : List (List UInt8)) (p : Path) :
    (s.rolled c out ans isUseFilePath disk commands).held p =
      if p = s.rollPath c out ans isUseFilePath then
        some (((s.expired out ans isUseFilePath disk commands).held p).getD [])
      else (s.expired out ans isUseFilePath disk commands).held p := by
  have hpending : (s.rolled c out ans isUseFilePath disk commands).pending p = [] :=
    (pending_of_file rfl p).trans (ite_self _)
  rw [LogWriter.held, hpending]
  show ((openFile _ _ p).map _ : Option (List UInt8)) = _
  split_ifs with hp
  · rw [openFile, ← hp, Function.update_self, files_flushFile h]
    simp
  · rw [openFile, Function.update_of_ne hp, files_flushFile h]
    simp

end Held

/-! ## What a file keeps -/

/-- **What has been written to a file** since the beginning of the trace. -/
def writtenTo (p : Path) (trace : List FileEvent) : List UInt8 :=
  trace.flatMap fun
    | .appended e => if e.file = p then e.bytes else []
    | .opened _ _ => []
    | .flushed => []

variable {trace t : List FileEvent} {files : Path → Option (List UInt8)}

theorem writtenTo_append : writtenTo p (trace ++ t) = writtenTo p trace ++ writtenTo p t :=
  List.flatMap_append

theorem writtenTo_appended (e : Appended) :
    writtenTo p [.appended e] = if e.file = p then e.bytes else [] := List.append_nil _

/-- **The file holds what it held before and what has been written to it**;
`files` is the disk at the beginning. -/
structure Retained (files : Path → Option (List UInt8)) (p : Path) (trace : List FileEvent)
    (s : LogWriter σ) : Prop where
  current : ∀ f, s.file = some f → ∃ now, .opened f.file now ∈ trace
  unopened : (∀ now, .opened p now ∉ trace) → s.held p = files p ∧ writtenTo p trace = []
  opened : ∀ now, .opened p now ∈ trace →
    s.held p = some ((files p).getD [] ++ writtenTo p trace)

/-- A message goes to the file that is open. -/
theorem Retained.write (hstdio : out.stdio.Lossless) (h : Retained files p trace s)
    {f : AppendFile} (hf : s.file = some f) (logline : List UInt8) (ans : LogAnswers) :
    Retained files p (trace ++ [.appended (s.appended out f logline ans)])
      (s.written out f logline ans.check) := by
  have hmem : ∀ q time, .opened q time ∈ trace ++ [.appended (s.appended out f logline ans)] ↔
      FileEvent.opened q time ∈ trace := by simp
  have hbytes : writtenTo p (trace ++ [.appended (s.appended out f logline ans)]) =
      writtenTo p trace ++ if f.file = p then (s.appended out f logline ans).bytes else [] := by
    rw [writtenTo_append, writtenTo_appended]
    rfl
  have hheld := held_written hstdio hf logline ans p
  obtain ⟨opening, hopening⟩ := h.current f hf
  refine ⟨fun g hg => ?_, fun hnone => ?_, fun time htime => ?_⟩
  · have hsame : g.file = f.file := by
      cases hg
      rfl
    rw [hsame]
    exact ⟨opening, List.mem_append_left _ hopening⟩
  · have hne : f.file ≠ p := by
      rintro rfl
      exact hnone opening (List.mem_append_left _ hopening)
    obtain ⟨hfiles, hwritten⟩ := h.unopened fun time htime =>
      hnone time (List.mem_append_left _ htime)
    refine ⟨?_, by rw [hbytes, hwritten, if_neg hne]; rfl⟩
    rw [hheld, if_neg hne, hfiles]
    simp
  · rw [hbytes, hheld, h.opened time ((hmem p time).mp htime), Option.map_some,
      List.append_assoc]

/-- What does not touch the file changes nothing. -/
theorem Retained.congr (h : Retained files p trace s)
    (hfile : ∀ f', s'.file = some f' → ∃ f, s.file = some f ∧ f'.file = f.file)
    (hheld : s'.held p = s.held p) : Retained files p trace s' where
  current f' hf' := by
    obtain ⟨f, hf, hsame⟩ := hfile f' hf'
    rw [hsame]
    exact h.current f hf
  unopened := by rw [hheld]; exact h.unopened
  opened := by rw [hheld]; exact h.opened

theorem Retained.flush (hstdio : out.stdio.Lossless) (h : Retained files p trace s) :
    Retained files p (trace ++ [.flushed]) (s.flushFile out) := by
  have hmem : ∀ q time, FileEvent.opened q time ∈ trace ++ [.flushed] ↔ .opened q time ∈ trace := by
    simp
  have hwritten : writtenTo p (trace ++ [.flushed]) = writtenTo p trace := by
    rw [writtenTo_append]
    exact List.append_nil _
  refine ⟨fun f' hf' => ?_, fun hnone => ?_, fun time htime => ?_⟩
  · obtain ⟨f, hf, rfl⟩ := Option.map_eq_some_iff.mp ((LogWriter.file_flushFile ..).symm.trans hf')
    obtain ⟨time, htime⟩ := h.current f hf
    exact ⟨time, List.mem_append_left _ htime⟩
  · rw [hwritten, held_flushFile hstdio]
    exact h.unopened fun time htime => hnone time (List.mem_append_left _ htime)
  · rw [hwritten, held_flushFile hstdio]
    exact h.opened time ((hmem p time).mp htime)

/-- **A roll leaves a file alone whose date has not expired.** -/
theorem Retained.roll (hstdio : out.stdio.Lossless) (h : Retained files p trace s)
    (htame : ans.Tame c out) (hown : OwnPath c out now p) (hdate : ¬ ExpiredBy c out now ans)
    (hr : LogWriter.Rolled c out s ans t s') : Retained files p (trace ++ t) s' := by
  have hkeeps : ∀ {isUseFilePath : Bool} (disk : σ) {commands : List (List UInt8)},
      s.Expires c out ans isUseFilePath commands →
      (s.expired out ans isUseFilePath disk commands).held p = s.held p := fun _ _ hdel =>
    held_expired (not_mem_removed htame hdel hown hdate)
  cases hr with
  | aborted =>
    rw [List.append_nil]
    exact h.congr (fun f hf => ⟨f, hf, rfl⟩) rfl
  | @failed isUseFilePath disk commands expires =>
    rw [List.append_nil]
    exact h.congr (fun f hf => ⟨f, hf, rfl⟩) (hkeeps disk expires)
  | @kept isUseFilePath disk commands same expires =>
    rw [List.append_nil]
    exact h.congr (fun f hf => ⟨f, hf, rfl⟩) (hkeeps disk expires)
  | @opened isUseFilePath disk commands later expires =>
    have hwritten : writtenTo p (trace ++ [.opened (s.rollPath c out ans isUseFilePath) ans.roll]) =
        writtenTo p trace := by
      rw [writtenTo_append]
      exact List.append_nil _
    have hheld := held_rolled hstdio c s ans isUseFilePath disk commands p
    rw [hkeeps disk expires] at hheld
    refine ⟨fun f hf => ?_, fun hnone => ?_, fun time htime => ?_⟩
    · cases hf
      exact ⟨ans.roll, List.mem_append_right _ (List.mem_singleton_self _)⟩
    · have hne : p ≠ s.rollPath c out ans isUseFilePath := by
        rintro rfl
        exact hnone ans.roll (List.mem_append_right _ (List.mem_singleton_self _))
      obtain ⟨hfiles, hempty⟩ := h.unopened fun time htime =>
        hnone time (List.mem_append_left _ htime)
      exact ⟨by rw [hheld, if_neg hne, hfiles], hwritten.trans hempty⟩
    · rw [hwritten, hheld]
      by_cases hold : ∃ first, .opened p first ∈ trace
      · obtain ⟨first, hfirst⟩ := hold
        rw [h.opened first hfirst, Option.getD_some, ite_self]
      · obtain ⟨hfiles, hempty⟩ := h.unopened fun first hfirst => hold ⟨first, hfirst⟩
        have hnew : p = s.rollPath c out ans isUseFilePath := by
          rcases List.mem_append.mp htime with htime | htime
          · exact absurd ⟨time, htime⟩ hold
          · cases List.mem_singleton.mp htime
            rfl
        rw [if_pos hnew, hfiles, hempty, List.append_nil]

/-- Every file of a run is one of its own. -/
theorem ownPath_of_opened {start : LogWriter σ} {calls : List LogCall}
    (h : .opened p now ∈ (writerMachine c out).outs start calls) : OwnPath c out now p := by
  have hk : LogWriter.Keeps c out (fun _ => True)
      fun t _ => .opened p now ∈ t → OwnPath c out now p := by
    constructor
    case write => exact fun _ _ _ _ _ _ h hmem => h (by simpa using hmem)
    case count => exact fun _ _ _ _ h => h
    case abort => exact fun _ _ h => h
    case flush => exact fun _ _ h hmem => h (by simpa using hmem)
    case roll =>
      intro t s ans t' s' _ hr h hmem
      refine (List.mem_append.mp hmem).elim h fun hmem => ?_
      cases hr with
      | aborted | failed expires | kept same expires => exact absurd hmem List.not_mem_nil
      | opened later expires =>
        cases List.mem_singleton.mp hmem
        exact ownPath_rollPath ..
  exact hk.run (fun _ _ _ _ => trivial) (fun h => absurd h List.not_mem_nil) h

/-- **The buffer never overflows.** -/
theorem length_pending_run {logFilePath : Path} {outside : σ} (calls : List LogCall) (p : Path) :
    (((writerMachine c out).after (LogWriter.fresh logFilePath outside files) calls).pending
      p).length ≤ bufferSize := by
  have hk : LogWriter.Keeps c out (fun _ => True)
      fun _ s => ∀ f, s.file = some f → f.buffer.length ≤ bufferSize := {
    write := fun _ _ f logline _ hf h g hg => by
      cases hg
      exact length_buffer_appendFile (h f hf) ..
    count := fun _ _ _ _ h => h
    abort := fun _ _ h => h
    roll := fun _ _ _ _ _ _ hr h g hg => by
      cases hr with
      | aborted | failed expires | kept same expires => exact h g hg
      | opened later expires =>
        cases hg
        exact Nat.zero_le _
    flush := fun _ _ h g hg => by
      obtain ⟨f, hf, rfl⟩ := Option.map_eq_some_iff.mp
        ((LogWriter.file_flushFile ..).symm.trans hg)
      exact Nat.zero_le _ }
  have h : ∀ f, ((writerMachine c out).after (LogWriter.fresh logFilePath outside files)
      calls).file = some f → f.buffer.length ≤ bufferSize :=
    hk.run (fun _ _ _ _ => trivial) fun f hf => by cases hf
  rw [LogWriter.pending]
  split
  · exact Nat.zero_le _
  · split_ifs
    · exact h _ ‹_›
    · exact Nat.zero_le _

/-- **What has been written stays on the disk.** As long as no call finds that
its date has expired, a file the run has opened holds what it held before the
run, and then everything that was written to it: no roll removes it, opens it
anew from its beginning or writes to it out of turn. -/
theorem retained_run {logFilePath : Path} {outside : σ} {calls : List LogCall}
    (hstdio : out.stdio.Lossless)
    (htame : ∀ a ∈ calls, ∀ ans ∈ a.answers, ans.Tame c out)
    (hopened : .opened p now ∈ (writerMachine c out).outs
      (LogWriter.fresh logFilePath outside files) calls)
    (hdate : ∀ a ∈ calls, ∀ ans ∈ a.answers, ¬ ExpiredBy c out now ans) :
    ((writerMachine c out).after (LogWriter.fresh logFilePath outside files) calls).Holds p
      ((files p).getD [] ++
        writtenTo p ((writerMachine c out).outs (LogWriter.fresh logFilePath outside files)
          calls)) := by
  have hown := ownPath_of_opened hopened
  have hstart : Retained files p [] (LogWriter.fresh logFilePath outside files) := by
    refine ⟨(fun f hf => by cases hf), fun _ => ⟨?_, rfl⟩, fun _ h => absurd h List.not_mem_nil⟩
    show (files p).map (· ++ []) = files p
    simp
  have hk : LogWriter.Keeps c out (fun ans => ans.Tame c out ∧ ¬ ExpiredBy c out now ans)
      (Retained files p) := {
    write := fun _ _ _ logline ans hf h => h.write hstdio hf logline ans
    count := fun _ _ _ _ h => h.congr (fun f hf => ⟨f, hf, rfl⟩) rfl
    abort := fun _ _ h => h.congr (fun f hf => ⟨f, hf, rfl⟩) rfl
    roll := fun _ _ _ _ _ hA hr h => h.roll hstdio hA.1 hown hA.2 hr
    flush := fun _ _ h => h.flush hstdio }
  have h := hk.run (fun a ha ans hans => ⟨htame a ha ans hans, hdate a ha ans hans⟩) hstart
  obtain ⟨kept, hkept, hbytes⟩ := Option.map_eq_some_iff.mp (h.opened now hopened)
  exact ⟨kept, hkept, hbytes, length_pending_run calls p⟩

/-- A log file of this program from the first of January 2020. -/
def expiredLog : FileName := ⟨ascii "srv.20200101-000000.host.7.log", by decide⟩

theorem exists_answersAt {a : LogCall} {names : List FileName} (ha : a ∈ nextDayCalls names)
    (hans : ans ∈ a.answers) : ∃ time, ans = answersAt names time := by
  simp only [nextDayCalls, List.mem_cons, List.not_mem_nil, or_false] at ha
  rcases ha with rfl | rfl | rfl | rfl <;> exact ⟨_, (Option.some_inj.mp hans).symm⟩

/-- Its path is short and plain. -/
theorem tame_answersAt (c : LogConfig) (out : Outside σ) (time : ℤ) :
    (answersAt [expiredLog] time).Tame c out := by
  intro dir names hread n hn _
  simp only [answersAt, Option.ite_none_right_eq_some, Option.some_inj] at hread
  obtain ⟨rfl, rfl⟩ := hread
  rw [List.mem_singleton.mp hn]
  decide

/-- `log/srv.20251231-235958.host.7.log` was there before, and so was the
expired file, which the first roll removes. -/
theorem retained_nextDay :
    ((writerMachine smallConfig easyOutside).after
        (LogWriter.fresh (ascii "log/") () fun _ => some [90]) (nextDayCalls [expiredLog])).Holds
        (ascii "log/srv.20251231-235958.host.7.log")
        ((some [90]).getD [] ++ writtenTo (ascii "log/srv.20251231-235958.host.7.log")
          ((writerMachine smallConfig easyOutside).outs
            (LogWriter.fresh (ascii "log/") () fun _ => some [90]) (nextDayCalls [expiredLog]))) ∧
      ((writerMachine smallConfig easyOutside).after
        (LogWriter.fresh (ascii "log/") () fun _ => some [90]) (nextDayCalls [expiredLog])).files
        (ascii "log/" ++ expiredLog.name) = none := by
  have hnot : ¬ newYearsEve.Earlier newYearsEve := by decide
  have hopened : .opened (ascii "log/srv.20251231-235958.host.7.log") 100 ∈
      (writerMachine smallConfig easyOutside).outs
        (LogWriter.fresh (ascii "log/") () fun _ => some [90]) (nextDayCalls [expiredLog]) := by
    decide +kernel
  refine ⟨retained_run (lossless_holding _) (fun a ha ans hans => ?_) hopened
    fun a ha ans hans => hnot, by decide +kernel⟩
  obtain ⟨time, rfl⟩ := exists_answersAt ha hans
  exact tame_answersAt _ _ time

/-! ## The file being written to -/

/-- What a file was given since it was opened. -/
def Opened.bytes (o : Opened) : List UInt8 := o.appends.flatMap Appended.bytes

theorem bytes_add (o : Opened) (e : Appended) : (o.add e).bytes = o.bytes ++ e.bytes := by
  rw [Opened.bytes, Opened.add, List.flatMap_append, List.flatMap_singleton]
  rfl

/-- While the process goes on, the file that is open is there, with what it
was given at its end. -/
def CurrentKept (c : LogConfig) (out : Outside σ) (trace : List FileEvent) (s : LogWriter σ) :
    Prop :=
  s.aborted = false → ∀ f, s.file = some f → ∃ os o before, filesOf trace = os ++ [o] ∧
    o.file = f.file ∧ o.now = s.lastRoll ∧ OwnPath c out o.now f.file ∧
      s.held f.file = some (before ++ o.bytes)

/-- The local date does not go back. -/
def DatesAscend (zone : ℤ → Tm) : Prop := ∀ a b, a ≤ b → ¬ (zone b).Earlier (zone a)

/-- Between two readings of one call there is less time than a file is
kept. -/
def LogAnswers.Brief (c : LogConfig) (ans : LogAnswers) : Prop :=
  ans.expire - c.reserveSeconds ≤ ans.roll

theorem CurrentKept.write (hstdio : out.stdio.Lossless) (h : CurrentKept c out trace s)
    {f : AppendFile} (hf : s.file = some f) (logline : List UInt8) (ans : LogAnswers) :
    CurrentKept c out (trace ++ [.appended (s.appended out f logline ans)])
      (s.written out f logline ans.check) := by
  intro hlive g hg
  obtain ⟨os, o, before, hos, hfile, hnow, hown, hbytes⟩ := h hlive f hf
  have hsame : g.file = f.file := by
    cases hg
    rfl
  rw [hsame]
  refine ⟨os, o.add (s.appended out f logline ans), before, filesOf_appended hos _, hfile, hnow,
    hown, ?_⟩
  rw [held_written hstdio hf, hbytes, if_pos rfl, Option.map_some, bytes_add, List.append_assoc]

theorem CurrentKept.congr (h : CurrentKept c out trace s) (hlive : s'.aborted = s.aborted)
    (hfile : s'.file = s.file) (hroll : s'.lastRoll = s.lastRoll)
    (hheld : s.aborted = false → ∀ f, s.file = some f → s'.held f.file = s.held f.file) :
    CurrentKept c out trace s' := by
  intro hlive' f hf
  rw [hlive] at hlive'
  rw [hfile] at hf
  rw [hroll, hheld hlive' f hf]
  exact h hlive' f hf

/-- **A roll leaves the file alone that stays open**, and the one it opens. -/
theorem CurrentKept.roll (hstdio : out.stdio.Lossless) (h : CurrentKept c out trace s)
    (hzone : DatesAscend out.zone) (htame : ans.Tame c out) (hbrief : ans.Brief c)
    (hr : LogWriter.Rolled c out s ans t s') : CurrentKept c out (trace ++ t) s' := by
  cases hr with
  | aborted | failed expires => exact fun hlive => by cases hlive
  | kept same expires =>
    rw [List.append_nil]
    refine h.congr rfl rfl rfl fun hlive f hf => ?_
    obtain ⟨os, o, before, -, -, hnow, hown, -⟩ := h hlive f hf
    refine held_expired (not_mem_removed htame expires hown ?_)
    -- the file was opened in this second
    rw [LogAnswers.Brief] at hbrief
    exact hzone _ _ (by omega)
  | @opened isUseFilePath disk commands later expires =>
    intro _ f hf
    cases hf
    refine ⟨_, _, ((s.expired out ans isUseFilePath disk commands).held
      (s.rollPath c out ans isUseFilePath)).getD [], filesOf_opened .., rfl, rfl,
      ownPath_rollPath s ans isUseFilePath, ?_⟩
    rw [held_rolled hstdio, if_pos rfl, Opened.bytes, List.flatMap_nil, List.append_nil]

theorem CurrentKept.flush (hstdio : out.stdio.Lossless) (h : CurrentKept c out trace s) :
    CurrentKept c out (trace ++ [.flushed]) (s.flushFile out) := by
  intro hlive f' hf'
  obtain ⟨f, hf, rfl⟩ := Option.map_eq_some_iff.mp ((LogWriter.file_flushFile ..).symm.trans hf')
  rw [filesOf_flushed, LogWriter.lastRoll_flushFile, held_flushFile hstdio]
  exact h ((LogWriter.aborted_flushFile ..).symm.trans hlive) f hf

/-- **The file being written to is never removed.** In every state of every
run the file that is open is on the disk, and ends in what it was given since
it was opened. -/
theorem current_run {logFilePath : Path} {outside : σ} {calls : List LogCall} {f : AppendFile}
    (hstdio : out.stdio.Lossless) (hzone : DatesAscend out.zone)
    (htame : ∀ a ∈ calls, ∀ ans ∈ a.answers, ans.Tame c out ∧ ans.Brief c)
    (hlive : ((writerMachine c out).after (LogWriter.fresh logFilePath outside files)
      calls).aborted = false)
    (hf : ((writerMachine c out).after (LogWriter.fresh logFilePath outside files) calls).file =
      some f) :
    ∃ os o before, openedFiles c out (LogWriter.fresh logFilePath outside files) calls = os ++ [o] ∧
      o.file = f.file ∧
      ((writerMachine c out).after (LogWriter.fresh logFilePath outside files) calls).Holds f.file
        (before ++ o.bytes) := by
  have hstart : CurrentKept c out [] (LogWriter.fresh logFilePath outside files) := fun _ f hf => by
    cases hf
  have hk : LogWriter.Keeps c out (fun ans => ans.Tame c out ∧ ans.Brief c)
      (CurrentKept c out) := {
    write := fun _ _ _ logline ans hf h => h.write hstdio hf logline ans
    count := fun _ _ _ _ h => h.congr rfl rfl rfl fun _ _ _ => rfl
    abort := fun _ _ _ hlive => by cases hlive
    roll := fun _ _ _ _ _ hA hr h => h.roll hstdio hzone hA.1 hA.2 hr
    flush := fun _ _ h => h.flush hstdio }
  have h := hk.run htame hstart
  obtain ⟨os, o, before, hos, hfile, -, -, hheld⟩ := h hlive f hf
  obtain ⟨kept, hkept, hbytes⟩ := Option.map_eq_some_iff.mp hheld
  exact ⟨os, o, before, hos, hfile, kept, hkept, hbytes, length_pending_run calls _⟩

/-- The second file of the same calls is open, and the expired one is gone. -/
theorem current_nextDay :
    (∃ os o before,
      openedFiles smallConfig easyOutside (LogWriter.fresh (ascii "log/") () fun _ => some [90])
        (nextDayCalls [expiredLog]) = os ++ [o] ∧
      o.file = (⟨ascii "log/srv.20251231-235958.host.7.log", [67], 1⟩ : AppendFile).file ∧
      ((writerMachine smallConfig easyOutside).after
          (LogWriter.fresh (ascii "log/") () fun _ => some [90])
          (nextDayCalls [expiredLog])).Holds
          (⟨ascii "log/srv.20251231-235958.host.7.log", [67], 1⟩ : AppendFile).file
        (before ++ o.bytes)) ∧
      ((writerMachine smallConfig easyOutside).after
        (LogWriter.fresh (ascii "log/") () fun _ => some [90]) (nextDayCalls [expiredLog])).files
        (ascii "log/" ++ expiredLog.name) = none := by
  have hnot : ¬ newYearsEve.Earlier newYearsEve := by decide
  refine ⟨current_run (lossless_holding _) (fun _ _ _ => hnot) (fun a ha ans hans => ?_)
    (by decide +kernel) (by decide +kernel), by decide +kernel⟩
  obtain ⟨time, rfl⟩ := exists_answersAt ha hans
  refine ⟨tame_answersAt _ _ time, ?_⟩
  show time - 120 * 24 * 3600 ≤ time
  omega

/-! ## Every message -/

/-- The messages of the calls. -/
def messagesOf (calls : List LogCall) : List (List UInt8) :=
  calls.filterMap fun
    | .append logline _ => some logline
    | .construct _ => none
    | .flush => none

/-- Where there is something to take, `fwrite_unlocked` takes a part of it. -/
def Outside.Takes (out : Outside σ) : Prop :=
  ∀ s buffer bs, bs ≠ [] → 0 < (out.stdio.fwrite s buffer bs).1.taken

/-- **`AppendFile::append` takes all of it** where each `fwrite` takes
something. -/
theorem appendLoop_eq (htakes : out.Takes) {logline : List UInt8} {w : Written UInt8}
    (hw : w.taken ≤ logline.length) (disk : σ) :
    (appendLoop out logline w disk).1.taken = logline.length := by
  fun_induction appendLoop out logline w disk with
  | case1 w disk hlt r hzero =>
    have hne : logline.drop w.taken ≠ [] := by
      rw [Ne, List.drop_eq_nil_iff]
      omega
    exact absurd hzero (htakes disk w.buffer _ hne).ne'
  | case2 w disk hlt r hpos ih =>
    have hle := out.stdio.fwrite_le disk w.buffer (logline.drop w.taken)
    rw [List.length_drop] at hle
    refine ih ?_
    show w.taken + (out.stdio.fwrite disk w.buffer (logline.drop w.taken)).1.taken ≤ _
    omega
  | case3 w disk hge => exact Nat.le_antisymm hw (Nat.not_lt.mp hge)

theorem appendFile_eq (htakes : out.Takes) (buffer logline : List UInt8) (disk : σ) :
    (appendFile out buffer logline disk).1.taken = logline.length :=
  appendLoop_eq htakes (out.stdio.fwrite_le ..) _

/-- What is known of every message in a file. -/
structure Appended.Whole (out : Outside σ) (o : Opened) (e : Appended) : Prop where
  file : e.file = o.file
  taken : out.Takes → e.bytes = e.logline

/-- The messages of a trace. -/
def loggedIn (trace : List FileEvent) : List (List UInt8) :=
  trace.filterMap fun
    | .appended e => some e.logline
    | .opened _ _ => none
    | .flushed => none

theorem loggedIn_append : loggedIn (trace ++ t) = loggedIn trace ++ loggedIn t :=
  List.filterMap_append

/-- **The messages are in the files**, in their order. -/
structure InOrder (out : Outside σ) (trace : List FileEvent) (s : LogWriter σ) : Prop where
  messages : (filesOf trace).flatMap (fun o => o.appends.map (·.logline)) = loggedIn trace
  whole : ∀ o ∈ filesOf trace, ∀ e ∈ o.appends, e.Whole out o
  opened : ∀ f, s.file = some f → ∃ os o, filesOf trace = os ++ [o] ∧ o.file = f.file

theorem InOrder.write (h : InOrder out trace s) {f : AppendFile} (hf : s.file = some f)
    (logline : List UInt8) (ans : LogAnswers) :
    InOrder out (trace ++ [.appended (s.appended out f logline ans)])
      (s.written out f logline ans.check) := by
  obtain ⟨os, o, hos, hfile⟩ := h.opened f hf
  have hfiles := filesOf_appended hos (s.appended out f logline ans)
  have hmessages := h.messages
  have hwhole := h.whole
  rw [hos] at hmessages hwhole
  rw [List.forall_mem_append, List.forall_mem_singleton] at hwhole
  refine ⟨?_, ?_, fun g hg => ?_⟩
  · rw [hfiles, loggedIn_append, ← hmessages, List.flatMap_append, List.flatMap_append,
      List.flatMap_singleton, List.flatMap_singleton, List.append_assoc]
    congr 1
    exact List.map_append
  · rw [hfiles, List.forall_mem_append, List.forall_mem_singleton]
    refine ⟨hwhole.1, fun e he => ?_⟩
    rcases List.mem_append.mp he with he | he
    · exact ⟨(hwhole.2 e he).file, (hwhole.2 e he).taken⟩
    · rw [List.mem_singleton.mp he]
      refine ⟨hfile.symm, fun htakes => ?_⟩
      show logline.take (appendFile out f.buffer logline s.outside).1.taken = logline
      rw [appendFile_eq htakes, List.take_length]
  · cases hg
    exact ⟨os, _, hfiles, hfile⟩

theorem InOrder.congr (h : InOrder out trace s)
    (hfile : ∀ f', s'.file = some f' → ∃ f, s.file = some f ∧ f'.file = f.file) :
    InOrder out trace s' := by
  refine ⟨h.messages, h.whole, fun f' hf' => ?_⟩
  obtain ⟨f, hf, hsame⟩ := hfile f' hf'
  rw [hsame]
  exact h.opened f hf

theorem InOrder.roll (h : InOrder out trace s) (hr : LogWriter.Rolled c out s ans t s') :
    InOrder out (trace ++ t) s' := by
  cases hr with
  | aborted | failed expires | kept same expires =>
    rw [List.append_nil]
    exact h.congr fun f hf => ⟨f, hf, rfl⟩
  | opened later expires =>
    refine ⟨?_, ?_, fun g hg => ?_⟩
    · rw [filesOf_opened, loggedIn_append, ← h.messages, List.flatMap_append]
      rfl
    · rw [filesOf_opened, List.forall_mem_append, List.forall_mem_singleton]
      exact ⟨h.whole, fun e he => absurd he List.not_mem_nil⟩
    · cases hg
      exact ⟨_, _, filesOf_opened .., rfl⟩

theorem InOrder.flush (h : InOrder out trace s) :
    InOrder out (trace ++ [.flushed]) (s.flushFile out) := by
  have hfiles : filesOf (trace ++ [.flushed]) = filesOf trace := filesOf_flushed trace
  refine ⟨?_, hfiles ▸ h.whole, hfiles ▸ fun f' hf' => ?_⟩
  · rw [hfiles, h.messages, loggedIn_append]
    exact (List.append_nil _).symm
  · obtain ⟨f, hf, rfl⟩ := Option.map_eq_some_iff.mp ((LogWriter.file_flushFile ..).symm.trans hf')
    exact h.opened f hf

theorem loggedIn_rolled (hr : LogWriter.Rolled c out s ans t s') : loggedIn t = [] := by
  cases hr <;> rfl

/-- **A call logs its message**, unless the process ends. -/
theorem loggedIn_step {a : LogCall} (hlive : (s.step c out a).2.aborted = false) :
    loggedIn (s.step c out a).1 = messagesOf [a] := by
  have hab : ¬ s.aborted = true := Bool.eq_false_iff.mp (LogWriter.live_of_step hlive)
  cases a with
  | construct ans =>
    rw [LogWriter.step, if_neg hab]
    exact loggedIn_rolled (LogWriter.rolled_rollFile ..)
  | append logline ans =>
    rw [LogWriter.step, if_neg hab] at hlive ⊢
    cases hf : s.file with
    | none =>
      rw [LogWriter.appendUnlocked, hf] at hlive
      cases hlive
    | some f =>
      have ha : LogWriter.Appends c out s f logline ans _ _ :=
        LogWriter.appends_appendUnlocked hf logline ans
      generalize s.appendUnlocked c out logline ans = r at ha ⊢
      obtain ⟨t, s'⟩ := r
      cases ha with
      | full long rolled => exact congrArg (logline :: ·) (loggedIn_rolled rolled)
      | nextDay fits day rolled => exact congrArg (logline :: ·) (loggedIn_rolled rolled)
      | flushed fits day => rfl
      | sameDay fits day => rfl
      | counted fits early => rfl
  | flush =>
    rw [LogWriter.step, if_neg hab] at hlive ⊢
    split_ifs at hlive ⊢
    · cases hlive
    · rfl

theorem loggedIn_run {start : LogWriter σ} {calls : List LogCall}
    (hlive : ((writerMachine c out).after start calls).aborted = false) :
    loggedIn ((writerMachine c out).outs start calls) = messagesOf calls := by
  induction calls using List.reverseRecOn with
  | nil => rfl
  | append_singleton calls a ih =>
    rw [Machine.after_concat] at hlive
    rw [Machine.outs_concat, loggedIn_append, ih (LogWriter.live_of_step hlive)]
    exact (congrArg (messagesOf calls ++ ·) (loggedIn_step hlive)).trans List.filterMap_append.symm

theorem inOrder_fresh (logFilePath : Path) (outside : σ) (files : Path → Option (List UInt8))
    (calls : List LogCall) :
    InOrder out ((writerMachine c out).outs (LogWriter.fresh logFilePath outside files) calls)
      ((writerMachine c out).after (LogWriter.fresh logFilePath outside files) calls) := by
  have hstart : InOrder out [] (LogWriter.fresh logFilePath outside files) :=
    ⟨rfl, fun o ho => absurd ho List.not_mem_nil, (fun f hf => by cases hf)⟩
  have hk : LogWriter.Keeps c out (fun _ => True) (InOrder out) := {
    write := fun _ _ _ logline ans hf h => h.write hf logline ans
    count := fun _ _ _ _ h => h.congr fun f hf => ⟨f, hf, rfl⟩
    abort := fun _ _ h => h.congr fun f hf => ⟨f, hf, rfl⟩
    roll := fun _ _ _ _ _ _ hr h => h.roll hr
    flush := fun _ _ h => h.flush }
  exact hk.run (fun _ _ _ _ => trivial) hstart

/-- **Every message is in one file, whole and in its place.** As long as the
process has not ended, the files of a run, in the order they were opened in,
hold the messages of all calls, in the order of the calls; each whole, if no
`fwrite` takes nothing. -/
theorem inOrder_run {logFilePath : Path} {outside : σ} {calls : List LogCall}
    (hlive : ((writerMachine c out).after (LogWriter.fresh logFilePath outside files)
      calls).aborted = false) :
    (openedFiles c out (LogWriter.fresh logFilePath outside files) calls).flatMap
        (fun o => o.appends.map (·.logline)) = messagesOf calls ∧
      ∀ o ∈ openedFiles c out (LogWriter.fresh logFilePath outside files) calls, ∀ e ∈ o.appends,
        e.Whole out o :=
  have h : InOrder out ((writerMachine c out).outs _ calls) _ :=
    inOrder_fresh logFilePath outside files calls
  ⟨h.messages.trans (loggedIn_run hlive), h.whole⟩

theorem inOrder_nextDay :
    (openedFiles smallConfig easyOutside (LogWriter.fresh (ascii "log/") () fun _ => none)
        (nextDayCalls [])).flatMap (fun o => o.appends.map (·.logline)) =
          messagesOf (nextDayCalls []) ∧
      ∀ o ∈ openedFiles smallConfig easyOutside (LogWriter.fresh (ascii "log/") () fun _ => none)
        (nextDayCalls []), ∀ e ∈ o.appends, e.Whole easyOutside o :=
  inOrder_run (by decide)

end TelnetServ
