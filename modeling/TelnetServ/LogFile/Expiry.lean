import TelnetServ.LogFile.Model
import Mathlib.Data.List.Infix
/-!
# The log file — its expired files

`deleteExpiredFile` compares whole names with `basename.YYYYMMDD`. Among the
names of one basename this is a comparison of dates (`sortsBefore_own`), but
a name of any other program that sorts before is taken as well. Then the
path goes to a shell, in a buffer of 256 bytes and without quotes.
`deletesExactly_iff` says which of the names in a directory do no harm.
-/

namespace TelnetServ

open Calendar CStr FileSystem

/-! ## What is promised -/

/-- A file of this basename: `basename.YYYYMMDD-HHMMSS.hostname.pid.log`. -/
def Own (basename : List UInt8) (n : FileName) : Prop :=
  ∃ tm hostname pid, n.name = getLogFileName basename tm hostname pid

/-- And its date is earlier than this one. -/
def OwnExpired (basename : List UInt8) (cutOff : Tm) (n : FileName) : Prop :=
  ∃ tm hostname pid, n.name = getLogFileName basename tm hostname pid ∧ tm.Earlier cutOff

/-- The bytes a shell may not take as they are: the blanks, `|&;<>()$`, the
quote marks, the backslash, `*?[` and the braces. -/
def shellBytes : List UInt8 :=
  [9, 10, 32, 124, 38, 59, 60, 62, 40, 41, 36, 34, 39, 96, 92, 42, 63, 91, 123, 125]

/-- **A path the shell takes as it is**, and `rm` too: it begins with none of
`~`, `#` and `-`. -/
def Plain (path : Path) : Prop :=
  path ≠ [] ∧ (∀ c ∈ path, c ∉ shellBytes) ∧
    path.head? ≠ some 126 ∧ path.head? ≠ some 35 ∧ path.head? ≠ some 45

instance (path : Path) : Decidable (Plain path) :=
  have : Decidable (∀ c ∈ path, c ∉ shellBytes) := List.decidableBAll _ _
  inferInstanceAs (Decidable (_ ∧ _ ∧ _ ∧ _ ∧ _))

/-- **A shell with `rm`**: the files that a command line asks to remove. What
it makes of other lines than these is open. -/
structure Shell where
  removes : List UInt8 → List Path
  plain : ∀ path, Plain path → removes (ascii "rm -f " ++ path) = [path]

open Classical in
/-- **Expiry removes exactly the expired files of this basename**: whatever
the shell, the files asked for are those, by their full paths. -/
def DeletesExactly (l : LogFile) (zone : ℤ → Tm) (now : ℤ) (dir : LogDir) (names : List FileName) :
    Prop :=
  ∃ commands, l.deleteExpiredFile zone now (some dir.path) (fun _ => some names) = some commands ∧
    ∀ sh : Shell, commands.flatMap sh.removes =
      (names.filter fun n => OwnExpired l.basename (l.cutOff zone now) n).map (dir.path ++ ·.name)

/-! ## The names that are taken -/

variable {l : LogFile} {zone : ℤ → Tm} {now : ℤ} {n : FileName} {names : List FileName}

/-- **The two tests of a name.** -/
def Taken (l : LogFile) (zone : ℤ → Tm) (now : ℤ) (n : FileName) : Prop :=
  n.IsLog ∧ l.SortsBefore zone now n

instance : DecidablePred (Taken l zone now) := fun _ => inferInstanceAs (Decidable (_ ∧ _))

/-- A name that `getLogFileName` makes ends in `".log"`. -/
theorem isLog_own (h : Own l.basename n) : n.IsLog := by
  obtain ⟨tm, hostname, pid, hn⟩ := h
  have hlog : (ascii ".log").length = 4 := rfl
  have hdot : (ascii ".").length = 1 := rfl
  have hlen : n.name.length = (l.basename ++ (ascii "." ++ tm.ymd ++ ascii "-" ++ tm.hms ++
      ascii ".") ++ hostname ++ (ascii "." ++ Decimal.decimal pid.toInt)).length + 4 := by
    rw [hn, getLogFileName, List.length_append, hlog]
  refine ⟨?_, ?_⟩
  · rw [hlen]
    simp only [List.length_append, hdot]
    omega
  · rw [hlen, Nat.add_sub_cancel, hn, getLogFileName, List.drop_left]

/-- **Among the names of one basename the comparison is one of dates.** -/
theorem sortsBefore_own {tm : Tm} {hostname : List UInt8} {pid : Int32}
    (h : n.name = getLogFileName l.basename tm hostname pid) :
    l.SortsBefore zone now n ↔ tm.Earlier (l.cutOff zone now) := by
  have hname : n.name = (l.basename ++ ascii ".") ++ (tm.ymd ++ (ascii "-" ++ tm.hms ++ ascii "." ++
      hostname ++ (ascii "." ++ Decimal.decimal pid.toInt) ++ ascii ".log")) := by
    rw [h, getLogFileName]
    simp only [List.append_assoc]
  have hcp : l.cpFileName zone now =
      (l.basename ++ ascii ".") ++ ((l.cutOff zone now).ymd ++ []) := by
    rw [LogFile.cpFileName, List.append_nil, List.append_assoc]
  have hzero : 0 ∉ l.basename ++ ascii "." := by
    intro h0
    refine n.zero_notMem ?_
    rw [hname]
    exact List.mem_append_left _ h0
  have hlen : (l.cpFileName zone now).length = (l.basename ++ ascii ".").length + 8 := by
    rw [hcp, List.append_nil, List.length_append, Tm.length_ymd]
  rw [LogFile.SortsBefore, hlen, hname, hcp, strncmp_append hzero, Tm.strncmp_ymd]

/-- So an own name is taken if it has expired. -/
theorem ownExpired_iff : OwnExpired l.basename (l.cutOff zone now) n ↔
    Own l.basename n ∧ Taken l zone now n := by
  constructor
  · rintro ⟨tm, hostname, pid, hn, hearlier⟩
    have hown : Own l.basename n := ⟨tm, hostname, pid, hn⟩
    exact ⟨hown, isLog_own hown, (sortsBefore_own hn).mpr hearlier⟩
  · rintro ⟨⟨tm, hostname, pid, hn⟩, -, hsorts⟩
    exact ⟨tm, hostname, pid, hn, (sortsBefore_own hn).mp hsorts⟩

/-- **What `deleteExpiredFile` asks for.** -/
theorem deleteExpiredFile_eq (dir : Path) :
    l.deleteExpiredFile zone now (some dir) (fun _ => some names) =
      if -2 ^ 31 ≤ l.reserveSeconds ∧ l.reserveSeconds < 2 ^ 31 then
        some ((names.filter fun n => Taken l zone now n).map (rmCommand dir))
      else none := by
  have hfilter : ((names.filter fun n => n.IsLog).filter fun n => l.SortsBefore zone now n) =
      names.filter fun n => Taken l zone now n := by
    rw [List.filter_filter]
    refine List.filter_congr fun n _ => ?_
    rw [Bool.and_comm, ← Bool.decide_and]
    rfl
  rw [← hfilter]
  rfl

/-! ## The command lines -/

/-- A shell that takes a plain path as it is, and removes the empty path on
every other line. -/
def literalShell : Shell where
  removes cmd := [if ascii "rm -f " <+: cmd ∧ Plain (cmd.drop 6) then cmd.drop 6 else []]
  plain path h := by
    have hdrop : (ascii "rm -f " ++ path).drop 6 = path := rfl
    rw [hdrop, if_pos ⟨List.prefix_append _ _, h⟩]

/-- A short and plain path is removed. -/
theorem removes_rmCommand (sh : Shell) {dir : Path} (hlen : dir.length + n.name.length ≤ 249)
    (hplain : Plain (dir ++ n.name)) : sh.removes (rmCommand dir n) = [dir ++ n.name] := by
  have hrm : (ascii "rm -f ").length = 6 := rfl
  have hfits : (ascii "rm -f " ++ dir ++ n.name).length ≤ 255 := by
    simp only [List.length_append, hrm]
    omega
  rw [rmCommand, List.take_of_length_le hfits, List.append_assoc, sh.plain _ hplain]

/-- And only such a path by every shell. -/
theorem plain_of_literalShell {dir : LogDir}
    (h : literalShell.removes (rmCommand dir.path n) = [dir.path ++ n.name]) :
    dir.path.length + n.name.length ≤ 249 ∧ Plain (dir.path ++ n.name) := by
  have hrm : (ascii "rm -f ").length = 6 := rfl
  have hdir : dir.path ≠ [] := by
    intro hnil
    have := dir.slash_last
    rw [hnil] at this
    cases this
  have hpath := List.singleton_inj.mp h
  split_ifs at hpath with hplain
  · refine ⟨?_, hpath ▸ hplain.2⟩
    have hlen := congrArg List.length hpath
    simp only [rmCommand, List.length_drop, List.length_take, List.length_append, hrm] at hlen
    omega
  · exact absurd (List.append_eq_nil_iff.mp hpath.symm).1 hdir

/-- **Expiry does what is promised if and only if** the retention in seconds
is an `int`, and every name that is taken is one of this basename, with a
path that is short enough for the buffer and plain. -/
theorem deletesExactly_iff (l : LogFile) (zone : ℤ → Tm) (now : ℤ) (dir : LogDir)
    (names : List FileName) :
    DeletesExactly l zone now dir names ↔
      (-2 ^ 31 ≤ l.reserveSeconds ∧ l.reserveSeconds < 2 ^ 31) ∧
        ∀ n ∈ names, n.IsLog → l.SortsBefore zone now n →
          Own l.basename n ∧ dir.path.length + n.name.length ≤ 249 ∧
            Plain (dir.path ++ n.name) := by
  classical
  -- the expired files of this basename are the own ones among those taken
  have hexpired : (names.filter fun n => OwnExpired l.basename (l.cutOff zone now) n) =
      (names.filter fun n => Taken l zone now n).filter fun n => Own l.basename n := by
    rw [List.filter_filter]
    refine List.filter_congr fun n _ => ?_
    rw [← Bool.decide_and, decide_eq_decide]
    exact ownExpired_iff
  have htaken : ∀ n, n ∈ names.filter (fun n => Taken l zone now n) ↔
      n ∈ names ∧ n.IsLog ∧ l.SortsBefore zone now n := fun n => by
    rw [List.mem_filter, decide_eq_true_eq, Taken]
  rw [DeletesExactly, deleteExpiredFile_eq, hexpired]
  generalize names.filter (fun n => Taken l zone now n) = taken at htaken ⊢
  constructor
  · rintro ⟨commands, hcommands, hsh⟩
    split_ifs at hcommands with hfits
    rw [← Option.some_inj.mp hcommands] at hsh
    have hlit := hsh literalShell
    rw [List.flatMap_map, literalShell, ← List.map_eq_flatMap] at hlit
    -- each line removes one file, so no name is taken that is not own
    have hlen := congrArg List.length hlit
    rw [List.length_map, List.length_map] at hlen
    have hown := List.filter_sublist.eq_of_length hlen.symm
    rw [hown, List.map_inj_left] at hlit
    refine ⟨hfits, fun n hn hlog hsorts => ?_⟩
    have hmem := (htaken n).mpr ⟨hn, hlog, hsorts⟩
    refine ⟨?_, plain_of_literalShell (congrArg (fun p => [p]) (hlit n hmem))⟩
    exact decide_eq_true_eq.mp (List.filter_eq_self.mp hown n hmem)
  · rintro ⟨hfits, hall⟩
    refine ⟨_, if_pos hfits, fun sh => ?_⟩
    have hown : (taken.filter fun n => Own l.basename n) = taken := by
      refine List.filter_eq_self.mpr fun n hn => ?_
      obtain ⟨hn, hlog, hsorts⟩ := (htaken n).mp hn
      exact decide_eq_true (hall n hn hlog hsorts).1
    rw [hown, List.flatMap_map, List.map_eq_flatMap]
    refine List.flatMap_congr fun n hn => ?_
    obtain ⟨hn, hlog, hsorts⟩ := (htaken n).mp hn
    exact removes_rmCommand sh (hall n hn hlog hsorts).2.1 (hall n hn hlog hsorts).2.2

/-- The last minute of 2025. -/
def newYearsEve : Tm :=
  ⟨125, 11, 31, 23, 59, 58, by decide, by decide, by decide, by decide, by decide, by decide⟩

/-- **The log file of another program** is removed, because its name sorts
before `srv.20251231`. -/
theorem not_deletesExactly_other : ¬ DeletesExactly ⟨ascii "srv", 120⟩ (fun _ => newYearsEve)
    1777593598 (rollDir (ascii "logs") true) [⟨ascii "app.log", by decide⟩] := by
  classical
  rintro ⟨commands, hcommands, hsh⟩
  have hline : [rmCommand (ascii "logs/") ⟨ascii "app.log", by decide⟩] = commands :=
    Option.some_inj.mp hcommands
  have hnot : ¬ OwnExpired (ascii "srv") newYearsEve ⟨ascii "app.log", by decide⟩ := by
    rintro ⟨tm, hostname, pid, hn, -⟩
    exact absurd (Option.some_inj.mp (congrArg List.head? hn)) (by decide)
  have hremoved := hsh literalShell
  rw [← hline, List.filter_cons_of_neg (by rw [decide_eq_true_eq]; exact hnot)] at hremoved
  cases hremoved

end TelnetServ
