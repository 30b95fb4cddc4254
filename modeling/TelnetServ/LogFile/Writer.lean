import TelnetServ.LogFile.Expiry
import TelnetServ.Common.Machine
import TelnetServ.Common.Stdio
/-!
# The log file — writing and rolling, model

The rest of `LogFile`: its constructor, `append_unlocked`, `flush` and the
whole of `rollFile`, over `AppendFile` with its buffer. A step is one call
under `mutex_`. What `time`, `readdir` and `fopen` answer to a call comes in
with it; how much `fwrite_unlocked` takes, and what goes to the disk with it,
is part of what is outside.
-/

namespace TelnetServ

open Calendar FileSystem Stdio

/-! ## What is outside -/

/-- `sizeof buffer_`. -/
abbrev bufferSize : ℕ := 64 * 1024

/-- **What is outside of a `LogFile`**: the directories, the `FILE`s and a
shell, and what does not change while the process runs. -/
structure Outside (σ : Type*) where
  fs : FileSys σ
  stdio : Stdio.Calls bufferSize UInt8 σ
  sh : Shell
  /-- `localtime_r`. -/
  zone : ℤ → Tm
  hostname : List UInt8
  /-- A host name is no path. -/
  slash_notMem : slash ∉ hostname
  pid : Int32

/-- The file a name given to `fopen` or `rm` stands for: without a
directory, one of the working directory. -/
def absolute (p : Path) : Path := if slash ∈ p then p else ascii "./" ++ p

/-! ## `AppendFile` -/

section AppendFile

variable {σ : Type*} (out : Outside σ)

/-- The loop of `AppendFile::append`, where `w` has been written: it ends
where nothing remains, or nothing is taken. -/
def appendLoop (logline : List UInt8) (w : Written UInt8) (s : σ) : Written UInt8 × σ :=
  if w.taken < logline.length then
    let r := out.stdio.fwrite s w.buffer (logline.drop w.taken)
    if r.1.taken = 0 then (w.next r.1, r.2) else appendLoop logline (w.next r.1) r.2
  else (w, s)
termination_by logline.length - w.taken
decreasing_by
  show logline.length - (w.taken + r.1.taken) < logline.length - w.taken
  omega

/-- **`AppendFile::append`**, with what is in the buffer. -/
def appendFile (buffer logline : List UInt8) (s : σ) : Written UInt8 × σ :=
  appendLoop out logline (out.stdio.fwrite s buffer logline).1
    (out.stdio.fwrite s buffer logline).2

end AppendFile

/-- **`AppendFile`**: the file `fp_` is open on, `buffer_` as far as it is
filled, and `writtenBytes_`. -/
structure AppendFile where
  file : Path
  buffer : List UInt8 := []
  writtenBytes : ℕ := 0
  deriving DecidableEq

/-! ## `LogFile` -/

/-- The members of a `LogFile` that stay as they are. -/
structure LogConfig extends LogFile where
  /-- `assert(basename.find('/') == string::npos)`. -/
  slash_notMem : slash ∉ basename
  rollSize : ℕ
  flushInterval : ℤ
  checkEveryN : ℤ

/-- `kRollPerSeconds_`. -/
abbrev kRollPerSeconds : ℤ := 60 * 60 * 24

/-- `now / kRollPerSeconds_ * kRollPerSeconds_`. -/
def periodOf (now : ℤ) : ℤ := now.tdiv kRollPerSeconds * kRollPerSeconds

/-- What is answered to one call. `time` is asked at most three times, in
this order. -/
structure LogAnswers where
  /-- In `append_unlocked`, behind the write. -/
  check : ℤ
  /-- In `getLogFileName`. -/
  roll : ℤ
  /-- In `deleteExpiredFile`. -/
  expire : ℤ
  /-- What a directory contains. -/
  readDir : List UInt8 → Option (List FileName)
  /-- `fopen` succeeds. -/
  opens : Bool

/-- An `append`, as it went to a file. -/
structure Appended where
  file : Path
  logline : List UInt8
  /-- How many bytes of it were taken. -/
  taken : ℕ
  /-- When. -/
  now : ℤ
  /-- What the clock shows to a roll behind it. -/
  roll : ℤ
  deriving DecidableEq

/-- What is seen of a call. -/
inductive FileEvent where
  /-- `fopen` of a new file, at this time; the one before is closed. -/
  | opened (file : Path) (now : ℤ)
  | appended (e : Appended)
  | flushed
  deriving DecidableEq

/-- **A `LogFile`** and, below, what it finds outside. -/
structure LogWriter (σ : Type*) where
  logFilePath : Path
  count : ℤ := 0
  startOfPeriod : ℤ := 0
  lastRoll : ℤ := 0
  lastFlush : ℤ := 0
  /-- `file_`. -/
  file : Option AppendFile := none
  outside : σ
  /-- The files there are, with their bytes. -/
  files : Path → Option (List UInt8)
  /-- What the clock has shown last. -/
  seen : ℤ := 0
  /-- An assertion has failed, or something else that may not happen has. -/
  aborted : Bool := false

/-- A call. -/
inductive LogCall where
  | construct (ans : LogAnswers)
  | append (logline : List UInt8) (ans : LogAnswers)
  | flush

/-- What is answered to it. -/
def LogCall.answers : LogCall → Option LogAnswers
  | .construct ans => some ans
  | .append _ ans => some ans
  | .flush => none

/-- `isUseFilePath`, and the directories behind `createDir`. -/
def useFilePath {σ : Type*} (fs : FileSys σ) (logFilePath : Path) (disk : σ) : Option (Bool × σ) :=
  if fs.access disk logFilePath then some (true, disk)
  else (createDir fs (some logFilePath) errNo disk).map fun d => (d.bRet, d.disk)

/-- What `deleteExpiredFile` is given is what the directories leave. -/
theorem rollFileDir_eq {σ : Type*} (fs : FileSys σ) (logFilePath : Path) (disk : σ) :
    rollFileDir fs logFilePath disk =
      (useFilePath fs logFilePath disk).map fun r => (rollDir logFilePath r.1, r.2) := by
  unfold rollFileDir useFilePath
  split_ifs
  · rfl
  · rw [Option.map_map]
    rfl

/-- `rm` of some files. -/
def removeFiles (files : Path → Option (List UInt8)) (paths : List Path) :
    Path → Option (List UInt8) := fun p =>
  if (paths.map absolute).contains p then none else files p

/-- `fopen` with `"ae"`: what is in the file stays. -/
def openFile (files : Path → Option (List UInt8)) (p : Path) : Path → Option (List UInt8) :=
  Function.update files p (some ((files p).getD []))

/-- Bytes go to the end of a file; nobody sees them where it has been
removed. -/
def writeFile (files : Path → Option (List UInt8)) (p : Path) (bs : List UInt8) :
    Path → Option (List UInt8) := Function.update files p ((files p).map (· ++ bs))

namespace LogWriter

variable {σ : Type*} (c : LogConfig) (out : Outside σ) (s : LogWriter σ)

def abort : LogWriter σ := { s with aborted := true }

/-- `filename`, as `rollFile` makes it. -/
def filename (now : ℤ) (isUseFilePath : Bool) : Path :=
  let name := getLogFileName c.basename (out.zone now) out.hostname out.pid
  if isUseFilePath then (rollDir s.logFilePath isUseFilePath).path ++ name else name

/-- `file_->flush()`, or the `fclose` of a file that is closed: what is in the
buffer goes to the file. -/
def flushFile : LogWriter σ :=
  match s.file with
  | none => s
  | some f =>
    { s with
      file := some { f with buffer := [] }
      outside := (out.stdio.fflush s.outside f.buffer).2
      files := writeFile s.files f.file (out.stdio.fflush s.outside f.buffer).1 }

/-- **`rollFile`**, with what it returns. -/
def rollFile (ans : LogAnswers) : (List FileEvent × LogWriter σ) × Bool :=
  match useFilePath out.fs s.logFilePath s.outside with
  | none => (([], s.abort), false)
  | some (isUseFilePath, disk) =>
    let dir := rollDir s.logFilePath isUseFilePath
    match c.deleteExpiredFile out.zone ans.expire (some dir.path) ans.readDir with
    | none => (([], s.abort), false)
    | some commands =>
      let s' : LogWriter σ := { s with
        logFilePath := if isUseFilePath then dir.path else s.logFilePath
        outside := disk
        files := removeFiles s.files (commands.flatMap out.sh.removes)
        seen := ans.expire }
      if s.lastRoll < ans.roll then
        -- `assert(fp_)`
        if ans.opens then
          let p := absolute (s.filename c out ans.roll isUseFilePath)
          -- the old file is closed behind the `fopen`, to the same effect: if it
          -- has been removed its bytes are gone, also where the new one has its name
          (([.opened p ans.roll],
            { s'.flushFile out with
              lastRoll := ans.roll
              lastFlush := ans.roll
              startOfPeriod := periodOf ans.roll
              file := some { file := p }
              files := openFile (s'.flushFile out).files p }), true)
        else (([], s'.abort), false)
      else (([], s'), false)

/-- How an `append` goes to the file. -/
def appended (f : AppendFile) (logline : List UInt8) (ans : LogAnswers) : Appended where
  file := f.file
  logline := logline
  taken := (appendFile out f.buffer logline s.outside).1.taken
  now := ans.check
  roll := ans.roll

/-- What `file_->append` leaves. -/
def written (f : AppendFile) (logline : List UInt8) (now : ℤ) : LogWriter σ :=
  { s with
    file := some {
      file := f.file
      buffer := (appendFile out f.buffer logline s.outside).1.buffer
      writtenBytes := f.writtenBytes + logline.length }
    outside := (appendFile out f.buffer logline s.outside).2
    files := writeFile s.files f.file (appendFile out f.buffer logline s.outside).1.sent
    seen := now }

/-- **`append_unlocked`.** -/
def appendUnlocked (logline : List UInt8) (ans : LogAnswers) : List FileEvent × LogWriter σ :=
  match s.file with
  | none => ([], s.abort)
  | some f =>
    let e := .appended (s.appended out f logline ans)
    let s' := s.written out f logline ans.check
    if c.rollSize < f.writtenBytes + logline.length then
      let r := (rollFile c out s' ans).1
      (e :: r.1, r.2)
    else if c.checkEveryN ≤ s.count + 1 then
      if periodOf ans.check ≠ s.startOfPeriod then
        let r := (rollFile c out { s' with count := 0 } ans).1
        (e :: r.1, r.2)
      else if c.flushInterval < ans.check - s.lastFlush then
        ([e, .flushed], { s'.flushFile out with count := 0, lastFlush := ans.check })
      else ([e], { s' with count := 0 })
    else ([e], { s' with count := s.count + 1 })

/-- **A call.** -/
def step : LogCall → List FileEvent × LogWriter σ
  | .construct ans => if s.aborted then ([], s) else (rollFile c out s ans).1
  | .append logline ans => if s.aborted then ([], s) else s.appendUnlocked c out logline ans
  | .flush =>
    if s.aborted then ([], s)
    else if s.file = none then ([], s.abort)
    else ([.flushed], s.flushFile out)

section Fields

variable {s}

theorem flushFile_of_file {f : AppendFile} (h : s.file = some f) : s.flushFile out =
    { s with
      file := some { f with buffer := [] }
      outside := (out.stdio.fflush s.outside f.buffer).2
      files := writeFile s.files f.file (out.stdio.fflush s.outside f.buffer).1 } := by
  rw [flushFile, h]

theorem flushFile_of_none (h : s.file = none) : s.flushFile out = s := by
  rw [flushFile, h]

theorem file_flushFile :
    (s.flushFile out).file = s.file.map fun f => { f with buffer := [] } := by
  unfold flushFile; split <;> simp [*]

@[simp] theorem count_flushFile : (s.flushFile out).count = s.count := by
  unfold flushFile; split <;> rfl

@[simp] theorem lastRoll_flushFile : (s.flushFile out).lastRoll = s.lastRoll := by
  unfold flushFile; split <;> rfl

@[simp] theorem startOfPeriod_flushFile :
    (s.flushFile out).startOfPeriod = s.startOfPeriod := by
  unfold flushFile; split <;> rfl

@[simp] theorem seen_flushFile : (s.flushFile out).seen = s.seen := by
  unfold flushFile; split <;> rfl

@[simp] theorem aborted_flushFile : (s.flushFile out).aborted = s.aborted := by
  unfold flushFile; split <;> rfl

end Fields

/-- What a `LogFile` is before its constructor has run. -/
def fresh (logFilePath : Path) (outside : σ) (files : Path → Option (List UInt8)) :
    LogWriter σ := { logFilePath := logFilePath, outside := outside, files := files }

/-- The clock goes on: no reading is behind the one before. -/
def Timely (ans : LogAnswers) : Prop :=
  s.seen ≤ ans.check ∧ ans.check ≤ ans.roll ∧ ans.roll ≤ ans.expire ∧ 0 < ans.roll

instance (ans : LogAnswers) : Decidable (s.Timely ans) :=
  inferInstanceAs (Decidable (_ ∧ _ ∧ _ ∧ _))

/-- **When a call is possible.** -/
def Enabled : LogCall → Prop
  | .construct ans => s.file = none ∧ s.Timely ans
  | .append _ ans => s.Timely ans
  | .flush => True

instance : ∀ a, Decidable (s.Enabled a)
  | .construct ans => inferInstanceAs (Decidable (s.file = none ∧ s.Timely ans))
  | .append _ ans => inferInstanceAs (Decidable (s.Timely ans))
  | .flush => inferInstanceAs (Decidable True)

end LogWriter

/-- **A `LogFile` as a machine** over its calls. -/
def writerMachine {σ : Type*} (c : LogConfig) (out : Outside σ) :
    Machine (LogWriter σ) LogCall FileEvent where
  step s a := s.step c out a

end TelnetServ
