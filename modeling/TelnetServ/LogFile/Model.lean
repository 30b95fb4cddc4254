import TelnetServ.Basic
import TelnetServ.Common.Calendar
import TelnetServ.Common.FileSystem
/-!
# The log file — model

What has been added to `LogFile`: `createDir`, which makes the directory
of the log files, and `deleteExpiredFile`, which removes the old ones of
them, with `getLogFileName` and the part of `rollFile` that calls the two.
The clock, the time zone, the file system and the shell are outside.
-/

namespace TelnetServ

open Calendar Decimal CStr FileSystem

/-! ## File names -/

/-- **`getLogFileName`**, for this local time, `ProcessInfo::hostname` and
`ProcessInfo::pid`. -/
def getLogFileName (basename : List UInt8) (tm : Tm) (hostname : List UInt8) (pid : Int32) :
    List UInt8 :=
  basename ++ (ascii "." ++ tm.ymd ++ ascii "-" ++ tm.hms ++ ascii ".") ++ hostname ++
    (ascii "." ++ decimal pid.toInt) ++ ascii ".log"

/-- An entry of a directory. The kernel lets no NUL into a name. -/
structure FileName where
  name : List UInt8
  zero_notMem : 0 ∉ name
  deriving DecidableEq

/-! ## `deleteExpiredFile` -/

/-- The members of a `LogFile` the two functions read. -/
structure LogFile where
  basename : List UInt8
  /-- How many days the files are kept. -/
  reserveLogDate : ℤ

/-- The entry's name ends in `".log"` and is longer. -/
def FileName.IsLog (n : FileName) : Prop :=
  4 < n.name.length ∧ n.name.drop (n.name.length - 4) = ascii ".log"

instance (n : FileName) : Decidable n.IsLog := by unfold FileName.IsLog; infer_instance

/-- `reserveLogDate_ * 24 * 3600`. -/
def LogFile.reserveSeconds (l : LogFile) : ℤ := l.reserveLogDate * 24 * 3600

/-- The local time that many seconds ago. -/
def LogFile.cutOff (l : LogFile) (zone : ℤ → Tm) (now : ℤ) : Tm := zone (now - l.reserveSeconds)

/-- `cpFileName`. -/
def LogFile.cpFileName (l : LogFile) (zone : ℤ → Tm) (now : ℤ) : List UInt8 :=
  l.basename ++ (ascii "." ++ (l.cutOff zone now).ymd)

/-- `strncmp(iter->c_str(), cpFileName.c_str(), cpFileName.length()) < 0`. -/
def LogFile.SortsBefore (l : LogFile) (zone : ℤ → Tm) (now : ℤ) (n : FileName) : Prop :=
  strncmp (l.cpFileName zone now).length n.name (l.cpFileName zone now) < 0

instance (l : LogFile) (zone : ℤ → Tm) (now : ℤ) (n : FileName) :
    Decidable (l.SortsBefore zone now n) := by unfold LogFile.SortsBefore; infer_instance

/-- `cmd`, which has room for 255 bytes and a NUL. -/
def rmCommand (pszDirName : List UInt8) (n : FileName) : List UInt8 :=
  (ascii "rm -f " ++ pszDirName ++ n.name).take 255

/-- **`deleteExpiredFile`**: the lines it hands to `system`; `none` where the
product of three `int`s overflows. `readDir` is what the directory
contains, `none` where it does not exist or cannot be opened. -/
def LogFile.deleteExpiredFile (l : LogFile) (zone : ℤ → Tm) (now : ℤ)
    (pszDirName : Option (List UInt8)) (readDir : List UInt8 → Option (List FileName)) :
    Option (List (List UInt8)) :=
  match pszDirName with
  | none => some []
  | some dir =>
    match readDir dir with
    | none => some []
    | some names =>
      if -2 ^ 31 ≤ l.reserveSeconds ∧ l.reserveSeconds < 2 ^ 31 then
        some (((names.filter fun n => n.IsLog).filter fun n => l.SortsBefore zone now n).map
          (rmCommand dir))
      else none

/-! ## `createDir` -/

/-- `ERR_NO`, `ERR_TOO_MANY_LINKS` and `ERR_CREATEDIR_FAIL`. -/
abbrev errNo : ℕ := 0

abbrev errTooManyLinks : ℕ := 1

abbrev errCreatedirFail : ℕ := 2

/-- `MAX_IDS_PATH_LEN`. -/
abbrev maxIdsPathLen : ℕ := 256

/-- What `createDir` carries along: the disk, its two results, and its calls
of `mkdir` with their answers. -/
structure DirState (σ : Type*) where
  disk : σ
  wErrorCode : ℕ
  bRet : Bool := false
  calls : List (Path × Option Errno) := []

section CreateDir

variable {σ : Type*} (fs : FileSys σ)

/-- One directory of the loop. -/
def makeDir (szTmpDir : Path) (d : DirState σ) : DirState σ :=
  if fs.access d.disk szTmpDir then d
  else
    match fs.mkdir d.disk szTmpDir with
    | (none, disk) =>
      { disk := disk, wErrorCode := errNo, bRet := true, calls := d.calls ++ [(szTmpDir, none)] }
    | (some .emlink, disk) =>
      { d with
        disk := disk
        wErrorCode := errTooManyLinks
        calls := d.calls ++ [(szTmpDir, some .emlink)] }
    | (some .other, disk) =>
      { d with
        disk := disk
        wErrorCode := errCreatedirFail
        calls := d.calls ++ [(szTmpDir, some .other)] }

/-- The loop, over the directories it has yet to come to. -/
def makeDirs : List Path → DirState σ → DirState σ
  | [], d => { d with bRet := true }
  | szTmpDir :: rest, d =>
    if (makeDir fs szTmpDir d).wErrorCode ≠ errNo then makeDir fs szTmpDir d
    else makeDirs rest (makeDir fs szTmpDir d)

/-- `achDir` once every `'\\'` is a `'/'` and there is one at the end. -/
def achDir (pszDirName : Path) : Path :=
  let dir := pszDirName.map fun c => if c = 92 then slash else c
  if dir.getLast? = some slash then dir else dir ++ [slash]

/-- **`createDir`**, for a string and its length; `none` where `strchr` runs
out of `achDir`. The loop leaves out the directory up to the first slash. -/
def createDir (pszDirName : Option Path) (wErrorCode : ℕ) (disk : σ) : Option (DirState σ) :=
  match pszDirName with
  | none => some { disk := disk, wErrorCode := wErrorCode }
  | some dir =>
    if maxIdsPathLen < dir.length then some { disk := disk, wErrorCode := wErrorCode }
    else if dir.head? ≠ some slash ∧ dir.head? ≠ some 46 then
      some { disk := disk, wErrorCode := wErrorCode }
    -- there is no room for a NUL behind the last slash
    else if maxIdsPathLen ≤ (achDir dir).length then none
    else
      some (makeDirs fs (slashPaths (achDir dir)).tail { disk := disk, wErrorCode := wErrorCode })

end CreateDir

/-! ## `rollFile` -/

/-- A directory as `rollFile` passes it on. -/
structure LogDir where
  path : Path
  slash_last : path.getLast? = some slash

/-- The directory a `LogFile` writes to: `logFilePath_`, with a slash at its
end, or `"./"` where it could not be created. -/
def rollDir (logFilePath : Path) (isUseFilePath : Bool) : LogDir :=
  if isUseFilePath then
    if h : logFilePath.getLast? = some slash then ⟨logFilePath, h⟩
    else ⟨logFilePath ++ [slash], List.getLast?_concat⟩
  else ⟨ascii "./", rfl⟩

/-- **`rollFile`**, up to its use of the directory. -/
def rollFileDir {σ : Type*} (fs : FileSys σ) (logFilePath : Path) (disk : σ) :
    Option (LogDir × σ) :=
  if fs.access disk logFilePath then some (rollDir logFilePath true, disk)
  else
    (createDir fs (some logFilePath) errNo disk).map fun d =>
      (rollDir logFilePath d.bRet, d.disk)

end TelnetServ
