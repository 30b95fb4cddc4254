import TelnetServ.Async.Conservation
import TelnetServ.Logging.Stream
import TelnetServ.Time.Zone
/-!
# Log lines

`Logger`: one statement makes one line, with the time of the statement in
front of it and the place in the source behind it, and hands it on as a whole,
if there is somebody to hand it on to. A line has all its parts if and only if
they fit its stream (`line_whole_iff`), it fits a buffer of `AsyncLogging`, and
so it is found in the log files (`logged_onDisk`).
-/

namespace TelnetServ

open Calendar Decimal FileSystem Stdio

/-! ## Model -/

/-- `LogLevel`. -/
inductive LogLevel where
  | trace
  | debug
  | info
  | warn
  | error
  | fatal
  deriving DecidableEq

/-- `LogLevelName`. -/
def logLevelName : LogLevel → List UInt8
  | .trace => ascii "TRACE "
  | .debug => ascii "DEBUG "
  | .info => ascii "INFO  "
  | .warn => ascii "WARN  "
  | .error => ascii "ERROR "
  | .fatal => ascii "FATAL "

/-- An `int`, printed. -/
def Piece.int (v : ℤ) (h : -2 ^ 31 ≤ v ∧ v < 2 ^ 31) : Piece :=
  .integer v (by omega) (by omega)

/-- **A log statement**, and what it finds. -/
structure LogStatement where
  microSecondsSinceEpoch : ℕ
  level : LogLevel
  /-- `t_tidString`. -/
  tidString : List UInt8
  savedErrno : ℤ
  savedErrno_int : -2 ^ 31 ≤ savedErrno ∧ savedErrno < 2 ^ 31
  /-- What `strerror_r` makes of it. -/
  strerror : List UInt8
  func : Option (List UInt8)
  /-- What the statement puts into the stream. -/
  message : List Piece
  basename : List UInt8
  line : ℤ
  line_int : -2 ^ 31 ≤ line ∧ line < 2 ^ 31
  /-- `setAsynOutput` has been called; `g_output` is empty until then. -/
  gOutput : Bool

namespace LogStatement

variable (st : LogStatement)

def seconds : ℕ := st.microSecondsSinceEpoch / 10 ^ 6

/-- `".%06d "`, or `".%06dZ "` without a zone. -/
def us (valid : Bool) : List UInt8 :=
  ascii "." ++ padLeft 48 6 (st.microSecondsSinceEpoch % 10 ^ 6) ++
    if valid then ascii " " else ascii "Z "

/-- The pieces of `Impl` and of the constructor of `Logger`. -/
def header (valid : Bool) (tTime : List UInt8) : List Piece :=
  [.text tTime, .text (st.us valid), .text st.tidString, .text (logLevelName st.level)] ++
    (if st.savedErrno ≠ 0 then
      [.text st.strerror, .text (ascii " (errno="), .int st.savedErrno st.savedErrno_int,
        .text (ascii ") ")]
    else []) ++
    match st.func with
    | some func => [.text func, .text (ascii " ")]
    | none => []

/-- `finish`. -/
def finish : List Piece :=
  [.text (ascii " - "), .text st.basename, .text (ascii ":"), .int st.line st.line_int,
    .text (ascii "\n")]

/-- **All pieces of a line.** -/
def pieces (valid : Bool) (tTime : List UInt8) : List Piece :=
  st.header valid tTime ++ st.message ++ st.finish

end LogStatement

/-- `"%4d%02d%02d %02d:%02d:%02d"`. -/
def logTimeText (t : Tm) : List UInt8 :=
  padLeft 32 4 (t.year + 1900) ++ padLeft 48 2 (t.mon + 1) ++ padLeft 48 2 t.mday ++ ascii " " ++
    padLeft 48 2 t.hour ++ ascii ":" ++ padLeft 48 2 t.min ++ ascii ":" ++ padLeft 48 2 t.sec

/-- `t_time` and `t_lastSecond` of a thread. -/
structure LogTimeCache where
  tTime : List UInt8 := List.replicate 32 0
  tLastSecond : ℤ := 0

/-- The part of `Impl::formatTime` that prints `t_time`; `none` where its
assertion fails. -/
def formatSecond (zone : ℤ → Tm) (seconds : ℤ) (c : LogTimeCache) : Option LogTimeCache :=
  if seconds = c.tLastSecond then some c
  -- `assert(len == 17)`
  else if (logTimeText (zone seconds)).length = 17 then
    some
      { tTime := CStr.padded 32 ((logTimeText (zone seconds)).take 31), tLastSecond := seconds }
  else none

/-- **`T`**: the first `len` bytes of a string; `none` where its assertion
fails, as the string has another length. -/
def tText (str : List UInt8) (len : ℕ) : Option (List UInt8) :=
  if (CStr.cstr str).length = len then some (str.take len) else none

/-- **A log statement**: the line that is handed to `g_output`, if there is
one, and what is kept; `none` when the process is aborted. `valid` says whether
there is a zone. -/
def logStatement (zone : ℤ → Tm) (valid : Bool) (c : LogTimeCache) (st : LogStatement) :
    List (List UInt8) × Option LogTimeCache :=
  match formatSecond zone st.seconds c with
  | none => ([], none)
  | some c' =>
    -- the other strings a `T` is made of have their lengths
    match tText c'.tTime 17 with
    | none => ([], none)
    | some tTime =>
      (if st.gOutput then [(StreamBuffer.putAll {} (st.pieces valid tTime)).data] else [],
        if st.level = .fatal then none else some c')

/-- The log statements of a thread as a machine. -/
def loggerMachine (zone : ℤ → Tm) (valid : Bool) :
    Machine (Option LogTimeCache) LogStatement (List UInt8) where
  step s st :=
    match s with
    | none => ([], none)
    | some c => logStatement zone valid c st

/-! ## The time -/

theorem length_logTimeText (t : Tm) : (logTimeText t).length = 17 := by
  have hmon := t.mon_lt
  have hmday := t.mday_le
  have hhour := t.hour_lt
  have hmin := t.min_lt
  have hsec := t.sec_le
  simp only [logTimeText, List.length_append, length_padLeft (by decide) t.year_lt,
    Tm.length_two (show t.mon + 1 < 100 by omega), Tm.length_two (show t.mday < 100 by omega),
    Tm.length_two (show t.hour < 100 by omega), Tm.length_two (show t.min < 100 by omega),
    Tm.length_two (show t.sec < 100 by omega)]
  rfl

theorem zero_notMem_logTimeText (t : Tm) : 0 ∉ logTimeText t := by
  have hdigits : ∀ n, 0 ∉ padLeft 48 2 n := fun n => zero_notMem_padLeft (by decide)
  have hyear : 0 ∉ padLeft 32 4 (t.year + 1900) := zero_notMem_padLeft (by decide)
  have hblank : 0 ∉ ascii " " := by decide
  have hcolon : 0 ∉ ascii ":" := by decide
  simp only [logTimeText, List.mem_append, not_or]
  exact ⟨⟨⟨⟨⟨⟨⟨⟨hyear, hdigits _⟩, hdigits _⟩, hblank⟩, hdigits _⟩, hcolon⟩, hdigits _⟩,
    hcolon⟩, hdigits _⟩

/-- The time that is kept is that of the second it was printed in. -/
structure TimePrinted (zone : ℤ → Tm) (c : LogTimeCache) : Prop where
  take : c.tTime.take 17 = logTimeText (zone c.tLastSecond)
  length : (CStr.cstr c.tTime).length = 17

theorem TimePrinted.tText_eq {zone : ℤ → Tm} {c : LogTimeCache} (h : TimePrinted zone c) :
    tText c.tTime 17 = some (logTimeText (zone c.tLastSecond)) := by
  rw [tText, if_pos h.length, h.take]

/-- **The time is printed**, unless the first second of 1970 is taken for one
that has been printed already. -/
theorem formatSecond_spec {zone : ℤ → Tm} {c : LogTimeCache} (hc : c = {} ∨ TimePrinted zone c)
    {seconds : ℤ} (hfirst : c = {} → seconds ≠ 0) :
    ∃ c', formatSecond zone seconds c = some c' ∧ TimePrinted zone c' ∧
      c'.tLastSecond = seconds := by
  have hlen := length_logTimeText (zone seconds)
  by_cases hsame : seconds = c.tLastSecond
  · have hprinted := hc.resolve_left fun hnew => hfirst hnew (hsame.trans (by rw [hnew]))
    exact ⟨c, if_pos hsame, hprinted, hsame.symm⟩
  · have hshort : (logTimeText (zone seconds)).take 31 = logTimeText (zone seconds) :=
      List.take_of_length_le (by rw [hlen]; decide)
    refine ⟨{ tTime := CStr.padded 32 (logTimeText (zone seconds)), tLastSecond := seconds },
      ?_, ⟨?_, ?_⟩, rfl⟩
    · rw [formatSecond, if_neg hsame, if_pos hlen, hshort]
    · show (CStr.padded 32 (logTimeText (zone seconds))).take 17 = logTimeText (zone seconds)
      conv_lhs => rw [← hlen, CStr.take_padded]
    · rw [CStr.cstr_padded, CStr.cstr_eq_self (zero_notMem_logTimeText _), hlen]

/-- **A statement hands on one line**, with the time of its own second, and
leaves that behind. -/
theorem logger_step {zone : ℤ → Tm} (valid : Bool) {c : LogTimeCache}
    (hc : c = {} ∨ TimePrinted zone c) {st : LogStatement} (hfirst : c = {} → st.seconds ≠ 0) :
    ∃ c', TimePrinted zone c' ∧ (loggerMachine zone valid).step (some c) st =
      (if st.gOutput then
          [(StreamBuffer.putAll {} (st.pieces valid (logTimeText (zone st.seconds)))).data]
        else [],
        if st.level = .fatal then none else some c') := by
  obtain ⟨c', hformat, hprinted, hsecond⟩ := formatSecond_spec hc
    fun hnew => Int.natCast_ne_zero.mpr (hfirst hnew)
  refine ⟨c', hprinted, ?_⟩
  show logStatement zone valid c st = _
  simp only [logStatement, hformat, hprinted.tText_eq, hsecond]

/-- **Without a fatal statement the process goes on.** -/
theorem logger_live {zone : ℤ → Tm} (valid : Bool) {c : LogTimeCache} (hc : TimePrinted zone c)
    {before : List LogStatement} (hbefore : ∀ st ∈ before, st.level ≠ .fatal) :
    ∃ c', (loggerMachine zone valid).after (some c) before = some c' ∧ TimePrinted zone c' := by
  refine (loggerMachine zone valid).after_induct_valid
    (I := fun s => ∃ c, s = some c ∧ TimePrinted zone c) ⟨c, rfl, hc⟩
    ((loggerMachine zone valid).valid_of_inputs hbefore) ?_
  rintro s st ⟨c, rfl, hc⟩ hlevel
  obtain ⟨c', hc', hstep⟩ := logger_step valid (Or.inr hc) (fun hnew =>
    absurd hc.length (by rw [hnew]; decide) : c = {} → st.seconds ≠ 0)
  exact ⟨c', by rw [hstep]; exact if_neg hlevel, hc'⟩

/-- The thread's first statement does not come in the first second of 1970. -/
def FirstLater (sts : List LogStatement) : Prop := ∀ st ∈ sts.head?, st.seconds ≠ 0

instance (sts : List LogStatement) : Decidable (FirstLater sts) := by
  unfold FirstLater; infer_instance

/-- What a thread finds that has logged some statements. -/
theorem logger_before (zone : ℤ → Tm) (valid : Bool) {before : List LogStatement}
    {st : LogStatement} (hbefore : ∀ st ∈ before, st.level ≠ .fatal)
    (hfirst : FirstLater (before ++ [st])) :
    ∃ c, (loggerMachine zone valid).after (some {}) before = some c ∧
      (c = {} ∨ TimePrinted zone c) ∧ (c = {} → st.seconds ≠ 0) := by
  cases before with
  | nil => exact ⟨{}, rfl, Or.inl rfl, fun _ => hfirst st rfl⟩
  | cons first before =>
    rw [List.forall_mem_cons] at hbefore
    obtain ⟨c, hc, hstep⟩ := logger_step valid (Or.inl rfl : _ ∨ TimePrinted zone {})
      fun _ => hfirst first rfl
    obtain ⟨c', hafter, hc'⟩ := logger_live valid hc hbefore.2
    refine ⟨c', ?_, Or.inr hc', fun hnew => absurd hc'.length (by rw [hnew]; decide)⟩
    rw [Machine.after_cons, hstep, if_neg hbefore.1]
    exact hafter

/-! ## The line -/

/-- What a thread hands on for a statement, behind others. -/
def linesAfter (zone : ℤ → Tm) (valid : Bool) (before : List LogStatement) (st : LogStatement) :
    List (List UInt8) :=
  ((loggerMachine zone valid).step ((loggerMachine zone valid).after (some {}) before) st).1

/-- **A log line is whole if and only if its parts fit.** Whatever a thread has
logged before, a statement makes one line of less than 4000 bytes and hands it
on, if `g_output` is set. It is made of some of the parts, in order and each of
them whole; of all of them if and only if each found its room, and in any case
if all and one number more do. -/
theorem line_whole_iff (zone : ℤ → Tm) (valid : Bool) {before : List LogStatement}
    {st : LogStatement} (hbefore : ∀ st ∈ before, st.level ≠ .fatal)
    (hfirst : FirstLater (before ++ [st])) :
    ∃ line, linesAfter zone valid before st = (if st.gOutput then [line] else []) ∧
      line.length < kSmallBuffer ∧
      (∃ kept, kept.Sublist (st.pieces valid (logTimeText (zone st.seconds))) ∧
        line = allBytes kept) ∧
      (line = allBytes (st.pieces valid (logTimeText (zone st.seconds))) ↔
        AllFit 0 (st.pieces valid (logTimeText (zone st.seconds)))) ∧
      ((allBytes (st.pieces valid (logTimeText (zone st.seconds)))).length + kMaxNumericSize ≤
          kSmallBuffer →
        line = allBytes (st.pieces valid (logTimeText (zone st.seconds)))) := by
  obtain ⟨c, hlive, hc, hnew⟩ := logger_before zone valid hbefore hfirst
  obtain ⟨c', -, hstep⟩ := logger_step valid hc hnew
  have hlines := congrArg Prod.fst hstep
  generalize st.pieces valid (logTimeText (zone st.seconds)) = ps at *
  have hiff := data_putAll_iff {} ps
  obtain ⟨kept, hsub, hkept⟩ := exists_kept {} ps
  refine ⟨(StreamBuffer.putAll {} ps).data, ?_, (StreamBuffer.putAll {} ps).length_lt,
    ⟨kept, hsub, hkept⟩, hiff, fun hlen => hiff.mpr (allFit_of_length ?_)⟩
  · rw [linesAfter, hlive]
    exact hlines
  · show 0 + (allBytes ps).length + kMaxNumericSize ≤ kSmallBuffer
    omega

/-! ## To the files -/

/-- A line of some thread. -/
def Logged (line : List UInt8) : Prop :=
  ∃ zone valid before st, line ∈ linesAfter zone valid before st

/-- A line is short. -/
theorem Logged.length_lt {line : List UInt8} (h : Logged line) : line.length < kSmallBuffer := by
  obtain ⟨zone, valid, before, st, hmem⟩ := h
  rw [linesAfter] at hmem
  cases hbefore : (loggerMachine zone valid).after (some {}) before with
  | none =>
    rw [hbefore] at hmem
    exact absurd hmem List.not_mem_nil
  | some c =>
    rw [hbefore] at hmem
    change line ∈ (logStatement zone valid c st).1 at hmem
    unfold logStatement at hmem
    split at hmem
    · exact absurd hmem List.not_mem_nil
    split at hmem
    · exact absurd hmem List.not_mem_nil
    dsimp only at hmem
    split at hmem
    · rw [List.mem_singleton.mp hmem]
      exact StreamBuffer.length_lt _
    · exact absurd hmem List.not_mem_nil

/-- The lines that are appended. -/
def appendedLines (steps : List AsyncStep) : List (List UInt8) :=
  steps.filterMap fun
    | .append logline => some logline
    | .start | .started | .stop | .stopped | .log _ => none

namespace AsyncLogging

/-- What `append` keeps, and that nothing else keeps anything. -/
theorem keptBy_step {s : AsyncLogging} (hok : LogOk s.toLogServer) (a : AsyncStep)
    (hshort : ∀ line ∈ appendedLines [a], line.length < kLargeBuffer) :
    keptBy (s.step a).1 = appendedLines [a] := by
  cases a with
  | append logline =>
    obtain ⟨b, hb⟩ := hok.current
    have hlt := hshort logline List.mem_cons_self
    have hkept : keptBy [.appended logline] = [logline] := by simp [keptBy, hlt]
    show keptBy (s.append logline).1 = [logline]
    unfold append
    rw [hb]
    dsimp only
    split_ifs <;> exact hkept
  | log time =>
    show keptBy (s.threadFunc time).1 = []
    unfold threadFunc
    cases hpc : s.pc with
    | idle => rfl
    | returned => rfl
    | start =>
      dsimp only
      split_ifs <;> rfl
    | loopHead =>
      dsimp only
      split_ifs <;> rfl
    | lock =>
      dsimp only
      split_ifs <;> rfl
    | waiting => rfl
    | swapped =>
      dsimp only
      split_ifs
      · rfl
      · exact keptBy_batch [] s.buffersToWrite time _
    | sending i =>
      dsimp only
      cases s.buffersToWrite[i]? with
      | some b => rfl
      | none =>
        dsimp only
        split_ifs <;> rfl
  | start => rfl
  | started => rfl
  | stop => rfl
  | stopped => rfl

theorem appendedLines_append (as bs : List AsyncStep) :
    appendedLines (as ++ bs) = appendedLines as ++ appendedLines bs := List.filterMap_append

theorem keptBy_append (t u : List AsyncEvent) : keptBy (t ++ u) = keptBy t ++ keptBy u :=
  List.filterMap_append

/-- **All lines that are short are kept.** -/
theorem keptBy_run {steps : List AsyncStep} (hv : Runs steps)
    (hshort : ∀ line ∈ appendedLines steps, line.length < kLargeBuffer) :
    keptBy (asyncMachine.outs {} steps) = appendedLines steps := by
  induction steps using List.reverseRecOn with
  | nil => rfl
  | append_singleton steps a ih =>
    obtain ⟨hv, hen, -⟩ := asyncMachine.valid_append.mp hv
    have hok := (asyncOk_of_live hv hen.1).ok
    rw [appendedLines_append] at hshort ⊢
    rw [asyncMachine.outs_concat, keptBy_append,
      ih hv fun line h => hshort line (List.mem_append_left _ h)]
    exact congrArg _ (keptBy_step hok a fun line h => hshort line (List.mem_append_right _ h))

variable {σ : Type*} {c : LogConfig} {out : Outside σ} {logFilePath : Path} {outside : σ}
variable {files : Path → Option (List UInt8)} {calls : List LogCall} {steps : List AsyncStep}

/-- **From the log statements to the files.** Whatever lines the threads log,
however their steps fall between those of the log thread, and however the log
file is rolled: where no batch was too long, the files, in the order they were
opened in, the buffers on their way to them and those that wait hold the lines
of all threads in the order of the lock, each of them once and whole. -/
theorem logged_onDisk (hv : Runs steps) (hlogged : ∀ line ∈ appendedLines steps, Logged line)
    (hsmall : Undelayed (asyncMachine.outs {} steps))
    (houtput : messagesOf calls = outputOf (asyncMachine.outs {} steps)) (htakes : out.Takes)
    (hlive : ((writerMachine c out).after (LogWriter.fresh logFilePath outside files)
      calls).aborted = false) :
    (openedFiles c out (LogWriter.fresh logFilePath outside files) calls).flatMap Opened.bytes ++
        bytes (asyncMachine.after {} steps).unsent ++ (asyncMachine.after {} steps).queued =
      (appendedLines steps).flatten := by
  have hsizes : kSmallBuffer ≤ kLargeBuffer := by decide
  have hshort : ∀ line ∈ appendedLines steps, line.length < kLargeBuffer :=
    fun line h => (hlogged line h).length_lt.trans_le hsizes
  rw [onDisk_run hv hsmall houtput htakes hlive, keptBy_run hv hshort]

end AsyncLogging

/-- A statement of the first minute of 1970. -/
def firstStatement : LogStatement where
  microSecondsSinceEpoch := 1500000
  level := .info
  tidString := ascii "   42 "
  savedErrno := 0
  savedErrno_int := by decide
  strerror := []
  func := none
  message := [.text (ascii "size "), .integer (-9223372036854775808) (by decide) (by decide)]
  basename := ascii "main.cc"
  line := 17
  line_int := by decide
  gOutput := true

/-- `gmtime_r`. -/
def utcZone (seconds : ℤ) : Tm := ((toUtcTime seconds false).bind tmOf).getD epochTm

/-- Its line. -/
def firstLine : List UInt8 :=
  ascii "19700101 00:00:01.500000    42 INFO  size -9223372036854775808 - main.cc:17\n"

theorem line_whole_first :
    ∃ line, linesAfter utcZone true [firstStatement] firstStatement = [line] ∧
      line.length < kSmallBuffer ∧
      (∃ kept, kept.Sublist (firstStatement.pieces true (logTimeText (utcZone 1))) ∧
        line = allBytes kept) ∧
      (line = allBytes (firstStatement.pieces true (logTimeText (utcZone 1))) ↔
        AllFit 0 (firstStatement.pieces true (logTimeText (utcZone 1)))) ∧
      ((allBytes (firstStatement.pieces true (logTimeText (utcZone 1)))).length +
          kMaxNumericSize ≤ kSmallBuffer →
        line = allBytes (firstStatement.pieces true (logTimeText (utcZone 1)))) :=
  line_whole_iff utcZone true (by decide) (by decide)

/-- The log thread writes the line; the owner has stopped it, and it returns. -/
def loggedTrip : List AsyncStep :=
  [.start, .log [], .started, .append firstLine, .log [], .log [], .stop, .log [], .log [],
    .log [], .log [], .log [], .stopped]

/-- The calls of the log thread: a file, and the buffer with the line. -/
def loggedCalls : List LogCall :=
  [.construct (answersAt [] 100), .append firstLine (answersAt [] 101), .flush, .flush]

theorem logged_firstLine {line : List UInt8} (h : line ∈ appendedLines loggedTrip) :
    Logged line := by
  obtain rfl : line = firstLine := List.mem_singleton.mp h
  exact ⟨utcZone, true, [], firstStatement, by decide +kernel⟩

theorem logged_onDisk_first :
    (openedFiles smallConfig easyOutside (LogWriter.fresh (ascii "log/") () fun _ => none)
          loggedCalls).flatMap Opened.bytes ++
        bytes (asyncMachine.after {} loggedTrip).unsent ++
        (asyncMachine.after {} loggedTrip).queued =
      (appendedLines loggedTrip).flatten := by
  have htakes : easyOutside.Takes := by
    intro _ buffer bs hne
    have hpos := List.length_pos_iff.mpr hne
    show 0 < ((holding bufferSize).fwrite () buffer bs).1.taken
    simp only [holding]
    split_ifs <;> exact hpos
  exact AsyncLogging.logged_onDisk (by decide) (fun _ h => logged_firstLine h)
    (by decide) (by decide) htakes (by decide +kernel)

end TelnetServ
