import TelnetServ.Basic
import TelnetServ.Common.Machine
/-!
# The line editor — model

The `switch` on `cmdChar` of `TelnetDaemonFun`, with the two locals it
edits, `command` and `cmdLen`. What the switch calls is not run here: each
branch answers with the calls it makes, in order, and the daemon's model
performs them. `isNullStr` is the exception, since its answer decides which
calls follow.
-/

namespace TelnetServ

open CStr

/-! ## `isNullStr` -/

/-- `n` passes of the loop of `isNullStr`; `none` while the loop is still
going. The pointer is never advanced, so every pass reads the same byte. -/
def isNullStrLoop (pchCmd : List UInt8) : ℕ → Option Bool
  | 0 => none
  | n + 1 =>
    if deref pchCmd = 0 then some true
    else if deref pchCmd ≠ blankChar then some false
    else isNullStrLoop pchCmd n

/-- What `isNullStr` answers; `none` if it never does. -/
def isNullStr (pchCmd : List UInt8) : Option Bool := isNullStrLoop pchCmd 1

/-- **One pass decides**: no later pass answers if the first did not. -/
theorem isNullStrLoop_succ (pchCmd : List UInt8) (n : ℕ) :
    isNullStrLoop pchCmd (n + 1) = isNullStr pchCmd := by
  induction n with
  | zero => rfl
  | succ n ih =>
    rw [isNullStrLoop, ih, isNullStr, isNullStrLoop, isNullStrLoop]
    split_ifs <;> rfl

theorem isNullStr_zero {p : List UInt8} (h : deref p = 0) : isNullStr p = some true := if_pos h

/-- On a line that starts with a blank the loop never ends. -/
theorem isNullStr_blank {p : List UInt8} (h : deref p = blankChar) : isNullStr p = none := by
  have h0 : ¬ deref p = 0 := by rw [h]; decide
  rw [isNullStr, isNullStrLoop, if_neg h0, if_neg (not_not.mpr h), isNullStrLoop]

/-- A line is dispatched when its first byte is neither NUL nor a blank. -/
theorem isNullStr_other {p : List UInt8} (h0 : deref p ≠ 0) (hb : deref p ≠ blankChar) :
    isNullStr p = some false := by
  simp only [isNullStr, isNullStrLoop, if_neg h0, if_pos hb]

/-! ## The switch -/

/-- The locals of `TelnetDaemonFun` the switch edits. -/
structure LineState where
  /-- The line buffer. -/
  command : Vector UInt8 maxCommandLength
  /-- How many bytes it holds: an `unsigned char`. -/
  cmdLen : UInt8
  /-- The thread is inside `isNullStr` for good. -/
  stuck : Bool := false

/-- A call the switch makes. -/
inductive LineCall where
  /-- `pushMsgToTerminalImmidate`, with the text the format yields. -/
  | push (text : List UInt8)
  /-- `CmdParse(command, cmdLen)`. -/
  | cmdParse (pchCmd : List UInt8) (byCmdLen : UInt8)
  /-- `PromptShow()`. -/
  | promptShow
  deriving DecidableEq

/-- The buffer after `memset(command, 0, MAX_COMMAND_LENGTH)`. -/
def clearedCommand : Vector UInt8 maxCommandLength := Vector.replicate maxCommandLength 0

/-- The locals when `cmdLen` is `left` and the buffer has been cleared. -/
def clearedLine (left : UInt8) : LineState where
  command := clearedCommand
  cmdLen := left

/-- The carriage return: echo, dispatch unless the line is blank, clear,
prompt. -/
def onReturn (s : LineState) : List LineCall × LineState :=
  -- `%s` prints up to the first NUL
  let echo := LineCall.push (cstr (s.command.toList.take s.cmdLen.toNat) ++ ascii "\r\n")
  match isNullStr s.command.toList with
  -- the loop of `isNullStr` is never left
  | none => ([echo], { s with stuck := true })
  | some true => ([echo, .promptShow], clearedLine 0)
  | some false => ([echo, .cmdParse s.command.toList s.cmdLen, .promptShow], clearedLine 0)

/-- The backspace: drop the last byte, and step the cursor over it. -/
def onBackspace (s : LineState) : List LineCall × LineState :=
  if s.cmdLen ≤ 0 then ([], s)
  else
    let cmdLen := s.cmdLen - 1
    ([.push [backspaceChar, blankChar, backspaceChar]],
      { s with
        cmdLen := cmdLen
        command :=
          if h : cmdLen.toNat < maxCommandLength then s.command.set cmdLen.toNat 0 h
          else s.command })

/-- The `default` branch: append while there is room, else dispatch the
full line. -/
def onDefault (s : LineState) (cmdChar : UInt8) : List LineCall × LineState :=
  if h : s.cmdLen.toNat < maxCommandLength then
    ([], { s with command := s.command.set s.cmdLen.toNat cmdChar h, cmdLen := s.cmdLen + 1 })
  else
    ([.push (ascii "\n"), .cmdParse s.command.toList s.cmdLen, .promptShow], clearedLine 0)

/-- **The switch on `cmdChar`.** -/
def switchCmdChar (s : LineState) (cmdChar : UInt8) : List LineCall × LineState :=
  if cmdChar = ctrlS then ([], s)
  else if cmdChar = ctrlR then ([], s)
  else if cmdChar = returnChar then onReturn s
  else if cmdChar = newlineChar ∨ cmdChar = upArrow ∨ cmdChar = downArrow ∨
      cmdChar = leftArrow ∨ cmdChar = rightArrow then ([], s)
  else if cmdChar = backspaceChar then onBackspace s
  else onDefault s cmdChar

/-- **The line editor as a machine** over the bytes received. A thread
inside `isNullStr` for good reads no more of them. -/
def lineMachine : Machine LineState UInt8 LineCall where
  step s cmdChar := if s.stuck then ([], s) else switchCmdChar s cmdChar

theorem lineMachine_step {s : LineState} (h : s.stuck = false) (c : UInt8) :
    lineMachine.step s c = switchCmdChar s c := by simp [lineMachine, h]

/-- The text of a call that sends text. -/
def LineCall.text? : LineCall → Option (List UInt8)
  | .push text => some text
  | .cmdParse _ _ => none
  | .promptShow => none

/-- What a call hands to `CmdParse`. -/
def LineCall.handed? : LineCall → Option (List UInt8 × UInt8)
  | .push _ => none
  | .cmdParse pchCmd byCmdLen => some (pchCmd, byCmdLen)
  | .promptShow => none

/-! ## The kinds of byte -/

/-- The bytes the switch drops. -/
def ignoredChars : List UInt8 :=
  [ctrlS, ctrlR, newlineChar, upArrow, downArrow, leftArrow, rightArrow]

/-- The bytes of the `default` branch. -/
def IsText (c : UInt8) : Prop := c ∉ ignoredChars ∧ c ≠ returnChar ∧ c ≠ backspaceChar

instance (c : UInt8) : Decidable (IsText c) := by unfold IsText; infer_instance

/-- Printable bytes are text. -/
theorem isText_of_printable {c : UInt8} (h : 32 ≤ c) : IsText c := by
  simp only [IsText, ignoredChars, ctrlS, ctrlR, newlineChar, upArrow, downArrow, leftArrow,
    rightArrow, returnChar, backspaceChar, List.mem_cons, List.not_mem_nil, or_false,
    UInt8.le_iff_toNat_le, ← UInt8.toNat_inj, UInt8.reduceToNat, ne_eq, not_or] at *
  omega

theorem switchCmdChar_ignored {s : LineState} {c : UInt8} (h : c ∈ ignoredChars) :
    switchCmdChar s c = ([], s) := by
  simp only [ignoredChars, List.mem_cons, List.not_mem_nil, or_false] at h
  rcases h with rfl | rfl | rfl | rfl | rfl | rfl | rfl <;> rfl

@[simp] theorem switchCmdChar_return (s : LineState) :
    switchCmdChar s returnChar = onReturn s := rfl

@[simp] theorem switchCmdChar_backspace (s : LineState) :
    switchCmdChar s backspaceChar = onBackspace s := rfl

theorem switchCmdChar_text {s : LineState} {c : UInt8} (h : IsText c) :
    switchCmdChar s c = onDefault s c := by
  obtain ⟨hi, hr, hb⟩ := h
  simp only [ignoredChars, List.mem_cons, List.not_mem_nil, or_false, not_or] at hi
  simp [switchCmdChar, hi, hr, hb]

/-- Every byte is dropped, the return, the backspace or text. -/
theorem byte_cases (c : UInt8) :
    c ∈ ignoredChars ∨ c = returnChar ∨ c = backspaceChar ∨ IsText c := by
  by_cases hi : c ∈ ignoredChars
  · exact Or.inl hi
  by_cases hr : c = returnChar
  · exact Or.inr (Or.inl hr)
  by_cases hb : c = backspaceChar
  · exact Or.inr (Or.inr (Or.inl hb))
  · exact Or.inr (Or.inr (Or.inr ⟨hi, hr, hb⟩))

/-- An `unsigned char` never reaches the limit it is compared with. -/
theorem cmdLen_lt (s : LineState) : s.cmdLen.toNat < maxCommandLength :=
  lt_maxCommandLength (Nat.le_of_lt_succ s.cmdLen.toNat_lt)

/-- **The branch for a full buffer is dead**: `default` always appends. -/
theorem onDefault_eq (s : LineState) (c : UInt8) :
    onDefault s c =
      ([], { s with command := s.command.set s.cmdLen.toNat c (cmdLen_lt s),
                    cmdLen := s.cmdLen + 1 }) :=
  dif_pos (cmdLen_lt s)

end TelnetServ
