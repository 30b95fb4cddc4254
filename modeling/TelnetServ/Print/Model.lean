import TelnetServ.Basic
import TelnetServ.Common.Calendar
import TelnetServ.Common.Machine
/-!
# Printing — model

`telPrintf`, with `formatTime` and the two variables it keeps for each
thread, and `telPrintfNoTime` and `pushMsgToTerminalImmidate`, which format
in the same way. What the C library makes of the format and the arguments
comes in from outside; the bytes handed on go out.
-/

namespace TelnetServ

open Calendar Decimal

/-! ## `formatTime` -/

/-- `"[%4d-%02d-%02d %02d:%02d:%02d]"`. -/
def timeText (t : Tm) : List UInt8 :=
  ascii "[" ++ padLeft 32 4 (t.year + 1900) ++ ascii "-" ++ padLeft 48 2 (t.mon + 1) ++
    ascii "-" ++ padLeft 48 2 t.mday ++ ascii " " ++ padLeft 48 2 t.hour ++ ascii ":" ++
    padLeft 48 2 t.min ++ ascii ":" ++ padLeft 48 2 t.sec ++ ascii "]"

/-- The length of the time stamp. -/
abbrev timeStrLen : ℕ := 21

/-- `t_time` and `t_lastSecond` of a thread. -/
structure TimeCache where
  tTime : List UInt8 := List.replicate 25 0
  tLastSecond : ℤ := 0

/-- **`formatTime`**, up to its `memcpy`: `t_time` is printed anew in a new
second; `none` where its assertion fails. `zone` is `sLocalZone`. -/
def formatTime (zone : ℤ → Tm) (seconds : ℤ) (c : TimeCache) : Option TimeCache :=
  if seconds = c.tLastSecond then some c
  -- `assert(len == 21)`
  else if (timeText (zone seconds)).length = timeStrLen then
    some
      { tTime := CStr.padded 25 ((timeText (zone seconds)).take 24), tLastSecond := seconds }
  else none

/-! ## The test behind the formatting -/

/-- **What a function of the `printf` family makes** of its format and its
arguments: the text, and the length of the text or an error. After an error
`text` is what has been written. -/
structure Printed where
  text : List UInt8
  ret : ℤ
  le_ret : -2 ^ 31 ≤ ret
  ret_lt : ret < 2 ^ 31
  length_eq : 0 ≤ ret → ret = text.length

/-- `actLen <= 0 || timeStrLen + actLen >= MAX_LOG_MSG_LEN`: what is passed
on of `msg` behind this test, `actLen` being unsigned. -/
def passedOn (stampLen : ℕ) (ret : ℤ) (msg : List UInt8) : Option (List UInt8) :=
  let actLen := (ret % 2 ^ 32).toNat
  if actLen = 0 ∨ maxLogMsgLen ≤ (stampLen + actLen) % 2 ^ 32 then none
  else some (msg.take ((stampLen + actLen) % 2 ^ 32))

/-! ## `telPrintf` -/

/-- A call of `telPrintf`. -/
structure PrintCall where
  /-- `sockClient_` as the call reads it. -/
  sockClient : ℤ
  /-- The clock. -/
  seconds : ℤ
  seconds_pos : 0 < seconds
  /-- What the format and the arguments make; `none` is the null pointer. -/
  szFormat : Option Printed

/-- `msg` behind `vsnprintf`, which puts the text and a NUL into the room
behind the stamp. -/
def stampedMsg (stamp text : List UInt8) : List UInt8 :=
  CStr.padded maxLogMsgLen (stamp ++ text.take (maxLogMsgLen - timeStrLen - 1))

/-- **`telPrintf`**: what it hands to `appendToMsgBuf`, and what it leaves in
`t_time` and `t_lastSecond`; `none` where the process is aborted. -/
def telPrintf (zone : ℤ → Tm) (call : PrintCall) (c : TimeCache) :
    List (List UInt8) × Option TimeCache :=
  if call.sockClient = invalidSocket then ([], some c)
  else
    match call.szFormat with
    | none => ([], some c)
    | some printed =>
      match formatTime zone call.seconds c with
      | none => ([], none)
      | some c' =>
        ((passedOn timeStrLen printed.ret
          (stampedMsg (c'.tTime.take timeStrLen) printed.text)).toList, some c')

/-- **The calls of `telPrintf` of one thread as a machine**; its outputs are
what `appendToMsgBuf` is handed. -/
def printMachine (zone : ℤ → Tm) : Machine (Option TimeCache) PrintCall (List UInt8) where
  step s call :=
    match s with
    | none => ([], none)
    | some c => telPrintf zone call c

/-! ## The print functions without a stamp -/

/-- What such a call does: the bytes it writes from `msg` on, and what it
passes on. -/
structure UntimedPrint where
  written : List UInt8 := []
  passed : Option (List UInt8) := none
  deriving DecidableEq

/-- `vsprintf` writes the text and its NUL, then its result is tested. -/
def printUntimed (sockClient : ℤ) (szFormat : Option Printed) : UntimedPrint :=
  if sockClient = invalidSocket then {}
  else
    match szFormat with
    | none => {}
    | some printed =>
      { written := printed.text ++ [0]
        passed := passedOn 0 printed.ret (CStr.padded maxLogMsgLen printed.text) }

namespace Untimed

/-- **`telPrintfNoTime`**; what it passes on goes to `appendToMsgBuf`. -/
def telPrintfNoTime : ℤ → Option Printed → UntimedPrint := printUntimed

/-- **`pushMsgToTerminalImmidate`**; what it passes on goes to
`sendMsgToTerminal`. -/
def pushMsgToTerminalImmidate : ℤ → Option Printed → UntimedPrint := printUntimed

end Untimed

/-- A text that is formatted without an error. Its length has to be an
`int`. -/
def printedText (text : List UInt8) : Printed where
  text := text
  ret := if text.length < 2 ^ 31 then text.length else -1
  le_ret := by split <;> omega
  ret_lt := by split <;> omega
  length_eq := by split <;> omega

/-! ## Small pieces -/

theorem length_timeText (t : Tm) : (timeText t).length = timeStrLen := by
  have hmon := t.mon_lt
  have hmday := t.mday_le
  have hhour := t.hour_lt
  have hmin := t.min_lt
  have hsec := t.sec_le
  simp only [timeText, List.length_append, length_padLeft (by decide) t.year_lt,
    Tm.length_two (show t.mon + 1 < 100 by omega), Tm.length_two (show t.mday < 100 by omega),
    Tm.length_two (show t.hour < 100 by omega), Tm.length_two (show t.min < 100 by omega),
    Tm.length_two (show t.sec < 100 by omega)]
  rfl

/-- **The test**, told by the result of the `printf` function: small
negative results wrap around. -/
theorem passedOn_cases {stampLen : ℕ} {ret : ℤ} (hstamp : stampLen < maxLogMsgLen)
    (hlo : -2 ^ 31 ≤ ret) (hhi : ret < 2 ^ 31) (msg : List UInt8) :
    ((ret = 0 ∨ ret < -stampLen ∨ maxLogMsgLen ≤ stampLen + ret) ∧
        passedOn stampLen ret msg = none) ∨
      (ret ≠ 0 ∧ -stampLen ≤ ret ∧ stampLen + ret < maxLogMsgLen ∧
        passedOn stampLen ret msg = some (msg.take (stampLen + ret).toNat)) := by
  have hmax : maxLogMsgLen = 2000 := rfl
  have hact : ((ret % 2 ^ 32).toNat : ℤ) = ret % 2 ^ 32 :=
    Int.toNat_of_nonneg (Int.emod_nonneg _ (by decide))
  rw [passedOn]
  by_cases h : ret = 0 ∨ ret < -stampLen ∨ maxLogMsgLen ≤ stampLen + ret
  · left
    refine ⟨h, if_pos ?_⟩
    omega
  · right
    have hlen : (stampLen + (ret % 2 ^ 32).toNat) % 2 ^ 32 = (stampLen + ret).toNat := by omega
    refine ⟨by omega, by omega, by omega, ?_⟩
    rw [hlen, if_neg]
    omega

end TelnetServ
