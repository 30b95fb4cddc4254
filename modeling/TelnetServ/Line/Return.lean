import TelnetServ.Line.Refinement
import TelnetServ.Command.Model
/-!
# The line editor — the return

What a line comes to when it is ended: the blank test, and the command
string `CmdParse` makes of it. The test is meant to skip the blanks in
front and to answer whether anything is left; its pointer stays where it
is, so it answers on the lines that do not start with a blank and on no
others (`returnHandled_iff`).
-/

namespace TelnetServ

open CStr

/-- The command string a call hands to `RunCmd`. -/
def LineCall.commandString : LineCall → Option (List UInt8)
  | .cmdParse pchCmd byCmdLen => (TelnetServ.cmdParse pchCmd byCmdLen).map cstr
  | .push _ => none
  | .promptShow => none

/-- The command strings handed to `RunCmd`, in order. -/
def commandStrings (calls : List LineCall) : List (List UInt8) :=
  calls.filterMap LineCall.commandString

variable {content : List UInt8}

theorem size_heldLine (h : content.length ≤ 255) :
    (padded maxCommandLength content).toArray.size = maxCommandLength :=
  length_padded (lt_maxCommandLength h).le

/-- The locals of the switch when a line is in the buffer. -/
def heldLine (content : List UInt8) (h : content.length ≤ 255) : LineState where
  command := ⟨(padded maxCommandLength content).toArray, size_heldLine h⟩
  cmdLen := UInt8.ofNat content.length

/-- **The return on a line is handled to the end.** -/
structure ReturnHandled (content : List UInt8) (h : content.length ≤ 255) : Prop where
  /-- `isNullStr` answers, and answers whether the string is blank. -/
  decided : ∃ n b, isNullStrLoop (heldLine content h).command.toList n = some b ∧
    (b = true ↔ ∀ c ∈ cstr content, c = blankChar)
  /-- A blank line runs nothing. -/
  blank : (∀ c ∈ content, c = blankChar) →
    (onReturn (heldLine content h)).2.stuck = false ∧
      commandStrings (onReturn (heldLine content h)).1 = []
  /-- Blanks in front of a command are skipped. -/
  leading : ∀ blanks cmd (hcmd : cmd.length ≤ 255), content = blanks ++ cmd →
    (∀ c ∈ blanks, c = blankChar) → content.length ≤ 200 →
    (onReturn (heldLine content h)).2.stuck = false ∧
      commandStrings (onReturn (heldLine content h)).1 =
        commandStrings (onReturn (heldLine cmd hcmd)).1

theorem toList_heldLine (h : content.length ≤ 255) :
    (heldLine content h).command.toList = padded maxCommandLength content := rfl

theorem deref_heldLine (h : content.length ≤ 255) :
    deref (heldLine content h).command.toList = deref content := by
  rw [toList_heldLine, deref_padded]

/-- The blank test is the one the line without its array would get. -/
theorem isNullStr_heldLine (h : content.length ≤ 255) (hb : deref content ≠ blankChar) :
    isNullStr (heldLine content h).command.toList = some (decide (deref content = 0)) := by
  by_cases h0 : deref content = 0
  · rw [isNullStr_zero (by rw [deref_heldLine]; exact h0), decide_eq_true h0]
  · rw [isNullStr_other (by rw [deref_heldLine]; exact h0) (by rw [deref_heldLine]; exact hb),
      decide_eq_false h0]

/-- Of a string that does not start with a blank only the empty one is
blank. -/
theorem deref_eq_zero_iff (hb : deref content ≠ blankChar) :
    deref content = 0 ↔ ∀ c ∈ cstr content, c = blankChar := by
  cases content with
  | nil => exact iff_of_true rfl fun c hc => absurd hc List.not_mem_nil
  | cons a l =>
    rw [deref_cons] at hb ⊢
    constructor
    · rintro rfl
      rw [cstr_zero_cons]
      exact fun c hc => absurd hc List.not_mem_nil
    · intro h
      by_contra h0
      exact hb (h a (by rw [cstr_cons h0]; exact List.mem_cons_self))

/-- **Exactly the lines that do not start with a blank** are handled. -/
theorem returnHandled_iff (h : content.length ≤ 255) :
    ReturnHandled content h ↔ deref content ≠ blankChar := by
  constructor
  · rintro ⟨⟨n, b, hn, -⟩, -, -⟩ hb
    -- no number of passes gets past the first blank
    have hnone : isNullStr (heldLine content h).command.toList = none :=
      isNullStr_blank (by rw [deref_heldLine]; exact hb)
    rcases n with _ | n
    · exact absurd hn nofun
    · rw [isNullStrLoop_succ, hnone] at hn
      exact absurd hn nofun
  · intro hb
    have hnull := isNullStr_heldLine h hb
    have hstuck : (onReturn (heldLine content h)).2.stuck = false := by
      rw [onReturn_state (by rw [deref_heldLine]; exact hb)]
      rfl
    refine ⟨⟨1, _, hnull, by rw [decide_eq_true_iff]; exact deref_eq_zero_iff hb⟩,
      fun hblank => ⟨hstuck, ?_⟩, fun blanks cmd hcmd hsplit hblanks _ => ⟨hstuck, ?_⟩⟩
    · have h0 : deref content = 0 :=
        (deref_eq_zero_iff hb).mpr fun c hc => hblank c (mem_of_mem_cstr hc)
      rw [onReturn, hnull, decide_eq_true h0]
      rfl
    · -- there are no blanks in front
      cases blanks with
      | nil =>
        subst hsplit
        rfl
      | cons a blanks =>
        refine absurd ?_ hb
        rw [hsplit]
        exact hblanks a List.mem_cons_self

/-- The name `bye`. -/
theorem returnHandled_bye : ReturnHandled (ascii "bye") (by decide) :=
  (returnHandled_iff (by decide)).mpr (by decide)

/-- **A blank in front** keeps the thread in `isNullStr`. -/
theorem not_returnHandled_blank : ¬ ReturnHandled (ascii " bye") (by decide) := by
  rintro ⟨⟨n, b, hn, -⟩, -, -⟩
  rcases n with _ | n
  · exact absurd hn nofun
  · rw [isNullStrLoop_succ, isNullStr_blank (by rw [deref_heldLine]; rfl)] at hn
    exact absurd hn nofun

end TelnetServ
