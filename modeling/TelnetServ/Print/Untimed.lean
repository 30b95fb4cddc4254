import TelnetServ.Print.Model
import TelnetServ.Daemon.Model
/-!
# Printing — lines without a time stamp

`telPrintfNoTime` and `pushMsgToTerminalImmidate` format with `vsprintf`,
which is not told how long `msg` is, and test the length behind it. A text
of 2000 bytes or more has then been written over the end of `msg`, its NUL
included; `staysInside_iff` says that the shorter ones are passed on as they
should be. `telPrintf` formats with `vsnprintf`.
-/

namespace TelnetServ

variable {F : Type*} {sockClient : ℤ} {text : List UInt8}

/-- **A print stays inside its buffer**: it writes nothing outside `msg`, and
passes the text on unchanged, or discards it as a whole. -/
structure StaysInside (text : List UInt8) (print : UntimedPrint) : Prop where
  inside : print.written.length ≤ 2000
  passed : 1 ≤ text.length → text.length ≤ 1999 → print.passed = some text
  discarded : ¬ (1 ≤ text.length ∧ text.length ≤ 1999) → print.passed = none

/-- **What a text comes to**, by its length alone. -/
theorem printUntimed_text (hclient : sockClient ≠ invalidSocket) (text : List UInt8) :
    printUntimed sockClient (some (printedText text)) =
      { written := text ++ [0]
        passed := if text = [] ∨ maxLogMsgLen ≤ text.length then none else some text } := by
  have hmax : maxLogMsgLen = 2000 := rfl
  have hret : (printedText text).ret = if text.length < 2 ^ 31 then (text.length : ℤ) else -1 := rfl
  have hpassed : passedOn 0 (printedText text).ret (CStr.padded maxLogMsgLen text) =
      if text = [] ∨ maxLogMsgLen ≤ text.length then none else some text := by
    have hempty : text = [] ↔ text.length = 0 := List.length_eq_zero_iff.symm
    rcases passedOn_cases (show 0 < maxLogMsgLen by decide) (printedText text).le_ret
      (printedText text).ret_lt (CStr.padded maxLogMsgLen text) with ⟨h, heq⟩ | ⟨hne, hlo, hhi, heq⟩
    · rw [heq, if_pos]
      rw [hempty]
      split_ifs at hret <;> omega
    · have hlen : (printedText text).ret = text.length := by
        split_ifs at hret with hlt
        · exact hret
        · omega
      rw [heq, if_neg (by rw [hempty]; omega), hlen,
        show (((0 : ℕ) : ℤ) + (text.length : ℤ)).toNat = text.length by omega, CStr.take_padded]
  rw [printUntimed, if_neg hclient, ← hpassed]
  rfl

/-- **A text stays inside if and only if** it is shorter than `msg`. -/
theorem staysInside_iff (hclient : sockClient ≠ invalidSocket) (text : List UInt8) :
    StaysInside text (printUntimed sockClient (some (printedText text))) ↔ text.length ≤ 1999 := by
  rw [printUntimed_text hclient]
  have hempty : text = [] ↔ text.length = 0 := List.length_eq_zero_iff.symm
  have hmax : maxLogMsgLen = 2000 := rfl
  constructor
  · intro h
    have hinside := h.inside
    rw [List.length_append, List.length_singleton] at hinside
    omega
  · intro h
    refine ⟨?_, fun h1 h2 => if_neg ?_, fun hnot => if_pos ?_⟩
    · rw [List.length_append, List.length_singleton]
      omega
    · rw [hempty]
      omega
    · rw [hempty]
      omega

/-- **`pushMsgToTerminalImmidate` of the daemon** is the print, and what it
passes on sent: where it writes over the end of `msg`, the thread is
lost. -/
theorem pushMsgToTerminalImmidate_eq (d : Daemon) (hclient : d.sockClient ≠ invalidSocket)
    (text : List UInt8) :
    (pushMsgToTerminalImmidate text : Effect Daemon (Action F)) d =
      let print := Untimed.pushMsgToTerminalImmidate d.sockClient (some (printedText text))
      if maxLogMsgLen < print.written.length then ([], { d with lost := true })
      else
        match print.passed with
        | none => ([], d)
        | some msg => sendMsgToTerminal msg d := by
  have hmax : maxLogMsgLen = 2000 := rfl
  rw [Untimed.pushMsgToTerminalImmidate, printUntimed_text hclient, pushMsgToTerminalImmidate,
    if_neg hclient]
  simp only [List.length_append, List.length_singleton]
  by_cases hlong : maxLogMsgLen ≤ text.length
  · have hover : maxLogMsgLen < text.length + (0 + 1) := by omega
    rw [if_pos hlong, if_pos hover]
  · have hfits : ¬ maxLogMsgLen < text.length + (0 + 1) := by omega
    rw [if_neg hlong, if_neg hfits]
    by_cases hempty : text = []
    · rw [if_pos (List.length_eq_zero_iff.mpr hempty), if_pos (Or.inl hempty)]
    · rw [if_neg (mt List.length_eq_zero_iff.mp hempty), if_neg (not_or.mpr ⟨hempty, hlong⟩)]

/-- The lines of the help are not empty. -/
theorem length_pos_of_mem_telhelpTexts {cmdFunTable : CmdFunTable F} {line : List UInt8}
    (h : line ∈ telhelpTexts cmdFunTable) : 1 ≤ line.length := by
  rw [telhelpTexts, List.mem_cons] at h
  rcases h with rfl | h
  · decide
  · obtain ⟨c, -, rfl⟩ := List.mem_map.mp h
    have hhead : 1 ≤ (ascii "Command: ").length := by decide
    simp only [List.length_append]
    omega

/-- **A help whose lines stay inside `msg`** is sent line by line, and the
thread goes on. -/
theorem telhelp_eq {cmdFunTable : CmdFunTable F} {d : Daemon} (hlive : d.lost = false)
    (hclient : d.sockClient ≠ invalidSocket)
    (hinside : ∀ line ∈ telhelpTexts cmdFunTable, StaysInside line
      (Untimed.pushMsgToTerminalImmidate d.sockClient (some (printedText line)))) :
    telhelp cmdFunTable d =
      (((telhelpTexts cmdFunTable).map (.send d.sockClient), d) : List (Action F) × Daemon) := by
  have hpush : ∀ line ∈ telhelpTexts cmdFunTable, pushMsgToTerminalImmidate line d =
      (([.send d.sockClient line], d) : List (Action F) × Daemon) := by
    intro line hline
    have hstays := hinside line hline
    have hshort := (staysInside_iff hclient line).mp hstays
    rw [pushMsgToTerminalImmidate_eq d hclient]
    dsimp only
    rw [if_neg (Nat.not_lt.mpr hstays.inside),
      hstays.passed (length_pos_of_mem_telhelpTexts hline) hshort]
    exact sendMsg_eq hclient line
  rw [telhelp, if_neg hclient, inTurn, Effect.inTurn_of_still hlive]
  · rw [List.flatMap_map, List.flatMap_congr fun line hline => congrArg Prod.fst (hpush line hline),
      List.map_eq_flatMap]
  · intro f hf
    obtain ⟨line, hline, rfl⟩ := List.mem_map.mp hf
    rw [hpush line hline]

/-- **Untimed printing stays inside its buffer if and only if** the log text
is shorter than `msg`, and the name and the usage of every command leave
room for the text around them. -/
theorem untimed_iff (hclient : sockClient ≠ invalidSocket) (text : List UInt8)
    (cmdFunTable : CmdFunTable F) :
    (StaysInside text (Untimed.telPrintfNoTime sockClient (some (printedText text))) ∧
        ∀ line ∈ telhelpTexts cmdFunTable, StaysInside line
          (Untimed.pushMsgToTerminalImmidate sockClient (some (printedText line)))) ↔
      text.length ≤ 1999 ∧
        ∀ c ∈ cmdFunTable.values, 19 + c.funName.length + c.funUsage.length ≤ 1999 := by
  have hmenu : (ascii "Whole User Help Menu:\n\n").length ≤ 1999 := by decide
  have hline : ∀ c ∈ cmdFunTable.values,
      (ascii "Command: " ++ c.funName ++ ascii ", Usage:" ++ c.funUsage ++ ascii " \n").length =
        19 + c.funName.length + c.funUsage.length := by
    intro c _
    have h1 : (ascii "Command: ").length = 9 := rfl
    have h2 : (ascii ", Usage:").length = 8 := rfl
    have h3 : (ascii " \n").length = 2 := rfl
    simp only [List.length_append, h1, h2, h3]
    omega
  refine and_congr (staysInside_iff hclient text) ?_
  rw [telhelpTexts, List.forall_mem_cons, List.forall_mem_map]
  constructor
  · rintro ⟨-, h⟩ c hc
    rw [← hline c hc]
    exact (staysInside_iff hclient _).mp (h c hc)
  · intro h
    refine ⟨(staysInside_iff hclient _).mpr hmenu, fun c hc => (staysInside_iff hclient _).mpr ?_⟩
    rw [hline c hc]
    exact h c hc

/-- A short text, and one command. -/
theorem untimed_hi :
    (StaysInside [72, 105] (Untimed.telPrintfNoTime 5 (some (printedText [72, 105]))) ∧
        ∀ line ∈ telhelpTexts
          (regCommand (∅ : CmdFunTable Unit) (ascii "f") (some ()) (ascii "f()")),
          StaysInside line (Untimed.pushMsgToTerminalImmidate 5 (some (printedText line)))) :=
  (untimed_iff (F := Unit) (by decide) _ _).mpr ⟨by decide, by decide⟩

/-- **A text of 2000 bytes**: its NUL is written behind the end of `msg`. -/
theorem not_untimed_long : ¬ StaysInside (List.replicate 2000 120)
    (Untimed.telPrintfNoTime 5 (some (printedText (List.replicate 2000 120)))) := by
  intro h
  have hinside := h.inside
  rw [Untimed.telPrintfNoTime, printUntimed_text (by decide), List.length_append,
    List.length_replicate] at hinside
  exact absurd hinside (by decide)

end TelnetServ
