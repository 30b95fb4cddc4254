import TelnetServ.Daemon.Dispatch
/-!
# The daemon thread — line terminators

A telnet client may end a line with CR, CR LF or CR NUL. The switch
dispatches at the CR, so the byte behind it is the first of the next line:
an LF is dropped there, a NUL is kept and makes the next line look empty.
`sameStrings_iff` compares a session with the one in which CR alone ends every
line: the command strings are the same as long as no line with anything in
it arrives right behind such a NUL.
-/

namespace TelnetServ

open CStr Effect

variable {F : Type*} {setup : Setup F}

/-! ## Lines and their terminators -/

/-- What ends a line. -/
inductive Eol where
  | cr
  | crLf
  | crNul
  deriving DecidableEq

/-- What follows the CR. -/
def Eol.behind : Eol → List UInt8
  | .cr => []
  | .crLf => [newlineChar]
  | .crNul => [0]

/-- A command line as a client types it, with what the function it may call
answers. -/
structure TypedLine where
  text : List UInt8
  eol : Eol
  callback : Int32
  printable : ∀ c ∈ text, 32 ≤ c ∧ c ≤ 126
  short : text.length ≤ 200
  head : text.head? ≠ some blankChar

namespace TypedLine

/-- The line ended by CR alone. -/
def ended (l : TypedLine) : List (UInt8 × Int32) :=
  l.text.map (·, 0) ++ [(returnChar, l.callback)]

/-- The line as it is sent. -/
def sent (l : TypedLine) : List (UInt8 × Int32) := l.ended ++ l.eol.behind.map (·, 0)

end TypedLine

/-- The byte stream of the lines, each with its own terminator. -/
def sentStream (ls : List TypedLine) : List (UInt8 × Int32) := ls.flatMap TypedLine.sent

/-- The byte stream of the lines with CR as terminator throughout. -/
def crStream (ls : List TypedLine) : List (UInt8 × Int32) := ls.flatMap TypedLine.ended

/-- The command string handed to `RunCmd`. -/
def Action.commandString : Action F → Option (List UInt8)
  | .cmdParse pchCmd byCmdLen => (TelnetServ.cmdParse pchCmd byCmdLen).map cstr
  | .accept _ | .close _ | .epollAdd _ | .send _ _ | .invoke _ _ _ => none

/-- The command strings handed to `RunCmd`, in order. -/
def runStrings (acts : List (Action F)) : List (List UInt8) :=
  acts.filterMap Action.commandString

/-- **The terminators make no difference**: after every line, the strings
handed to `RunCmd` are those of the session with CR throughout. -/
def SameStrings (setup : Setup F) (d : Daemon) (ls : List TypedLine) : Prop :=
  ∀ pre, pre <+: ls →
    runStrings ((sessionMachine setup).outs d (sentStream pre)) =
      runStrings ((sessionMachine setup).outs d (crStream pre))

/-- No line with anything in it arrives, while the session goes on, behind
the NUL of the line before; `nul` says whether there is one at the start. -/
def Spared (setup : Setup F) : Bool → Daemon → List TypedLine → Prop
  | _, _, [] => True
  | nul, d, l :: ls =>
    (nul = true → Connected setup d → l.text = []) ∧
      Spared setup (l.eol = .crNul) ((sessionMachine setup).after d l.ended) ls

@[simp] theorem runStrings_append (a b : List (Action F)) :
    runStrings (a ++ b) = runStrings a ++ runStrings b := List.filterMap_append ..

/-! ## The return -/

variable {d : Daemon} {content : List UInt8} {callback : Int32}

/-- A thread that comes back from a byte has the locals the switch left. -/
theorem onChar_line (setup : Setup F) (callback : Int32) (c : UInt8) (d : Daemon) :
    (onChar setup callback c d).2.lost = true ∨
      (onChar setup callback c d).2.line = (switchCmdChar d.line c).2 := by
  rw [onChar, inTurn, inTurn_cons, andThen]
  split_ifs with hlost
  · exact Or.inl hlost
  · rw [inTurn_singleton]
    exact Or.inr rfl

/-- **The return on a line that reads as empty** runs nothing. -/
theorem onChar_return_empty (callback : Int32) (hd : Connected setup d)
    (hrep : Represents d.line content) (h0 : deref content = 0) :
    ∃ acts, onChar setup callback returnChar d = (acts, { d with line := clearedLine 0 }) ∧
      runStrings acts = [] := by
  have hecho : cstr content = [] := by
    cases content with
    | nil => rfl
    | cons a l =>
      rw [show a = 0 from h0, cstr_zero_cons]
  have hswitch : switchCmdChar d.line returnChar =
      ([.push (ascii "\r\n"), .promptShow], clearedLine 0) := by
    rw [switchCmdChar_return, onReturn, hrep.bytes, hecho,
      isNullStr_zero (by rw [hrep.deref_command]; exact h0)]
    rfl
  have hpush : pushMsgToTerminalImmidate (ascii "\r\n") d =
      (([.send d.sockClient (ascii "\r\n")], d) : List (Action F) × Daemon) :=
    pushMsg_eq hd.client (by decide) (by decide)
  refine ⟨[.send d.sockClient (ascii "\r\n"), .send d.sockClient promptText], ?_, rfl⟩
  have hcalls : inTurn ((switchCmdChar d.line returnChar).1.map (lineCall setup callback)) d =
      ([.send d.sockClient (ascii "\r\n"), .send d.sockClient promptText], d) := by
    rw [hswitch, inTurn, inTurn_of_still hd.running.1]
    · simp only [List.map_cons, List.map_nil, List.flatMap_cons, List.flatMap_nil, lineCall,
        hpush, promptShow_eq hd.client, List.append_nil, List.singleton_append]
    · intro f hf
      simp only [List.map_cons, List.map_nil, List.mem_cons, List.not_mem_nil, or_false] at hf
      rcases hf with rfl | rfl
      · rw [lineCall, hpush]
      · rw [lineCall, promptShow_eq hd.client]
  rw [onChar_eq hd.running.1 hcalls, hswitch]

/-- `RunCmd` runs no further command string. -/
theorem quiet_runOutcome (callback : Int32) (o : RunOutcome F) :
    Quiet Action.commandString (runOutcome setup callback o) := by
  have hpush := quiet_pushMsg (F := F) (p := Action.commandString) fun _ _ => rfl
  intro d
  cases o with
  | refused => rfl
  | overrun => rfl
  | endless => rfl
  | bye =>
    have hclose : Quiet Action.commandString (closeClient : Effect Daemon (Action F)) :=
      fun _ => rfl
    exact Quiet.andThen (hpush _) hclose.singleton d
  | telhelp => exact quiet_telhelp (fun _ _ => rfl) _ d
  | call func para szCmd =>
    have hinvoke : Quiet Action.commandString (fun d => ([.invoke func para szCmd], d) :
        Effect Daemon (Action F)) := fun _ => rfl
    exact Quiet.andThen hinvoke (hpush _).singleton d
  | unknown name => exact hpush _ d

theorem quiet_doRunCmd (callback : Int32) (szCmd : List UInt8) :
    Quiet Action.commandString (doRunCmd setup callback szCmd) := by
  intro d
  unfold doRunCmd
  split_ifs
  · rfl
  · exact quiet_runOutcome callback _ d

/-- **The return on any other line** runs one command string. -/
theorem onChar_return_command (hd : Connected setup d) (hrep : Represents d.line content)
    (hlen : content.length ≤ 201) (h0 : deref content ≠ 0) (hb : deref content ≠ blankChar) :
    ∃ szCmd, runStrings (onChar setup callback returnChar d).1 = [szCmd] := by
  obtain ⟨szCmd, hparse⟩ : ∃ szCmd,
      TelnetServ.cmdParse d.line.command.toList d.line.cmdLen = some szCmd := by
    obtain ⟨nCpyLen, -, h⟩ := exists_cmdParse d.line.command.toList d.line.cmdLen
    exact ⟨_, h⟩
  refine ⟨cstr szCmd, ?_⟩
  rw [runStrings, filterMap_onChar_return (fun _ _ => rfl) hd hrep.bytes hlen
      (by rwa [hrep.deref_command]) (by rwa [hrep.deref_command]), doCmdParse, inTurn,
    inTurn_cons, hparse, filterMap_andThen_quiet (quiet_doRunCmd callback szCmd).singleton]
  simp only [List.filterMap_cons, List.filterMap_nil, Action.commandString, hparse,
    Option.map_some]

/-! ## One line -/

/-- Between two lines the buffer is empty, while the session goes on. Of the
first line's buffer (`ended` is false) nothing is known: a client before may
have left the counter where it was. -/
structure AtLineStart (setup : Setup F) (ended : Prop) (d : Daemon) : Prop where
  client_ne : d.sockClient ≠ setup.sockServ
  empty : ended → Connected setup d → d.line = clearedLine 0

/-- The session at the start of a line against the one with CR throughout:
with `nul` the buffer of the first holds the NUL, while the session goes
on. -/
structure Behind (setup : Setup F) (nul : Bool) (dm d : Daemon) : Prop where
  same : ¬ (nul = true ∧ Connected setup d) → dm = d
  nul : nul = true ∧ Connected setup d →
    dm = { d with line := lineMachine.after (clearedLine 0) [0] }

variable {l : TypedLine} {ls : List TypedLine} {nul : Bool} {dm : Daemon} {P : Prop}

theorem TypedLine.isText {c : UInt8} (hc : c ∈ l.text) : IsText c :=
  isText_of_printable (l.printable c hc).1

theorem TypedLine.deref_ne_blank : deref l.text ≠ blankChar := by
  intro h
  cases htext : l.text with
  | nil =>
    rw [htext] at h
    exact absurd h (by decide)
  | cons c text =>
    rw [htext] at h
    exact l.head (by rw [htext]; exact congrArg some h)

theorem TypedLine.deref_ne_zero (ht : l.text ≠ []) : deref l.text ≠ 0 :=
  TelnetServ.deref_ne_zero ht fun h0 => absurd (l.printable 0 h0).1 (by decide)

/-- **A line typed behind what is in the buffer**, up to its return. -/
theorem session_ended (l : TypedLine) (hd : Connected setup d) {front : List UInt8}
    (hfront : ∀ c ∈ front, IsText c) (hshort : front.length ≤ 1)
    (hline : d.line = lineMachine.after (clearedLine 0) front) :
    ∃ d₁, d₁ = { d with line := lineMachine.after (clearedLine 0) (front ++ l.text) } ∧
      Connected setup d₁ ∧ Represents d₁.line (front ++ l.text) ∧
      (sessionMachine setup).outs d l.ended = (onChar setup l.callback returnChar d₁).1 ∧
      (sessionMachine setup).after d l.ended = (onChar setup l.callback returnChar d₁).2 := by
  have hall : ∀ c ∈ front ++ l.text, IsText c := fun c hc =>
    (List.mem_append.mp hc).elim (hfront c) l.isText
  have hlen : (front ++ l.text).length ≤ 255 := by
    have := l.short
    rw [List.length_append]
    omega
  obtain ⟨hrep, hstuck⟩ := represents_typed hall hlen
  have hxs : ∀ x ∈ l.text.map (·, (0 : Int32)), IsText x.1 := by
    intro x hx
    obtain ⟨c, hc, rfl⟩ := List.mem_map.mp hx
    exact l.isText hc
  have hfst : (l.text.map (·, (0 : Int32))).map Prod.fst = l.text := by
    rw [List.map_map]
    exact List.map_id _
  obtain ⟨houts, hafter⟩ := session_text hxs hd
  rw [hfst, hline, ← Machine.after_append] at hafter
  have hd₁ : Connected setup
      { d with line := lineMachine.after (clearedLine 0) (front ++ l.text) } :=
    ⟨⟨hd.running.1, hstuck⟩, hd.client, hd.client_ne⟩
  refine ⟨_, rfl, hd₁, hrep, ?_, ?_⟩
  · rw [TypedLine.ended, Machine.outs_concat, houts, hafter, List.nil_append,
      sessionMachine_step hd₁]
  · rw [TypedLine.ended, Machine.after_concat, hafter, sessionMachine_step hd₁]

/-- The return leaves the buffer cleared, or the thread in `isNullStr`. -/
theorem onChar_return_line (hafter : Connected setup (onChar setup callback returnChar d).2) :
    (onChar setup callback returnChar d).2.line = clearedLine 0 := by
  rcases onChar_line setup callback returnChar d with hlost | hline
  · rw [hafter.running.1] at hlost
    exact absurd hlost Bool.noConfusion
  · have hstuck := hafter.running.2
    rw [hline, switchCmdChar_return] at hstuck ⊢
    refine onReturn_state fun hb => ?_
    rw [onReturn_stuck hb] at hstuck
    cases hstuck

/-- **Behind the CR a line is over**, whatever was in the buffer before. -/
theorem atLineStart_ended (hc : d.sockClient ≠ setup.sockServ) (l : TypedLine) :
    AtLineStart setup P ((sessionMachine setup).after d l.ended) where
  client_ne := Machine.after_induct (sessionMachine setup)
    (I := fun d => d.sockClient ≠ setup.sockServ) hc
    (fun _ x hs => sessionMachine_client_ne hs x) l.ended
  empty := by
    intro _ hafter
    rw [TypedLine.ended, Machine.after_concat] at hafter ⊢
    generalize hd₁ : (sessionMachine setup).after d (l.text.map (·, 0)) = d₁ at hafter ⊢
    by_cases hcon : Connected setup d₁
    · rw [sessionMachine_step hcon] at hafter ⊢
      exact onChar_return_line hafter
    · have hc₁ : d₁.sockClient ≠ setup.sockServ :=
        hd₁ ▸ Machine.after_induct (sessionMachine setup)
          (I := fun d => d.sockClient ≠ setup.sockServ) hc
          (fun _ x hs => sessionMachine_client_ne hs x) _
      rw [sessionMachine_step_halted (halted_of_not_connected hcon hc₁)] at hafter
      exact absurd hafter hcon

/-- **What follows the CR** puts out nothing; an LF leaves no trace and a
NUL stays in the buffer. -/
theorem behind_eol (h : AtLineStart setup True d) (e : Eol) :
    (sessionMachine setup).outs d (e.behind.map (·, 0)) = [] ∧
      Behind setup (e = .crNul) ((sessionMachine setup).after d (e.behind.map (·, 0))) d := by
  by_cases hd : Connected setup d
  · cases e with
    | cr => exact ⟨rfl, fun _ => rfl, fun hn => absurd hn.1 (by decide)⟩
    | crLf =>
      have hignored : switchCmdChar d.line newlineChar = ([], d.line) :=
        switchCmdChar_ignored (by decide)
      have hstep : (sessionMachine setup).step d (newlineChar, 0) = ([], d) := by
        rw [sessionMachine_step hd, onChar_quiet hd.running.1 (by rw [hignored]), hignored]
      have hone : (Eol.crLf.behind.map (·, (0 : Int32))) = [(newlineChar, 0)] := rfl
      rw [hone, Machine.outs_cons, Machine.after_cons, hstep]
      exact ⟨rfl, fun _ => rfl, fun hn => absurd hn.1 (by decide)⟩
    | crNul =>
      have htext : ∀ x ∈ [((0 : UInt8), (0 : Int32))], IsText x.1 :=
        List.forall_mem_singleton.mpr (by decide)
      obtain ⟨houts, hafter⟩ := session_text htext hd
      rw [h.empty trivial hd] at hafter
      exact ⟨houts, fun hn => absurd ⟨by decide, hd⟩ hn, fun _ => hafter⟩
  · obtain ⟨houts, hafter⟩ := session_halted hd h.client_ne (e.behind.map (·, 0))
    exact ⟨houts, fun _ => hafter, fun hn => absurd hn.2 hd⟩

/-- A line that comes behind a NUL reads as empty. -/
theorem session_ended_nul (hd : Connected setup d) (hline : d.line = clearedLine 0) :
    runStrings ((sessionMachine setup).outs
        { d with line := lineMachine.after (clearedLine 0) [0] } l.ended) = [] ∧
      (sessionMachine setup).after
        { d with line := lineMachine.after (clearedLine 0) [0] } l.ended = d := by
  have hdm : Connected setup { d with line := lineMachine.after (clearedLine 0) [0] } :=
    ⟨⟨hd.running.1, rfl⟩, hd.client, hd.client_ne⟩
  have hfront : ∀ c ∈ [(0 : UInt8)], IsText c :=
    List.forall_mem_singleton.mpr (by decide)
  obtain ⟨d₁, hd₁, hcon, hrep, houts, hafter⟩ :=
    session_ended l hdm hfront (Nat.le_refl 1) rfl
  obtain ⟨acts, hreturn, hnone⟩ :=
    onChar_return_empty l.callback hcon hrep rfl
  rw [houts, hafter, hreturn, hd₁]
  refine ⟨hnone, ?_⟩
  show { d with line := clearedLine 0 } = d
  rw [← hline]

/-- An empty line runs nothing. -/
theorem session_ended_empty (hd : Connected setup d) (hline : d.line = clearedLine 0)
    (ht : l.text = []) : runStrings ((sessionMachine setup).outs d l.ended) = [] ∧
      (sessionMachine setup).after d l.ended = d := by
  obtain ⟨d₁, hd₁, hcon, hrep, houts, hafter⟩ :=
    session_ended l hd (List.forall_mem_nil IsText) (Nat.zero_le 1) hline
  obtain ⟨acts, hreturn, hnone⟩ :=
    onChar_return_empty l.callback hcon hrep (by rw [ht]; rfl)
  rw [houts, hafter, hreturn, hd₁]
  refine ⟨hnone, ?_⟩
  show { d with line := clearedLine 0 } = d
  rw [← hline]

/-- A line with anything in it runs one command string. -/
theorem session_ended_command (hd : Connected setup d) (hline : d.line = clearedLine 0)
    (ht : l.text ≠ []) :
    ∃ szCmd, runStrings ((sessionMachine setup).outs d l.ended) = [szCmd] := by
  obtain ⟨d₁, -, hcon, hrep, houts, -⟩ :=
    session_ended l hd (List.forall_mem_nil IsText) (Nat.zero_le 1) hline
  have hlen := l.short
  rw [houts]
  exact onChar_return_command hcon hrep (by rw [List.nil_append]; omega) (l.deref_ne_zero ht)
    l.deref_ne_blank

/-- **A spared line** runs the same in both sessions. -/
theorem line_same (hb : Behind setup nul dm d) (h : AtLineStart setup (nul = true) d)
    (hok : nul = true → Connected setup d → l.text = []) :
    runStrings ((sessionMachine setup).outs dm l.sent) =
        runStrings ((sessionMachine setup).outs d l.ended) ∧
      Behind setup (l.eol = .crNul) ((sessionMachine setup).after dm l.sent)
        ((sessionMachine setup).after d l.ended) := by
  have hended : runStrings ((sessionMachine setup).outs dm l.ended) =
      runStrings ((sessionMachine setup).outs d l.ended) ∧
      (sessionMachine setup).after dm l.ended = (sessionMachine setup).after d l.ended := by
    by_cases hn : nul = true ∧ Connected setup d
    · have hline := h.empty hn.1 hn.2
      obtain ⟨houts, hafter⟩ := session_ended_nul (l := l) hn.2 hline
      obtain ⟨houts', hafter'⟩ := session_ended_empty (l := l) hn.2 hline (hok hn.1 hn.2)
      rw [hb.nul hn, houts, hafter, houts', hafter']
      exact ⟨rfl, rfl⟩
    · rw [hb.same hn]
      exact ⟨rfl, rfl⟩
  obtain ⟨houts, hbehind⟩ := behind_eol (atLineStart_ended h.client_ne l) l.eol
  rw [TypedLine.sent, Machine.outs_append, Machine.after_append, hended.2, houts,
    List.append_nil]
  exact ⟨hended.1, hbehind⟩

/-- **A line behind a NUL** is not run. -/
theorem line_differs (hb : Behind setup nul dm d) (hline : d.line = clearedLine 0) (hn : nul = true)
    (hd : Connected setup d) (ht : l.text ≠ []) :
    runStrings ((sessionMachine setup).outs dm l.sent) ≠
      runStrings ((sessionMachine setup).outs d l.ended) := by
  obtain ⟨houts, hafter⟩ := session_ended_nul (l := l) hd hline
  obtain ⟨szCmd, hcommand⟩ := session_ended_command hd hline ht
  rw [hcommand, TypedLine.sent, Machine.outs_append, runStrings_append, hb.nul ⟨hn, hd⟩, houts,
    hafter, (behind_eol ⟨hd.client_ne, fun _ _ => hline⟩ l.eol).1]
  exact nofun

/-! ## The stream -/

theorem spared_iff_behind (hb : Behind setup nul dm d) (h : AtLineStart setup (nul = true) d) :
    (∀ pre, pre <+: ls → runStrings ((sessionMachine setup).outs dm (sentStream pre)) =
      runStrings ((sessionMachine setup).outs d (crStream pre))) ↔ Spared setup nul d ls := by
  induction ls generalizing nul dm d with
  | nil =>
    refine iff_of_true (fun pre hp => ?_) trivial
    rw [List.prefix_nil.mp hp]
    rfl
  | cons l ls ih =>
    by_cases hok : nul = true → Connected setup d → l.text = []
    · obtain ⟨hsame, hbehind⟩ := line_same hb h hok
      have hrest := ih hbehind (atLineStart_ended h.client_ne l)
      rw [Spared, and_iff_right hok, ← hrest]
      -- the first line cancels
      have hcons : ∀ pre, runStrings ((sessionMachine setup).outs dm (sentStream (l :: pre))) =
          runStrings ((sessionMachine setup).outs d (crStream (l :: pre))) ↔
          runStrings ((sessionMachine setup).outs ((sessionMachine setup).after dm l.sent)
            (sentStream pre)) =
          runStrings ((sessionMachine setup).outs ((sessionMachine setup).after d l.ended)
            (crStream pre)) := by
        intro pre
        rw [sentStream, crStream, List.flatMap_cons, List.flatMap_cons, Machine.outs_append,
          Machine.outs_append, runStrings_append, runStrings_append, hsame]
        exact List.append_right_inj _
      constructor
      · intro hall pre hp
        exact (hcons pre).mp (hall (l :: pre) (List.cons_prefix_cons.mpr ⟨rfl, hp⟩))
      · intro hall pre hp
        cases pre with
        | nil => rfl
        | cons a pre =>
          obtain ⟨rfl, hpre⟩ := List.cons_prefix_cons.mp hp
          exact (hcons pre).mpr (hall pre hpre)
    · push Not at hok
      obtain ⟨hn, hd, ht⟩ := hok
      refine iff_of_false (fun hall => ?_) fun hs => ht (hs.1 hn hd)
      have hone := hall [l] (List.cons_prefix_cons.mpr ⟨rfl, List.nil_prefix⟩)
      rw [sentStream, crStream, List.flatMap_singleton, List.flatMap_singleton] at hone
      exact line_differs hb (h.empty hn hd) hn hd ht hone

/-- **The terminators make no difference exactly as long as no line with
anything in it arrives behind the NUL of the line before**, whatever the
line buffer holds when the first line comes. -/
theorem sameStrings_iff (hd : Connected setup d) (ls : List TypedLine) :
    SameStrings setup d ls ↔ Spared setup false d ls :=
  spared_iff_behind ⟨fun _ => rfl, fun hn => absurd hn.1 Bool.noConfusion⟩
    ⟨hd.client_ne, fun hn => absurd hn Bool.noConfusion⟩

theorem printable_f : ∀ c ∈ [(102 : UInt8)], 32 ≤ c ∧ c ≤ 126 :=
  List.forall_mem_singleton.mpr (by decide)

theorem short_f : [(102 : UInt8)].length ≤ 200 := by decide

theorem head_f : [(102 : UInt8)].head? ≠ some blankChar := by decide

/-- The line `f`. -/
abbrev lineF (eol : Eol) : TypedLine := ⟨[102], eol, 0, printable_f, short_f, head_f⟩

theorem connected_plain : Connected plainSetup { sockClient := 5 } := by
  refine ⟨by decide, ?_, ?_⟩
  · decide
  · decide

/-- CR LF, then CR. -/
theorem sameStrings_crLf : SameStrings plainSetup { sockClient := 5 } [lineF .crLf, lineF .cr] := by
  refine (sameStrings_iff connected_plain _).mpr ⟨?_, ?_, trivial⟩
  · exact fun h => absurd h Bool.noConfusion
  · exact fun h => absurd h (by decide)

/-- **Behind CR NUL the line `f` is not run.** -/
theorem not_sameStrings_crNul :
    ¬ SameStrings plainSetup { sockClient := 5 } [lineF .crNul, lineF .cr] := by
  intro h
  have hboth := h _ List.prefix_rfl
  have hsent : runStrings ((sessionMachine plainSetup).outs { sockClient := 5 }
      (sentStream [lineF .crNul, lineF .cr])) = [[102]] := by decide
  have hcr : runStrings ((sessionMachine plainSetup).outs { sockClient := 5 }
      (crStream [lineF .crNul, lineF .cr])) = [[102], [102]] := by decide
  rw [hsent, hcr] at hboth
  exact absurd hboth (by decide)

end TelnetServ
