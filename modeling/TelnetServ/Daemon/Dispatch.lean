import TelnetServ.Daemon.Session
import TelnetServ.Line.Refinement
import TelnetServ.Command.Names
/-!
# The daemon thread — typing a command's name

A name typed into a fresh session and ended by a return, followed through
the line editor, `CmdParse`, `RunCmd` and `FindCommand` to the function
that is called (`invocations_typed`). The name is reached as registered
unless it starts with an underscore, or a client before has left the counter
of the line buffer above zero; then what counts is what is left of it
(`reachesOwn_iff`).
-/

namespace TelnetServ

open CStr Effect

variable {F : Type*} {setup : Setup F}

def Action.invoked : Action F → Option F
  | .invoke func _ _ => some func
  | .accept _ | .close _ | .epollAdd _ | .send _ _ | .cmdParse _ _ => none

/-- The functions called, in order. -/
def invocations (acts : List (Action F)) : List F := acts.filterMap Action.invoked

@[simp] theorem invocations_append (a b : List (Action F)) :
    invocations (a ++ b) = invocations a ++ invocations b := List.filterMap_append ..

/-! ## What only sends -/

section Sends

variable {β : Type*} {p : Action F → Option β}

theorem quiet_pushMsg (hp : ∀ fd msg, p (.send fd msg) = none) (msg : List UInt8) :
    Quiet p (pushMsgToTerminalImmidate msg : Effect Daemon (Action F)) := by
  intro d
  unfold pushMsgToTerminalImmidate sendMsgToTerminal
  split_ifs <;> simp [hp]

theorem quiet_promptShow (hp : ∀ fd msg, p (.send fd msg) = none) :
    Quiet p (promptShow : Effect Daemon (Action F)) := by
  intro d
  unfold promptShow sendMsgToTerminal
  split_ifs <;> simp [hp]

theorem quiet_telhelp (hp : ∀ fd msg, p (.send fd msg) = none) (table : CmdFunTable F) :
    Quiet p (telhelp table) := by
  intro d
  unfold telhelp
  split_ifs
  · rfl
  · refine Quiet.inTurn (fun f hf => ?_) d
    obtain ⟨msg, -, rfl⟩ := List.mem_map.mp hf
    exact quiet_pushMsg hp msg

end Sends

/-! ## What calls no function -/

/-- The effect calls no function. -/
def Silent (f : Effect Daemon (Action F)) : Prop :=
  Meets (fun _ acts _ => invocations acts = []) f

theorem Silent.singleton {f : Effect Daemon (Action F)} (h : Silent f) : Silent (inTurn [f]) :=
  Quiet.singleton h

theorem silent_pushMsg (msg : List UInt8) :
    Silent (pushMsgToTerminalImmidate msg : Effect Daemon (Action F)) :=
  quiet_pushMsg (fun _ _ => rfl) msg

theorem silent_telhelp (table : CmdFunTable F) : Silent (telhelp table) :=
  quiet_telhelp (fun _ _ => rfl) table

/-- What is silent may follow. -/
theorem invocations_andThen {f g : Effect Daemon (Action F)} (hg : Silent g) (d : Daemon) :
    invocations (andThen Daemon.lost f g d).1 = invocations (f d).1 :=
  filterMap_andThen_quiet hg d

/-- What only puts out may come before. -/
theorem invocations_andThen_still {f g : Effect Daemon (Action F)} {d : Daemon}
    {acts : List (Action F)} (hl : d.lost = false) (hf : f d = (acts, d))
    (hacts : invocations acts = []) :
    invocations (andThen Daemon.lost f g d).1 = invocations (g d).1 := by
  rw [invocations, filterMap_andThen_still hl hf]
  exact congrArg (· ++ invocations (g d).1) hacts

/-! ## What calls one -/

/-- The function an outcome of `RunCmd` calls. -/
def RunOutcome.invoked : RunOutcome F → Option F
  | .call func _ _ => some func
  | .refused | .overrun | .endless | .bye | .telhelp | .unknown _ => none

theorem invocations_runOutcome (callback : Int32) (o : RunOutcome F) (d : Daemon) :
    invocations (runOutcome setup callback o d).1 = o.invoked.toList := by
  cases o with
  | refused => rfl
  | overrun => rfl
  | endless => rfl
  | bye =>
    have hclose : Silent (closeClient : Effect Daemon (Action F)) := fun _ => rfl
    exact Quiet.andThen (silent_pushMsg _) hclose.singleton d
  | telhelp => exact silent_telhelp _ d
  | call func para szCmd =>
    rw [runOutcome, inTurn, inTurn_cons]
    exact invocations_andThen (silent_pushMsg _).singleton d
  | unknown name => exact silent_pushMsg _ d

/-- `dispatch` calls what the line reaches. -/
theorem invoked_dispatch (regs : List (Registration F)) (base : UInt64) {line m : List UInt8}
    (hm : cstr line = m) (atRawPara : Vector TRawPara 10) :
    (dispatch (tableOf regs) base line atRawPara).invoked = reached regs m := by
  have h0 : cstr m = m := by rw [← hm]; exact cstr_eq_self zero_notMem_cstr
  rw [dispatch, reached, findCommand_tableOf, hm]
  by_cases hbye : m = ascii "bye"
  · rw [if_pos hbye, if_pos (Or.inl hbye)]
    rfl
  by_cases htel : m = ascii "telhelp"
  · rw [if_neg hbye, if_pos htel, if_pos (Or.inr htel)]
    rfl
  rw [if_neg hbye, if_neg htel, if_neg (not_or.mpr ⟨hbye, htel⟩)]
  cases registered regs m <;> rfl

/-! ## A typed name -/

/-- **Of echo, dispatch and prompt** a filter that drops what is sent sees the
dispatch only. -/
theorem filterMap_onChar_return {β : Type*} {p : Action F → Option β} {d : Daemon}
    {content : List UInt8} (hp : ∀ fd msg, p (.send fd msg) = none) (hd : Connected setup d)
    (hfront : d.line.command.toList.take d.line.cmdLen.toNat = content)
    (hlen : content.length ≤ 201) (h0 : deref d.line.command.toList ≠ 0)
    (hb : deref d.line.command.toList ≠ blankChar) (callback : Int32) :
    (onChar setup callback returnChar d).1.filterMap p =
      (doCmdParse setup callback d.line.command.toList d.line.cmdLen d).1.filterMap p := by
  have hcalls : (switchCmdChar d.line returnChar).1 = [.push (cstr content ++ ascii "\r\n"),
      .cmdParse d.line.command.toList d.line.cmdLen, .promptShow] := by
    rw [switchCmdChar_return, onReturn, isNullStr_other h0 hb, hfront]
  have hpush : pushMsgToTerminalImmidate (cstr content ++ ascii "\r\n") d =
      (([.send d.sockClient (cstr content ++ ascii "\r\n")], d) :
        List (Action F) × Daemon) := by
    have htext : (cstr content ++ ascii "\r\n").length = (cstr content).length + 2 :=
      List.length_append
    have hcstr : (cstr content).length ≤ content.length := (List.takeWhile_prefix _).length_le
    exact pushMsg_eq hd.client (by omega) (by rw [htext, maxLogMsgLen]; omega)
  have hlocals : Quiet p (fun d' => ([], { d' with line := (switchCmdChar d.line returnChar).2 }) :
      Effect Daemon (Action F)) := fun _ => rfl
  rw [onChar, inTurn, inTurn_cons, filterMap_andThen_quiet hlocals.singleton, hcalls]
  simp only [List.map_cons, List.map_nil, lineCall, inTurn]
  rw [inTurn_cons, filterMap_andThen_still hd.running.1 hpush, inTurn_cons,
    filterMap_andThen_quiet (quiet_promptShow hp).singleton]
  simp only [List.filterMap_cons, List.filterMap_nil, hp, List.nil_append]

section Typed

variable {regs : List (Registration F)} {d : Daemon} {n : List UInt8}

/-- Typed text goes into the line and nowhere else. -/
theorem session_text {xs : List (UInt8 × Int32)} (hx : ∀ x ∈ xs, IsText x.1)
    (hd : Connected setup d) :
    (sessionMachine setup).outs d xs = [] ∧ (sessionMachine setup).after d xs =
      { d with line := lineMachine.after d.line (xs.map Prod.fst) } := by
  induction xs generalizing d with
  | nil => exact ⟨rfl, rfl⟩
  | cons x xs ih =>
    have hswitch := switchCmdChar_text (s := d.line) (hx x List.mem_cons_self)
    have hstep : (sessionMachine setup).step d x =
        ([], { d with line := (switchCmdChar d.line x.1).2 }) := by
      rw [sessionMachine_step hd, onChar_quiet hd.running.1 (by rw [hswitch, onDefault_eq])]
    have hstuck : (switchCmdChar d.line x.1).2.stuck = false :=
      (switchCmdChar_stuck (hx x List.mem_cons_self).2.1).trans hd.running.2
    have hd' : Connected setup { d with line := (switchCmdChar d.line x.1).2 } :=
      ⟨⟨hd.running.1, hstuck⟩, hd.client, hd.client_ne⟩
    obtain ⟨houts, hafter⟩ := ih (fun y hy => hx y (List.mem_cons_of_mem _ hy)) hd'
    rw [Machine.outs_cons, Machine.after_cons, hstep, houts, hafter, List.map_cons,
      Machine.after_cons, lineMachine_step hd.running.2]
    exact ⟨rfl, rfl⟩

/-- A letter, a digit or an underscore is text and part of a word. -/
theorem identifier_byte {c : UInt8} (h : IsAlnum c ∨ c = underscore) :
    IsText c ∧ IsWordByte c ∧ c ≠ 0 ∧ c ≠ blankChar := by
  have hprint : 32 < c := by
    simp only [IsAlnum, Decimal.IsDigit, underscore, UInt8.le_iff_toNat_le, UInt8.lt_iff_toNat_lt,
      ← UInt8.toNat_inj, UInt8.reduceToNat] at *
    omega
  have hword : IsWordByte c ∧ c ≠ 0 := by
    rcases h with h | rfl
    · exact isWordByte_alnum h
    · exact ⟨⟨by decide, by decide, by decide⟩, by decide⟩
  exact ⟨isText_of_printable (UInt8.le_of_lt hprint), hword.1, hword.2,
    (UInt8.ne_of_lt hprint).symm⟩

/-- **The return calls what is left of the name in front of the counter**,
whatever else is in the buffer. -/
theorem invocations_return (htable : setup.cmdFunTable = tableOf regs) (hd : Connected setup d)
    (hcount : d.line.cmdLen.toNat = n.length)
    (hfront : d.line.command.toList.take d.line.cmdLen.toNat = n) (hne : n ≠ [])
    (hn : ∀ c ∈ n, IsAlnum c ∨ c = underscore) (hlen : n.length ≤ 200) (callback : Int32) :
    invocations (onChar setup callback returnChar d).1 = (reached regs (stripped n)).toList := by
  have hbyte : ∀ c ∈ n, IsText c ∧ IsWordByte c ∧ c ≠ 0 ∧ c ≠ blankChar :=
    fun c hc => identifier_byte (hn c hc)
  -- the line is not blank: its first byte is the name's
  have hfirst : deref d.line.command.toList ≠ 0 ∧ deref d.line.command.toList ≠ blankChar := by
    obtain ⟨c, rest, rfl⟩ := List.exists_cons_of_ne_nil hne
    have hhead : (d.line.command.toList.take d.line.cmdLen.toNat).head? = some c := by
      rw [hfront]
      rfl
    rw [List.head?_take, hcount, List.length_cons, if_neg (Nat.succ_ne_zero _)] at hhead
    have hderef : deref d.line.command.toList = c := by
      rw [deref, List.headD_eq_head?_getD, hhead]
      rfl
    have hc := hbyte c List.mem_cons_self
    exact hderef ▸ hc.2.2
  obtain ⟨line, hline, hrun⟩ := runCmd_word (tableOf regs) setup.base (m := stripped n)
    (fun c hc => ⟨(hbyte c (stripped_subset hc)).2.1, (hbyte c (stripped_subset hc)).2.2.1⟩)
    ((List.dropWhile_suffix _).length_le.trans (by omega))
  rw [invocations, filterMap_onChar_return (fun _ _ => rfl) hd hfront (hlen.trans (by decide))
      hfirst.1 hfirst.2, ← invocations, doCmdParse, inTurn, inTurn_cons,
    invocations_andThen_still hd.running.1 rfl rfl, inTurn_singleton,
    cmdParse_front hn hcount hfront]
  simp only [doRunCmd, if_neg hd.client, htable, hrun, invocations_runOutcome,
    invoked_dispatch regs setup.base hline]

/-- **The return on a buffer that begins with a NUL** calls nothing. -/
theorem invocations_return_null (h0 : deref d.line.command.toList = 0) (callback : Int32) :
    invocations (onChar setup callback returnChar d).1 = [] := by
  have hlocals : Silent (fun d' => ([], { d' with line := (switchCmdChar d.line returnChar).2 }) :
      Effect Daemon (Action F)) := fun _ => rfl
  rw [onChar, inTurn, inTurn_cons, invocations_andThen hlocals.singleton, switchCmdChar_return,
    onReturn, isNullStr_zero h0]
  refine Quiet.inTurn (fun f hf => ?_) d
  simp only [List.map_cons, List.map_nil, List.mem_cons, List.not_mem_nil, or_false] at hf
  rcases hf with rfl | rfl
  · exact silent_pushMsg _
  · exact quiet_promptShow fun _ _ => rfl

/-- **What of a name stands in front of the counter** when it has been typed
into a cleared buffer under a counter at `left`: the name itself if that is
zero, else what is typed once the counter has come round. -/
def heard (left : UInt8) (n : List UInt8) : List UInt8 :=
  if left = 0 then n else n.drop (256 - left.toNat)

/-- The function that is called for it; a line with nothing in front is not
dispatched. -/
def heardAs (regs : List (Registration F)) (left : UInt8) (n : List UInt8) : Option F :=
  if heard left n = [] then none else reached regs (stripped (heard left n))

/-- **The front of the buffer** holds what is heard of the text, up to the
counter; a NUL, if that is nothing. -/
theorem front_typed {left : UInt8} {line : LineState} (hbehind : TypedBehind left n line)
    (hlen : n.length ≤ 200) :
    (heard left n ≠ [] → line.cmdLen.toNat = (heard left n).length ∧
      line.command.toList.take line.cmdLen.toNat = heard left n) ∧
      (heard left n = [] → deref line.command.toList = 0) := by
  have hleft := left.toNat_lt
  have hcount := hbehind.length
  rw [heard]
  by_cases h0 : left = 0
  · -- the line is the text
    subst h0
    have hzero : (0 : UInt8).toNat = 0 := rfl
    have hwithin := hbehind.within (by rw [hzero]; omega)
    rw [hzero, Nat.zero_add, Nat.mod_eq_of_lt (by omega)] at hcount
    rw [hzero, List.replicate_zero, List.nil_append] at hwithin
    rw [if_pos rfl, hwithin, hcount, take_padded]
    refine ⟨fun _ => ⟨rfl, rfl⟩, fun hnil => ?_⟩
    rw [hnil]
    rfl
  have hpos : 0 < left.toNat := Nat.pos_of_ne_zero fun h => h0 (UInt8.toNat_inj.mp h)
  rw [if_neg h0]
  by_cases hround : 256 < left.toNat + n.length
  · -- the counter has come round, and the front is what was typed since
    have hrest : (n.drop (256 - left.toNat)).length = n.length - (256 - left.toNat) :=
      List.length_drop
    have hne : n.drop (256 - left.toNat) ≠ [] := List.ne_nil_of_length_pos (by omega)
    exact ⟨fun _ => ⟨by omega, hbehind.wrapped hround.le⟩, fun hnil => absurd hnil hne⟩
  · -- the NULs of the counter come first
    have hnil : n.drop (256 - left.toNat) = [] := List.drop_eq_nil_of_le (by omega)
    refine ⟨fun hne => absurd hnil hne, fun _ => ?_⟩
    obtain ⟨k, hk⟩ := Nat.exists_eq_succ_of_ne_zero hpos.ne'
    rw [hbehind.within (Nat.not_lt.mp hround), deref_padded, hk, List.replicate_succ]
    rfl

/-- What is heard of a name is made of its bytes. -/
theorem heard_subset (left : UInt8) (n : List UInt8) :
    (∀ c ∈ heard left n, c ∈ n) ∧ (heard left n).length ≤ n.length := by
  unfold heard
  split_ifs
  · exact ⟨fun _ hc => hc, Nat.le_refl _⟩
  · exact ⟨fun _ hc => List.mem_of_mem_drop hc, (List.drop_sublist _ _).length_le⟩

/-- **A name typed into a fresh session** calls what of it is heard, without
the underscores in front. -/
theorem invocations_typed (htable : setup.cmdFunTable = tableOf regs) (hd : Connected setup d)
    {left : UInt8} (hfresh : d.line = clearedLine left) (hn : IsIdentifier n)
    (hlen : n.length ≤ 200) {xs : List (UInt8 × Int32)}
    (hxs : xs.map Prod.fst = n ++ [returnChar]) :
    invocations ((sessionMachine setup).outs d xs) = (heardAs regs left n).toList := by
  obtain ⟨ys, zs, rfl, hys, hzs⟩ := List.map_eq_append_iff.mp hxs
  obtain ⟨⟨c, callback⟩, rfl, rfl⟩ := List.map_eq_singleton_iff.mp hzs
  have htext : ∀ c ∈ n, IsText c := fun c hc => (identifier_byte (hn.bytes c hc)).1
  have hbehind := typedBehind left htext (hlen.trans (by decide))
  have hytext : ∀ y ∈ ys, IsText y.1 := fun y hy => htext y.1 (hys ▸ List.mem_map_of_mem hy)
  obtain ⟨houts, hafter⟩ := session_text hytext hd
  rw [hfresh, hys] at hafter
  have hd' : Connected setup { d with line := lineMachine.after (clearedLine left) n } :=
    ⟨⟨hd.running.1, hbehind.running⟩, hd.client, hd.client_ne⟩
  rw [Machine.outs_concat, houts, hafter, List.nil_append, sessionMachine_step hd', heardAs]
  obtain ⟨hfront, hnull⟩ := front_typed hbehind hlen
  obtain ⟨hsubset, hle⟩ := heard_subset left n
  split_ifs with hnil
  · exact invocations_return_null (hnull hnil) callback
  · obtain ⟨hcount, htake⟩ := hfront hnil
    exact invocations_return htable hd' hcount htake hnil
      (fun c hc => hn.bytes c (hsubset c hc)) (hle.trans hlen) callback

end Typed

/-! ## The name's own function -/

/-- **A name calls the function registered under it and no other exactly
if** the counter was zero and it does not start with an underscore, or what
is heard of it reaches the same. -/
theorem reachesOwn_iff (regs : List (Registration F)) {setup : Setup F}
    (htable : setup.cmdFunTable = tableOf regs) {d : Daemon} (hd : Connected setup d)
    {left : UInt8} (hfresh : d.line = clearedLine left) {n : List UInt8} (hn : IsIdentifier n)
    (hlen : n.length ≤ 200) (hbye : n ≠ ascii "bye") (htel : n ≠ ascii "telhelp")
    {xs : List (UInt8 × Int32)} (hxs : xs.map Prod.fst = n ++ [returnChar]) :
    invocations ((sessionMachine setup).outs d xs) = (registered regs n).toList ↔
      (left = 0 ∧ n.head? ≠ some underscore) ∨ heardAs regs left n = registered regs n := by
  rw [invocations_typed htable hd hfresh hn hlen hxs]
  have hinj : (heardAs regs left n).toList = (registered regs n).toList ↔
      heardAs regs left n = registered regs n :=
    ⟨fun h => by simpa using congrArg List.head? h, congrArg Option.toList⟩
  rw [hinj]
  constructor
  · exact Or.inr
  · rintro (⟨rfl, hhead⟩ | heq)
    · have hne : n ≠ [] := by
        rintro rfl
        obtain ⟨c, hc, -⟩ := hn.head
        cases hc
      rw [heardAs, heard, if_pos rfl, if_neg hne, stripped_eq_self hhead]
      exact if_neg (not_or.mpr ⟨hbye, htel⟩)
    · exact heq

/-- One command `f` is registered, with function 7. -/
abbrev setupF : Setup ℕ := ⟨3, three_ne_invalidSocket, tableOf [⟨ascii "f", some 7, []⟩], 0⟩

/-- Typing `f` calls it. -/
theorem reachesOwn_f :
    invocations ((sessionMachine setupF).outs { sockClient := 5 } [(102, 0), (13, 0)]) =
      (registered [⟨ascii "f", some 7, []⟩] (ascii "f")).toList :=
  (reachesOwn_iff [⟨ascii "f", some 7, []⟩] rfl ⟨by decide, by decide, by decide⟩ rfl
    (by decide) (by decide) (by decide) (by decide) rfl).mpr
    (Or.inl ⟨rfl, by decide⟩)

/-- **Typing `_f` calls it too**, though nothing is registered under
`_f`. -/
theorem not_reachesOwn_underscore :
    IsIdentifier (ascii "_f") ∧
      registered [⟨ascii "f", some 7, []⟩] (ascii "_f") = (none : Option ℕ) ∧
      invocations ((sessionMachine setupF).outs { sockClient := 5 }
        [(95, 0), (102, 0), (13, 0)]) = [7] :=
  ⟨by decide, by decide, by decide⟩

end TelnetServ
