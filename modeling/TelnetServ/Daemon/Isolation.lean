import TelnetServ.Daemon.Session
/-!
# The daemon thread — isolation of sessions

What a new client is shown depends on the sessions before it through one
variable: `accept` clears the line buffer and leaves `cmdLen`. Two daemons
that agree on the line and on whether there is a client are
indistinguishable to whoever types (`Alike`), so equal counters suffice;
a client that sends nothing but backspaces reads the counter off, so they
are needed. `sessionsAlike_iff` puts the two together.
-/

namespace TelnetServ

open Effect

variable {F : Type*} {setup : Setup F}

/-- What is compared of a session. -/
inductive Seen where
  /-- A unit sent to the client. -/
  | text (pchMsg : List UInt8)
  /-- A call of `CmdParse`. -/
  | command (pchCmd : List UInt8) (byCmdLen : UInt8)
  deriving DecidableEq

def Action.seen : Action F → Option Seen
  | .send _ pchMsg => some (.text pchMsg)
  | .cmdParse pchCmd byCmdLen => some (.command pchCmd byCmdLen)
  | .accept _ | .close _ | .epollAdd _ | .invoke _ _ _ => none

/-- The event that brings a new client. -/
def acceptEvent (setup : Setup F) (newTelHandle : ℤ) : Event × Answers :=
  (⟨setup.sockServ, epollIn⟩, { accept := newTelHandle })

/-- **The session of a new client**: its connection, then the bytes `b`. -/
def sessionSeen (setup : Setup F) (d : Daemon) (newTelHandle : ℤ) (b : List (UInt8 × Int32)) :
    List Seen :=
  let r := (daemonMachine setup).step d (acceptEvent setup newTelHandle)
  (r.1 ++ (sessionMachine setup).outs r.2 b).filterMap Action.seen

/-! ## Equal counters suffice -/

/-- Indistinguishable to whoever types. -/
structure SameLine (d₁ d₂ : Daemon) : Prop where
  line : d₁.line = d₂.line
  lost : d₁.lost = d₂.lost
  client : d₁.sockClient = invalidSocket ↔ d₂.sockClient = invalidSocket

/-- An effect that cannot tell `SameLine` daemons apart. -/
abbrev Blind (f : Effect Daemon (Action F)) : Prop := Alike SameLine Action.seen f

theorem Blind.inTurn {fs : List (Effect Daemon (Action F))} (h : ∀ f ∈ fs, Blind f) :
    Blind (inTurn fs) :=
  Alike.inTurn (fun _ _ hd => hd.lost) h

/-- An effect that only puts out. -/
theorem blind_outputs (acts : List (Action F)) : Blind fun d => (acts, d) :=
  fun _ _ hd => ⟨hd, rfl⟩

theorem blind_lost : Blind (fun d => ([], { d with lost := true }) : Effect Daemon (Action F)) :=
  fun _ _ hd => ⟨⟨hd.line, rfl, hd.client⟩, rfl⟩

/-- A test for the client comes out the same. -/
theorem Blind.ite {f : Effect Daemon (Action F)} (hf : Blind f) :
    Blind fun d => if d.sockClient = invalidSocket then ([], d) else f d := by
  intro d₁ d₂ hd
  by_cases hc : d₁.sockClient = invalidSocket
  · simp only [if_pos hc, if_pos (hd.client.mp hc)]
    exact ⟨hd, trivial⟩
  · simp only [if_neg hc, if_neg fun h => hc (hd.client.mpr h)]
    exact hf d₁ d₂ hd

theorem blind_sendMsg (msg : List UInt8) :
    Blind (sendMsgToTerminal msg : Effect Daemon (Action F)) :=
  Blind.ite fun _ _ hd => ⟨hd, rfl⟩

theorem blind_pushMsg (msg : List UInt8) :
    Blind (pushMsgToTerminalImmidate msg : Effect Daemon (Action F)) := by
  refine Blind.ite ?_
  split_ifs
  · exact blind_lost
  · exact blind_outputs []
  · exact blind_sendMsg msg

theorem blind_promptShow : Blind (promptShow : Effect Daemon (Action F)) :=
  Blind.ite (blind_sendMsg _)

theorem blind_telhelp (table : CmdFunTable F) : Blind (telhelp table) := by
  refine Blind.ite (Blind.inTurn fun f hf => ?_)
  obtain ⟨msg, -, rfl⟩ := List.mem_map.mp hf
  exact blind_pushMsg msg

theorem blind_closeClient : Blind (closeClient : Effect Daemon (Action F)) :=
  fun _ _ hd => ⟨⟨hd.line, hd.lost, Iff.rfl⟩, rfl⟩

theorem blind_runOutcome (callback : Int32) (o : RunOutcome F) :
    Blind (runOutcome setup callback o) := by
  cases o with
  | refused => exact blind_outputs []
  | overrun => exact blind_lost
  | endless => exact blind_lost
  | bye =>
    refine Blind.inTurn fun f hf => ?_
    simp only [List.mem_cons, List.not_mem_nil, or_false] at hf
    rcases hf with rfl | rfl
    · exact blind_pushMsg _
    · exact blind_closeClient
  | telhelp => exact blind_telhelp _
  | call func para szCmd =>
    refine Blind.inTurn fun f hf => ?_
    simp only [List.mem_cons, List.not_mem_nil, or_false] at hf
    rcases hf with rfl | rfl
    · exact blind_outputs _
    · exact blind_pushMsg _
  | unknown name => exact blind_pushMsg _

theorem blind_doCmdParse (callback : Int32) (pchCmd : List UInt8) (byCmdLen : UInt8) :
    Blind (doCmdParse setup callback pchCmd byCmdLen) := by
  refine Blind.inTurn fun f hf => ?_
  simp only [List.mem_cons, List.not_mem_nil, or_false] at hf
  rcases hf with rfl | rfl
  · exact blind_outputs _
  · cases cmdParse pchCmd byCmdLen with
    | none => exact blind_outputs []
    | some szCmd => exact Blind.ite (blind_runOutcome callback _)

theorem blind_lineCall (callback : Int32) (call : LineCall) :
    Blind (lineCall setup callback call) := by
  cases call with
  | push text => exact blind_pushMsg text
  | cmdParse pchCmd byCmdLen => exact blind_doCmdParse callback pchCmd byCmdLen
  | promptShow => exact blind_promptShow

/-- **A byte is handled alike**: the switch reads nothing but the line. -/
theorem blind_onChar (callback : Int32) (c : UInt8) : Blind (onChar setup callback c) := by
  intro d₁ d₂ hd
  have hblind : Blind (inTurn [inTurn ((switchCmdChar d₁.line c).1.map (lineCall setup callback)),
      fun d' => ([], { d' with line := (switchCmdChar d₁.line c).2 })]) := by
    refine Blind.inTurn fun f hf => ?_
    simp only [List.mem_cons, List.not_mem_nil, or_false] at hf
    rcases hf with rfl | rfl
    · refine Blind.inTurn fun f hf => ?_
      obtain ⟨call, -, rfl⟩ := List.mem_map.mp hf
      exact blind_lineCall callback call
    · exact fun _ _ hd' => ⟨⟨rfl, hd'.lost, hd'.client⟩, rfl⟩
  have h := hblind d₁ d₂ hd
  rw [onChar, onChar, ← hd.line]
  exact h

/-- One byte of the session. -/
theorem sessionMachine_sameLine {d₁ d₂ : Daemon} (hd : SameLine d₁ d₂)
    (h₁ : d₁.sockClient ≠ setup.sockServ) (h₂ : d₂.sockClient ≠ setup.sockServ)
    (x : UInt8 × Int32) :
    SameLine ((sessionMachine setup).step d₁ x).2 ((sessionMachine setup).step d₂ x).2 ∧
      ((sessionMachine setup).step d₁ x).1.filterMap Action.seen =
        ((sessionMachine setup).step d₂ x).1.filterMap Action.seen := by
  have hrun : d₁.Running ↔ d₂.Running := by rw [Daemon.Running, Daemon.Running, hd.line, hd.lost]
  by_cases hhalt : d₁.sockClient = invalidSocket ∨ ¬ d₁.Running
  · rw [sessionMachine_step_halted hhalt,
      sessionMachine_step_halted (hhalt.imp hd.client.mp (mt hrun.mpr))]
    exact ⟨hd, rfl⟩
  · rw [not_or, not_not] at hhalt
    rw [sessionMachine_step ⟨hhalt.2, hhalt.1, h₁⟩,
      sessionMachine_step ⟨hrun.mp hhalt.2, mt hd.client.mpr hhalt.1, h₂⟩]
    exact blind_onChar x.2 x.1 d₁ d₂ hd

/-- **The two-run lemma**: every session from indistinguishable daemons
looks the same. -/
theorem session_alike {d₁ d₂ : Daemon} (hd : SameLine d₁ d₂)
    (h₁ : d₁.sockClient ≠ setup.sockServ) (h₂ : d₂.sockClient ≠ setup.sockServ)
    (b : List (UInt8 × Int32)) :
    ((sessionMachine setup).outs d₁ b).filterMap Action.seen =
      ((sessionMachine setup).outs d₂ b).filterMap Action.seen := by
  refine Machine.filterMap_outs_eq (R := fun d₁ d₂ => SameLine d₁ d₂ ∧
    d₁.sockClient ≠ setup.sockServ ∧ d₂.sockClient ≠ setup.sockServ) _ ⟨hd, h₁, h₂⟩ ?_ b
  rintro e₁ e₂ x ⟨he, he₁, he₂⟩
  obtain ⟨hsame, hseen⟩ := sessionMachine_sameLine he he₁ he₂ x
  exact ⟨⟨hsame, sessionMachine_client_ne he₁ x, sessionMachine_client_ne he₂ x⟩, hseen⟩

/-! ## They are needed -/

/-- The text a backspace echoes. -/
abbrev eraseText : List UInt8 := [backspaceChar, blankChar, backspaceChar]

/-- **Backspaces read the counter off**: one echo for each byte counted. -/
theorem seen_backspaces {m : ℕ} : ∀ {d : Daemon}, Connected setup d →
    d.line.cmdLen.toNat ≤ m →
    ((sessionMachine setup).outs d (List.replicate m (backspaceChar, 0))).filterMap Action.seen =
      List.replicate d.line.cmdLen.toNat (.text eraseText) := by
  induction m with
  | zero =>
    intro d _ hk
    rw [Nat.le_zero.mp hk]
    rfl
  | succ m ih =>
    intro d hd hk
    rw [List.replicate_succ, Machine.outs_cons, List.filterMap_append, sessionMachine_step hd]
    by_cases hzero : d.line.cmdLen ≤ 0
    · -- nothing to erase: no echo, and the state stays
      have hswitch : switchCmdChar d.line backspaceChar = ([], d.line) := if_pos hzero
      rw [onChar_quiet hd.running.1 (by rw [hswitch]), hswitch]
      have hk0 : d.line.cmdLen.toNat = 0 := Nat.le_zero.mp hzero
      rw [ih hd (by omega), hk0]
      rfl
    · have hswitch : switchCmdChar d.line backspaceChar = onBackspace d.line := rfl
      have hpos : 0 < d.line.cmdLen.toNat := Nat.not_le.mp hzero
      have hback : (onBackspace d.line).1 = [.push eraseText] ∧
          (onBackspace d.line).2.cmdLen = d.line.cmdLen - 1 ∧
          (onBackspace d.line).2.stuck = d.line.stuck := by
        rw [onBackspace, if_neg hzero]
        exact ⟨rfl, rfl, rfl⟩
      have hdec : (d.line.cmdLen - 1).toNat = d.line.cmdLen.toNat - 1 :=
        UInt8.toNat_sub_of_le _ _ (UInt8.le_iff_toNat_le.mpr hpos)
      have hpush : (switchCmdChar d.line backspaceChar).1 = [.push eraseText] := hback.1
      rw [onChar_push hd (by decide) (by decide) hpush, hswitch]
      have hd' : Connected setup { d with line := (onBackspace d.line).2 } :=
        ⟨⟨hd.running.1, hback.2.2.trans hd.running.2⟩, hd.client, hd.client_ne⟩
      rw [ih hd' (by rw [hback.2.1, hdec]; omega)]
      obtain ⟨k, hk⟩ := Nat.exists_eq_succ_of_ne_zero hpos.ne'
      simp only [hback.2.1, hdec, hk, Nat.succ_sub_one, List.replicate_succ]
      rfl

/-! ## Every pair of histories -/

/-- What a running daemon does when a new client connects. -/
theorem step_acceptEvent {d : Daemon} (hrun : d.Running) (hc : d.sockClient ≠ setup.sockServ)
    {n : ℤ} (hn : n ≠ invalidSocket) :
    (daemonMachine setup).step d (acceptEvent setup n) = onAccept n d := by
  rw [daemonMachine_step hrun, handle_sockServ hc rfl]
  exact if_neg hn

/-- The session of a new client, by parts. -/
theorem sessionSeen_eq {d : Daemon} (hrun : d.Running) (hc : d.sockClient ≠ setup.sockServ)
    {n : ℤ} (hn : n ≠ invalidSocket) (b : List (UInt8 × Int32)) :
    sessionSeen setup d n b = (welcome ++ [promptText]).map Seen.text ++
      ((sessionMachine setup).outs (d.setTelnetClient n) b).filterMap Action.seen := by
  have hsends : ((welcome ++ [promptText]).map (.send n) : List (Action F)).filterMap
      Action.seen = (welcome ++ [promptText]).map Seen.text := rfl
  rw [sessionSeen, step_acceptEvent hrun hc hn, onAccept_eq hn hrun.1, List.filterMap_append,
    List.filterMap_append, hsends]
  by_cases hold : d.sockClient = invalidSocket <;> simp [hold, Action.seen]

/-- The daemon after a history of earlier sessions. -/
def afterHistory (setup : Setup F) (h : List (Event × Answers)) : Daemon :=
  ((worldMachine setup).after (.start setup) h).daemon

/-- **A history that can be followed by the new client `n`**: the kernel
keeps its promise to the end, and the daemon is there to accept. -/
structure Accepts (setup : Setup F) (h : List (Event × Answers)) (n : ℤ) : Prop where
  fresh : (worldMachine setup).Valid (AcceptFresh setup) (.start setup)
    (h ++ [acceptEvent setup n])
  running : (afterHistory setup h).Running
  accepted : n ≠ invalidSocket

theorem Accepts.client_ne {h : List (Event × Answers)} {n : ℤ} (ha : Accepts setup h n) :
    (afterHistory setup h).sockClient ≠ setup.sockServ :=
  (worldMachine_run (tables_start setup)
    ((worldMachine setup).valid_append.mp ha.fresh).1).1.client_ne

/-- The new client is connected. -/
theorem Accepts.connected {h : List (Event × Answers)} {n : ℤ} (ha : Accepts setup h n) :
    Connected setup ((afterHistory setup h).setTelnetClient n) := by
  have hfresh := ((worldMachine setup).valid_append.mp ha.fresh).2.1
  exact ⟨ha.running, ha.accepted, (hfresh.resolve_left ha.accepted).2.2⟩

section Histories

variable {h₁ h₂ : List (Event × Answers)} {n₁ n₂ : ℤ}

/-- With equal counters the daemons are indistinguishable after `accept`. -/
theorem Accepts.sameLine (ha₁ : Accepts setup h₁ n₁) (ha₂ : Accepts setup h₂ n₂)
    (hlen : (afterHistory setup h₁).line.cmdLen = (afterHistory setup h₂).line.cmdLen) :
    SameLine ((afterHistory setup h₁).setTelnetClient n₁)
      ((afterHistory setup h₂).setTelnetClient n₂) where
  line := by
    simp only [Daemon.setTelnetClient, hlen, ha₁.running.2, ha₂.running.2]
  lost := ha₁.running.1.trans ha₂.running.1.symm
  client := iff_of_false ha₁.accepted ha₂.accepted

/-- **Two histories look the same to the next client exactly if they leave
the same `cmdLen`.** -/
theorem sessionsAlike_iff (setup : Setup F) (ha₁ : Accepts setup h₁ n₁)
    (ha₂ : Accepts setup h₂ n₂) :
    (∀ b, sessionSeen setup (afterHistory setup h₁) n₁ b =
        sessionSeen setup (afterHistory setup h₂) n₂ b) ↔
      (afterHistory setup h₁).line.cmdLen = (afterHistory setup h₂).line.cmdLen := by
  constructor
  · intro hsame
    -- 255 backspaces are enough for any counter
    have hb := hsame (List.replicate 255 (backspaceChar, 0))
    have hle : ∀ k : UInt8, k.toNat ≤ 255 := fun k => Nat.le_of_lt_succ k.toNat_lt
    rw [sessionSeen_eq ha₁.running ha₁.client_ne ha₁.accepted,
      sessionSeen_eq ha₂.running ha₂.client_ne ha₂.accepted,
      seen_backspaces ha₁.connected (hle _), seen_backspaces ha₂.connected (hle _)] at hb
    have hcount := congrArg List.length (List.append_cancel_left hb)
    simp only [List.length_replicate] at hcount
    exact UInt8.toNat_inj.mp hcount
  · intro hlen b
    rw [sessionSeen_eq ha₁.running ha₁.client_ne ha₁.accepted,
      sessionSeen_eq ha₂.running ha₂.client_ne ha₂.accepted,
      session_alike (ha₁.sameLine ha₂ hlen) ha₁.connected.client_ne ha₂.connected.client_ne]

end Histories

/-- After a session that ended its line, a client that types `a` and a
backspace is served as a first client is. -/
theorem sessionsAlike_return :
    sessionSeen plainSetup (afterHistory plainSetup
        [acceptEvent plainSetup 5, (⟨5, 1⟩, { recv := some 97 }), (⟨5, 1⟩, { recv := some 13 }),
          (⟨5, 1⟩, {})]) 5 [(97, 0), (backspaceChar, 0)] =
      sessionSeen plainSetup (afterHistory plainSetup []) 5 [(97, 0), (backspaceChar, 0)] :=
  (sessionsAlike_iff plainSetup ⟨by decide, by decide, by decide⟩
    ⟨by decide, by decide, by decide⟩).mpr (by decide) _

/-- **A half-typed line is felt by the next client.** The first client types
`ab` and disconnects; the second is sent an erasing echo for the backspace
it types on an empty line. -/
theorem not_sessionsAlike_halfTyped :
    Accepts plainSetup [acceptEvent plainSetup 5, (⟨5, 1⟩, { recv := some 97 }),
        (⟨5, 1⟩, { recv := some 98 }), (⟨5, 1⟩, {})] 5 ∧ Accepts plainSetup [] 5 ∧
      ¬ ∀ b, sessionSeen plainSetup (afterHistory plainSetup
          [acceptEvent plainSetup 5, (⟨5, 1⟩, { recv := some 97 }),
            (⟨5, 1⟩, { recv := some 98 }), (⟨5, 1⟩, {})]) 5 b =
        sessionSeen plainSetup (afterHistory plainSetup []) 5 b :=
  ⟨⟨by decide, by decide, by decide⟩, ⟨by decide, by decide, by decide⟩,
    fun h => absurd (h [(backspaceChar, 0)]) (by decide)⟩

end TelnetServ
