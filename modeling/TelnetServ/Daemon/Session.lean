import TelnetServ.Daemon.Descriptors
/-!
# The daemon thread — one client's session

The bytes one client sends, one event each, and what `RunCmd` and the line
editor make of them. A client that has been closed sends no more, and a
command's function answers with the byte that ended its line.
-/

namespace TelnetServ

open Effect

variable {F : Type*} {setup : Setup F}

/-- The event that brings a byte of the client. -/
def byteEvent (d : Daemon) (x : UInt8 × Int32) : Event × Answers :=
  (⟨d.sockClient, epollIn⟩, { recv := some x.1, callback := x.2 })

/-- **The session of the current client** over the bytes it sends, each with
the result of the function it may call. -/
def sessionMachine (setup : Setup F) : Machine Daemon (UInt8 × Int32) (Action F) where
  step d x :=
    if d.sockClient = invalidSocket then ([], d)
    else (daemonMachine setup).step d (byteEvent d x)

/-- A client is connected to a running daemon. -/
structure Connected (setup : Setup F) (d : Daemon) : Prop where
  running : d.Running
  client : d.sockClient ≠ invalidSocket
  client_ne : d.sockClient ≠ setup.sockServ

theorem handle_byteEvent {d : Daemon} (hc : d.sockClient ≠ setup.sockServ) (x : UInt8 × Int32) :
    handle setup (byteEvent d x).1 (byteEvent d x).2 d = onChar setup x.2 x.1 d := by
  have hfd : (byteEvent d x).1.fd ≠ setup.sockServ := hc
  have hin : (byteEvent d x).1.Has epollIn := (by decide : epollIn &&& epollIn ≠ 0)
  have herr : ¬ (byteEvent d x).1.Has (epollErr ||| pollNval) :=
    (by decide : ¬ epollIn &&& (epollErr ||| pollNval) ≠ 0)
  rw [handle, if_neg fun h => h.2.1 hin, if_neg fun h => herr h.1, if_neg hfd, if_pos ⟨hin, rfl⟩]
  rfl

/-- A byte of a connected client is handled by the switch. -/
theorem sessionMachine_step {d : Daemon} (hd : Connected setup d) (x : UInt8 × Int32) :
    (sessionMachine setup).step d x = onChar setup x.2 x.1 d := by
  rw [sessionMachine]
  simp only [if_neg hd.client, daemonMachine_step hd.running, handle_byteEvent hd.client_ne]

/-- The client is gone, or the thread is. -/
theorem sessionMachine_step_halted {d : Daemon} (h : d.sockClient = invalidSocket ∨ ¬ d.Running)
    (x : UInt8 × Int32) : (sessionMachine setup).step d x = ([], d) := by
  rw [sessionMachine]
  by_cases hc : d.sockClient = invalidSocket
  · simp only [if_pos hc]
  · simp only [if_neg hc, daemonMachine_step_halted (h.resolve_left hc)]

/-- **A byte whose calls leave the thread alone** puts out what they do, and
the switch's locals are kept. -/
theorem onChar_eq {d : Daemon} {callback : Int32} {c : UInt8} {acts : List (Action F)}
    (hl : d.lost = false)
    (h : inTurn ((switchCmdChar d.line c).1.map (lineCall setup callback)) d = (acts, d)) :
    onChar setup callback c d = (acts, { d with line := (switchCmdChar d.line c).2 }) := by
  rw [onChar, inTurn, inTurn_cons, andThen_of_running (by rw [h]; exact hl), h,
    inTurn_singleton, List.append_nil]

/-- A byte without calls. -/
theorem onChar_quiet {d : Daemon} {callback : Int32} {c : UInt8} (hl : d.lost = false)
    (h : (switchCmdChar d.line c).1 = []) :
    onChar setup callback c d = ([], { d with line := (switchCmdChar d.line c).2 }) :=
  onChar_eq hl (by rw [h]; rfl)

/-- A byte with one text as its call. -/
theorem onChar_push {d : Daemon} {callback : Int32} {c : UInt8} {text : List UInt8}
    (hd : Connected setup d) (h0 : 0 < text.length) (hlen : text.length < maxLogMsgLen)
    (h : (switchCmdChar d.line c).1 = [.push text]) :
    onChar setup callback c d =
      ([.send d.sockClient text], { d with line := (switchCmdChar d.line c).2 }) := by
  refine onChar_eq hd.running.1 ?_
  rw [h, List.map_singleton, inTurn, inTurn_singleton, lineCall, pushMsg_eq hd.client h0 hlen]

/-- A session that does not go on has lost its client or its thread. -/
theorem halted_of_not_connected {d : Daemon} (hd : ¬ Connected setup d)
    (hc : d.sockClient ≠ setup.sockServ) : d.sockClient = invalidSocket ∨ ¬ d.Running := by
  by_contra hgone
  rw [not_or, not_not] at hgone
  exact hd ⟨hgone.2, hgone.1, hc⟩

/-- The client of a session stays the same until it is closed. -/
theorem sessionMachine_client_ne {d : Daemon} (h : d.sockClient ≠ setup.sockServ)
    (x : UInt8 × Int32) : ((sessionMachine setup).step d x).2.sockClient ≠ setup.sockServ := by
  by_cases hd : Connected setup d
  · rw [sessionMachine_step hd]
    rcases leaves_onChar setup x.2 x.1 d with ⟨-, hc⟩ | ⟨-, -, -, hc⟩
    · exact hc ▸ h
    · exact hc ▸ setup.listening.symm
  · rw [sessionMachine_step_halted (halted_of_not_connected hd h)]
    exact h

/-- Nothing more comes of it. -/
theorem session_halted {d : Daemon} (hd : ¬ Connected setup d)
    (hc : d.sockClient ≠ setup.sockServ) (xs : List (UInt8 × Int32)) :
    (sessionMachine setup).outs d xs = [] ∧ (sessionMachine setup).after d xs = d := by
  have hstep : ∀ x, (sessionMachine setup).step d x = ([], d) :=
    sessionMachine_step_halted (halted_of_not_connected hd hc)
  induction xs with
  | nil => exact ⟨rfl, rfl⟩
  | cons x xs ih =>
    rw [Machine.outs_cons, Machine.after_cons, hstep]
    exact ih

end TelnetServ
