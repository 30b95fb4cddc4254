import TelnetServ.Daemon.Model
import Mathlib.Data.Finset.Lattice.Lemmas
/-!
# The daemon thread — its descriptors

The kernel's side of the run: which accepted descriptors are open and
which are registered with `epoll`. `handle_handled` lists once what
handling an event can do to a descriptor and for what reason; everything
else in this file, and in the file on batches, is read off it. The result
is `oneClient`: the open accepted descriptors are the current client and
nothing else, each is closed once, and only while it is the client.
-/

namespace TelnetServ

open Effect

variable {F : Type*} {setup : Setup F}

/-! ## The kernel's side -/

/-- The system calls that change the descriptor tables. Closing
`INVALID_SOCKET` is refused and changes nothing. -/
def Action.isFd : Action F → Bool
  | .accept _ | .epollAdd _ => true
  | .close fd => fd ≠ invalidSocket
  | .send _ _ | .cmdParse _ _ | .invoke _ _ _ => false

/-- An accepted descriptor is acquired by `accept` and released by
`close`. -/
def Action.use : Action F → Option (Use ℤ)
  | .accept fd => some (.acquire fd)
  | .close fd => if fd = invalidSocket then none else some (.release fd)
  | .epollAdd _ | .send _ _ | .cmdParse _ _ | .invoke _ _ _ => none

/-- A descriptor is registered by `epoll_ctl` and forgotten when closed. -/
def Action.registration : Action F → Option (Use ℤ)
  | .epollAdd fd => some (.acquire fd)
  | .close fd => if fd = invalidSocket then none else some (.release fd)
  | .accept _ | .send _ _ | .cmdParse _ _ | .invoke _ _ _ => none

def fdActions (acts : List (Action F)) : List (Action F) := acts.filter Action.isFd

def uses (acts : List (Action F)) : List (Use ℤ) := acts.filterMap Action.use

def registrations (acts : List (Action F)) : List (Use ℤ) := acts.filterMap Action.registration

@[simp] theorem fdActions_append (a b : List (Action F)) :
    fdActions (a ++ b) = fdActions a ++ fdActions b := List.filter_append ..

@[simp] theorem uses_nil : uses ([] : List (Action F)) = [] := rfl

@[simp] theorem uses_cons (a : Action F) (acts : List (Action F)) :
    uses (a :: acts) = a.use.toList ++ uses acts := by
  rw [uses, List.filterMap_cons]
  cases a.use <;> rfl

@[simp] theorem registrations_nil : registrations ([] : List (Action F)) = [] := rfl

@[simp] theorem registrations_cons (a : Action F) (acts : List (Action F)) :
    registrations (a :: acts) = a.registration.toList ++ registrations acts := by
  rw [registrations, List.filterMap_cons]
  cases a.registration <;> rfl

@[simp] theorem registrations_append (a b : List (Action F)) :
    registrations (a ++ b) = registrations a ++ registrations b := List.filterMap_append ..

@[simp] theorem uses_append (a b : List (Action F)) : uses (a ++ b) = uses a ++ uses b :=
  List.filterMap_append ..

/-- Only the system calls on descriptors use them. -/
theorem uses_fdActions (acts : List (Action F)) : uses (fdActions acts) = uses acts := by
  rw [uses, fdActions, List.filterMap_filter]
  refine List.filterMap_congr fun a _ => ?_
  cases a with
  | close fd => by_cases h : fd = invalidSocket <;> simp [Action.isFd, Action.use, h]
  | _ => rfl

theorem registrations_fdActions (acts : List (Action F)) :
    registrations (fdActions acts) = registrations acts := by
  rw [registrations, fdActions, List.filterMap_filter]
  refine List.filterMap_congr fun a _ => ?_
  cases a with
  | close fd => by_cases h : fd = invalidSocket <;> simp [Action.isFd, Action.registration, h]
  | _ => rfl

theorem mem_fdActions_close {acts : List (Action F)} {fd : ℤ} :
    .close fd ∈ fdActions acts ↔ .close fd ∈ acts ∧ fd ≠ invalidSocket := by
  simp [fdActions, Action.isFd]

/-- The daemon and the kernel's tables. -/
structure World where
  daemon : Daemon := {}
  /-- The accepted descriptors that are open. -/
  openFds : Finset ℤ := ∅
  registered : Finset ℤ

/-- The world when the event loop is entered. -/
def World.start (setup : Setup F) : World where
  registered := {setup.sockServ}

/-- **The daemon's machine with the kernel's tables.** -/
def worldMachine (setup : Setup F) : Machine World (Event × Answers) (Action F) where
  step w x :=
    let r := (daemonMachine setup).step w.daemon x
    (r.1,
      { daemon := r.2
        openFds := Use.held w.openFds (uses r.1)
        registered := Use.held w.registered (registrations r.1) })

/-- **What the kernel promises of `accept`**: it fails, or returns a
descriptor that is not in use. -/
def AcceptFresh (setup : Setup F) (w : World) (x : Event × Answers) : Prop :=
  x.2.accept = invalidSocket ∨
    (0 ≤ x.2.accept ∧ x.2.accept ∉ w.openFds ∧ x.2.accept ≠ setup.sockServ)

instance (w : World) (x : Event × Answers) : Decidable (AcceptFresh setup w x) := by
  unfold AcceptFresh; infer_instance

/-! ## What the calls of a received byte do to the client -/

/-- The line dispatched is `bye`. -/
def RunsBye (setup : Setup F) (pchCmd : List UInt8) (byCmdLen : UInt8) : Prop :=
  ∃ szCmd, cmdParse pchCmd byCmdLen = some szCmd ∧
    runCmd setup.cmdFunTable setup.base szCmd = .bye

/-- The byte ends a line that is `bye`. -/
def SaysBye (setup : Setup F) (line : LineState) (cmdChar : UInt8) : Prop :=
  ∃ pchCmd byCmdLen, .cmdParse pchCmd byCmdLen ∈ (switchCmdChar line cmdChar).1 ∧
    RunsBye setup pchCmd byCmdLen

/-- **The client stays, or is closed**; closed only where `bye` holds. -/
def Leaves (bye : Prop) (d : Daemon) (acts : List (Action F)) (d' : Daemon) : Prop :=
  (fdActions acts = [] ∧ d'.sockClient = d.sockClient) ∨
    (bye ∧ d.sockClient ≠ invalidSocket ∧ fdActions acts = [.close d.sockClient] ∧
      d'.sockClient = invalidSocket)

theorem Leaves.mono {b c : Prop} (h : b → c) {d : Daemon} {acts : List (Action F)} {d' : Daemon}
    (hl : Leaves b d acts d') : Leaves c d acts d' :=
  hl.imp_right fun ⟨hb, hrest⟩ => ⟨h hb, hrest⟩

theorem leaves_refl (b : Prop) (d : Daemon) : Leaves b d ([] : List (Action F)) d :=
  Or.inl ⟨rfl, rfl⟩

/-- The client leaves at most once: a second time there is none. -/
theorem leaves_trans (b : Prop) (d₁ : Daemon) (o₁ : List (Action F)) (d₂ : Daemon)
    (o₂ : List (Action F)) (d₃ : Daemon) (h₁ : Leaves b d₁ o₁ d₂) (h₂ : Leaves b d₂ o₂ d₃) :
    Leaves b d₁ (o₁ ++ o₂) d₃ := by
  unfold Leaves
  rw [fdActions_append]
  rcases h₁ with ⟨hf₁, hc₁⟩ | ⟨hb, hne, hf₁, hc₁⟩ <;>
    rcases h₂ with ⟨hf₂, hc₂⟩ | ⟨hb₂, hne₂, hf₂, hc₂⟩
  · exact Or.inl ⟨by rw [hf₁, hf₂, List.nil_append], hc₂.trans hc₁⟩
  · rw [hc₁] at hne₂ hf₂
    exact Or.inr ⟨hb₂, hne₂, by rw [hf₁, hf₂, List.nil_append], hc₂⟩
  · exact Or.inr ⟨hb, hne, by rw [hf₁, hf₂, List.append_nil], hc₂.trans hc₁⟩
  · exact absurd hc₁ hne₂

theorem leaves_inTurn {b : Prop} {fs : List (Effect Daemon (Action F))}
    (h : ∀ f ∈ fs, Meets (Leaves b) f) : Meets (Leaves b) (inTurn fs) :=
  Meets.inTurn (leaves_refl b) (fun _ _ _ _ _ _ => leaves_trans b _ _ _ _ _) h

theorem leaves_sendMsg (b : Prop) (msg : List UInt8) :
    Meets (Leaves b) (sendMsgToTerminal msg : Effect Daemon (Action F)) := by
  intro d
  unfold sendMsgToTerminal
  split <;> exact Or.inl ⟨rfl, rfl⟩

/-- Output leaves the client where it is. -/
theorem leaves_pushMsg (b : Prop) (msg : List UInt8) :
    Meets (Leaves b) (pushMsgToTerminalImmidate msg : Effect Daemon (Action F)) := by
  intro d
  unfold pushMsgToTerminalImmidate
  split_ifs
  · exact leaves_refl b d
  · exact Or.inl ⟨rfl, rfl⟩
  · exact leaves_refl b d
  · exact leaves_sendMsg b msg d

theorem leaves_promptShow (b : Prop) :
    Meets (Leaves b) (promptShow : Effect Daemon (Action F)) := by
  intro d
  unfold promptShow
  split_ifs
  · exact leaves_refl b d
  · exact leaves_sendMsg b _ d

theorem leaves_telhelp (b : Prop) (table : CmdFunTable F) : Meets (Leaves b) (telhelp table) := by
  intro d
  unfold telhelp
  split_ifs
  · exact leaves_refl b d
  · refine leaves_inTurn (fun f hf => ?_) d
    obtain ⟨msg, -, rfl⟩ := List.mem_map.mp hf
    exact leaves_pushMsg b msg

theorem leaves_closeClient {b : Prop} (hb : b) :
    Meets (Leaves b) (closeClient : Effect Daemon (Action F)) := by
  intro d
  by_cases h : d.sockClient = invalidSocket
  · exact Or.inl ⟨by simp [closeClient, fdActions, Action.isFd, h], h.symm⟩
  · exact Or.inr ⟨hb, h, by simp [closeClient, fdActions, Action.isFd, h], rfl⟩

/-- `RunCmd` closes the client only for `bye`. -/
theorem leaves_runOutcome (callback : Int32) (o : RunOutcome F) :
    Meets (Leaves (o = .bye)) (runOutcome setup callback o) := by
  cases o with
  | refused => exact leaves_refl _
  | overrun => exact fun _ => Or.inl ⟨rfl, rfl⟩
  | endless => exact fun _ => Or.inl ⟨rfl, rfl⟩
  | bye =>
    refine leaves_inTurn fun f hf => ?_
    simp only [List.mem_cons, List.not_mem_nil, or_false] at hf
    rcases hf with rfl | rfl
    · exact leaves_pushMsg _ _
    · exact leaves_closeClient rfl
  | telhelp => exact leaves_telhelp _ _
  | call func para szCmd =>
    refine leaves_inTurn fun f hf => ?_
    simp only [List.mem_cons, List.not_mem_nil, or_false] at hf
    rcases hf with rfl | rfl
    · exact fun _ => Or.inl ⟨rfl, rfl⟩
    · exact leaves_pushMsg _ _
  | unknown name => exact leaves_pushMsg _ _

theorem leaves_doRunCmd (callback : Int32) (szCmd : List UInt8) :
    Meets (Leaves (runCmd setup.cmdFunTable setup.base szCmd = .bye))
      (doRunCmd setup callback szCmd) := by
  intro d
  unfold doRunCmd
  split_ifs
  · exact leaves_refl _ d
  · exact leaves_runOutcome callback _ d

theorem leaves_doCmdParse (callback : Int32) (pchCmd : List UInt8) (byCmdLen : UInt8) :
    Meets (Leaves (RunsBye setup pchCmd byCmdLen))
      (doCmdParse setup callback pchCmd byCmdLen) := by
  refine leaves_inTurn fun f hf => ?_
  simp only [List.mem_cons, List.not_mem_nil, or_false] at hf
  rcases hf with rfl | rfl
  · exact fun _ => Or.inl ⟨rfl, rfl⟩
  · intro d
    cases h : cmdParse pchCmd byCmdLen with
    | none => exact leaves_refl _ d
    | some szCmd => exact (leaves_doRunCmd callback szCmd d).mono fun hb => ⟨szCmd, h, hb⟩

/-- **A received byte closes the client only by saying `bye`.** -/
theorem leaves_onChar (setup : Setup F) (callback : Int32) (c : UInt8) (d : Daemon) :
    Leaves (SaysBye setup d.line c) d (onChar setup callback c d).1
      (onChar setup callback c d).2 := by
  refine leaves_inTurn (fun f hf => ?_) d
  simp only [List.mem_cons, List.not_mem_nil, or_false] at hf
  rcases hf with rfl | rfl
  · refine leaves_inTurn fun f hf => ?_
    obtain ⟨call, hcall, rfl⟩ := List.mem_map.mp hf
    cases call with
    | push text => exact leaves_pushMsg _ text
    | cmdParse pchCmd byCmdLen =>
      exact fun d' => (leaves_doCmdParse callback pchCmd byCmdLen d').mono
        fun hb => ⟨pchCmd, byCmdLen, hcall, hb⟩
    | promptShow => exact leaves_promptShow _
  · exact fun _ => Or.inl ⟨rfl, rfl⟩

/-! ## What handling an event does to the client -/

/-- The calls that let go of the client `c`. -/
def dropped (c : ℤ) : List (Action F) := if c = invalidSocket then [] else [.close c]

/-- The reasons an event of its own closes the client for. -/
inductive OwnClose (setup : Setup F) (d : Daemon) (e : Event) (answers : Answers) : Prop where
  | hangUp (own : d.sockClient = e.fd) (h : e.Has epollHup)
  | error (own : d.sockClient = e.fd) (h : e.Has (epollErr ||| pollNval))
  | recv (own : d.sockClient = e.fd) (hin : e.Has epollIn) (h : answers.recv = none)
  | bye (own : d.sockClient = e.fd) (hin : e.Has epollIn) {c : UInt8}
      (h : answers.recv = some c) (hbye : SaysBye setup d.line c)

/-- The event reaches the last branch of the loop body. -/
structure Unmatched (setup : Setup F) (d : Daemon) (e : Event) : Prop where
  notServ : e.fd ≠ setup.sockServ
  notHup : ¬ (e.Has epollHup ∧ ¬ e.Has epollIn ∧ d.sockClient = e.fd)
  notErr : ¬ (e.Has (epollErr ||| pollNval) ∧ d.sockClient = e.fd)
  notIn : ¬ (e.Has epollIn ∧ d.sockClient = e.fd)

/-- **All that handling an event can come to**: the descriptor calls it
makes, the client it leaves, and the reason. -/
inductive Handled (setup : Setup F) (d : Daemon) (e : Event) (answers : Answers) :
    List (Action F) → ℤ → Prop where
  | keep : Handled setup d e answers [] d.sockClient
  | drop (h : OwnClose setup d e answers) :
      Handled setup d e answers (dropped d.sockClient) invalidSocket
  | replace (hfd : e.fd = setup.sockServ) (h : answers.accept ≠ invalidSocket) :
      Handled setup d e answers
        (.accept answers.accept :: dropped d.sockClient ++ [.epollAdd answers.accept])
        answers.accept
  | unmatched (h : Unmatched setup d e) :
      Handled setup d e answers (dropped d.sockClient) invalidSocket

theorem fdActions_closeClient (d : Daemon) :
    fdActions (closeClient d : List (Action F) × Daemon).1 = dropped d.sockClient := by
  by_cases h : d.sockClient = invalidSocket <;>
    simp [closeClient, fdActions, Action.isFd, dropped, h]

/-- The screen sent to a new client touches no descriptor. -/
theorem fdActions_onAccept {n : ℤ} (hn : n ≠ invalidSocket) {d : Daemon} (hl : d.lost = false) :
    fdActions (onAccept n d : List (Action F) × Daemon).1 =
      .accept n :: dropped d.sockClient ++ [.epollAdd n] := by
  have hsends : fdActions ((welcome ++ [promptText]).map (.send n) : List (Action F)) = [] := rfl
  rw [onAccept_eq hn hl, fdActions_append, hsends, List.append_nil]
  by_cases hc : d.sockClient = invalidSocket <;> simp [fdActions, Action.isFd, dropped, hc]

/-- **The inversion of the loop body.** -/
theorem handle_handled (setup : Setup F) (e : Event) (answers : Answers) {d : Daemon}
    (h : d.lost = false) :
    Handled setup d e answers (fdActions (handle setup e answers d).1)
      (handle setup e answers d).2.sockClient := by
  unfold handle
  split_ifs with hhup herr hserv hacc hin
  · rw [fdActions_closeClient]
    exact .drop (.hangUp hhup.2.2 hhup.1)
  · rw [fdActions_closeClient]
    exact .drop (.error herr.2 herr.1)
  · exact .keep
  · rw [fdActions_onAccept hacc h, onAccept_eq hacc h]
    exact .replace hserv hacc
  · cases hrecv : answers.recv with
    | none =>
      simp only [fdActions_closeClient]
      exact .drop (.recv hin.2 hin.1 hrecv)
    | some c =>
      rcases leaves_onChar setup answers.callback c d with
        ⟨hf, hc⟩ | ⟨hbye, hne, hf, hc⟩
      · simp only [hf, hc]
        exact .keep
      · have hd := Handled.drop (.bye hin.2 hin.1 hrecv hbye)
        rw [dropped, if_neg hne] at hd
        simp only [hf, hc]
        exact hd
  · rw [fdActions_closeClient]
    exact .unmatched ⟨hserv, hhup, herr, hin⟩

/-- What an event on the listening socket does. -/
theorem handle_sockServ {d : Daemon} {x : Event × Answers} (hc : d.sockClient ≠ setup.sockServ)
    (hfd : x.1.fd = setup.sockServ) :
    handle setup x.1 x.2 d =
      if x.2.accept = invalidSocket then ([], d) else onAccept x.2.accept d := by
  have hown : d.sockClient ≠ x.1.fd := fun h => hc (h.trans hfd)
  rw [handle, if_neg fun h => hown h.2.2, if_neg fun h => hown h.2, if_pos hfd]

/-! ## The tables along a run -/

/-- The descriptors that are open while the client is `c`. -/
def clientFds (c : ℤ) : Finset ℤ := if c = invalidSocket then ∅ else {c}

/-- **The invariant.** The client is the only accepted descriptor open and
the only one registered beside the listening socket. -/
structure Tables (setup : Setup F) (w : World) : Prop where
  open_eq : w.openFds = clientFds w.daemon.sockClient
  registered_eq : w.registered = insert setup.sockServ (clientFds w.daemon.sockClient)
  client_ne : w.daemon.sockClient ≠ setup.sockServ

theorem tables_start (setup : Setup F) : Tables setup (World.start setup) where
  open_eq := rfl
  registered_eq := rfl
  client_ne := fun h => setup.listening h.symm

theorem clientFds_of_ne {c : ℤ} (h : c ≠ invalidSocket) : clientFds c = {c} := if_neg h

theorem mem_clientFds {c fd : ℤ} : fd ∈ clientFds c ↔ c = fd ∧ fd ≠ invalidSocket := by
  unfold clientFds
  split_ifs with h
  · simp only [Finset.notMem_empty, false_iff]
    rintro ⟨rfl, hne⟩
    exact hne h
  · rw [Finset.mem_singleton]
    exact ⟨fun hfd => ⟨hfd.symm, hfd ▸ h⟩, fun hfd => hfd.1.symm⟩

theorem notMem_dropped {c : ℤ} {s : Finset ℤ} (h : c ∉ s) : (s ∪ clientFds c).erase c = s := by
  ext fd
  simp only [Finset.mem_erase, Finset.mem_union, mem_clientFds]
  constructor
  · rintro ⟨hne, hfd | ⟨rfl, -⟩⟩
    · exact hfd
    · exact absurd rfl hne
  · exact fun hfd => ⟨fun heq => h (heq ▸ hfd), Or.inl hfd⟩

/-- Dropping the client releases what it had open, and nothing else. -/
theorem dropped_uses {c : ℤ} {s : Finset ℤ} (h : c ∉ s) :
    Use.Sound (s ∪ clientFds c) (uses (dropped c : List (Action F))) ∧
      Use.held (s ∪ clientFds c) (uses (dropped c : List (Action F))) = s := by
  by_cases hc : c = invalidSocket
  · subst hc
    exact ⟨trivial, Finset.union_empty s⟩
  · have hu : uses (dropped c : List (Action F)) = [.release c] := by
      simp [dropped, Action.use, hc]
    rw [hu, Use.sound_release, Use.held_release, notMem_dropped h]
    exact ⟨⟨by simp [mem_clientFds, hc], trivial⟩, rfl⟩

/-- It is forgotten by `epoll` as well. -/
theorem dropped_registrations {c : ℤ} {s : Finset ℤ} (h : c ∉ s) :
    Use.held (s ∪ clientFds c) (registrations (dropped c : List (Action F))) = s := by
  by_cases hc : c = invalidSocket
  · subst hc
    exact Finset.union_empty s
  · have hu : registrations (dropped c : List (Action F)) = [.release c] := by
      simp [dropped, Action.registration, hc]
    rw [hu, Use.held_release, notMem_dropped h, Use.held_nil]

section Event

variable {d : Daemon} {e : Event} {answers : Answers} {acts : List (Action F)} {c' : ℤ}

/-- What handling an event does to the open descriptors, beside those in
`s`. -/
theorem Handled.uses_sound (h : Handled setup d e answers acts c') {s : Finset ℤ}
    (hc : d.sockClient ∉ s)
    (hfresh : answers.accept = invalidSocket ∨ answers.accept ∉ s ∪ clientFds d.sockClient) :
    Use.Sound (s ∪ clientFds d.sockClient) (uses acts) ∧
      Use.held (s ∪ clientFds d.sockClient) (uses acts) = s ∪ clientFds c' := by
  have hdrop := dropped_uses (F := F) hc
  have hinvalid : clientFds invalidSocket = ∅ := rfl
  cases h with
  | keep => exact ⟨trivial, rfl⟩
  | drop _ => rwa [hinvalid, Finset.union_empty]
  | unmatched _ => rwa [hinvalid, Finset.union_empty]
  | replace _ hacc =>
    have hn := hfresh.resolve_left hacc
    have hnc : d.sockClient ∉ insert answers.accept s := by
      rw [Finset.mem_insert, not_or]
      refine ⟨fun heq => hn (Finset.mem_union_right s ?_), hc⟩
      exact mem_clientFds.mpr ⟨heq, hacc⟩
    have hu : uses (.accept answers.accept :: dropped d.sockClient ++
        [.epollAdd answers.accept] : List (Action F)) =
          .acquire answers.accept :: uses (dropped d.sockClient : List (Action F)) := by
      simp [Action.use]
    have hnew : s ∪ clientFds answers.accept = insert answers.accept s := by
      rw [clientFds_of_ne hacc, Finset.union_comm, Finset.insert_eq]
    rw [hu, Use.sound_acquire, Use.held_acquire, ← Finset.insert_union, hnew]
    exact ⟨⟨hn, (dropped_uses hnc).1⟩, (dropped_uses hnc).2⟩

/-- What it does to the registered ones. -/
theorem Handled.registrations_held (h : Handled setup d e answers acts c')
    (hc : d.sockClient ≠ setup.sockServ) :
    Use.held (insert setup.sockServ (clientFds d.sockClient)) (registrations acts) =
      insert setup.sockServ (clientFds c') := by
  have hs : d.sockClient ∉ ({setup.sockServ} : Finset ℤ) := by rwa [Finset.mem_singleton]
  have hdrop := dropped_registrations (F := F) hs
  rw [← Finset.insert_eq] at hdrop
  cases h with
  | keep => rfl
  | drop _ => exact hdrop
  | unmatched _ => exact hdrop
  | replace _ hacc =>
    have hu : registrations (.accept answers.accept :: dropped d.sockClient ++
        [.epollAdd answers.accept] : List (Action F)) =
          registrations (dropped d.sockClient : List (Action F)) ++
            [.acquire answers.accept] := by
      simp [Action.registration]
    rw [hu, Use.held_append, hdrop, Use.held_acquire, Use.held_nil, clientFds_of_ne hacc,
      Finset.pair_comm]

/-- The client left is a descriptor `accept` has just returned, if it is
not the one before. -/
theorem Handled.client_notMem (h : Handled setup d e answers acts c') {s : Finset ℤ}
    (hinvalid : invalidSocket ∉ s) (hc : d.sockClient ∉ s)
    (hfresh : answers.accept = invalidSocket ∨ answers.accept ∉ s) : c' ∉ s := by
  cases h with
  | keep => exact hc
  | drop _ => exact hinvalid
  | unmatched _ => exact hinvalid
  | replace _ hacc => exact hfresh.resolve_left hacc

/-- It is never the listening socket. -/
theorem Handled.client_ne (h : Handled setup d e answers acts c')
    (hc : d.sockClient ≠ setup.sockServ)
    (hserv : answers.accept = invalidSocket ∨ answers.accept ≠ setup.sockServ) :
    c' ≠ setup.sockServ := by
  have hne : ∀ fd, fd ∉ ({setup.sockServ} : Finset ℤ) ↔ fd ≠ setup.sockServ :=
    fun fd => not_congr Finset.mem_singleton
  exact (hne c').mp (h.client_notMem ((hne _).mpr setup.listening.symm) ((hne _).mpr hc)
    (hserv.imp_right (hne _).mpr))

end Event

/-- **The step lemma.** A step of the world is sound and keeps the
tables. -/
theorem worldMachine_step_tables {w : World} {x : Event × Answers} (hw : Tables setup w)
    (hx : AcceptFresh setup w x) :
    Use.Sound w.openFds (uses ((worldMachine setup).step w x).1) ∧
      Tables setup ((worldMachine setup).step w x).2 := by
  obtain ⟨hopen, hreg, hne⟩ := hw
  by_cases hrun : w.daemon.Running
  · have hh := handle_handled setup x.1 x.2 hrun.1
    have hfresh : x.2.accept = invalidSocket ∨ x.2.accept ∉ clientFds w.daemon.sockClient :=
      hx.imp_right fun h => hopen ▸ h.2.1
    have hnone : w.daemon.sockClient ∉ (∅ : Finset ℤ) := Finset.notMem_empty _
    obtain ⟨hs, hheld⟩ := hh.uses_sound hnone (by rwa [Finset.empty_union])
    rw [uses_fdActions, Finset.empty_union] at hs hheld
    rw [Finset.empty_union] at hheld
    have hregs := hh.registrations_held hne
    rw [registrations_fdActions] at hregs
    simp only [worldMachine, daemonMachine_step hrun]
    refine ⟨hopen ▸ hs, ⟨?_, ?_, hh.client_ne hne (hx.imp_right fun h => h.2.2)⟩⟩
    · rw [hopen, hheld]
    · rw [hreg, hregs]
  · simp only [worldMachine, daemonMachine_step_halted hrun]
    exact ⟨trivial, hopen, hreg, hne⟩

/-- **The run lemma.** -/
theorem worldMachine_run {w : World} {xs : List (Event × Answers)} (hw : Tables setup w)
    (hv : (worldMachine setup).Valid (AcceptFresh setup) w xs) :
    Tables setup ((worldMachine setup).after w xs) ∧
      Use.Sound w.openFds (uses ((worldMachine setup).outs w xs)) ∧
      Use.held w.openFds (uses ((worldMachine setup).outs w xs)) =
        ((worldMachine setup).after w xs).openFds := by
  induction xs generalizing w with
  | nil => exact ⟨hw, trivial, rfl⟩
  | cons x xs ih =>
    obtain ⟨hs, ht⟩ := worldMachine_step_tables hw hv.1
    obtain ⟨htables, hsound, hheld⟩ := ih ht hv.2
    rw [Machine.outs_cons, uses_append, Use.sound_append, Use.held_append, Machine.after_cons]
    exact ⟨htables, ⟨hs, hsound⟩, hheld⟩

/-! ## One client -/

/-- What one event closes, given the world it is handled in. -/
structure ClosesClient (acts : List (Action F)) (w w' : World) : Prop where
  /-- A valid descriptor that is closed is the current client. -/
  only : ∀ fd, .close fd ∈ acts → fd ≠ invalidSocket → fd = w.daemon.sockClient
  /-- The client is closed once if it stops being the client, else not. -/
  once : w.daemon.sockClient ≠ invalidSocket →
    (uses acts).count (.release w.daemon.sockClient) =
      if w'.daemon.sockClient = w.daemon.sockClient then 0 else 1

/-- **What is promised of a run** of the daemon over the events `xs`. -/
structure OneClient (setup : Setup F) (xs : List (Event × Answers)) : Prop where
  /-- The accepted descriptors still open are the client. -/
  open_eq : ((worldMachine setup).after (.start setup) xs).openFds =
    clientFds ((worldMachine setup).after (.start setup) xs).daemon.sockClient
  /-- No descriptor is accepted while open or closed while not. -/
  sound : Use.Sound ∅ (uses ((worldMachine setup).outs (.start setup) xs))
  /-- Each is closed as often as accepted, once less while it is the
  client. -/
  balance : ∀ fd, (uses ((worldMachine setup).outs (.start setup) xs)).count (.acquire fd) =
    (uses ((worldMachine setup).outs (.start setup) xs)).count (.release fd) +
      if fd ∈ clientFds ((worldMachine setup).after (.start setup) xs).daemon.sockClient
      then 1 else 0
  /-- Every event closes at most the client it found. -/
  closes : ∀ pre x post, xs = pre ++ x :: post →
    ClosesClient ((worldMachine setup).step ((worldMachine setup).after (.start setup) pre) x).1
      ((worldMachine setup).after (.start setup) pre)
      ((worldMachine setup).step ((worldMachine setup).after (.start setup) pre) x).2

theorem Handled.closes {d : Daemon} {e : Event} {answers : Answers} {acts : List (Action F)}
    {c' : ℤ} (h : Handled setup d e answers acts c')
    (hfresh : answers.accept = invalidSocket ∨ answers.accept ∉ clientFds d.sockClient) :
    (∀ fd, .close fd ∈ acts → fd ≠ invalidSocket → fd = d.sockClient) ∧
      (d.sockClient ≠ invalidSocket →
        (uses acts).count (.release d.sockClient) = if c' = d.sockClient then 0 else 1) := by
  have honly : ∀ fd, .close fd ∈ (dropped d.sockClient : List (Action F)) →
      fd = d.sockClient := by
    intro fd hfd
    by_cases hc : d.sockClient = invalidSocket
    · simp [dropped, hc] at hfd
    · simpa [dropped, hc] using hfd
  cases h with
  | keep => exact ⟨fun fd hfd => (List.not_mem_nil hfd).elim, fun _ => (if_pos rfl).symm⟩
  | drop _ | unmatched _ =>
    refine ⟨fun fd hfd _ => honly fd hfd, fun hc => ?_⟩
    simp [dropped, Action.use, hc, hc.symm]
  | replace _ hacc =>
    refine ⟨fun fd hfd _ => honly fd (by simpa using hfd), fun hc => ?_⟩
    have hne : answers.accept ≠ d.sockClient :=
      fun heq => hfresh.resolve_left hacc (mem_clientFds.mpr ⟨heq.symm, hacc⟩)
    simp [dropped, Action.use, hc, hne]

theorem worldMachine_step_closes {w : World} {x : Event × Answers} (hw : Tables setup w)
    (hx : AcceptFresh setup w x) :
    ClosesClient ((worldMachine setup).step w x).1 w ((worldMachine setup).step w x).2 := by
  by_cases hrun : w.daemon.Running
  · have hfresh : x.2.accept = invalidSocket ∨ x.2.accept ∉ clientFds w.daemon.sockClient :=
      hx.imp_right fun h => hw.open_eq ▸ h.2.1
    obtain ⟨honly, honce⟩ := (handle_handled setup x.1 x.2 hrun.1).closes hfresh
    rw [uses_fdActions] at honce
    simp only [worldMachine, daemonMachine_step hrun]
    exact ⟨fun fd hfd hne => honly fd (mem_fdActions_close.mpr ⟨hfd, hne⟩) hne, honce⟩
  · simp only [worldMachine, daemonMachine_step_halted hrun]
    exact ⟨fun fd hfd _ => (List.not_mem_nil hfd).elim, fun _ => (if_pos rfl).symm⟩

/-- **At most one client, and no descriptor leaked or closed twice**, over
every run the kernel's promise about `accept` holds of. -/
theorem oneClient (setup : Setup F) {xs : List (Event × Answers)}
    (hv : (worldMachine setup).Valid (AcceptFresh setup) (.start setup) xs) :
    OneClient setup xs := by
  obtain ⟨ht, hs, hheld⟩ := worldMachine_run (tables_start setup) hv
  refine ⟨ht.open_eq, hs, fun fd => ?_, fun pre x post hxs => ?_⟩
  · have hcount := hs.count fd
    rw [hheld, ht.open_eq] at hcount
    exact hcount
  · subst hxs
    obtain ⟨hpre, hrest⟩ := (worldMachine setup).valid_append.mp hv
    exact worldMachine_step_closes (worldMachine_run (tables_start setup) hpre).1 hrest.1

/-- A client is replaced, its successor says `bye`, and the number of the
first is given out again. -/
theorem oneClient_reused :
    OneClient plainSetup
      [(⟨3, 1⟩, { accept := 5 }), (⟨3, 1⟩, { accept := 6 }), (⟨6, 1⟩, { recv := some 98 }),
        (⟨6, 1⟩, { recv := some 121 }), (⟨6, 1⟩, { recv := some 101 }),
        (⟨6, 1⟩, { recv := some 13 }), (⟨3, 1⟩, { accept := 5 }), (⟨5, 1⟩, {})] :=
  oneClient _ (by decide)

end TelnetServ
