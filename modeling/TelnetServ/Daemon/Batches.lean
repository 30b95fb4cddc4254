import TelnetServ.Daemon.Descriptors
/-!
# The daemon thread — batches of events

`epoll_wait` hands over up to three events at a time, and `sockClient_`
can change while they are handled. An event is for cause if the client it
closes is closed on an event of its own or replaced by `accept`. Within a
batch this fails in one way: an `accept` replaces the client, and an event
the old client still has in the batch reaches the last branch, which
closes whoever is the client by then. `closedForCause_iff` is that
equivalence over every run of batches.
-/

namespace TelnetServ

variable {F : Type*} {setup : Setup F}

/-- `TELE_FD_NUM`. -/
abbrev teleFdNum : ℕ := 3

/-- The only flags reported for a descriptor registered for `EPOLLIN`. -/
abbrev reportedFlags : UInt32 := epollIn ||| epollErr ||| epollHup

/-- **A batch `epoll_wait` can return** to a daemon in the world `w`. -/
structure BatchOk (setup : Setup F) (w : World) (batch : List (Event × Answers)) : Prop where
  running : w.daemon.Running
  length_le : batch.length ≤ teleFdNum
  registered : ∀ x ∈ batch, x.1.fd ∈ w.registered
  distinct : (batch.map fun x => x.1.fd).Nodup
  flags : ∀ x ∈ batch, x.1.events ≠ 0 ∧ x.1.events &&& reportedFlags = x.1.events
  fresh : (worldMachine setup).Valid (AcceptFresh setup) w batch

instance (w : World) (batch : List (Event × Answers)) : Decidable (BatchOk setup w batch) :=
  decidable_of_iff (w.daemon.Running ∧ batch.length ≤ teleFdNum ∧
      (∀ x ∈ batch, x.1.fd ∈ w.registered) ∧ (batch.map fun x => x.1.fd).Nodup ∧
      (∀ x ∈ batch, x.1.events ≠ 0 ∧ x.1.events &&& reportedFlags = x.1.events) ∧
      (worldMachine setup).Valid (AcceptFresh setup) w batch)
    ⟨fun ⟨h₁, h₂, h₃, h₄, h₅, h₆⟩ => ⟨h₁, h₂, h₃, h₄, h₅, h₆⟩,
      fun ⟨h₁, h₂, h₃, h₄, h₅, h₆⟩ => ⟨h₁, h₂, h₃, h₄, h₅, h₆⟩⟩

/-- **If the event closes the client it finds, it has cause to**: a reason
of the client's own, or an `accept` that replaces it. -/
def ClosedForCause (setup : Setup F) (w : World) (x : Event × Answers) : Prop :=
  w.daemon.sockClient ≠ invalidSocket →
    .close w.daemon.sockClient ∈ ((worldMachine setup).step w x).1 ∨
      ((worldMachine setup).step w x).2.daemon.sockClient ≠ w.daemon.sockClient →
    OwnClose setup w.daemon x.1 x.2 ∨
      (x.1.fd = setup.sockServ ∧ x.2.accept ≠ invalidSocket)

/-- The batch has an `accept` that succeeds, and behind it an event on the
descriptor that was the client when the batch was taken. -/
def Stale (setup : Setup F) (w : World) (batch : List (Event × Answers)) : Prop :=
  ∃ x y, [x, y].Sublist batch ∧ x.1.fd = setup.sockServ ∧ x.2.accept ≠ invalidSocket ∧
    y.1.fd = w.daemon.sockClient

/-! ## One event -/

/-- Only the last branch closes the client without cause. -/
theorem closedForCause_of_matched {w : World} {x : Event × Answers}
    (h : ¬ Unmatched setup w.daemon x.1) : ClosedForCause setup w x := by
  intro hne hclosed
  by_cases hrun : w.daemon.Running
  · have hh := handle_handled setup x.1 x.2 hrun.1
    simp only [worldMachine, daemonMachine_step hrun] at hclosed
    have hclose : .close w.daemon.sockClient ∈ fdActions (handle setup x.1 x.2 w.daemon).1 ∨
        (handle setup x.1 x.2 w.daemon).2.sockClient ≠ w.daemon.sockClient :=
      hclosed.imp_left fun hmem => mem_fdActions_close.mpr ⟨hmem, hne⟩
    revert hclose
    generalize fdActions (handle setup x.1 x.2 w.daemon).1 = acts at hh ⊢
    generalize (handle setup x.1 x.2 w.daemon).2.sockClient = c' at hh ⊢
    cases hh with
    | keep => exact fun hc => (hc.elim List.not_mem_nil fun hne => hne rfl).elim
    | drop hown => exact fun _ => Or.inl hown
    | replace hfd hacc => exact fun _ => Or.inr ⟨hfd, hacc⟩
    | unmatched hun => exact absurd hun h
  · simp only [worldMachine, daemonMachine_step_halted hrun] at hclosed
    exact (hclosed.elim List.not_mem_nil fun hne => hne rfl).elim

/-- What the last branch does. -/
theorem handle_unmatched {d : Daemon} {x : Event × Answers} (h : Unmatched setup d x.1) :
    handle setup x.1 x.2 d = closeClient d := by
  rw [handle, if_neg h.notHup, if_neg h.notErr, if_neg h.notServ, if_neg h.notIn]

/-- **A foreign event that is handled closes the client without cause.** -/
theorem not_closedForCause {w : World} {x : Event × Answers} (hrun : w.daemon.Running)
    (hc : w.daemon.sockClient ≠ invalidSocket) (hserv : x.1.fd ≠ setup.sockServ)
    (hown : w.daemon.sockClient ≠ x.1.fd) : ¬ ClosedForCause setup w x := by
  intro h
  have hun : Unmatched setup w.daemon x.1 :=
    ⟨hserv, fun h => hown h.2.2, fun h => hown h.2, fun h => hown h.2⟩
  have hclosed : .close w.daemon.sockClient ∈ ((worldMachine setup).step w x).1 := by
    simp [worldMachine, daemonMachine_step hrun, handle_unmatched hun, closeClient]
  rcases h hc (Or.inl hclosed) with hcause | ⟨hfd, -⟩
  · cases hcause with
    | hangUp own _ | error own _ | recv own _ _ | bye own _ _ _ => exact hown own
  · exact hserv hfd

/-- An event that shows none of the flags the loop tests shows no reported
flag at all. -/
theorem events_eq_zero {events : UInt32} (hin : events &&& epollIn = 0)
    (hhup : events &&& epollHup = 0) (herr : events &&& (epollErr ||| pollNval) = 0)
    (hreported : events &&& reportedFlags = events) : events = 0 := by
  have herr' : events &&& epollErr = 0 := by
    have hmask : events &&& epollErr = (events &&& (epollErr ||| pollNval)) &&& epollErr := by
      rw [UInt32.and_assoc]
      rfl
    rw [hmask, herr, UInt32.zero_and]
  have hsplit : events &&& reportedFlags =
      (events &&& epollIn) ||| (events &&& epollErr) ||| (events &&& epollHup) := by
    apply UInt32.toBitVec_inj.mp
    simp only [UInt32.toBitVec_and, UInt32.toBitVec_or, BitVec.and_or_distrib_left]
  rw [← hreported, hsplit, hin, herr', hhup]
  rfl

/-- An event with a reported flag, on the client or the listening socket,
is matched by a branch of its own. -/
theorem not_unmatched {d : Daemon} {e : Event}
    (hflags : e.events ≠ 0 ∧ e.events &&& reportedFlags = e.events)
    (hfd : e.fd = setup.sockServ ∨ d.sockClient = e.fd) : ¬ Unmatched setup d e := by
  rintro ⟨hserv, hhup, herr, hin⟩
  have hown := hfd.resolve_left hserv
  have hin' : ¬ e.Has epollIn := fun h => hin ⟨h, hown⟩
  have hhup' : ¬ e.Has epollHup := fun h => hhup ⟨h, hin', hown⟩
  have herr' : ¬ e.Has (epollErr ||| pollNval) := fun h => herr ⟨h, hown⟩
  exact hflags.1 (events_eq_zero (not_not.mp hin') (not_not.mp hhup') (not_not.mp herr') hflags.2)

/-! ## One batch -/

section Batch

variable {w : World} {batch : List (Event × Answers)}

/-- A batch has events on the listening socket and the client only. -/
theorem BatchOk.fd_cases (hok : BatchOk setup w batch) (hw : Tables setup w)
    {x : Event × Answers} (hx : x ∈ batch) :
    x.1.fd = setup.sockServ ∨ w.daemon.sockClient = x.1.fd := by
  have hreg := hok.registered x hx
  rw [hw.registered_eq, Finset.mem_insert, mem_clientFds] at hreg
  exact hreg.imp_right And.left

/-- So there are at most two of them, one each. -/
theorem BatchOk.cases (hok : BatchOk setup w batch) (hw : Tables setup w) :
    batch.length ≤ 1 ∨ ∃ x y, batch = [x, y] ∧
      ((x.1.fd = setup.sockServ ∧ w.daemon.sockClient = y.1.fd) ∨
        (w.daemon.sockClient = x.1.fd ∧ y.1.fd = setup.sockServ)) := by
  have hfd := fun x hx => hok.fd_cases hw (x := x) hx
  have hnd := hok.distinct
  match batch with
  | [] => exact Or.inl (Nat.zero_le 1)
  | [_] => exact Or.inl le_rfl
  | [x, y] =>
    have hne : x.1.fd ≠ y.1.fd := by simpa using hnd
    refine Or.inr ⟨x, y, rfl, ?_⟩
    rcases hfd x (by simp) with hx | hx <;> rcases hfd y (by simp) with hy | hy
    · exact absurd (hx.trans hy.symm) hne
    · exact Or.inl ⟨hx, hy⟩
    · exact Or.inr ⟨hx, hy⟩
    · exact absurd (hx.symm.trans hy) hne
  | x :: y :: z :: rest =>
    simp only [List.map_cons, List.nodup_cons, List.mem_cons, not_or] at hnd
    obtain ⟨⟨hxy, hxz, -⟩, ⟨hyz, -⟩, -⟩ := hnd
    have hx := hfd x (by simp)
    have hy := hfd y (by simp)
    have hz := hfd z (by simp)
    omega

theorem not_stale_of_length {w : World} (h : batch.length ≤ 1) : ¬ Stale setup w batch := by
  rintro ⟨x, y, hsub, -⟩
  have := hsub.length_le
  simp only [List.length_cons, List.length_nil] at this
  omega

/-- The order of a batch of two. -/
theorem stale_pair_iff {x y : Event × Answers} :
    Stale setup w [x, y] ↔ x.1.fd = setup.sockServ ∧ x.2.accept ≠ invalidSocket ∧
      y.1.fd = w.daemon.sockClient := by
  constructor
  · rintro ⟨a, b, hsub, hrest⟩
    obtain ⟨rfl, rfl⟩ : a = x ∧ b = y := by simpa using hsub.eq_of_length rfl
    exact hrest
  · exact fun h => ⟨x, y, List.Sublist.refl _, h⟩

/-- The first event of a batch is matched. -/
theorem BatchOk.closedForCause_head (hw : Tables setup w) {x : Event × Answers}
    {rest : List (Event × Answers)} (hok : BatchOk setup w (x :: rest)) :
    ClosedForCause setup w x :=
  closedForCause_of_matched
    (not_unmatched (hok.flags x (by simp)) (hok.fd_cases hw (by simp)))

/-- **The batch lemma.** -/
theorem batch_closedForCause_iff (hw : Tables setup w) (hok : BatchOk setup w batch) :
    (worldMachine setup).Valid (ClosedForCause setup) w batch ↔ ¬ Stale setup w batch := by
  rcases hok.cases hw with hlen | ⟨x, y, rfl, hfds⟩
  · refine iff_of_true ?_ (not_stale_of_length hlen)
    match batch with
    | [] => exact trivial
    | [x] => exact ⟨hok.closedForCause_head hw, trivial⟩
  · rw [stale_pair_iff, Machine.valid_cons, Machine.valid_cons]
    have hx := hok.closedForCause_head hw
    have hyflags := hok.flags y (by simp)
    have hclient := hw.client_ne
    rcases hfds with ⟨hxfd, hyfd⟩ | ⟨hxfd, hyfd⟩
    · by_cases hacc : x.2.accept = invalidSocket
      · -- nothing was accepted: the client is still the owner of its event
        have hd : ((worldMachine setup).step w x).2.daemon = w.daemon := by
          simp [worldMachine, daemonMachine_step hok.running, handle_sockServ hclient hxfd, hacc]
        have hy : ClosedForCause setup ((worldMachine setup).step w x).2 y :=
          closedForCause_of_matched (not_unmatched hyflags (Or.inr (by rw [hd, hyfd])))
        exact iff_of_true ⟨hx, hy, trivial⟩ fun h => h.2.1 hacc
      · have hd : ((worldMachine setup).step w x).2.daemon =
            w.daemon.setTelnetClient x.2.accept := by
          simp [worldMachine, daemonMachine_step hok.running, handle_sockServ hclient hxfd, hacc,
            onAccept_eq hacc hok.running.1]
        have hnew : x.2.accept ≠ y.1.fd := by
          intro heq
          have hfresh := (hok.fresh.1.resolve_left hacc).2.1
          rw [hw.open_eq, mem_clientFds] at hfresh
          exact hfresh ⟨hyfd.trans heq.symm, hacc⟩
        have hy : ¬ ClosedForCause setup ((worldMachine setup).step w x).2 y :=
          not_closedForCause (by rw [hd]; exact hok.running) (by rw [hd]; exact hacc)
            (fun h => hclient (hyfd.trans h)) (by rw [hd]; exact hnew)
        exact iff_of_false (fun h => hy h.2.1) fun h => h ⟨hxfd, hacc, hyfd.symm⟩
    · -- the listening socket comes last: no event is foreign
      have hy : ClosedForCause setup ((worldMachine setup).step w x).2 y :=
        closedForCause_of_matched (not_unmatched hyflags (Or.inl hyfd))
      exact iff_of_true ⟨hx, hy, trivial⟩ fun h => hclient (hxfd.trans h.1)

end Batch

/-! ## Every run of batches -/

/-- **The daemon's machine over batches.** -/
abbrev batchMachine (setup : Setup F) : Machine World (List (Event × Answers)) (Action F) :=
  (worldMachine setup).batched

theorem batchMachine_step_tables {w : World} {batch : List (Event × Answers)}
    (hw : Tables setup w) (hok : BatchOk setup w batch) :
    Tables setup ((batchMachine setup).step w batch).2 :=
  (worldMachine_run hw hok.fresh).1

/-- **Every client is closed for cause exactly in the runs without a stale
event.** -/
theorem closedForCause_iff (setup : Setup F) {batches : List (List (Event × Answers))}
    (hok : (batchMachine setup).Valid (BatchOk setup) (.start setup) batches) :
    (batchMachine setup).Valid (fun w => (worldMachine setup).Valid (ClosedForCause setup) w)
        (.start setup) batches ↔
      (batchMachine setup).Valid (fun w batch => ¬ Stale setup w batch) (.start setup) batches :=
  Machine.Valid.iff _ (tables_start setup) hok
    (fun _ _ hw hbatch => batchMachine_step_tables hw hbatch)
    (fun _ _ hw hbatch => batch_closedForCause_iff hw hbatch)

/-- The old client's event comes first, then the connection that replaces
it. -/
theorem closedForCause_ordered :
    (batchMachine plainSetup).Valid
      (fun w => (worldMachine plainSetup).Valid (ClosedForCause plainSetup) w) (.start plainSetup)
      [[(⟨3, 1⟩, { accept := 5 })],
        [(⟨5, 1⟩, { recv := some 97 }), (⟨3, 1⟩, { accept := 6 })]] :=
  (closedForCause_iff _ (by decide)).mpr
    ⟨not_stale_of_length (by decide),
      fun h => absurd (stale_pair_iff.mp h).1 (by decide), trivial⟩

/-- **The other order closes the new client.** Client 5 has sent a byte and
another client connects; the new connection, descriptor 6, is closed on the
event of descriptor 5. -/
theorem not_closedForCause_stale :
    (batchMachine plainSetup).Valid (BatchOk plainSetup) (.start plainSetup)
      [[(⟨3, 1⟩, { accept := 5 })],
        [(⟨3, 1⟩, { accept := 6 }), (⟨5, 1⟩, { recv := some 97 })]] ∧
    ¬ (batchMachine plainSetup).Valid
      (fun w => (worldMachine plainSetup).Valid (ClosedForCause plainSetup) w) (.start plainSetup)
      [[(⟨3, 1⟩, { accept := 5 })],
        [(⟨3, 1⟩, { accept := 6 }), (⟨5, 1⟩, { recv := some 97 })]] :=
  ⟨by decide, fun h => not_closedForCause (by decide) (by decide) (by decide) (by decide) h.2.1.2.1⟩

end TelnetServ
