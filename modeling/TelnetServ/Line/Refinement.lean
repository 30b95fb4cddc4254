import TelnetServ.Line.Model
import Mathlib.Data.List.Induction
/-!
# The line editor — the reference line

What the editor is for: a list of bytes that grows with every typed byte,
loses its last byte on backspace and is emptied by the return. `refStep`
is that list's step, and `Holds` how an array and a counter hold it. One
step of the switch keeps the representation as long as the counter can
count the line (`represents_step`); `unsigned char` ends at 255, so the
run lemma `represents_after` needs that bound and `lineFaithful_iff` shows
it is exactly what is needed, along with two accidents of the return: an
echo formatted with `%s`, and a blank test that does not come back.
-/

namespace TelnetServ

open CStr

/-! ## The reference -/

/-- **One byte on the reference line.** -/
def refStep (line : List UInt8) (c : UInt8) : List UInt8 :=
  if c ∈ ignoredChars then line
  else if c = returnChar then []
  else if c = backspaceChar then line.dropLast
  else if line.length < maxCommandLength then line ++ [c]
  else []

/-- The reference line after a sequence of bytes. -/
def refLine (bs : List UInt8) : List UInt8 := bs.foldl refStep []

@[simp] theorem refLine_concat (bs : List UInt8) (c : UInt8) :
    refLine (bs ++ [c]) = refStep (refLine bs) c := by simp [refLine]

theorem refStep_ignored {line : List UInt8} {c : UInt8} (h : c ∈ ignoredChars) :
    refStep line c = line := if_pos h

@[simp] theorem refStep_return (line : List UInt8) : refStep line returnChar = [] := rfl

theorem refStep_text_eq {line : List UInt8} {c : UInt8} (h : IsText c) :
    refStep line c = if line.length < maxCommandLength then line ++ [c] else [] := by
  rw [refStep, if_neg h.1, if_neg h.2.1, if_neg h.2.2]

theorem refStep_text {line : List UInt8} {c : UInt8} (h : IsText c)
    (hlen : line.length < maxCommandLength) : refStep line c = line ++ [c] := by
  rw [refStep_text_eq h, if_pos hlen]

/-- Text that fits is the reference line. -/
theorem refLine_text {bs : List UInt8} (h : ∀ c ∈ bs, IsText c)
    (hlen : bs.length ≤ maxCommandLength) : refLine bs = bs := by
  induction bs using List.reverseRecOn with
  | nil => rfl
  | append_singleton bs c ih =>
    rw [List.length_append, List.length_singleton] at hlen
    have hbs := ih (fun c hc => h c (List.mem_append_left _ hc)) (by omega)
    rw [refLine_concat, hbs, refStep_text (h c (by simp)) (by omega)]

/-- **An array and a counter hold a line**: the counter is its length, the
array starts with its bytes, and the rest of the array is zero. -/
structure Holds (command : List UInt8) (cmdLen : UInt8) (line : List UInt8) : Prop where
  length : cmdLen.toNat = line.length
  bytes : command.take cmdLen.toNat = line
  zeros : ∀ b ∈ command.drop cmdLen.toNat, b = 0

/-- The editor's state holds a line. -/
def Represents (s : LineState) (line : List UInt8) : Prop := Holds s.command.toList s.cmdLen line

theorem holds_iff {command : List UInt8} (hsize : command.length = maxCommandLength) {n : UInt8}
    {line : List UInt8} :
    Holds command n line ↔ n.toNat = line.length ∧ command = padded maxCommandLength line := by
  rw [eq_padded_iff hsize]
  constructor
  · rintro ⟨hlen, hbytes, hzeros⟩
    rw [hlen] at hbytes hzeros
    exact ⟨hlen, hbytes, hzeros⟩
  · rintro ⟨hlen, hbytes, hzeros⟩
    exact ⟨hlen, by rwa [hlen], by rwa [hlen]⟩

theorem represents_iff {s : LineState} {line : List UInt8} :
    Represents s line ↔
      s.cmdLen.toNat = line.length ∧ s.command.toList = padded maxCommandLength line :=
  holds_iff (by simp)

theorem Represents.length_le {s : LineState} {line : List UInt8} (h : Represents s line) :
    line.length ≤ 255 := by
  have := h.length
  have := s.cmdLen.toNat_lt
  omega

/-- The buffer's first byte is the line's. -/
theorem Represents.deref_command {s : LineState} {line : List UInt8} (h : Represents s line) :
    deref s.command.toList = deref line := by
  rw [(represents_iff.mp h).2, deref_padded]

theorem represents_clearedLine {left : UInt8} :
    Represents (clearedLine left) [] ↔ left = 0 := by
  rw [represents_iff, padded_nil]
  simp only [clearedLine, clearedCommand, Vector.toList_replicate, List.length_nil, and_true]
  exact ⟨fun h => UInt8.toNat_inj.mp h, fun h => by rw [h]; rfl⟩

/-! ## One step -/

theorem represents_onDefault {s : LineState} {line : List UInt8} {c : UInt8}
    (h : Represents s line) (hlen : line.length < 255) :
    Represents (onDefault s c).2 (line ++ [c]) := by
  obtain ⟨hn, hcmd⟩ := represents_iff.mp h
  rw [onDefault_eq, represents_iff]
  constructor
  · rw [UInt8.toNat_add, hn, List.length_append, List.length_singleton, UInt8.toNat_one,
      Nat.mod_eq_of_lt (by omega)]
  · rw [Vector.toList_set, hcmd, hn, set_padded (lt_maxCommandLength hlen.le)]

theorem represents_onBackspace {s : LineState} {line : List UInt8} (h : Represents s line) :
    Represents (onBackspace s).2 line.dropLast := by
  obtain ⟨hn, hcmd⟩ := represents_iff.mp h
  rcases List.eq_nil_or_concat line with rfl | ⟨front, c, rfl⟩
  · -- an empty line: the counter is already zero
    have h0 : s.cmdLen ≤ 0 := by rw [UInt8.le_iff_toNat_le, hn]; exact le_rfl
    rw [onBackspace, if_pos h0]
    exact h
  · have hle := h.length_le
    rw [List.concat_eq_append, List.length_append, List.length_singleton] at hn hle
    have hpos : ¬ s.cmdLen ≤ 0 := by rw [UInt8.le_iff_toNat_le, hn]; simp
    have hpred : (s.cmdLen - 1).toNat = front.length := by
      rw [UInt8.toNat_sub_of_le _ _ (by rw [UInt8.le_iff_toNat_le, hn]; simp), hn]
      simp
    rw [List.concat_eq_append] at hcmd ⊢
    rw [List.dropLast_concat, onBackspace, if_neg hpos, represents_iff]
    refine ⟨hpred, ?_⟩
    have hlt : front.length < maxCommandLength := lt_maxCommandLength (by omega)
    simp only [hpred, dif_pos hlt]
    rw [Vector.toList_set, hcmd, set_zero_padded hlt]

/-- The return comes back, with the line cleared, unless the line starts
with a blank. -/
theorem onReturn_state {s : LineState} (hb : deref s.command.toList ≠ blankChar) :
    (onReturn s).2 = clearedLine 0 := by
  by_cases h0 : deref s.command.toList = 0
  · rw [onReturn, isNullStr_zero h0]
  · rw [onReturn, isNullStr_other h0 hb]

theorem onReturn_stuck {s : LineState} (hb : deref s.command.toList = blankChar) :
    (onReturn s).2 = { s with stuck := true } := by
  rw [onReturn, isNullStr_blank hb]

/-- Only the return can leave the thread inside `isNullStr`. -/
theorem switchCmdChar_stuck {s : LineState} {c : UInt8} (h : c ≠ returnChar) :
    (switchCmdChar s c).2.stuck = s.stuck := by
  rcases byte_cases c with hi | rfl | rfl | ht
  · rw [switchCmdChar_ignored hi]
  · exact absurd rfl h
  · rw [switchCmdChar_backspace, onBackspace]
    split_ifs <;> rfl
  · rw [switchCmdChar_text ht, onDefault_eq]

/-- **One byte keeps the representation**, on a line the counter can
count, unless it is a return on a line that starts with a blank. -/
theorem represents_step {s : LineState} {line : List UInt8} {c : UInt8} (h : Represents s line)
    (hlen : (refStep line c).length ≤ 255) (hb : c = returnChar → deref line ≠ blankChar) :
    Represents (switchCmdChar s c).2 (refStep line c) := by
  rcases byte_cases c with hi | rfl | rfl | ht
  · rw [switchCmdChar_ignored hi, refStep_ignored hi]
    exact h
  · rw [switchCmdChar_return, onReturn_state (by rw [h.deref_command]; exact hb rfl),
      refStep_return]
    exact represents_clearedLine.mpr rfl
  · exact represents_onBackspace h
  · have hmax := lt_maxCommandLength h.length_le
    rw [refStep_text ht hmax, List.length_append, List.length_singleton] at hlen
    rw [switchCmdChar_text ht, refStep_text ht hmax]
    exact represents_onDefault h (by omega)

/-! ## Whole runs -/

/-- The lines a byte sequence types stay within what an `unsigned char`
counts. -/
def LinesFit (bs : List UInt8) : Prop := ∀ pre, pre <+: bs → (refLine pre).length ≤ 255

/-- Every line the sequence ends with a return has a property. -/
def EveryLine (P : List UInt8 → Prop) (bs : List UInt8) : Prop :=
  ∀ pre, pre ++ [returnChar] <+: bs → P (refLine pre)

theorem LinesFit.of_prefix {pre bs : List UInt8} (h : LinesFit bs) (hp : pre <+: bs) :
    LinesFit pre :=
  fun _ hq => h _ (hq.trans hp)

theorem EveryLine.of_prefix {P : List UInt8 → Prop} {pre bs : List UInt8} (h : EveryLine P bs)
    (hp : pre <+: bs) : EveryLine P pre :=
  fun _ hq => h _ (hq.trans hp)

/-- **The editor holds the reference line**, over any sequence of bytes
whose lines fit the counter and, where ended, do not start with a blank. -/
theorem represents_after {bs : List UInt8} (hfit : LinesFit bs)
    (hline : EveryLine (fun line => deref line ≠ blankChar) bs) :
    Represents (lineMachine.after (clearedLine 0) bs) (refLine bs) ∧
      (lineMachine.after (clearedLine 0) bs).stuck = false := by
  induction bs using List.reverseRecOn with
  | nil => exact ⟨represents_clearedLine.mpr rfl, rfl⟩
  | append_singleton bs c ih =>
    have hpre : bs <+: bs ++ [c] := List.prefix_append _ _
    obtain ⟨hrep, hrun⟩ := ih (hfit.of_prefix hpre) (hline.of_prefix hpre)
    have hb : c = returnChar → deref (refLine bs) ≠ blankChar := by
      rintro rfl
      exact hline bs (List.prefix_refl _)
    have hlen := hfit (bs ++ [c]) (List.prefix_refl _)
    rw [refLine_concat] at hlen ⊢
    rw [Machine.after_concat, lineMachine_step hrun]
    refine ⟨represents_step hrep hlen hb, ?_⟩
    by_cases hc : c = returnChar
    · subst hc
      rw [switchCmdChar_return, onReturn_state (by rw [hrep.deref_command]; exact hb rfl)]
      rfl
    · exact (switchCmdChar_stuck hc).trans hrun

/-- Typed text is the line. -/
theorem represents_typed {bs : List UInt8} (htext : ∀ c ∈ bs, IsText c) (hlen : bs.length ≤ 255) :
    Represents (lineMachine.after (clearedLine 0) bs) bs ∧
      (lineMachine.after (clearedLine 0) bs).stuck = false := by
  have hpre : ∀ pre, pre <+: bs → refLine pre = pre := fun pre hp =>
    refLine_text (fun c hc => htext c (hp.subset hc))
      (hp.length_le.trans (lt_maxCommandLength hlen).le)
  have hfit : LinesFit bs := fun pre hp => by
    rw [hpre pre hp]
    exact hp.length_le.trans hlen
  have hnoReturn : EveryLine (fun line => deref line ≠ blankChar) bs := fun pre hp =>
    absurd rfl (htext returnChar (hp.subset (by simp))).2.1
  have h := represents_after hfit hnoReturn
  rwa [hpre bs List.prefix_rfl] at h

/-! ## A counter left behind -/

/-- **Text typed behind a counter at `left`**, into a cleared buffer. As far as
the counter counts, the line begins with as many NULs; from there on it starts
again from the front. -/
structure TypedBehind (left : UInt8) (bs : List UInt8) (s : LineState) : Prop where
  running : s.stuck = false
  length : s.cmdLen.toNat = (left.toNat + bs.length) % 256
  within : left.toNat + bs.length ≤ 256 →
    s.command.toList = padded maxCommandLength (List.replicate left.toNat 0 ++ bs)
  wrapped : 256 ≤ left.toNat + bs.length →
    s.command.toList.take s.cmdLen.toNat = bs.drop (256 - left.toNat)

theorem TypedBehind.onDefault {left : UInt8} {bs : List UInt8} {s : LineState}
    (h : TypedBehind left bs s) (hlen : bs.length < 255) (c : UInt8) :
    TypedBehind left (bs ++ [c]) (onDefault s c).2 := by
  have hcmdLen := h.length
  have hleft := left.toNat_lt
  have hbs : (bs ++ [c]).length = bs.length + 1 := by
    rw [List.length_append, List.length_singleton]
  have hcount : (s.cmdLen + 1).toNat = (left.toNat + (bs.length + 1)) % 256 := by
    rw [UInt8.toNat_add, UInt8.toNat_one, hcmdLen]
    omega
  rw [onDefault_eq]
  refine ⟨h.running, by rw [hbs]; exact hcount, fun hle => ?_, fun hge => ?_⟩
  · have hfill : (List.replicate left.toNat (0 : UInt8) ++ bs).length = s.cmdLen.toNat := by
      rw [List.length_append, List.length_replicate]
      omega
    have hlt : s.cmdLen.toNat < maxCommandLength := cmdLen_lt s
    rw [Vector.toList_set, h.within (by omega), ← List.append_assoc, ← hfill,
      set_padded (by rwa [hfill])]
  · dsimp only
    rw [hcount, Vector.toList_set]
    rw [hbs] at hge
    by_cases heq : left.toNat + (bs.length + 1) = 256
    · -- the counter has just come round
      rw [heq, Nat.mod_self, List.take_zero, List.drop_eq_nil_of_le (by omega)]
    · have hwrapped := h.wrapped (by omega)
      have hmod : (left.toNat + (bs.length + 1)) % 256 = s.cmdLen.toNat + 1 := by omega
      have hsize : s.cmdLen.toNat < s.command.toList.length := by
        rw [Vector.length_toList]
        exact cmdLen_lt s
      rw [hmod, List.take_add_one, List.take_set_of_le (Nat.le_refl _), hwrapped,
        List.getElem?_set_self hsize, List.drop_append_of_le_length (by omega)]
      rfl

/-- **Any text**, shorter than the counter counts. -/
theorem typedBehind {bs : List UInt8} (left : UInt8) (htext : ∀ c ∈ bs, IsText c)
    (hlen : bs.length ≤ 255) : TypedBehind left bs (lineMachine.after (clearedLine left) bs) := by
  induction bs using List.reverseRecOn with
  | nil =>
    refine ⟨rfl, (Nat.mod_eq_of_lt left.toNat_lt).symm, fun _ => ?_, fun hge => ?_⟩
    · rw [List.append_nil]
      show clearedCommand.toList = _
      rw [clearedCommand, Vector.toList_replicate, padded, List.length_replicate,
        ← List.replicate_add]
      congr 1
      exact (Nat.add_sub_of_le (lt_maxCommandLength (Nat.le_of_lt_succ left.toNat_lt)).le).symm
    · exact absurd left.toNat_lt (Nat.not_lt.mpr hge)
  | append_singleton bs c ih =>
    rw [List.length_append, List.length_singleton] at hlen
    have h := ih (fun d hd => htext d (List.mem_append_left _ hd)) (by omega)
    rw [Machine.after_concat, lineMachine_step h.running, switchCmdChar_text (htext c (by simp))]
    exact h.onDefault (by omega) c

/-! ## Faithful editing -/

/-- The calls the editor makes at the byte `c` after the bytes `pre`, when
the buffer was cleared under a counter at `left`. -/
def callsAt (left : UInt8) (pre : List UInt8) (c : UInt8) : List LineCall :=
  (lineMachine.step (lineMachine.after (clearedLine left) pre) c).1

/-- **The editor is faithful on a session**: after every byte it holds the
reference line, every return echoes that line and, unless it is empty, hands
it to `CmdParse` once, and whatever is dispatched is that line, a full one
included. -/
structure LineFaithful (left : UInt8) (bs : List UInt8) : Prop where
  represents : ∀ pre, pre <+: bs →
    Represents (lineMachine.after (clearedLine left) pre) (refLine pre)
  echoed : ∀ pre, pre ++ [returnChar] <+: bs →
    (callsAt left pre returnChar).filterMap LineCall.text? = [refLine pre ++ ascii "\r\n"]
  handed : ∀ pre, pre ++ [returnChar] <+: bs → refLine pre ≠ [] → ∃ pchCmd byCmdLen,
    (callsAt left pre returnChar).filterMap LineCall.handed? = [(pchCmd, byCmdLen)] ∧
      Holds pchCmd byCmdLen (refLine pre)
  dispatched : ∀ pre c, pre ++ [c] <+: bs → ∀ pchCmd byCmdLen,
    LineCall.cmdParse pchCmd byCmdLen ∈ callsAt left pre c → Holds pchCmd byCmdLen (refLine pre)
  full : ∀ pre c, pre ++ [c] <+: bs → IsText c → (refLine pre).length = maxCommandLength →
    ∃ pchCmd byCmdLen, LineCall.cmdParse pchCmd byCmdLen ∈ callsAt left pre c

/-- A line the return reads back: no NUL to cut the echo, no blank to hold
up the blank test. -/
def Returnable (line : List UInt8) : Prop := 0 ∉ line ∧ deref line ≠ blankChar

/-- What a call to `CmdParse` carries is the state it is made in. -/
theorem cmdParse_mem_switch {s : LineState} {c : UInt8} {pchCmd : List UInt8} {byCmdLen : UInt8}
    (h : LineCall.cmdParse pchCmd byCmdLen ∈ (switchCmdChar s c).1) :
    pchCmd = s.command.toList ∧ byCmdLen = s.cmdLen := by
  rcases byte_cases c with hi | rfl | rfl | ht
  · simp [switchCmdChar_ignored hi] at h
  · rw [switchCmdChar_return, onReturn] at h
    split at h <;> simp at h
    exact h
  · rw [switchCmdChar_backspace, onBackspace] at h
    split at h <;> simp at h
  · simp [switchCmdChar_text ht, onDefault_eq] at h

/-- The return echoes the line up to its first NUL. -/
theorem echo_onReturn {s : LineState} {line : List UInt8} (h : Represents s line) :
    (onReturn s).1.filterMap LineCall.text? = [cstr line ++ ascii "\r\n"] := by
  rw [onReturn, h.bytes]
  split <;> rfl

/-- A line with anything in it, and no NUL, does not begin with one. -/
theorem deref_ne_zero {line : List UInt8} (hne : line ≠ []) (h0 : 0 ∉ line) : deref line ≠ 0 := by
  obtain ⟨c, line, rfl⟩ := List.exists_cons_of_ne_nil hne
  exact fun hc => h0 (hc ▸ List.mem_cons_self)

/-- **The return hands over** a line that begins with neither a NUL nor a
blank. -/
theorem handed_onReturn {s : LineState} {line : List UInt8} (h : Represents s line)
    (h0 : deref line ≠ 0) (hb : deref line ≠ blankChar) :
    (onReturn s).1.filterMap LineCall.handed? = [(s.command.toList, s.cmdLen)] := by
  rw [onReturn, isNullStr_other]
  · rfl
  · rwa [h.deref_command]
  · rwa [h.deref_command]

/-- A thread that has lost itself in `isNullStr` no longer holds the
reference line, so a faithful session never loses it. -/
theorem LineFaithful.running {left : UInt8} {bs pre : List UInt8} (h : LineFaithful left bs)
    (hp : pre <+: bs) : (lineMachine.after (clearedLine left) pre).stuck = false := by
  induction pre using List.reverseRecOn with
  | nil => rfl
  | append_singleton pre c ih =>
    have hpre : pre <+: bs := (List.prefix_append _ _).trans hp
    have hrun := ih hpre
    rw [Machine.after_concat, lineMachine_step hrun]
    by_cases hc : c = returnChar
    · subst hc
      by_cases hb : deref (lineMachine.after (clearedLine left) pre).command.toList = blankChar
      · -- the counter kept the blank, the reference line is empty
        exfalso
        have hrep := h.represents _ hp
        rw [Machine.after_concat, lineMachine_step hrun, switchCmdChar_return, onReturn_stuck hb,
          refLine_concat, refStep_return] at hrep
        have hempty : refLine pre = [] := by
          have h0 := (h.represents _ hpre).length
          rw [show _ = _ from hrep.length] at h0
          exact List.eq_nil_of_length_eq_zero h0.symm
        rw [(h.represents _ hpre).deref_command, hempty] at hb
        exact absurd hb (by decide)
      · rw [switchCmdChar_return, onReturn_state hb]
        rfl
    · exact (switchCmdChar_stuck hc).trans hrun

/-- **Exactly when the editor is faithful.** The counter must have been
zero when the client was accepted, no line may outgrow an `unsigned char`,
and no line ended by a return may hold a NUL or start with a blank. -/
theorem lineFaithful_iff (left : UInt8) (bs : List UInt8) :
    LineFaithful left bs ↔ left = 0 ∧ LinesFit bs ∧ EveryLine Returnable bs := by
  constructor
  · intro h
    refine ⟨represents_clearedLine.mp (h.represents [] List.nil_prefix),
      fun pre hp => (h.represents pre hp).length_le, fun pre hp => ?_⟩
    have hpre : pre <+: bs := (List.prefix_append _ _).trans hp
    have hrep := h.represents pre hpre
    have hrun := h.running hpre
    constructor
    · have hecho := h.echoed pre hp
      rw [callsAt, lineMachine_step hrun, switchCmdChar_return, echo_onReturn hrep] at hecho
      exact cstr_eq_self_iff.mp (List.append_cancel_right (List.singleton_inj.mp hecho))
    · intro hb
      have hstuck := h.running hp
      rw [Machine.after_concat, lineMachine_step hrun, switchCmdChar_return,
        onReturn_stuck (by rw [hrep.deref_command]; exact hb)] at hstuck
      cases hstuck
  · rintro ⟨rfl, hfit, hline⟩
    have hafter : ∀ pre, pre <+: bs → Represents (lineMachine.after (clearedLine 0) pre)
        (refLine pre) ∧ (lineMachine.after (clearedLine 0) pre).stuck = false := fun pre hp =>
      represents_after (hfit.of_prefix hp) (EveryLine.of_prefix (fun q hq => (hline q hq).2) hp)
    have hstep : ∀ pre c, pre ++ [c] <+: bs → Represents (lineMachine.after (clearedLine 0) pre)
        (refLine pre) ∧ callsAt 0 pre c =
          (switchCmdChar (lineMachine.after (clearedLine 0) pre) c).1 := by
      intro pre c hp
      obtain ⟨hrep, hrun⟩ := hafter pre ((List.prefix_append _ _).trans hp)
      exact ⟨hrep, by rw [callsAt, lineMachine_step hrun]⟩
    refine ⟨fun pre hp => (hafter pre hp).1, fun pre hp => ?_, fun pre hp hne => ?_,
      fun pre c hp pchCmd n hmem => ?_, fun pre c hp _ hfull => ?_⟩
    · obtain ⟨hrep, hcalls⟩ := hstep pre returnChar hp
      rw [hcalls, switchCmdChar_return, echo_onReturn hrep, cstr_eq_self (hline pre hp).1]
    · obtain ⟨hrep, hcalls⟩ := hstep pre returnChar hp
      obtain ⟨h0, hb⟩ := hline pre hp
      refine ⟨_, _, ?_, hrep⟩
      rw [hcalls, switchCmdChar_return, handed_onReturn hrep (deref_ne_zero hne h0) hb]
    · obtain ⟨hrep, hcalls⟩ := hstep pre c hp
      rw [hcalls] at hmem
      obtain ⟨rfl, rfl⟩ := cmdParse_mem_switch hmem
      exact hrep
    · -- a full line is out of the counter's reach
      have := hfit pre ((List.prefix_append _ _).trans hp)
      rw [hfull] at this
      exact absurd this (by decide)

/-- The 256th byte of a line wraps the counter to zero. -/
theorem not_lineFaithful_256 : ¬ LineFaithful 0 (List.replicate 256 97) := by
  intro h
  have hfit := (h.represents _ (List.prefix_refl _)).length_le
  have htext : ∀ c ∈ List.replicate 256 (97 : UInt8), IsText c := by
    intro c hc
    rw [List.eq_of_mem_replicate hc]
    decide
  rw [refLine_text htext (by rw [List.length_replicate]; decide), List.length_replicate] at hfit
  exact absurd hfit (by decide)

end TelnetServ
