import TelnetServ.Command.Model
import Mathlib.Data.List.GetD
/-!
# Commands — the tokenizer as a left-to-right scan

`tokenLoop` rewrites an array under a running index. Read from the left it
is a scan: what is behind the index has been rewritten (`Scan.out`), what
is ahead of it has not been touched. `tokenLoop_scan` is the simulation and
`runCmd_eq_scan` the equation the later files use: on a line of at most 254
bytes, `RunCmd` is the scan of the line and its terminator, followed by the
dispatch.
-/

namespace TelnetServ

open CStr Decimal

variable {F : Type*}

/-- The part of a line the tokenizer has visited. -/
structure Scan where
  /-- The visited bytes, as rewritten. -/
  out : List UInt8 := []
  inStr : Bool := false
  inChar : Bool := false
  chStart : ℕ := 0
  /-- The words begun so far. -/
  words : List TRawPara := []

namespace Scan

/-- Rewrite the next byte to `b`. -/
def push (s : Scan) (b : UInt8) : Scan := { s with out := s.out ++ [b] }

/-- **One byte of the scan.** -/
def byte (s : Scan) (c : UInt8) : PassResult Scan :=
  if c = apostrophe then
    if s.inChar ∧ s.chStart + 2 < s.out.length then .inputError
    else .next { s.push 0 with
      chStart := if s.inChar then s.chStart else s.out.length
      inChar := !s.inChar }
  else if c = doubleQuote then .next { s.push 0 with inStr := !s.inStr }
  else if c ∈ separators then .next (s.push (if s.inStr then c else 0))
  else if s.out.getLast? = some 0 then
    if s.words.length < 10 then
      .next { s.push c with words := s.words ++ [⟨some s.out.length, s.inStr, s.inChar⟩] }
    else .overrun
  else .next (s.push c)

/-- The scan of a list of bytes. -/
def bytes (s : Scan) : List UInt8 → PassResult Scan
  | [] => .next s
  | c :: cs =>
    match s.byte c with
    | .next s' => s'.bytes cs
    | .inputError => .inputError
    | .overrun => .overrun

/-- Every byte is rewritten to one byte. -/
theorem length_byte {s s' : Scan} {c : UInt8} (h : s.byte c = .next s') :
    s'.out.length = s.out.length + 1 := by
  unfold byte push at h
  split_ifs at h <;> cases h <;> simp

@[simp] theorem bytes_nil (s : Scan) : s.bytes [] = .next s := rfl

theorem bytes_cons {s s' : Scan} {c : UInt8} (h : s.byte c = .next s') (cs : List UInt8) :
    s.bytes (c :: cs) = s'.bytes cs := by rw [bytes, h]

theorem bytes_append {s s' : Scan} {as : List UInt8} (h : s.bytes as = .next s')
    (bs : List UInt8) : s.bytes (as ++ bs) = s'.bytes bs := by
  induction as generalizing s with
  | nil => cases h; rfl
  | cons a as ih =>
    rw [bytes] at h
    split at h
    · rename_i s₁ hs₁
      rw [List.cons_append, bytes_cons hs₁, ih h]
    · cases h
    · cases h

/-- What stops the scan stops it on every longer list. -/
theorem bytes_append_of_stop {s : Scan} {as : List UInt8} (h : ∀ s', s.bytes as ≠ .next s')
    (bs : List UInt8) : s.bytes (as ++ bs) = s.bytes as := by
  induction as generalizing s with
  | nil => exact absurd rfl (h s)
  | cons a as ih =>
    rw [List.cons_append, bytes, bytes]
    generalize hb : s.byte a = r at h ⊢
    rcases r with s₁ | _ | _
    · exact ih fun s' hs' => h s' (by rw [bytes_cons hb, hs'])
    · rfl
    · rfl

end Scan

/-- The slots of `atRawPara` when these words have been recorded. -/
def slots (ws : List TRawPara) : Vector TRawPara 10 := Vector.ofFn fun i => ws.getD i {}

theorem slots_nil : slots [] = Vector.replicate 10 {} := by decide

theorem getElem_slots {ws : List TRawPara} {i : ℕ} (h : i < 10) :
    (slots ws)[i] = ws.getD i {} := by simp [slots]

/-- Recording a word fills the next slot. -/
theorem set_slots {ws : List TRawPara} (p : TRawPara) (h : ws.length < 10) :
    (slots ws).set ws.length p = slots (ws ++ [p]) := by
  ext i hi : 1
  rw [getElem_slots hi, Vector.getElem_set]
  split
  · rename_i hw
    subst hw
    simp
  · rename_i hne
    rw [getElem_slots hi]
    rcases lt_or_gt_of_ne (Ne.symm hne) with hlt | hgt
    · rw [List.getD_append _ _ _ _ hlt]
    · rw [List.getD_eq_default _ _ (by omega),
        List.getD_eq_default _ _ (by rw [List.length_append, List.length_singleton]; omega)]

/-! ## The simulation -/

/-- The loop's locals and the scan agree, with `rest` still ahead. -/
structure ScanRel (t : Tokens) (s : Scan) (rest : List UInt8) : Prop where
  szCmd : t.szCmd = s.out ++ rest
  count : t.count.toNat = s.out.length
  chStart : t.chStartCnt.toNat = s.chStart
  inStr : t.bStrStart = s.inStr
  inChar : t.bCharStart = s.inChar
  atRawPara : t.atRawPara = slots s.words
  paraNum : t.paraNum = s.words.length

/-- Two passes come to the same thing, up to a relation on what they
continue with. -/
inductive PassRel {σ τ : Type*} (R : σ → τ → Prop) : PassResult σ → PassResult τ → Prop
  | next {t : σ} {s : τ} : R t s → PassRel R (.next t) (.next s)
  | inputError : PassRel R .inputError .inputError
  | overrun : PassRel R .overrun .overrun

theorem scanRel_init (line : List UInt8) : ScanRel { szCmd := line } {} line where
  szCmd := rfl
  count := rfl
  chStart := rfl
  inStr := rfl
  inChar := rfl
  atRawPara := slots_nil.symm
  paraNum := rfl

variable {t : Tokens} {s : Scan} {c : UInt8} {rest : List UInt8}

theorem ScanRel.byte_eq (h : ScanRel t s (c :: rest)) : t.byte t.count.toNat = c := by
  rw [Tokens.byte, h.szCmd, h.count]
  simp

/-- Stepping over the byte at the index, rewritten or not. -/
theorem ScanRel.count_succ (h : ScanRel t s (c :: rest)) (hlen : s.out.length < 255) :
    (t.count + 1).toNat = s.out.length + 1 := by
  rw [UInt8.toNat_add, h.count, UInt8.toNat_one, Nat.mod_eq_of_lt (by omega)]

theorem ScanRel.keep (h : ScanRel t s (c :: rest)) : t.szCmd = s.out ++ [c] ++ rest := by
  rw [h.szCmd, List.append_assoc, List.singleton_append]

theorem ScanRel.cut (h : ScanRel t s (c :: rest)) : t.cut.szCmd = s.out ++ [0] ++ rest := by
  rw [Tokens.cut, h.szCmd, h.count, List.set_append_right _ _ le_rfl, Nat.sub_self,
    List.set_cons_zero, List.append_assoc, List.singleton_append]

/-- "Behind a NUL" reads the last rewritten byte. -/
theorem ScanRel.behind_nul (h : ScanRel t s rest) :
    (0 < t.count.toNat ∧ t.byte (t.count.toNat - 1) = 0) ↔ s.out.getLast? = some 0 := by
  rw [Tokens.byte, h.szCmd, h.count]
  rcases List.eq_nil_or_concat s.out with hout | ⟨front, b, hout⟩
  · simp [hout]
  · simp [hout]

/-- **One pass of the loop is one byte of the scan.** -/
theorem switchByte_scan (h : ScanRel t s (c :: rest)) (hlen : s.out.length < 255) :
    PassRel (fun t' s' => ScanRel { t' with count := t'.count + 1 } s' rest)
      t.switchByte (s.byte c) := by
  have hcount : (t.count + 1).toNat = (s.out ++ [c]).length := by
    rw [h.count_succ hlen, List.length_append, List.length_singleton]
  simp only [Tokens.switchByte, h.byte_eq, Scan.byte, Scan.push]
  by_cases hq : c = apostrophe
  · rw [if_pos hq, if_pos hq, h.inChar, h.chStart, h.count]
    -- both refuse a literal that is too long
    by_cases herr : s.inChar = true ∧ s.chStart + 2 < s.out.length
    · rw [if_pos herr, if_pos herr]
      exact PassRel.inputError
    · rw [if_neg herr, if_neg herr]
      refine PassRel.next ⟨h.cut, by simpa using h.count_succ hlen, ?_, h.inStr, rfl, h.atRawPara,
        h.paraNum⟩
      by_cases hch : s.inChar = true
      · simp [hch, h.chStart]
      · simp [hch, h.count]
  rw [if_neg hq, if_neg hq]
  by_cases hd : c = doubleQuote
  · rw [if_pos hd, if_pos hd]
    exact PassRel.next ⟨h.cut, by simpa using h.count_succ hlen, h.chStart, by simp [h.inStr],
      h.inChar, h.atRawPara, h.paraNum⟩
  rw [if_neg hd, if_neg hd]
  by_cases hsep : c ∈ separators
  · rw [if_pos hsep, if_pos hsep, h.inStr]
    refine PassRel.next ?_
    -- a separator stays inside a string and is cut outside
    by_cases hstr : s.inStr = true
    · simp only [hstr, if_true]
      exact ⟨h.keep, hcount, h.chStart, h.inStr.trans hstr, h.inChar, h.atRawPara, h.paraNum⟩
    · simp only [if_neg hstr]
      exact ⟨h.cut, by simpa using h.count_succ hlen, h.chStart, h.inStr, h.inChar,
        h.atRawPara, h.paraNum⟩
  rw [if_neg hsep, if_neg hsep, Tokens.startWord]
  by_cases hnul : s.out.getLast? = some 0
  · -- a byte behind a NUL starts a word, if a slot is left
    rw [if_pos (h.behind_nul.mpr hnul), if_pos hnul]
    by_cases hroom : s.words.length < 10
    · rw [dif_pos (by rw [h.paraNum]; exact hroom), if_pos hroom]
      refine PassRel.next ⟨h.keep, hcount, h.chStart, h.inStr, h.inChar, ?_, ?_⟩
      · rw [← set_slots _ hroom]
        simp only [h.atRawPara, h.paraNum, getElem_slots hroom,
          List.getD_eq_default s.words ({} : TRawPara) (le_refl s.words.length), h.count, h.inStr,
          h.inChar, Bool.false_or]
      · simp [h.paraNum]
    · rw [dif_neg (by rw [h.paraNum]; exact hroom), if_neg hroom]
      exact PassRel.overrun
  · rw [if_neg fun hn => hnul (h.behind_nul.mp hn), if_neg hnul]
    exact PassRel.next ⟨h.keep, hcount, h.chStart, h.inStr, h.inChar, h.atRawPara, h.paraNum⟩

/-- What the loop comes to, against what the scan comes to. -/
inductive TokenRel (rest : List UInt8) : TokenResult → PassResult Scan → Prop
  | done {t : Tokens} {s : Scan} : ScanRel t s rest → TokenRel rest (.done t) (.next s)
  | inputError : TokenRel rest .inputError .inputError
  | overrun : TokenRel rest .overrun .overrun

/-- **The loop is the scan** of the bytes below the bound, while the bound
is one an `unsigned char` can reach. -/
theorem tokenLoop_scan {cmdLen n : ℕ} (bs : List UInt8) {t : Tokens} {s : Scan}
    {rest : List UInt8} (h : ScanRel t s (bs ++ rest)) (hlen : s.out.length + bs.length = cmdLen)
    (hmax : cmdLen ≤ 255) (hn : bs.length < n) :
    TokenRel rest (tokenLoop cmdLen n t) (s.bytes bs) := by
  induction bs generalizing t s n with
  | nil =>
    obtain ⟨m, rfl⟩ : ∃ m, n = m + 1 := ⟨n - 1, by simp at hn; omega⟩
    rw [tokenLoop, if_neg (by rw [h.count]; simp at hlen; omega)]
    exact TokenRel.done h
  | cons c bs ih =>
    rw [List.length_cons] at hlen hn
    obtain ⟨m, rfl⟩ : ∃ m, n = m + 1 := ⟨n - 1, by omega⟩
    rw [tokenLoop, if_pos (by rw [h.count]; omega), Scan.bytes]
    have hpass := switchByte_scan h (by omega)
    generalize hsw : t.switchByte = r at hpass ⊢
    generalize hsb : s.byte c = r' at hpass ⊢
    cases hpass with
    | next hrel => exact ih hrel (by rw [Scan.length_byte hsb]; omega) (by omega)
    | inputError => exact TokenRel.inputError
    | overrun => exact TokenRel.overrun

/-- The end of `RunCmd`, once the scan of the line is through. -/
def finish (cmdFunTable : CmdFunTable F) (base : UInt64) (rest : List UInt8) :
    PassResult Scan → RunOutcome F
  | .next s =>
    if s.inStr || s.inChar then .refused
    else dispatch cmdFunTable base (s.out ++ rest) (slots s.words)
  | .inputError => .refused
  | .overrun => .overrun

/-- The first loop of `RunCmd` on a command string, of at most `n` passes. -/
def tokenize (n : ℕ) (szCmd : List UInt8) : TokenResult :=
  tokenLoop ((cstr szCmd).length + 1) n { szCmd := szCmd }

/-- **On a line of at most 254 bytes the loop is the scan** of the line and
its terminator. -/
theorem tokenize_scan {line : List UInt8} (h0 : 0 ∉ line) (hlen : line.length ≤ 254)
    (rest : List UInt8) {n : ℕ} (hn : line.length + 1 < n) :
    TokenRel rest (tokenize n (line ++ 0 :: rest)) (({} : Scan).bytes (line ++ [0])) := by
  have hinit : ScanRel { szCmd := line ++ 0 :: rest } {} ((line ++ [0]) ++ rest) := by
    rw [List.append_assoc]
    exact scanRel_init _
  rw [tokenize, cstr_append_zero h0]
  exact tokenLoop_scan (line ++ [0]) hinit (by simp) (by omega)
    (by rw [List.length_append, List.length_singleton]; omega)

/-- **`RunCmd` scans and dispatches**, on every line of at most 254 bytes. -/
theorem runCmd_eq_scan (cmdFunTable : CmdFunTable F) (base : UInt64) {line : List UInt8}
    (h0 : 0 ∉ line) (hlen : line.length ≤ 254) (rest : List UInt8) :
    runCmd cmdFunTable base (line ++ 0 :: rest) =
      finish cmdFunTable base rest (({} : Scan).bytes (line ++ [0])) := by
  have hrel := tokenize_scan h0 hlen rest (n := maxTests) (by rw [maxTests]; omega)
  rw [runCmd, ← tokenize]
  generalize tokenize maxTests (line ++ 0 :: rest) = r at hrel ⊢
  generalize ({} : Scan).bytes (line ++ [0]) = r' at hrel ⊢
  cases hrel with
  | done h => simp only [finish, h.inStr, h.inChar, h.szCmd, h.atRawPara]
  | inputError => rfl
  | overrun => rfl

/-! ## What the scan does to runs of bytes -/

/-- A byte that is neither a quote mark nor a separator. -/
def IsWordByte (c : UInt8) : Prop := c ≠ apostrophe ∧ c ≠ doubleQuote ∧ c ∉ separators

theorem isWordByte_alnum {c : UInt8} (h : IsAlnum c) : IsWordByte c ∧ c ≠ 0 := by
  simp only [IsAlnum, IsDigit, IsWordByte, apostrophe, doubleQuote, separators, blankChar, tabChar,
    newlineChar, List.mem_cons, List.not_mem_nil, or_false, UInt8.le_iff_toNat_le,
    ← UInt8.toNat_inj, UInt8.reduceToNat, ne_eq, not_or] at *
  omega

namespace Scan

theorem byte_separator {s : Scan} {c : UInt8} (h : c ∈ separators) :
    s.byte c = .next (s.push (if s.inStr then c else 0)) := by
  have hq : c ≠ apostrophe := by rintro rfl; exact absurd h (by decide)
  have hd : c ≠ doubleQuote := by rintro rfl; exact absurd h (by decide)
  rw [byte, if_neg hq, if_neg hd, if_pos h]

theorem byte_doubleQuote (s : Scan) :
    s.byte doubleQuote = .next { s.push 0 with inStr := !s.inStr } := rfl

/-- A word byte behind a NUL begins a word. -/
theorem byte_begin {s : Scan} {c : UInt8} (h : IsWordByte c) (hnul : s.out.getLast? = some 0)
    (hroom : s.words.length < 10) :
    s.byte c =
      .next { s.push c with words := s.words ++ [⟨some s.out.length, s.inStr, s.inChar⟩] } := by
  rw [byte, if_neg h.1, if_neg h.2.1, if_neg h.2.2, if_pos hnul, if_pos hroom]

theorem byte_begin_full {s : Scan} {c : UInt8} (h : IsWordByte c) (hnul : s.out.getLast? = some 0)
    (hroom : ¬ s.words.length < 10) : s.byte c = .overrun := by
  rw [byte, if_neg h.1, if_neg h.2.1, if_neg h.2.2, if_pos hnul, if_neg hroom]

/-- Anywhere else it is only passed. -/
theorem byte_pass {s : Scan} {c : UInt8} (h : IsWordByte c) (hnul : s.out.getLast? ≠ some 0) :
    s.byte c = .next (s.push c) := by
  rw [byte, if_neg h.1, if_neg h.2.1, if_neg h.2.2, if_neg hnul]

/-- Within a word nothing is rewritten. -/
theorem bytes_word {w : List UInt8} (hw : ∀ c ∈ w, IsWordByte c ∧ c ≠ 0) {s : Scan}
    (hnul : s.out.getLast? ≠ some 0) : s.bytes w = .next { s with out := s.out ++ w } := by
  induction w generalizing s with
  | nil => simp
  | cons c w ih =>
    obtain ⟨hc, hc0⟩ := hw c List.mem_cons_self
    rw [bytes_cons (byte_pass hc hnul),
      ih (fun d hd => hw d (List.mem_cons_of_mem _ hd)) (by simpa [push] using hc0)]
    simp [push]

/-- Nor is anything rewritten within a string, quote marks aside. -/
theorem bytes_inStr {w : List UInt8} (hw : ∀ c ∈ w, c ≠ apostrophe ∧ c ≠ doubleQuote ∧ c ≠ 0)
    {s : Scan} (hstr : s.inStr = true) (hnul : s.out.getLast? ≠ some 0) :
    s.bytes w = .next { s with out := s.out ++ w } := by
  induction w generalizing s with
  | nil => simp
  | cons c w ih =>
    obtain ⟨hq, hd, hc0⟩ := hw c List.mem_cons_self
    have hbyte : s.byte c = .next (s.push c) := by
      by_cases hsep : c ∈ separators
      · rw [byte_separator hsep, if_pos hstr]
      · exact byte_pass ⟨hq, hd, hsep⟩ hnul
    rw [bytes_cons hbyte, ih (fun d hd => hw d (List.mem_cons_of_mem _ hd)) (s := s.push c) hstr
      (by simpa [push] using hc0)]
    simp [push]

/-- A byte is kept or cut, and a quote mark is cut. -/
theorem out_byte {s s' : Scan} {c : UInt8} (h : s.byte c = .next s') :
    ∃ b, s'.out = s.out ++ [b] ∧ (b = 0 ∨ (b = c ∧ c ≠ apostrophe ∧ c ≠ doubleQuote)) := by
  by_cases hq : c = apostrophe
  · rw [byte, if_pos hq] at h
    split_ifs at h
    all_goals cases h
    all_goals exact ⟨0, rfl, Or.inl rfl⟩
  by_cases hd : c = doubleQuote
  · rw [byte, if_neg hq, if_pos hd] at h
    cases h
    exact ⟨0, rfl, Or.inl rfl⟩
  by_cases hsep : c ∈ separators
  · rw [byte_separator hsep] at h
    cases h
    by_cases hstr : s.inStr = true
    · exact ⟨c, by rw [if_pos hstr]; rfl, Or.inr ⟨rfl, hq, hd⟩⟩
    · exact ⟨0, by rw [if_neg hstr]; rfl, Or.inl rfl⟩
  · rw [byte, if_neg hq, if_neg hd, if_neg hsep] at h
    split_ifs at h
    all_goals cases h
    all_goals exact ⟨c, rfl, Or.inr ⟨rfl, hq, hd⟩⟩

/-- **No apostrophe outlives the scan.** -/
theorem apostrophe_notMem_bytes {w : List UInt8} {s s' : Scan} (hs : apostrophe ∉ s.out)
    (h : s.bytes w = .next s') : apostrophe ∉ s'.out := by
  induction w generalizing s with
  | nil => cases h; exact hs
  | cons c w ih =>
    rw [bytes] at h
    split at h
    · rename_i s₁ hs₁
      obtain ⟨b, hout, hb⟩ := out_byte hs₁
      refine ih ?_ h
      rw [hout, List.mem_append, List.mem_singleton, not_or]
      refine ⟨hs, ?_⟩
      rcases hb with rfl | ⟨rfl, hq, -⟩
      · decide
      · exact Ne.symm hq
    · cases h
    · cases h

end Scan

end TelnetServ
