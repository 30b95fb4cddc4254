import TelnetServ.Command.Lexical
import TelnetServ.Command.Names
/-!
# Commands — the tokenizer loop, pass by pass

Two things the loop has to keep to: its index, which is an `unsigned char`
compared with a length that may be 256, and the ten slots of `atRawPara`,
which the `break` on the tenth word does not protect. `visitsAll_iff` and
`slotsInBounds_iff` say on which lines it does.
-/

namespace TelnetServ

open CStr Pairing

/-- The passes of the first loop of `RunCmd`, at most `n` of them. -/
def passes (n : ℕ) (szCmd : List UInt8) : List Tokens :=
  tokenTrace ((cstr szCmd).length + 1) n { szCmd := szCmd }

/-- **The loop stops, having visited every index** from 0 to that of the
terminator once and in order. -/
def VisitsAll (szCmd : List UInt8) : Prop :=
  ∃ n t, tokenize n szCmd = .done t ∧
    (passes n szCmd).map (fun t => t.count.toNat) = List.range ((cstr szCmd).length + 1)

/-- Every slot the loop writes to is one of the ten. -/
def WritesInBounds (szCmd : List UInt8) : Prop :=
  ∀ n, ∀ t ∈ passes n szCmd, ∀ k ∈ t.slotWritten, k < 10

/-- **The loop keeps to the slots**: it writes to none behind the ten, and
in the end they hold the first ten words in order. -/
structure SlotsInBounds (szCmd : List UInt8) : Prop where
  inBounds : WritesInBounds szCmd
  recorded : ∀ n t, tokenize n szCmd = .done t →
    t.atRawPara = slots ((wordSlots (cstr szCmd ++ [0])).take 10)

variable {t t' : Tokens} {cmdLen n m : ℕ}

/-! ## One pass -/

/-- No branch of the switch touches the index. -/
theorem switchByte_count (h : t.switchByte = .next t') : t'.count = t.count := by
  simp only [Tokens.switchByte, Tokens.startWord] at h
  split_ifs at h
  all_goals cases h
  all_goals rfl

/-- The pass writes behind the slots when the slot it picks is not one of
them. -/
theorem switchByte_overrun_iff :
    t.switchByte = .overrun ↔ ∃ k ∈ t.slotWritten, 10 ≤ k := by
  simp only [Tokens.switchByte, Tokens.startWord, Tokens.slotWritten]
  by_cases hq : t.byte t.count.toNat = apostrophe
  · rw [if_pos hq, if_pos (Or.inl hq)]
    split_ifs <;> simp
  by_cases hd : t.byte t.count.toNat = doubleQuote
  · rw [if_neg hq, if_pos hd, if_pos (Or.inr (Or.inl hd))]
    simp
  by_cases hsep : t.byte t.count.toNat ∈ separators
  · rw [if_neg hq, if_neg hd, if_pos hsep, if_pos (Or.inr (Or.inr hsep))]
    simp
  rw [if_neg hq, if_neg hd, if_neg hsep, if_neg (not_or.mpr ⟨hq, not_or.mpr ⟨hd, hsep⟩⟩)]
  by_cases hstart : 0 < t.count.toNat ∧ t.byte (t.count.toNat - 1) = 0
  · rw [if_pos hstart, if_pos hstart]
    by_cases hroom : t.paraNum < 10
    · rw [dif_pos hroom]
      simpa using hroom
    · rw [dif_neg hroom]
      simpa using hroom
  · rw [if_neg hstart, if_neg hstart]
    simp

/-! ## The whole loop -/

/-- The loop writes behind the slots when one of its passes does. -/
theorem tokenLoop_overrun_iff : tokenLoop cmdLen n t = .overrun ↔
    ∃ t' ∈ tokenTrace cmdLen n t, ∃ k ∈ t'.slotWritten, 10 ≤ k := by
  induction n generalizing t with
  | zero => simp [tokenLoop, tokenTrace]
  | succ n ih =>
    rw [tokenLoop, tokenTrace]
    by_cases hlt : t.count.toNat < cmdLen
    · rw [if_pos hlt, if_pos hlt, List.exists_mem_cons_iff, ← switchByte_overrun_iff]
      generalize hsw : t.switchByte = r
      rcases r with t₁ | _ | _
      · simpa using ih
      · simp
      · simp
    · rw [if_neg hlt, if_neg hlt]
      simp

/-- More passes than it takes change nothing. -/
theorem tokenLoop_mono (h : tokenLoop cmdLen n t ≠ .running) (hle : n ≤ m) :
    tokenLoop cmdLen m t = tokenLoop cmdLen n t := by
  induction n generalizing t m with
  | zero => exact absurd rfl h
  | succ n ih =>
    obtain ⟨k, rfl⟩ : ∃ k, m = k + 1 := ⟨m - 1, by omega⟩
    rw [tokenLoop] at h
    rw [tokenLoop, tokenLoop]
    by_cases hlt : t.count.toNat < cmdLen
    · rw [if_pos hlt] at h
      rw [if_pos hlt, if_pos hlt]
      generalize t.switchByte = r at h ⊢
      rcases r with t₁ | _ | _
      · exact ih h (by omega)
      · rfl
      · rfl
    · rw [if_neg hlt, if_neg hlt]

/-- The loop ends in one way. -/
theorem done_unique (h : tokenLoop cmdLen n t = .done t') {t'' : Tokens}
    (h' : tokenLoop cmdLen m t = .done t'') : t' = t'' := by
  have hn := tokenLoop_mono (by rw [h]; exact nofun) (Nat.le_max_left n m)
  have hm := tokenLoop_mono (by rw [h']; exact nofun) (Nat.le_max_right n m)
  rw [hn, h, h'] at hm
  exact TokenResult.done.inj hm

/-- **A bound of 256 is never reached** by an `unsigned char`. -/
theorem tokenLoop_ne_done (h : 256 ≤ cmdLen) : tokenLoop cmdLen n t ≠ .done t' := by
  induction n generalizing t with
  | zero => rintro ⟨⟩
  | succ n ih =>
    have hlt : t.count.toNat < cmdLen := lt_of_lt_of_le t.count.toNat_lt h
    rw [tokenLoop, if_pos hlt]
    generalize t.switchByte = r
    rcases r with t₁ | _ | _
    · exact ih
    · rintro ⟨⟩
    · rintro ⟨⟩

/-- **Below it the index goes up by one** at every pass, to the end. -/
theorem map_count_tokenTrace (hmax : cmdLen ≤ 255) (h : tokenLoop cmdLen n t = .done t') :
    (tokenTrace cmdLen n t).map (fun t => t.count.toNat) =
      List.range' t.count.toNat (cmdLen - t.count.toNat) := by
  induction n generalizing t with
  | zero => cases h
  | succ n ih =>
    rw [tokenLoop] at h
    rw [tokenTrace]
    by_cases hlt : t.count.toNat < cmdLen
    · rw [if_pos hlt] at h ⊢
      generalize hsw : t.switchByte = r at h ⊢
      rcases r with t₁ | _ | _
      · have hsucc : (t₁.count + 1).toNat = t.count.toNat + 1 := by
          rw [switchByte_count hsw, UInt8.toNat_add, UInt8.toNat_one, Nat.mod_eq_of_lt (by omega)]
        have hrest := ih h
        simp only [hsucc] at hrest
        rw [List.map_cons, hrest, ← List.range'_succ]
        congr 1
        omega
      · cases h
      · cases h
    · rw [if_neg hlt, Nat.sub_eq_zero_of_le (Nat.le_of_not_lt hlt)]
      rfl

/-! ## A loop that does not end

A pass that changes anything but the index cuts a byte or fills a slot, and
of both there are finitely many. A whole round of the index in which that
does not happen is one the loop repeats for good. -/

namespace Tokens

/-- What the passes can still change: bytes to cut, and slots to fill. -/
def todo (t : Tokens) : ℕ := (t.szCmd.take 256).countP (· ≠ 0) + (10 - t.paraNum)

theorem todo_cut_lt (h : t.byte t.count.toNat ≠ 0) : t.cut.todo < t.todo := by
  have hcount := t.count.toNat_lt
  have hlt : t.count.toNat < t.szCmd.length := by
    by_contra hge
    exact h (List.getD_eq_default _ _ (Nat.not_lt.mp hge))
  have hlt' : t.count.toNat < (t.szCmd.take 256).length := by
    rw [List.length_take]
    omega
  have hget : (t.szCmd.take 256)[t.count.toNat] = t.byte t.count.toNat := by
    rw [List.getElem_take, byte, List.getD_eq_getElem _ _ hlt]
  have hpos : 0 < (t.szCmd.take 256).countP (· ≠ 0) :=
    List.countP_pos_iff.mpr ⟨_, List.getElem_mem hlt', by rw [hget]; exact decide_eq_true h⟩
  have hset : ((t.szCmd.set t.count.toNat 0).take 256).countP (· ≠ 0) =
      (t.szCmd.take 256).countP (· ≠ 0) - 1 := by
    rw [List.take_set, List.countP_set hlt', hget]
    simp [h]
  show ((t.szCmd.set t.count.toNat 0).take 256).countP (· ≠ 0) + (10 - t.paraNum) < t.todo
  rw [hset, todo]
  omega

theorem startWord_todo {t' : Tokens} (h : t.startWord = .next t') :
    t' = t ∨ t'.todo < t.todo := by
  rw [startWord] at h
  split_ifs at h with hstart hroom
  · right
    cases h
    rw [todo, todo]
    dsimp only
    omega
  · left
    cases h
    rfl

theorem todo_le (szCmd : List UInt8) : ({ szCmd := szCmd } : Tokens).todo ≤ 266 := by
  have hcut : (szCmd.take 256).countP (· ≠ 0) ≤ 256 :=
    List.countP_le_length.trans (List.length_take_le _ _)
  exact Nat.add_le_add_right hcut 10

end Tokens

/-- **A pass changes nothing, or there is less to change behind it.** -/
theorem switchByte_todo (h : t.switchByte = .next t') : t' = t ∨ t'.todo < t.todo := by
  by_cases h0 : t.byte t.count.toNat = 0
  · -- a NUL is no mark and no separator
    refine t.startWord_todo ?_
    rw [← h, Tokens.switchByte, h0]
    rfl
  have hcut := t.todo_cut_lt h0
  simp only [Tokens.switchByte] at h
  by_cases hq : t.byte t.count.toNat = apostrophe
  · rw [if_pos hq] at h
    split_ifs at h <;> cases h <;> exact Or.inr hcut
  by_cases hd : t.byte t.count.toNat = doubleQuote
  · rw [if_neg hq, if_pos hd] at h
    cases h
    exact Or.inr hcut
  by_cases hsep : t.byte t.count.toNat ∈ separators
  · rw [if_neg hq, if_neg hd, if_pos hsep] at h
    cases h
    split_ifs
    · exact Or.inl rfl
    · exact Or.inr hcut
  · rw [if_neg hq, if_neg hd, if_neg hsep] at h
    exact t.startWord_todo h

/-- The loop goes on behind a pass. -/
theorem tokenLoop_next (hlt : t.count.toNat < cmdLen) (h : t.switchByte = .next t') :
    tokenLoop cmdLen (n + 1) t = tokenLoop cmdLen n { t' with count := t'.count + 1 } := by
  rw [tokenLoop, if_pos hlt, h]

/-- Or it ends in one. -/
theorem tokenLoop_stop (hlt : t.count.toNat < cmdLen) :
    (t.switchByte = .inputError → tokenLoop cmdLen (n + 1) t = .inputError) ∧
      (t.switchByte = .overrun → tokenLoop cmdLen (n + 1) t = .overrun) := by
  constructor <;> intro h <;> rw [tokenLoop, if_pos hlt, h]

/-- **Some passes of a loop whose bound is never reached** end it, or move the
index on and leave the rest as it was or with less to change. -/
theorem tokenLoop_passes (hmax : 256 ≤ cmdLen) (j : ℕ) (t : Tokens) :
    (∃ r, r ≠ TokenResult.running ∧ ∀ n, tokenLoop cmdLen (j + n) t = r) ∨
      ∃ t₁, (∀ n, tokenLoop cmdLen (j + n) t = tokenLoop cmdLen n t₁) ∧
        t₁.count = t.count + UInt8.ofNat j ∧
          ({ t₁ with count := t.count } = t ∨ t₁.todo < t.todo) := by
  induction j generalizing t with
  | zero => exact Or.inr ⟨t, fun n => by rw [Nat.zero_add], (UInt8.add_zero _).symm, Or.inl rfl⟩
  | succ j ih =>
    have hlt : t.count.toNat < cmdLen := lt_of_lt_of_le t.count.toNat_lt hmax
    simp only [Nat.add_right_comm j 1]
    cases hsw : t.switchByte with
    | inputError => exact Or.inl ⟨.inputError, (by rintro ⟨⟩), fun n => (tokenLoop_stop hlt).1 hsw⟩
    | overrun => exact Or.inl ⟨.overrun, (by rintro ⟨⟩), fun n => (tokenLoop_stop hlt).2 hsw⟩
    | next t' =>
      have hstep : ∀ n, tokenLoop cmdLen (j + n + 1) t =
          tokenLoop cmdLen (j + n) { t' with count := t'.count + 1 } :=
        fun n => tokenLoop_next hlt hsw
      rcases ih { t' with count := t'.count + 1 } with ⟨r, hr, hstop⟩ | ⟨t₁, hrun, hc, hless⟩
      · exact Or.inl ⟨r, hr, fun n => (hstep n).trans (hstop n)⟩
      · refine Or.inr ⟨t₁, fun n => (hstep n).trans (hrun n), ?_, ?_⟩
        · rw [hc, switchByte_count hsw, UInt8.ofNat_add, UInt8.add_assoc, UInt8.add_comm 1]
          rfl
        · have htodo : ({ t' with count := t'.count + 1 } : Tokens).todo = t'.todo := rfl
          rw [htodo] at hless
          rcases switchByte_todo hsw with rfl | hlt'
          · exact hless.imp_left fun heq =>
              congrArg (fun u : Tokens => { u with count := t'.count }) heq
          · refine Or.inr ?_
            rcases hless with heq | hlt₁
            · have hsame : t₁.todo = t'.todo := (congrArg Tokens.todo heq :)
              rwa [hsame]
            · exact hlt₁.trans hlt'

/-- What is still going after more passes was going before. -/
theorem running_of_le (h : tokenLoop cmdLen m t = .running) (hle : n ≤ m) :
    tokenLoop cmdLen n t = .running := by
  by_contra hn
  rw [tokenLoop_mono hn hle] at h
  exact hn h

/-- **A loop that has gone round once more than there is to change** never
ends. -/
theorem tokenLoop_endless (hmax : 256 ≤ cmdLen) {k : ℕ} (hk : t.todo ≤ k)
    (h : tokenLoop cmdLen (256 * (k + 1)) t = .running) : ∀ n, tokenLoop cmdLen n t = .running := by
  induction k using Nat.strongRecOn generalizing t with
  | ind k ih =>
    rw [Nat.mul_add_one, Nat.add_comm] at h
    rcases tokenLoop_passes hmax 256 t with ⟨r, hr, hstop⟩ | ⟨t₁, hrun, hcount, hless⟩
    · rw [hstop] at h
      exact absurd h hr
    have hround : t₁.count = t.count := by rw [hcount]; exact UInt8.add_zero _
    rcases hless with hsame | hlt
    · -- the round is repeated
      have heq : t₁ = t := by rw [← hsame, ← hround]
      subst heq
      intro n
      induction n using Nat.strongRecOn with
      | ind n ihn =>
        by_cases hn : n ≤ 256
        · exact running_of_le (hrun 0) hn
        · obtain ⟨m, rfl⟩ := Nat.exists_eq_add_of_lt (Nat.not_le.mp hn)
          rw [Nat.add_assoc, hrun]
          exact ihn (m + 1) (by omega)
    · have hend := ih (k - 1) (by omega) (t := t₁) (by omega) (by
        rw [hrun] at h
        rwa [show k - 1 + 1 = k by omega])
      intro n
      exact running_of_le ((hrun n).trans (hend n)) (Nat.le_add_left n 256)

/-- Below 256 the bound is reached. -/
theorem tokenLoop_ne_running (hmax : cmdLen ≤ 255) (hn : cmdLen - t.count.toNat < n) :
    tokenLoop cmdLen n t ≠ .running := by
  induction n generalizing t with
  | zero => exact absurd hn (Nat.not_lt_zero _)
  | succ n ih =>
    rw [tokenLoop]
    split_ifs with hlt
    · generalize hsw : t.switchByte = r
      rcases r with t₁ | _ | _
      · have hsucc : (t₁.count + 1).toNat = t.count.toNat + 1 := by
          rw [switchByte_count hsw, UInt8.toNat_add, UInt8.toNat_one, Nat.mod_eq_of_lt (by omega)]
        exact ih (by dsimp only; omega)
      · rintro ⟨⟩
      · rintro ⟨⟩
    · rintro ⟨⟩

/-- **`RunCmd` is called endless** exactly where its loop is. -/
theorem runCmd_endless_iff {F : Type*} (table : CmdFunTable F) (base : UInt64)
    (szCmd : List UInt8) :
    runCmd table base szCmd = .endless ↔ ∀ n, tokenize n szCmd = .running := by
  have hdispatch : ∀ line (slots : Vector TRawPara 10),
      dispatch table base line slots ≠ .endless := by
    intro line slots
    rw [dispatch]
    split_ifs
    · rintro ⟨⟩
    · rintro ⟨⟩
    · split <;> rintro ⟨⟩
  constructor
  · intro h
    have hrunning : tokenize maxTests szCmd = .running := by
      rw [runCmd, ← tokenize] at h
      generalize tokenize maxTests szCmd = r at h ⊢
      cases r with
      | done t =>
        dsimp only at h
        split_ifs at h
        exact absurd h (hdispatch _ _)
      | inputError => cases h
      | overrun => cases h
      | running => rfl
    by_cases hmax : 256 ≤ (cstr szCmd).length + 1
    · exact tokenLoop_endless hmax (Tokens.todo_le szCmd) hrunning
    · refine absurd hrunning (tokenLoop_ne_running (by omega) ?_)
      show (cstr szCmd).length + 1 - 0 < maxTests
      rw [maxTests]
      omega
  · intro h
    rw [runCmd, ← tokenize, h]

/-- **No function is called** for a line of 255 bytes or more. -/
theorem length_of_call {F : Type*} {table : CmdFunTable F} {base : UInt64} {szCmd : List UInt8}
    {func : F} {para : Vector UInt64 10} {line : List UInt8}
    (h : runCmd table base szCmd = .call func para line) : (cstr szCmd).length ≤ 254 := by
  by_contra hlong
  rw [runCmd] at h
  generalize hloop : tokenLoop ((cstr szCmd).length + 1) maxTests { szCmd := szCmd } = r at h
  cases r with
  | done t => exact tokenLoop_ne_done (by omega) hloop
  | inputError => cases h
  | overrun => cases h
  | running => cases h

/-! ## On a line of at most 254 bytes -/

variable {line rest : List UInt8}

/-- Whatever the loop comes to in some number of passes is what the scan
comes to. -/
theorem tokenize_rel (h0 : 0 ∉ line) (hlen : line.length ≤ 254)
    (h : tokenize n (line ++ 0 :: rest) ≠ .running) :
    TokenRel rest (tokenize n (line ++ 0 :: rest)) (({} : Scan).bytes (line ++ [0])) := by
  have hrel := tokenize_scan h0 hlen rest (n := max n 256) (by omega)
  rwa [tokenize, tokenLoop_mono h (Nat.le_max_left n 256)] at hrel

/-- **The loop ends** on the lines whose literals fit and which have at most
ten words. -/
theorem exists_done_iff (h0 : 0 ∉ line) (hlen : line.length ≤ 254) (rest : List UInt8) :
    (∃ n t, tokenize n (line ++ 0 :: rest) = .done t) ↔
      LiteralsFit line ∧ (wordStarts (line ++ [0])).length ≤ 10 := by
  rw [← literalsFit_concat_zero, ← bytes_next_iff (zero_notMem_dropLast h0)]
  constructor
  · rintro ⟨n, t, ht⟩
    have hrel := tokenize_rel h0 hlen (by rw [ht]; exact nofun)
    rw [ht] at hrel
    generalize ({} : Scan).bytes (line ++ [0]) = r at hrel ⊢
    cases hrel with
    | done h => exact ⟨_, rfl⟩
  · rintro ⟨s, hs⟩
    have hrel := tokenize_scan h0 hlen rest (n := 256) (by omega)
    rw [hs] at hrel
    generalize htok : tokenize 256 (line ++ 0 :: rest) = r at hrel
    cases hrel with
    | @done t _ h => exact ⟨256, t, htok⟩

/-- **Where the loop ends, it has read the line.** -/
theorem done_reads (h0 : 0 ∉ line) (hlen : line.length ≤ 254)
    (h : tokenize n (line ++ 0 :: rest) = .done t) :
    t.szCmd = cutText (line ++ [0]) ++ rest ∧ t.bStrStart = isOpen doubleQuote line ∧
      t.bCharStart = isOpen apostrophe line ∧ t.atRawPara = slots (wordSlots (line ++ [0])) ∧
      (wordStarts (line ++ [0])).length ≤ 10 := by
  have hrel := tokenize_rel h0 hlen (by rw [h]; exact nofun)
  have hout := textOutcome (line ++ [0]) (zero_notMem_dropLast h0)
  rw [h] at hrel
  generalize ({} : Scan).bytes (line ++ [0]) = r at hrel hout
  cases hrel with
  | done hscan =>
    cases hout with
    | next hfit hwords hreads =>
      refine ⟨?_, ?_, ?_, ?_, hwords⟩
      · rw [hscan.szCmd, hreads.out]
      · rw [hscan.inStr, hreads.inStr_line]
      · rw [hscan.inChar, hreads.inChar_line]
      · rw [hscan.atRawPara, hreads.words]

/-- The loop keeps to the slots when it does not come to an overrun. -/
theorem writesInBounds_iff {szCmd : List UInt8} :
    WritesInBounds szCmd ↔ ∀ n, tokenize n szCmd ≠ .overrun := by
  constructor
  · intro h n hn
    obtain ⟨t, ht, k, hk, hbehind⟩ := tokenLoop_overrun_iff.mp hn
    have := h n t ht k hk
    omega
  · intro h n t ht k hk
    by_contra hbehind
    exact h n (tokenLoop_overrun_iff.mpr ⟨t, ht, k, hk, by omega⟩)

/-- Then neither does the scan. -/
theorem bytes_ne_overrun (h0 : 0 ∉ line) (hlen : line.length ≤ 254)
    (h : WritesInBounds (line ++ 0 :: rest)) : ({} : Scan).bytes (line ++ [0]) ≠ .overrun := by
  intro hs
  have hrel := tokenize_scan h0 hlen rest (n := 256) (by omega)
  have hnot := writesInBounds_iff.mp h 256
  rw [hs] at hrel
  generalize tokenize 256 (line ++ 0 :: rest) = r at hrel hnot
  cases hrel with
  | overrun => exact hnot rfl

/-- **It stays below the slots' end** when at most ten words start before it
is through with the line or leaves it. -/
theorem writesInBounds_line_iff (h0 : 0 ∉ line) (hlen : line.length ≤ 254) (rest : List UInt8) :
    WritesInBounds (line ++ 0 :: rest) ↔
      ∀ p, p <+: line ++ [0] → LiteralsFit p → (wordStarts p).length ≤ 10 := by
  have hover := bytes_overrun_iff (zero_notMem_dropLast h0)
  constructor
  · intro h p hp hfit
    by_contra hmore
    exact bytes_ne_overrun h0 hlen h (hover.mpr ⟨p, hp, hfit, by omega⟩)
  · intro h
    refine writesInBounds_iff.mpr fun n hn => ?_
    have hrel := tokenize_rel h0 hlen (by rw [hn]; exact nofun)
    rw [hn] at hrel
    generalize ({} : Scan).bytes (line ++ [0]) = r at hrel hover
    cases hrel with
    | overrun =>
      obtain ⟨p, hp, hfit, hmore⟩ := hover.mp rfl
      have := h p hp hfit
      omega

/-! ## The strings `CmdParse` hands over -/

/-- A command string has a NUL within its first 256 bytes. -/
theorem cmdParse_terminated {pchCmd szCmd : List UInt8} {byCmdLen : UInt8}
    (h : cmdParse pchCmd byCmdLen = some szCmd) : ∃ i, i ≤ 255 ∧ szCmd[i]? = some 0 := by
  obtain ⟨nCpyLen, hcpy, hparse⟩ := exists_cmdParse pchCmd byCmdLen
  have hbound : nCpyLen < maxCommandLength := lt_maxCommandLength hcpy
  rw [hparse] at h
  refine ⟨nCpyLen, hcpy, ?_⟩
  rw [← Option.some.inj h, List.getElem?_set_self]
  rw [padded, List.length_append, List.length_replicate]
  omega

/-- **The loop visits every index once** exactly on the strings shorter than
255 bytes whose literals fit and which have at most ten words. -/
theorem visitsAll_iff {pchCmd szCmd : List UInt8} {byCmdLen : UInt8}
    (h : cmdParse pchCmd byCmdLen = some szCmd) :
    VisitsAll szCmd ↔ (cstr szCmd).length ≤ 254 ∧ LiteralsFit (cstr szCmd) ∧
      (wordStarts (cstr szCmd ++ [0])).length ≤ 10 := by
  obtain ⟨i, hi, hzero⟩ := cmdParse_terminated h
  have hmax : (cstr szCmd).length ≤ 255 := (length_cstr_le hzero).trans hi
  obtain ⟨rest, hrest⟩ := exists_eq_cstr_append (List.mem_of_getElem? hzero)
  have h0 : 0 ∉ cstr szCmd := zero_notMem_cstr
  by_cases hlen : (cstr szCmd).length ≤ 254
  · have hdone := exists_done_iff h0 hlen rest
    rw [← hrest] at hdone
    rw [and_iff_right hlen, ← hdone]
    constructor
    · rintro ⟨n, t, ht, -⟩
      exact ⟨n, t, ht⟩
    · rintro ⟨n, t, ht⟩
      refine ⟨n, t, ht, ?_⟩
      rw [passes, map_count_tokenTrace (by omega) ht, List.range_eq_range']
      rfl
  · -- the bound is 256, and the index wraps before it gets there
    refine iff_of_false ?_ fun h => hlen h.1
    rintro ⟨n, t, ht, -⟩
    exact tokenLoop_ne_done (by omega) ht

/-- The line `bye`. -/
theorem visitsAll_bye : VisitsAll (padded maxCommandLength (ascii "bye")) := by
  have hletters : ∀ c ∈ ascii "bye", IsAlnum c ∨ c = underscore := by
    show ∀ c ∈ [98, 121, 101], IsAlnum c ∨ c = underscore
    intro c hc
    simp only [List.mem_cons, List.not_mem_nil, or_false] at hc
    rcases hc with rfl | rfl | rfl <;> decide
  have hparse : cmdParse (padded maxCommandLength (ascii "bye")) 3 =
      some (padded maxCommandLength (stripped (ascii "bye"))) :=
    cmdParse_identifier hletters rfl
  have hstr : cstr (padded maxCommandLength (stripped (ascii "bye"))) = ascii "bye" := by
    rw [cstr_padded]
    rfl
  refine (visitsAll_iff hparse).mpr ?_
  rw [hstr]
  exact ⟨by decide, pairedWithin_of_notMem (by decide), by decide⟩

/-- **255 letters** are a name the loop never gets to the end of. -/
theorem not_visitsAll_letters :
    cmdParse (padded maxCommandLength (List.replicate 255 97)) 255 =
        some (padded maxCommandLength (List.replicate 255 97)) ∧
      ¬ VisitsAll (padded maxCommandLength (List.replicate 255 97)) := by
  have hletter : ∀ c ∈ List.replicate 255 (97 : UInt8), IsAlnum c ∨ c = underscore := by
    intro c hc
    rw [List.eq_of_mem_replicate hc]
    decide
  have hstripped : stripped (List.replicate 255 97) = List.replicate 255 97 :=
    stripped_eq_self (by decide)
  have h0 : (0 : UInt8) ∉ List.replicate 255 (97 : UInt8) := by
    intro h
    exact absurd (List.eq_of_mem_replicate h) (by decide)
  refine ⟨?_, ?_⟩
  · have hlen : (255 : UInt8).toNat = (List.replicate 255 (97 : UInt8)).length := by
      rw [List.length_replicate]
      rfl
    have hparse := cmdParse_identifier hletter hlen
    rwa [hstripped] at hparse
  · rintro ⟨n, t, ht, -⟩
    refine tokenLoop_ne_done ?_ ht
    rw [cstr_padded, cstr_eq_self h0, List.length_replicate]

/-- **The loop keeps to its slots** exactly on the lines where at most ten
words start before it is through or leaves at a literal that is too long. -/
theorem slotsInBounds_iff (h0 : 0 ∉ line) (hlen : line.length ≤ 254) (rest : List UInt8) :
    SlotsInBounds (line ++ 0 :: rest) ↔
      ∀ p, p <+: line ++ [0] → LiteralsFit p → (wordStarts p).length ≤ 10 := by
  have hbounds := writesInBounds_line_iff h0 hlen rest
  refine ⟨fun h => hbounds.mp h.inBounds, fun h => ⟨hbounds.mpr h, fun n t ht => ?_⟩⟩
  obtain ⟨-, -, -, hslots, hwords⟩ := done_reads h0 hlen ht
  rw [cstr_append_zero h0, hslots, List.take_of_length_le (by rw [length_wordSlots]; exact hwords)]

/-- A name and two words. -/
theorem slotsInBounds_two : SlotsInBounds (ascii "set 1,2" ++ 0 :: []) := by
  refine (slotsInBounds_iff (by decide) (by decide) []).mpr fun p hp _ => ?_
  refine (length_wordStarts_le hp).trans ?_
  decide

/-- **An eleventh word is written behind the slots.** -/
theorem not_slotsInBounds_eleven : ¬ SlotsInBounds (ascii "f 1 2 3 4 5 6 7 8 9 0 1" ++ [0]) := by
  intro h
  have hover : tokenize 30 (ascii "f 1 2 3 4 5 6 7 8 9 0 1" ++ [0]) = .overrun := rfl
  obtain ⟨t, ht, k, hk, hbehind⟩ := tokenLoop_overrun_iff.mp hover
  have := h.inBounds 30 t ht k hk
  omega

end TelnetServ
