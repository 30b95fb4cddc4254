import TelnetServ.Command.Tokenizer
import TelnetServ.Command.Values
/-!
# Commands — bare and quoted words

A word that is a name may be written bare or between double quotes. The
quoted form is passed as its address, the bare one through `WordParse`,
which returns `int`: what arrives is the address if that survives the
narrowing, and not otherwise. Behind a closing quote the terminator counts as
a word, so the quoted form is called for one argument less
(`formsAgree_iff`).
-/

namespace TelnetServ

open CStr Pairing Decimal

variable {F : Type*}

/-- A word of letters and underscores. -/
structure IsPlainWord (w : List UInt8) : Prop where
  ne_nil : w ≠ []
  bytes : ∀ c ∈ w, (97 ≤ c ∧ c ≤ 122) ∨ (65 ≤ c ∧ c ≤ 90) ∨ c = underscore

/-- **Room for an argument** between `front` and `back`: nothing is open
behind `front`, whose last byte is cut, and what follows is cut as well. -/
structure Gap (front back : List UInt8) : Prop where
  endsCut : EndsCut front
  noString : isOpen doubleQuote front = false
  noLiteral : isOpen apostrophe front = false
  behind : ∀ c ∈ back.head?, c = apostrophe ∨ c = doubleQuote ∨ c ∈ separators

/-- **A line that calls `func`**, with room for an argument: its name is
registered, and no literal in it is too long or left open. How many words it
has is left open. -/
structure CallLine (table : CmdFunTable F) (func : F) (front back : List UInt8) : Prop where
  gap : Gap front back
  zero_notMem : 0 ∉ front ++ back
  literals : LiteralsFit front ∧ LiteralsFit back
  closed : isOpen doubleQuote back = false ∧ isOpen apostrophe back = false
  registered : findCommand table (cstr (cutText front)) = some func
  other : cstr (cutText front) ≠ ascii "bye" ∧ cstr (cutText front) ≠ ascii "telhelp"

/-- The line with the word bare. -/
def bareLine (front w back : List UInt8) : List UInt8 := front ++ w ++ back

/-- The line with the word quoted. -/
def quotedLine (front w back : List UInt8) : List UInt8 :=
  front ++ [doubleQuote] ++ w ++ (doubleQuote :: back)

/-- Parameter `j` is the full address of a copy of `w` in the command
array. -/
def PassesAddress (base : UInt64) (szCmd : List UInt8) (para : Vector UInt64 10) (j : ℕ)
    (w : List UInt8) : Prop :=
  ∃ p, p < maxCommandLength ∧ para[j]? = some (base + UInt64.ofNat p) ∧ cstr (szCmd.drop p) = w

/-- `func` is called for the line, with the full address of a copy of `w` as
parameter `j`. -/
def CallsWith (table : CmdFunTable F) (base : UInt64) (func : F) (szCmd : List UInt8) (j : ℕ)
    (w : List UInt8) : Prop :=
  ∃ para line, runCmd table base szCmd = .call func para line ∧ PassesAddress base line para j w

/-- An address that is the sign extension of its low 32 bits. -/
def SurvivesInt (addr : UInt64) : Prop := addr.toNat < 2 ^ 31 ∨ 2 ^ 64 - 2 ^ 31 ≤ addr.toNat

instance (addr : UInt64) : Decidable (SurvivesInt addr) := by unfold SurvivesInt; infer_instance

variable {front back w rest : List UInt8} {base : UInt64}

/-! ## Reading a word -/

theorem IsPlainWord.wordBytes (hw : IsPlainWord w) {c : UInt8} (hc : c ∈ w) :
    IsWordByte c ∧ c ≠ 0 := by
  rcases hw.bytes c hc with h | h | rfl
  · exact isWordByte_alnum (Or.inr (Or.inl h))
  · exact isWordByte_alnum (Or.inr (Or.inr h))
  · exact ⟨⟨by decide, by decide, by decide⟩, by decide⟩

theorem IsPlainWord.zero_notMem (hw : IsPlainWord w) : 0 ∉ w := fun h => (hw.wordBytes h).2 rfl

/-- **A word behind a cut byte**, with a cut byte or the terminator behind
it, is the next slot and is read back. -/
theorem word_at (hfront : EndsCut front) (hw : IsPlainWord w) {c : UInt8}
    (hc : c = 0 ∨ IsCut (front ++ w) c) (tail rest : List UInt8) :
    (wordSlots (front ++ w ++ c :: tail))[(wordStarts front).length]? =
        some ⟨some front.length, isOpen doubleQuote front, isOpen apostrophe front⟩ ∧
      cstr ((cutText (front ++ w ++ c :: tail) ++ rest).drop front.length) = w := by
  have hbytes : ∀ c ∈ w, IsWordByte c := fun c hc => (hw.wordBytes hc).1
  constructor
  · have hstarts := wordStarts_append_word hfront hw.ne_nil hbytes
    have hslot : (wordSlots (front ++ w))[(wordStarts front).length]? =
        some ⟨some front.length, isOpen doubleQuote front, isOpen apostrophe front⟩ := by
      rw [wordSlots, hstarts, List.getElem?_map, List.getElem?_append_right (Nat.le_refl _),
        Nat.sub_self, List.getElem?_cons_zero, Option.map_some, wordSlot, List.take_left]
    obtain ⟨more, hmore⟩ := wordSlots_initial (front ++ w) (c :: tail)
    obtain ⟨hlt, -⟩ := List.getElem?_eq_some_iff.mp hslot
    rw [← hmore, List.getElem?_append_left hlt, hslot]
  · have hzero : cutByte (front ++ w) c = 0 := by
      rcases hc with rfl | hcut
      · rw [cutByte]
        split_ifs <;> rfl
      · rw [cutByte, if_pos hcut]
    have hdrop : (cutText (front ++ w ++ c :: tail) ++ rest).drop front.length =
        w ++ 0 :: (cutFrom (front ++ w ++ [c]) tail ++ rest) := by
      rw [cutText_append, cutText_append, cutFrom_word hbytes, cutFrom, hzero, List.append_assoc,
        List.append_assoc, List.drop_left' (length_cutText front)]
      rfl
    rw [hdrop, cstr_append_zero hw.zero_notMem]

/-- The slot of a call's line is a parameter. -/
theorem para_of_slot {text szCmd : List UInt8} {j : ℕ} {slot : TRawPara}
    (hwords : (wordStarts text).length ≤ 10) (hslot : (wordSlots text)[j]? = some slot) :
    ((slots (wordSlots text)).map (paraValue base szCmd))[j]? =
      some (paraValue base szCmd slot) := by
  obtain ⟨hlt, hget⟩ := List.getElem?_eq_some_iff.mp hslot
  rw [length_wordSlots] at hlt
  have hj : j < 10 := by omega
  rw [Vector.getElem?_eq_getElem hj, Vector.getElem_map, getElem_slots hj,
    List.getD_eq_getElem _ _ (by rwa [length_wordSlots]), hget]

/-- What stands behind the word in the whole text. -/
theorem behind_word (hgap : Gap front back) (hw : IsPlainWord w) :
    ∃ c tail, back ++ [0] = c :: tail ∧ (c = 0 ∨ IsCut (front ++ w) c) := by
  cases back with
  | nil => exact ⟨0, [], rfl, Or.inl rfl⟩
  | cons c back =>
    refine ⟨c, back ++ [0], rfl, Or.inr ?_⟩
    rcases hgap.behind c rfl with hq | hd | hsep
    · exact Or.inl hq
    · exact Or.inr (Or.inl hd)
    · refine Or.inr (Or.inr ⟨hsep, ?_⟩)
      rw [isOpen_append_of_notMem fun h => (hw.wordBytes h).1.2.1 rfl]
      exact hgap.noString

/-! ## What is passed -/

/-- A word of letters and underscores is no number. -/
theorem wordValue_plain (hw : IsPlainWord w) (addr : UInt64) :
    wordValue addr w = (addr.toNat : ℤ).bmod (2 ^ 32) := by
  obtain ⟨c, t, rfl⟩ := List.exists_cons_of_ne_nil hw.ne_nil
  have hc := hw.bytes c List.mem_cons_self
  have hkind : ¬ IsSpace c ∧ ¬ IsDigit c ∧ c ≠ 45 ∧ c ≠ 43 ∧ c ≠ 48 := by
    simp only [IsSpace, IsDigit, underscore, UInt8.le_iff_toNat_le, ← UInt8.toNat_inj,
      UInt8.reduceToNat, ne_eq] at hc ⊢
    omega
  have hatoi : atoi (c :: t) = 0 := atoi_of_head fun d hd => by
    rw [← Option.some_inj.mp hd]
    exact ⟨hkind.1, hkind.2.1, hkind.2.2.1, hkind.2.2.2.1⟩
  exact if_pos ⟨hatoi, hkind.2.2.2.2⟩

/-- **Narrowing keeps the addresses that survive it** and moves every other
by a multiple of `2 ^ 32`. -/
theorem ofInt_narrowed_iff {p q : ℕ} (hp : p < maxCommandLength) (hq : q < maxCommandLength) :
    UInt64.ofInt (((base + UInt64.ofNat q).toNat : ℤ).bmod (2 ^ 32)) = base + UInt64.ofNat p ↔
      p = q ∧ SurvivesInt (base + UInt64.ofNat q) := by
  have hbase := base.toNat_lt
  have hp2 : p < 2048 := hp
  have hq2 : q < 2048 := hq
  have hp' : (base + UInt64.ofNat p).toNat = (base.toNat + p) % 2 ^ 64 := by
    rw [UInt64.toNat_add, UInt64.toNat_ofNat']
    omega
  have hq' : (base + UInt64.ofNat q).toNat = (base.toNat + q) % 2 ^ 64 := by
    rw [UInt64.toNat_add, UInt64.toNat_ofNat']
    omega
  rw [← UInt64.toNat_inj, SurvivesInt, hp', hq', Int.bmod_eq_emod]
  simp only [UInt64.ofInt, UInt64.toNat_ofNat']
  split_ifs with h
  · omega
  · omega

/-- A line that is called passes a word's slot. -/
theorem passes_slot {line : List UInt8} {c : UInt8} {tail : List UInt8} {table : CmdFunTable F}
    {func : F} {para : Vector UInt64 10} {szCmd : List UInt8} (hfront : EndsCut front)
    (hw : IsPlainWord w) (hline : line ++ [0] = front ++ w ++ c :: tail)
    (hc : c = 0 ∨ IsCut (front ++ w) c) (h0 : 0 ∉ line) (hlen : line.length ≤ 254)
    (h : runCmd table base (line ++ 0 :: rest) = .call func para szCmd) :
    para[(wordStarts front).length]? = some (paraValue base szCmd
        ⟨some front.length, isOpen doubleQuote front, isOpen apostrophe front⟩) ∧
      cstr (szCmd.drop front.length) = w := by
  obtain ⟨hwords, hszCmd, hpara⟩ := call_reads h0 hlen h
  obtain ⟨hslot, hread⟩ := word_at hfront hw hc tail rest
  rw [← hline] at hslot hread
  rw [hpara]
  exact ⟨para_of_slot hwords hslot, by rw [hszCmd, hread]⟩

/-- **The quoted word is passed in full.** -/
theorem passesAddress_quoted (hgap : Gap front back) (hw : IsPlainWord w) {table : CmdFunTable F}
    {func : F} {para : Vector UInt64 10} {szCmd : List UInt8} (h0 : 0 ∉ quotedLine front w back)
    (hlen : (quotedLine front w back).length ≤ 254)
    (h : runCmd table base (quotedLine front w back ++ 0 :: rest) = .call func para szCmd) :
    PassesAddress base szCmd para (wordStarts front).length w := by
  have hquote : EndsCut (front ++ [doubleQuote]) := ⟨front, doubleQuote, rfl, Or.inr (Or.inl rfl)⟩
  have hsame : wordStarts (front ++ [doubleQuote]) = wordStarts front :=
    wordStarts_concat_of_not (not_startsWord not_isWordByte_doubleQuote)
  have hstr : isOpen doubleQuote (front ++ [doubleQuote]) = true := by
    rw [isOpen_concat_self, hgap.noString]
    rfl
  have hline : quotedLine front w back ++ [0] =
      front ++ [doubleQuote] ++ w ++ doubleQuote :: (back ++ [0]) := by
    simp [quotedLine]
  obtain ⟨hpara, hread⟩ :=
    passes_slot hquote hw hline (Or.inr (Or.inr (Or.inl rfl))) h0 hlen h
  rw [hsame, hstr] at hpara
  refine ⟨(front ++ [doubleQuote]).length, ?_, hpara, hread⟩
  have hshort : (front ++ [doubleQuote]).length ≤ (quotedLine front w back).length := by
    simp only [quotedLine, List.length_append, List.length_cons]
    omega
  exact lt_maxCommandLength (by omega)

/-- **The bare word is passed in full exactly if** its address survives
`int`. -/
theorem passesAddress_bare_iff (hgap : Gap front back) (hw : IsPlainWord w)
    {table : CmdFunTable F} {func : F} {para : Vector UInt64 10} {szCmd : List UInt8}
    (h0 : 0 ∉ bareLine front w back) (hlen : (bareLine front w back).length ≤ 254)
    (h : runCmd table base (bareLine front w back ++ 0 :: rest) = .call func para szCmd) :
    PassesAddress base szCmd para (wordStarts front).length w ↔
      SurvivesInt (base + UInt64.ofNat front.length) := by
  obtain ⟨c, tail, hback, hc⟩ := behind_word hgap hw
  have hline : bareLine front w back ++ [0] = front ++ w ++ c :: tail := by
    rw [bareLine, List.append_assoc, hback]
  obtain ⟨hpara, hread⟩ := passes_slot hgap.endsCut hw hline hc h0 hlen h
  have hq : front.length < maxCommandLength := by
    refine lt_maxCommandLength (le_trans ?_ (hlen.trans (by decide)))
    simp only [bareLine, List.length_append]
    omega
  rw [hgap.noString, hgap.noLiteral, paraValue_bare hread, wordValue_plain hw] at hpara
  constructor
  · rintro ⟨p, hp, haddr, -⟩
    rw [hpara] at haddr
    exact ((ofInt_narrowed_iff hp hq).mp (Option.some.inj haddr)).2
  · intro hsurvive
    refine ⟨front.length, hq, ?_, hread⟩
    rw [hpara, (ofInt_narrowed_iff hq hq).mpr ⟨rfl, hsurvive⟩]

/-! ## Both forms are called -/

/-- **Up to the end of the word** the bare line has the words of `front` and one
more, and has no mark open. -/
theorem bare_front (h : Gap front back) (hw : IsPlainWord w) :
    (wordStarts (front ++ w)).length = (wordStarts front).length + 1 ∧
      isOpen doubleQuote (front ++ w) = false ∧ ¬ EndsCut (front ++ w) := by
  have hbytes : ∀ c ∈ w, IsWordByte c := fun c hc => (hw.wordBytes hc).1
  refine ⟨?_, ?_, ?_⟩
  · rw [wordStarts_append_word h.endsCut hw.ne_nil hbytes, List.length_append]
    rfl
  · exact (isOpen_append_of_notMem fun hmem => (hw.wordBytes hmem).1.2.1 rfl).trans h.noString
  · obtain ⟨u, c, rfl⟩ := (List.eq_nil_or_concat' w).resolve_left hw.ne_nil
    rw [← List.append_assoc]
    exact not_endsCut_concat (hbytes c (by simp))

/-- So does the quoted line up to the second mark. -/
theorem quoted_front (h : Gap front back) (hw : IsPlainWord w) :
    (wordStarts (front ++ [doubleQuote] ++ w ++ [doubleQuote])).length =
        (wordStarts front).length + 1 ∧
      isOpen doubleQuote (front ++ [doubleQuote] ++ w ++ [doubleQuote]) = false := by
  have hquote : EndsCut (front ++ [doubleQuote]) := endsCut_concat_iff.mpr (Or.inr (Or.inl rfl))
  constructor
  · rw [wordStarts_concat_of_not (not_startsWord not_isWordByte_doubleQuote),
      wordStarts_append_word hquote hw.ne_nil fun c hc => (hw.wordBytes hc).1, List.length_append,
      wordStarts_concat_of_not (not_startsWord not_isWordByte_doubleQuote)]
    rfl
  · rw [isOpen_concat_self, isOpen_append_of_notMem fun hmem => (hw.wordBytes hmem).1.2.1 rfl,
      isOpen_concat_self, h.noString]
    rfl

/-- The two lines, cut behind the byte that follows the word. -/
theorem lines_behind (front w : List UInt8) {c : UInt8} {tail : List UInt8}
    (hback : back ++ [0] = c :: tail) :
    bareLine front w back ++ [0] = front ++ w ++ [c] ++ tail ∧
      quotedLine front w back ++ [0] =
        front ++ [doubleQuote] ++ w ++ [doubleQuote] ++ [c] ++ tail := by
  constructor
  · rw [bareLine, List.append_assoc, hback, List.append_assoc _ [c]]
    rfl
  · have hrest : doubleQuote :: back ++ [0] = [doubleQuote] ++ ([c] ++ tail) := by
      rw [List.cons_append, hback]
      rfl
    rw [quotedLine, List.append_assoc _ _ [0], hrest]
    simp only [List.append_assoc]

/-- A line without a NUL in it ends at its terminator. -/
theorem tail_eq_nil {tail : List UInt8} (h0 : 0 ∉ back) (hback : back ++ [0] = 0 :: tail) :
    tail = [] := by
  cases back with
  | nil => exact ((List.cons.injEq ..).mp hback).2.symm
  | cons b back =>
    have hb : b = 0 := ((List.cons.injEq ..).mp hback).1
    exact absurd (hb ▸ List.mem_cons_self) h0

namespace CallLine

variable {table : CmdFunTable F} {func : F} (h : CallLine table func front back)
include h

theorem zero_notMem_bare (hw : IsPlainWord w) : 0 ∉ bareLine front w back := by
  have h0 := h.zero_notMem
  rw [List.mem_append, not_or] at h0
  simp only [bareLine, List.mem_append, not_or]
  exact ⟨⟨h0.1, hw.zero_notMem⟩, h0.2⟩

theorem zero_notMem_quoted (hw : IsPlainWord w) : 0 ∉ quotedLine front w back := by
  have h0 := h.zero_notMem
  rw [List.mem_append, not_or] at h0
  simp only [quotedLine, List.mem_append, List.mem_cons, List.not_mem_nil, not_or, or_false]
  exact ⟨⟨⟨h0.1, by decide⟩, hw.zero_notMem⟩, by decide, h0.2⟩

/-- **A line that starts with `front`** calls the function, if it has no more
words than there are slots and leaves no mark open. -/
theorem exists_call {r : List UInt8} (h0 : 0 ∉ front ++ r) (hlen : (front ++ r).length ≤ 254)
    (hfit : LiteralsFit r) (hclosed : isOpen doubleQuote r = false ∧ isOpen apostrophe r = false)
    (hwords : (wordStarts (front ++ r ++ [0])).length ≤ 10) (base : UInt64) (rest : List UInt8) :
    ∃ para szCmd, runCmd table base (front ++ r ++ 0 :: rest) = .call func para szCmd := by
  have hname : cstr (cutText (front ++ r ++ [0]) ++ rest) = cstr (cutText front) := by
    rw [List.append_assoc front, cutText_append, List.append_assoc,
      cstr_append_of_mem h.gap.endsCut.zero_mem]
  have hrun := runCmd_eq_dispatch table base h0 hlen rest
    (h.literals.1.append h.gap.noLiteral hfit) hwords
    ((isOpen_append_of_closed h.gap.noString).trans hclosed.1)
    ((isOpen_append_of_closed h.gap.noLiteral).trans hclosed.2)
  rw [dispatch_call hname h.registered h.other.1 h.other.2] at hrun
  exact ⟨_, _, hrun⟩

/-- What is behind the argument is as good behind a word. -/
theorem behind_ok (hw : ∀ c ∈ w, c ≠ apostrophe) (hquotes : isOpen doubleQuote w = false) :
    LiteralsFit (w ++ back) ∧ isOpen doubleQuote (w ++ back) = false ∧
      isOpen apostrophe (w ++ back) = false := by
  have hnone : apostrophe ∉ w := fun hmem => hw _ hmem rfl
  have hopen : isOpen apostrophe w = false := isOpen_of_notMem hnone
  exact ⟨(pairedWithin_of_notMem hnone).append hopen h.literals.2,
    (isOpen_append_of_closed hquotes).trans h.closed.1,
    (isOpen_append_of_closed hopen).trans h.closed.2⟩

/-- **The quoted form has no fewer words** than the bare one. -/
theorem words_bare_le (hw : IsPlainWord w) :
    (wordStarts (bareLine front w back ++ [0])).length ≤
      (wordStarts (quotedLine front w back ++ [0])).length := by
  obtain ⟨hbare, hopen, hinside⟩ := bare_front h.gap hw
  obtain ⟨hquoted, hopen'⟩ := quoted_front h.gap hw
  obtain ⟨c, tail, hback, hc⟩ := behind_word h.gap hw
  obtain ⟨hbareLine, hquotedLine⟩ := lines_behind front w hback
  rw [hbareLine, hquotedLine]
  rcases hc with rfl | hcut
  · -- nothing follows but the terminator
    have hnil : tail = [] :=
      tail_eq_nil (fun hmem => h.zero_notMem (List.mem_append_right _ hmem)) hback
    have hnot : ¬ StartsWord (front ++ w ++ [0]) (front ++ w).length := fun hs =>
      hinside (startsWord_concat.mp hs).2
    rw [hnil, List.append_nil, List.append_nil, wordStarts_concat_of_not hnot, hbare, ← hquoted]
    exact length_wordStarts_le (List.prefix_append _ _)
  · -- the byte that follows is cut in both
    have hsame : IsCut (front ++ [doubleQuote] ++ w ++ [doubleQuote]) c := by
      have hcase := hcut
      rw [IsCut, hopen] at hcase
      rw [IsCut, hopen']
      exact hcase
    have hword : ¬ IsWordByte c := fun hword => not_isCut hword hcut
    have hopens : isOpen doubleQuote (front ++ w ++ [c]) =
        isOpen doubleQuote (front ++ [doubleQuote] ++ w ++ [doubleQuote] ++ [c]) := by
      by_cases hc : c = doubleQuote
      · rw [hc, isOpen_concat_self, isOpen_concat_self, hopen, hopen']
      · rw [isOpen_concat_of_ne hc, isOpen_concat_of_ne hc, hopen, hopen']
    have hcongr := length_wordStarts_congr
      (iff_of_true (endsCut_concat_iff.mpr hcut) (endsCut_concat_iff.mpr hsame)) hopens tail
    rw [wordStarts_concat_of_not (not_startsWord hword),
      wordStarts_concat_of_not (not_startsWord hword), hbare, hquoted] at hcongr
    omega

end CallLine

/-- **Bare and quoted words agree exactly if** the line with the quoted one is
short enough and has a slot for each of its words, and the bare word's address
survives `int`. -/
theorem formsAgree_iff {table : CmdFunTable F} {func : F} {front back w : List UInt8}
    (h : CallLine table func front back) (hw : IsPlainWord w) (base : UInt64)
    (rest rest' : List UInt8) :
    (CallsWith table base func (bareLine front w back ++ 0 :: rest) (wordStarts front).length w ∧
      CallsWith table base func (quotedLine front w back ++ 0 :: rest')
        (wordStarts front).length w) ↔
      (quotedLine front w back).length ≤ 254 ∧
        (wordStarts (quotedLine front w back ++ [0])).length ≤ 10 ∧
        SurvivesInt (base + UInt64.ofNat front.length) := by
  have hbare0 := h.zero_notMem_bare hw
  have hquoted0 := h.zero_notMem_quoted hw
  have hlens : (quotedLine front w back).length = (bareLine front w back).length + 2 := by
    simp only [bareLine, quotedLine, List.length_append, List.length_cons, List.length_nil]
    omega
  constructor
  · rintro ⟨⟨para, szCmd, hcall, hpasses⟩, ⟨para', szCmd', hcall', -⟩⟩
    have hlen := length_of_call hcall'
    rw [cstr_append_zero hquoted0] at hlen
    refine ⟨hlen, (call_reads hquoted0 hlen hcall').1, ?_⟩
    exact (passesAddress_bare_iff h.gap hw hbare0 (by omega) hcall).mp hpasses
  · rintro ⟨hlen, hwords, hsurvive⟩
    have hmarks : ∀ c ∈ w, c ≠ apostrophe := fun c hc => (hw.wordBytes hc).1.1
    have hquotes : doubleQuote ∉ w := fun hmem => (hw.wordBytes hmem).1.2.1 rfl
    constructor
    · obtain ⟨hfit, hclosed⟩ := h.behind_ok hmarks (isOpen_of_notMem hquotes)
      have hsplit : bareLine front w back = front ++ (w ++ back) := List.append_assoc ..
      obtain ⟨para, szCmd, hcall⟩ := h.exists_call (hsplit ▸ hbare0) (by rw [← hsplit]; omega) hfit
        hclosed (hsplit ▸ (h.words_bare_le hw).trans hwords) base rest
      rw [← hsplit] at hcall
      exact ⟨para, szCmd, hcall,
        (passesAddress_bare_iff h.gap hw hbare0 (by omega) hcall).mpr hsurvive⟩
    · have hpair : isOpen doubleQuote (doubleQuote :: (w ++ [doubleQuote])) = false := by
        rw [isOpen_eq_false_iff, List.count_cons_self, List.count_append,
          List.count_eq_zero_of_not_mem hquotes]
        decide
      have hmarks' : ∀ c ∈ doubleQuote :: (w ++ [doubleQuote]), c ≠ apostrophe := by
        intro c hc
        rcases List.mem_cons.mp hc with rfl | hc
        · decide
        rcases List.mem_append.mp hc with hc | hc
        · exact hmarks c hc
        · rw [List.mem_singleton.mp hc]
          decide
      obtain ⟨hfit, hclosed⟩ := h.behind_ok hmarks' hpair
      have hsplit : quotedLine front w back =
          front ++ (doubleQuote :: (w ++ [doubleQuote]) ++ back) := by
        simp [quotedLine]
      obtain ⟨para, szCmd, hcall⟩ := h.exists_call (hsplit ▸ hquoted0) (hsplit ▸ hlen) hfit
        hclosed (hsplit ▸ hwords) base rest'
      rw [← hsplit] at hcall
      exact ⟨para, szCmd, hcall, passesAddress_quoted h.gap hw hquoted0 hlen hcall⟩

theorem isPlainWord_a : IsPlainWord [97] :=
  ⟨List.cons_ne_nil 97 [], List.forall_mem_singleton.mpr (by decide)⟩

/-- Behind `f` and a blank there is room for an argument. -/
theorem gap_f : Gap (ascii "f ") [] := by
  refine ⟨⟨[102], blankChar, rfl, by decide⟩, by decide, by decide, fun c hc => ?_⟩
  exact absurd hc nofun

/-- The table with `f` in it. -/
abbrev tableF : CmdFunTable ℕ := regCommand ∅ (ascii "f") (some 7) []

theorem callLine_f : CallLine tableF 7 (ascii "f ") [] where
  gap := gap_f
  zero_notMem := by decide
  literals := ⟨pairedWithin_of_notMem (by decide), pairedWithin_nil⟩
  closed := ⟨isOpen_nil, isOpen_nil⟩
  registered := by decide
  other := by decide

/-- At a low address both forms are passed in full. -/
theorem formsAgree_low :
    CallsWith tableF 65536 7 (bareLine (ascii "f ") [97] [] ++ 0 :: [])
        (wordStarts (ascii "f ")).length [97] ∧
      CallsWith tableF 65536 7 (quotedLine (ascii "f ") [97] [] ++ 0 :: [])
        (wordStarts (ascii "f ")).length [97] :=
  (formsAgree_iff callLine_f isPlainWord_a 65536 [] []).mpr (by decide)

/-- As the tenth argument the quoted word is not passed. -/
example : runCmd tableF 65536 (bareLine (ascii "f 1 2 3 4 5 6 7 8 9 ") [97] [] ++ [0]) ≠ .overrun ∧
    runCmd tableF 65536 (quotedLine (ascii "f 1 2 3 4 5 6 7 8 9 ") [97] [] ++ [0]) = .overrun :=
  ⟨nofun, rfl⟩

/-- **At an address of a 64-bit stack** the bare word is not. -/
theorem not_passesAddress_stack : ∃ para szCmd,
    runCmd tableF 0x7ffd00001000
        (bareLine (ascii "f ") [97] [] ++ 0 :: []) = .call 7 para szCmd ∧
      ¬ PassesAddress 0x7ffd00001000 szCmd para (wordStarts (ascii "f ")).length [97] := by
  obtain ⟨para, szCmd, hbare⟩ : ∃ para szCmd,
      runCmd tableF 0x7ffd00001000
        (bareLine (ascii "f ") [97] [] ++ 0 :: []) = .call 7 para szCmd := ⟨_, _, rfl⟩
  refine ⟨para, szCmd, hbare, fun h => ?_⟩
  have hsurvive :=
    (passesAddress_bare_iff gap_f isPlainWord_a (by decide) (by decide) hbare).mp h
  exact absurd hsurvive (by decide)

end TelnetServ
