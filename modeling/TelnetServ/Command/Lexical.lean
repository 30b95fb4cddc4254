import TelnetServ.Command.Scan
import TelnetServ.Common.Pairing
/-!
# Commands — what the tokenizer makes of a line

The scan of a line, told by the line alone: which bytes are cut, where
words start and where the quote marks stand open. `Reads` ties the locals
of the scan to that, `byteOutcome` is the step and `bytes_next_iff` what
comes of a whole text: the scan gets to its end exactly when no character
literal is too long and no more than ten words start.
-/

namespace TelnetServ

open CStr Pairing

/-! ## Reading a line -/

instance (c : UInt8) : Decidable (IsWordByte c) := by unfold IsWordByte; infer_instance

/-- The tokenizer writes a NUL over `c`: a quote mark, or a separator
outside a string. -/
def IsCut (before : List UInt8) (c : UInt8) : Prop :=
  c = apostrophe ∨ c = doubleQuote ∨ (c ∈ separators ∧ isOpen doubleQuote before = false)

instance (before : List UInt8) (c : UInt8) : Decidable (IsCut before c) := by
  unfold IsCut; infer_instance

/-- A byte as the tokenizer leaves it. -/
def cutByte (before : List UInt8) (c : UInt8) : UInt8 := if IsCut before c then 0 else c

/-- Bytes as the tokenizer leaves them, `before` being in front of them. -/
def cutFrom (before : List UInt8) : List UInt8 → List UInt8
  | [] => []
  | c :: cs => cutByte before c :: cutFrom (before ++ [c]) cs

/-- **A text as the tokenizer leaves it.** -/
def cutText (text : List UInt8) : List UInt8 := cutFrom [] text

/-- The last byte of a text is cut. -/
def EndsCut (text : List UInt8) : Prop := ∃ before p, text = before ++ [p] ∧ IsCut before p

/-- A word starts at `i`: a byte that is no mark and no separator, behind
one that is cut. -/
def StartsWord (text : List UInt8) (i : ℕ) : Prop :=
  0 < i ∧ IsWordByte (text.getD i 0) ∧ IsCut (text.take (i - 1)) (text.getD (i - 1) 0)

instance (text : List UInt8) (i : ℕ) : Decidable (StartsWord text i) := by
  unfold StartsWord; infer_instance

/-- **Where the words of a text start**, the name in front aside. -/
def wordStarts (text : List UInt8) : List ℕ :=
  (List.range text.length).filter fun i => StartsWord text i

/-- What is recorded of a word: where it starts, and which quote marks are
open there. -/
def wordSlot (text : List UInt8) (i : ℕ) : TRawPara where
  paraStr := some i
  bInQuote := isOpen doubleQuote (text.take i)
  bIsChar := isOpen apostrophe (text.take i)

/-- What is recorded of the words of a text. -/
def wordSlots (text : List UInt8) : List TRawPara := (wordStarts text).map (wordSlot text)

/-- No character literal holds more than one byte: the closing apostrophe is
at most two positions behind the opening one. -/
abbrev LiteralsFit (text : List UInt8) : Prop := PairedWithin apostrophe 1 text

variable {l r text : List UInt8} {c : UInt8} {s s' : Scan}

/-! ## What is cut -/

@[simp] theorem cutText_nil : cutText [] = [] := rfl

theorem cutFrom_append (b l r : List UInt8) :
    cutFrom b (l ++ r) = cutFrom b l ++ cutFrom (b ++ l) r := by
  induction l generalizing b with
  | nil => rw [List.append_nil]; rfl
  | cons c l ih => rw [List.cons_append, cutFrom, cutFrom, ih, List.append_assoc]; rfl

theorem cutText_append (l r : List UInt8) : cutText (l ++ r) = cutText l ++ cutFrom l r :=
  cutFrom_append [] l r

theorem cutText_concat : cutText (l ++ [c]) = cutText l ++ [cutByte l c] := cutText_append l [c]

theorem length_cutFrom (b l : List UInt8) : (cutFrom b l).length = l.length := by
  induction l generalizing b with
  | nil => rfl
  | cons c l ih => rw [cutFrom, List.length_cons, List.length_cons, ih]

theorem length_cutText (l : List UInt8) : (cutText l).length = l.length := length_cutFrom [] l

/-- The bytes of a word are left alone. -/
theorem not_isCut (h : IsWordByte c) : ¬ IsCut l c := by
  rintro (hq | hd | ⟨hsep, -⟩)
  · exact h.1 hq
  · exact h.2.1 hd
  · exact h.2.2 hsep

theorem cutFrom_word {w : List UInt8} (hw : ∀ c ∈ w, IsWordByte c) (b : List UInt8) :
    cutFrom b w = w := by
  induction w generalizing b with
  | nil => rfl
  | cons c w ih =>
    rw [cutFrom, cutByte, if_neg (not_isCut (hw c List.mem_cons_self)),
      ih fun d hd => hw d (List.mem_cons_of_mem _ hd)]

/-- A NUL in the cut text is a byte that was cut. -/
theorem cutByte_eq_zero_iff (hc : c ≠ 0) : cutByte l c = 0 ↔ IsCut l c := by
  rw [cutByte]
  split_ifs with h
  · exact iff_of_true rfl h
  · exact iff_of_false hc h

/-! ## One more byte -/

/-- A start is decided by what is before it. -/
theorem startsWord_append {i : ℕ} (hi : i < l.length) :
    StartsWord (l ++ r) i ↔ StartsWord l i := by
  rw [StartsWord, StartsWord, List.getD_append _ _ _ _ hi,
    List.getD_append _ _ _ _ (by omega), List.take_append_of_le_length (by omega)]

theorem startsWord_concat : StartsWord (l ++ [c]) l.length ↔
    IsWordByte c ∧ EndsCut l := by
  have hc : (l ++ [c]).getD l.length 0 = c := by simp
  rw [StartsWord, hc]
  rcases List.eq_nil_or_concat' l with rfl | ⟨before, p, rfl⟩
  · simp [EndsCut]
  · have hlen : (before ++ [p]).length - 1 = before.length := by simp
    have hp : (before ++ [p] ++ [c]).getD before.length 0 = p := by simp
    have htake : (before ++ [p] ++ [c]).take before.length = before := by simp
    rw [hlen, hp, htake]
    constructor
    · rintro ⟨-, hw, hcut⟩
      exact ⟨hw, before, p, rfl, hcut⟩
    · rintro ⟨hw, before', p', heq, hcut⟩
      obtain ⟨rfl, hp'⟩ := List.append_inj' heq rfl
      rw [List.singleton_injective hp']
      exact ⟨by simp, hw, hcut⟩

theorem wordStarts_concat : wordStarts (l ++ [c]) =
    wordStarts l ++ if StartsWord (l ++ [c]) l.length then [l.length] else [] := by
  have hold : (List.range l.length).filter (fun i => StartsWord (l ++ [c]) i) = wordStarts l := by
    refine List.filter_congr fun i hi => ?_
    rw [decide_eq_decide]
    exact startsWord_append (List.mem_range.mp hi)
  rw [wordStarts, List.length_append, List.length_singleton, List.range_succ, List.filter_append,
    hold]
  by_cases h : StartsWord (l ++ [c]) l.length
  · rw [if_pos h, List.filter_cons_of_pos (by simpa using h), List.filter_nil]
  · rw [if_neg h, List.filter_cons_of_neg (by simpa using h), List.filter_nil]

theorem lt_of_mem_wordStarts {i : ℕ} (h : i ∈ wordStarts l) : i < l.length :=
  List.mem_range.mp (List.mem_of_mem_filter h)

theorem wordSlots_append_old :
    (wordStarts l).map (wordSlot (l ++ r)) = wordSlots l := by
  refine List.map_congr_left fun i hi => ?_
  have hle : i ≤ l.length := (lt_of_mem_wordStarts hi).le
  rw [wordSlot, wordSlot, List.take_append_of_le_length hle]

/-- **A byte that starts a word** is recorded. -/
theorem wordSlots_concat_of_start (h : StartsWord (l ++ [c]) l.length) :
    wordSlots (l ++ [c]) =
      wordSlots l ++ [⟨some l.length, isOpen doubleQuote l, isOpen apostrophe l⟩] := by
  rw [wordSlots, wordStarts_concat, if_pos h, List.map_append, wordSlots_append_old,
    List.map_singleton, wordSlot, List.take_left]

/-- No other is. -/
theorem wordSlots_concat_of_not (h : ¬ StartsWord (l ++ [c]) l.length) :
    wordSlots (l ++ [c]) = wordSlots l := by
  rw [wordSlots, wordStarts_concat, if_neg h, List.append_nil, wordSlots_append_old]

theorem length_wordSlots : (wordSlots l).length = (wordStarts l).length := List.length_map _

/-- The words of a beginning come first. -/
theorem wordStarts_initial (l r : List UInt8) : wordStarts l <+: wordStarts (l ++ r) := by
  induction r using List.reverseRecOn with
  | nil => simp only [List.append_nil, List.prefix_rfl]
  | append_singleton r c ih =>
    rw [← List.append_assoc, wordStarts_concat]
    exact ih.trans (List.prefix_append _ _)

theorem wordSlots_initial (l r : List UInt8) : wordSlots l <+: wordSlots (l ++ r) := by
  rw [← wordSlots_append_old (l := l) (r := r)]
  exact (wordStarts_initial l r).map _

/-- A beginning has no more words. -/
theorem length_wordStarts_le (hp : l <+: r) :
    (wordStarts l).length ≤ (wordStarts r).length := by
  obtain ⟨t, rfl⟩ := hp
  exact (wordStarts_initial l t).length_le

/-- A byte that starts no word leaves them as they are. -/
theorem wordStarts_concat_of_not (h : ¬ StartsWord (l ++ [c]) l.length) :
    wordStarts (l ++ [c]) = wordStarts l := by
  rw [wordStarts_concat, if_neg h, List.append_nil]

theorem length_wordStarts_concat_of_start (h : StartsWord (l ++ [c]) l.length) :
    (wordStarts (l ++ [c])).length = (wordStarts l).length + 1 := by
  rw [wordStarts_concat, if_pos h, List.length_append, List.length_singleton]

/-- No word starts at a mark or a separator. -/
theorem not_startsWord (h : ¬ IsWordByte c) : ¬ StartsWord (l ++ [c]) l.length :=
  fun hs => h (startsWord_concat.mp hs).1

theorem not_isWordByte_apostrophe : ¬ IsWordByte apostrophe := fun h => h.1 rfl

theorem not_isWordByte_doubleQuote : ¬ IsWordByte doubleQuote := fun h => h.2.1 rfl

/-! ## Runs of bytes -/

/-- Behind a word nothing has been cut. -/
theorem not_endsCut_concat (hc : IsWordByte c) : ¬ EndsCut (l ++ [c]) := by
  rintro ⟨before, p, heq, hcut⟩
  obtain ⟨-, hp⟩ := List.append_inj' heq rfl
  rw [← List.singleton_injective hp] at hcut
  exact not_isCut hc hcut

/-- Marks and separators start no word. -/
theorem wordStarts_append_of_not (hr : ∀ c ∈ r, ¬ IsWordByte c) :
    wordStarts (l ++ r) = wordStarts l := by
  induction r using List.reverseRecOn with
  | nil => rw [List.append_nil]
  | append_singleton r c ih =>
    rw [← List.append_assoc, wordStarts_concat_of_not (not_startsWord (hr c (by simp))),
      ih fun d hd => hr d (List.mem_append_left _ hd)]

/-- Bytes of a word start none behind one that was not cut. -/
theorem wordStarts_append_of_inside (hl : ¬ EndsCut l) (hr : ∀ c ∈ r, IsWordByte c) :
    wordStarts (l ++ r) = wordStarts l := by
  induction r using List.reverseRecOn with
  | nil => rw [List.append_nil]
  | append_singleton r c ih =>
    have hend : ¬ EndsCut (l ++ r) := by
      rcases List.eq_nil_or_concat' r with rfl | ⟨r, d, rfl⟩
      · rwa [List.append_nil]
      · rw [← List.append_assoc]
        exact not_endsCut_concat (hr d (by simp))
    rw [← List.append_assoc, wordStarts_concat_of_not fun hs => hend (startsWord_concat.mp hs).2,
      ih fun d hd => hr d (List.mem_append_left _ hd)]

/-- **A word behind a byte that was cut** is one more word. -/
theorem wordStarts_append_word (hl : EndsCut l) {w : List UInt8} (hne : w ≠ [])
    (hw : ∀ c ∈ w, IsWordByte c) : wordStarts (l ++ w) = wordStarts l ++ [l.length] := by
  obtain ⟨c, w, rfl⟩ := List.exists_cons_of_ne_nil hne
  have hc : IsWordByte c := hw c List.mem_cons_self
  have hstart : StartsWord (l ++ [c]) l.length := startsWord_concat.mpr ⟨hc, hl⟩
  rw [List.append_cons, wordStarts_append_of_inside (not_endsCut_concat hc)
    fun d hd => hw d (List.mem_cons_of_mem _ hd), wordStarts_concat, if_pos hstart]

/-- A byte that was cut is a NUL in the cut text. -/
theorem EndsCut.zero_mem (hl : EndsCut l) : 0 ∈ cutText l := by
  obtain ⟨before, p, rfl, hcut⟩ := hl
  rw [cutText_concat, cutByte, if_pos hcut]
  exact List.mem_append_right _ (List.mem_singleton_self 0)

theorem endsCut_concat_iff : EndsCut (l ++ [c]) ↔ IsCut l c := by
  constructor
  · rintro ⟨before, p, heq, hcut⟩
    obtain ⟨rfl, hp⟩ := List.append_inj' heq rfl
    rwa [List.singleton_injective hp]
  · exact fun hcut => ⟨l, c, rfl, hcut⟩

/-- **As many words start in a text** behind any two others that are cut at
their ends, or not, alike and leave strings open alike. -/
theorem length_wordStarts_congr {l' : List UInt8} (hend : EndsCut l ↔ EndsCut l')
    (hopen : isOpen doubleQuote l = isOpen doubleQuote l') (r : List UInt8) :
    (wordStarts (l ++ r)).length + (wordStarts l').length =
      (wordStarts (l' ++ r)).length + (wordStarts l).length := by
  have hopens : ∀ r, isOpen doubleQuote (l ++ r) = isOpen doubleQuote (l' ++ r) := by
    intro r
    induction r using List.reverseRecOn with
    | nil => simpa using hopen
    | append_singleton r c ih =>
      rw [← List.append_assoc, ← List.append_assoc]
      by_cases hc : c = doubleQuote
      · rw [hc, isOpen_concat_self, isOpen_concat_self, ih]
      · rw [isOpen_concat_of_ne hc, isOpen_concat_of_ne hc, ih]
  induction r using List.reverseRecOn with
  | nil => rw [List.append_nil, List.append_nil, Nat.add_comm]
  | append_singleton r c ih =>
    have hends : EndsCut (l ++ r) ↔ EndsCut (l' ++ r) := by
      rcases List.eq_nil_or_concat' r with rfl | ⟨r, d, rfl⟩
      · rwa [List.append_nil, List.append_nil]
      · rw [← List.append_assoc, ← List.append_assoc, endsCut_concat_iff, endsCut_concat_iff,
          IsCut, IsCut, hopens]
    rw [← List.append_assoc, ← List.append_assoc]
    by_cases hstart : StartsWord (l ++ r ++ [c]) (l ++ r).length
    · have hstart' : StartsWord (l' ++ r ++ [c]) (l' ++ r).length :=
        startsWord_concat.mpr ((startsWord_concat.mp hstart).imp_right hends.mp)
      rw [length_wordStarts_concat_of_start hstart, length_wordStarts_concat_of_start hstart']
      omega
    · have hnot : ¬ StartsWord (l' ++ r ++ [c]) (l' ++ r).length := fun hs =>
        hstart (startsWord_concat.mpr ((startsWord_concat.mp hs).imp_right hends.mpr))
      rw [wordStarts_concat_of_not hstart, wordStarts_concat_of_not hnot]
      exact ih

/-! ## The scan reads the text -/

/-- **The locals of the scan**, told by the text it has visited. -/
structure Reads (text : List UInt8) (s : Scan) : Prop where
  out : s.out = cutText text
  inStr : s.inStr = isOpen doubleQuote text
  inChar : s.inChar = isOpen apostrophe text
  chStart : ∀ front mid, OpenAt apostrophe text front mid → s.chStart = front.length
  words : s.words = wordSlots text

theorem reads_nil : Reads [] {} where
  out := rfl
  inStr := by simp
  inChar := by simp
  chStart front mid h := absurd h.split (by simp)
  words := rfl

theorem Reads.length (h : Reads l s) : s.out.length = l.length := by rw [h.out, length_cutText]

/-- The last byte is a NUL when it has been cut. -/
theorem Reads.last (h : Reads l s) (h0 : 0 ∉ l) :
    s.out.getLast? = some 0 ↔ EndsCut l := by
  rw [h.out, EndsCut]
  rcases List.eq_nil_or_concat' l with rfl | ⟨before, p, rfl⟩
  · simp
  · have hp : p ≠ 0 := fun hp => h0 (by simp [hp])
    rw [cutText_concat, List.getLast?_concat, Option.some_inj, cutByte_eq_zero_iff hp]
    constructor
    · intro hcut
      exact ⟨before, p, rfl, hcut⟩
    · rintro ⟨before', p', heq, hcut⟩
      obtain ⟨rfl, hp'⟩ := List.append_inj' heq rfl
      rw [List.singleton_injective hp']
      exact hcut

/-- A byte that is not a mark. -/
theorem Reads.push (h : Reads l s) (hq : c ≠ apostrophe) (hd : c ≠ doubleQuote) {b : UInt8}
    (hb : b = cutByte l c) {ws : List TRawPara} (hws : ws = wordSlots (l ++ [c])) :
    Reads (l ++ [c]) { s.push b with words := ws } where
  out := by rw [cutText_concat, ← hb, ← h.out]; rfl
  inStr := by rw [isOpen_concat_of_ne hd]; exact h.inStr
  inChar := by rw [isOpen_concat_of_ne hq]; exact h.inChar
  chStart front mid ho := by
    obtain ⟨mid', ho'⟩ := ho.of_concat hq
    exact h.chStart front mid' ho'
  words := hws

/-- A double quote opens or closes a string. -/
theorem Reads.doubleQuote (h : Reads l s) :
    Reads (l ++ [doubleQuote]) { s.push 0 with inStr := !s.inStr } where
  out := by
    have hcut : IsCut l TelnetServ.doubleQuote := Or.inr (Or.inl rfl)
    rw [cutText_concat, cutByte, if_pos hcut, ← h.out]
    rfl
  inStr := by rw [isOpen_concat_self, ← h.inStr]
  inChar := by rw [isOpen_concat_of_ne (by decide)]; exact h.inChar
  chStart front mid ho := by
    obtain ⟨mid', ho'⟩ := ho.of_concat (by decide)
    exact h.chStart front mid' ho'
  words := by
    rw [wordSlots_concat_of_not (not_startsWord not_isWordByte_doubleQuote)]
    exact h.words

/-- An apostrophe opens or closes a literal. -/
theorem Reads.apostrophe (h : Reads l s) :
    Reads (l ++ [apostrophe]) { s.push 0 with
      chStart := if s.inChar then s.chStart else s.out.length
      inChar := !s.inChar } where
  out := by
    have hcut : IsCut l TelnetServ.apostrophe := Or.inl rfl
    rw [cutText_concat, cutByte, if_pos hcut, ← h.out]
    rfl
  inStr := by rw [isOpen_concat_of_ne (by decide)]; exact h.inStr
  inChar := by rw [isOpen_concat_self, ← h.inChar]
  chStart front mid ho := by
    -- the one that is open now is the one just read
    have hopen : isOpen TelnetServ.apostrophe l = false := by
      have := ho.isOpen_eq
      rwa [isOpen_concat_self, Bool.not_eq_true'] at this
    have hlast : OpenAt TelnetServ.apostrophe (l ++ [TelnetServ.apostrophe]) l [] :=
      ⟨rfl, isOpen_eq_false_iff.mp hopen, List.not_mem_nil⟩
    rw [← (hlast.unique ho).1, h.inChar, hopen, ← h.length]
    rfl
  words := by
    rw [wordSlots_concat_of_not (not_startsWord not_isWordByte_apostrophe)]
    exact h.words

/-- A separator is cut outside a string and kept inside one. -/
theorem Reads.separator (h : Reads l s) (hq : c ≠ TelnetServ.apostrophe)
    (hd : c ≠ TelnetServ.doubleQuote) (hsep : c ∈ separators) :
    Reads (l ++ [c]) (s.push (if s.inStr then c else 0)) := by
  have hcut : IsCut l c ↔ isOpen TelnetServ.doubleQuote l = false := by
    simp [IsCut, hq, hd, hsep]
  have hbyte : (if s.inStr then c else 0) = cutByte l c := by
    rw [cutByte, h.inStr]
    by_cases ho : isOpen TelnetServ.doubleQuote l = true
    · rw [if_pos ho, if_neg (by rw [hcut, ho]; exact Bool.noConfusion)]
    · rw [if_neg ho, if_pos (hcut.mpr (by simpa using ho))]
  have hwords : s.words = wordSlots (l ++ [c]) := by
    rw [wordSlots_concat_of_not (not_startsWord fun hw => hw.2.2 hsep)]
    exact h.words
  exact h.push hq hd hbyte hwords

/-- A byte of a word is kept. -/
theorem Reads.wordByte (h : Reads l s) (hc : IsWordByte c) {ws : List TRawPara}
    (hws : ws = wordSlots (l ++ [c])) : Reads (l ++ [c]) { s.push c with words := ws } :=
  h.push hc.1 hc.2.1 (if_neg (not_isCut hc)).symm hws

/-- What one more byte comes to, told by the text. -/
inductive ByteOutcome (l : List UInt8) (c : UInt8) : PassResult Scan → Prop
  | next {s : Scan} : LiteralsFit (l ++ [c]) → (wordStarts (l ++ [c])).length ≤ 10 →
      Reads (l ++ [c]) s → ByteOutcome l c (.next s)
  | inputError : ¬ LiteralsFit (l ++ [c]) → ByteOutcome l c .inputError
  | overrun : LiteralsFit (l ++ [c]) → 10 < (wordStarts (l ++ [c])).length →
      ByteOutcome l c .overrun

/-- **One byte of the scan, told by the text.** -/
theorem byteOutcome (h : Reads l s) (h0 : 0 ∉ l) (hfit : LiteralsFit l)
    (hwords : (wordStarts l).length ≤ 10) : ByteOutcome l c (s.byte c) := by
  by_cases hq : c = apostrophe
  · subst hq
    have hsame := wordStarts_concat_of_not (l := l) (not_startsWord not_isWordByte_apostrophe)
    rw [Scan.byte, if_pos rfl]
    by_cases ho : isOpen apostrophe l = true
    · obtain ⟨front, mid, hopen⟩ := exists_openAt ho
      have hlen : l.length = front.length + 1 + mid.length := by
        rw [hopen.split, List.length_append, List.length_cons]
        omega
      have hch := h.chStart front mid hopen
      have hiff : LiteralsFit (l ++ [apostrophe]) ↔ mid.length ≤ 1 := hopen.pairedWithin_iff hfit
      -- the distance the code compares is one more than the bytes between
      by_cases hmid : mid.length ≤ 1
      · rw [if_neg (by rw [hch, h.length]; omega)]
        exact ByteOutcome.next (hiff.mpr hmid) (by rw [hsame]; exact hwords) h.apostrophe
      · rw [if_pos ⟨h.inChar.trans ho, by rw [hch, h.length]; omega⟩]
        exact ByteOutcome.inputError (mt hiff.mp hmid)
    · have hclosed : isOpen apostrophe l = false := by simpa using ho
      rw [if_neg fun hc => ho (h.inChar ▸ hc.1)]
      exact ByteOutcome.next (hfit.concat_of_closed hclosed) (by rw [hsame]; exact hwords)
        h.apostrophe
  have hfit' : LiteralsFit (l ++ [c]) := hfit.concat_of_ne hq
  by_cases hd : c = doubleQuote
  · subst hd
    have hsame := wordStarts_concat_of_not (l := l) (not_startsWord not_isWordByte_doubleQuote)
    rw [Scan.byte_doubleQuote]
    exact ByteOutcome.next hfit' (by rw [hsame]; exact hwords) h.doubleQuote
  by_cases hsep : c ∈ separators
  · have hsame := wordStarts_concat_of_not (l := l) (c := c)
      (not_startsWord fun hw => hw.2.2 hsep)
    rw [Scan.byte_separator hsep]
    exact ByteOutcome.next hfit' (by rw [hsame]; exact hwords) (h.separator hq hd hsep)
  have hword : IsWordByte c := ⟨hq, hd, hsep⟩
  by_cases hnul : s.out.getLast? = some 0
  · have hstart : StartsWord (l ++ [c]) l.length :=
      startsWord_concat.mpr ⟨hword, (h.last h0).mp hnul⟩
    have hmore := length_wordStarts_concat_of_start hstart
    have hcount : s.words.length = (wordStarts l).length := by rw [h.words, length_wordSlots]
    -- the eleventh word finds no slot
    by_cases hroom : s.words.length < 10
    · rw [Scan.byte_begin hword hnul hroom]
      refine ByteOutcome.next hfit' (by omega) (h.wordByte hword ?_)
      rw [wordSlots_concat_of_start hstart, h.words, h.length, h.inStr, h.inChar]
    · rw [Scan.byte_begin_full hword hnul hroom]
      exact ByteOutcome.overrun hfit' (by omega)
  · have hnot : ¬ StartsWord (l ++ [c]) l.length := fun hs =>
      hnul ((h.last h0).mpr (startsWord_concat.mp hs).2)
    rw [Scan.byte_pass hword hnul]
    refine ByteOutcome.next hfit' (by rw [wordStarts_concat_of_not hnot]; exact hwords)
      (h.wordByte hword ?_)
    rw [wordSlots_concat_of_not hnot]
    exact h.words

/-! ## The scan of a text -/

/-- What the scan of a text comes to, told by the text. -/
inductive TextOutcome (text : List UInt8) : PassResult Scan → Prop
  | next {s : Scan} : LiteralsFit text → (wordStarts text).length ≤ 10 → Reads text s →
      TextOutcome text (.next s)
  | inputError {p : List UInt8} {c : UInt8} : p ++ [c] <+: text → (wordStarts p).length ≤ 10 →
      ¬ LiteralsFit (p ++ [c]) → TextOutcome text .inputError
  | overrun {p : List UInt8} : p <+: text → LiteralsFit p → 10 < (wordStarts p).length →
      TextOutcome text .overrun

/-- **The scan of a whole text**, with a NUL at its end if anywhere. -/
theorem textOutcome (text : List UInt8) (h0 : 0 ∉ text.dropLast) :
    TextOutcome text (({} : Scan).bytes text) := by
  induction text using List.reverseRecOn with
  | nil => exact TextOutcome.next pairedWithin_nil (Nat.zero_le 10) reads_nil
  | append_singleton l c ih =>
    rw [List.dropLast_concat] at h0
    have ih := ih fun h => h0 (List.dropLast_subset l h)
    have hpre : l <+: l ++ [c] := List.prefix_append l [c]
    generalize hl : ({} : Scan).bytes l = r at ih
    cases ih with
    | next hfit hwords hreads =>
      rw [Scan.bytes_append hl, Scan.bytes]
      have hbyte := byteOutcome (c := c) hreads h0 hfit hwords
      generalize Scan.byte _ c = r at hbyte ⊢
      cases hbyte with
      | next hfit' hwords' hreads' => exact TextOutcome.next hfit' hwords' hreads'
      | inputError hlate => exact TextOutcome.inputError List.prefix_rfl hwords hlate
      | overrun hfit' hwords' => exact TextOutcome.overrun List.prefix_rfl hfit' hwords'
    | inputError hp hwords hlate =>
      rw [Scan.bytes_append_of_stop (by rw [hl]; rintro s ⟨⟩), hl]
      exact TextOutcome.inputError (hp.trans hpre) hwords hlate
    | overrun hp hfit hwords =>
      rw [Scan.bytes_append_of_stop (by rw [hl]; rintro s ⟨⟩), hl]
      exact TextOutcome.overrun (hp.trans hpre) hfit hwords

theorem LiteralsFit.of_initial (h : LiteralsFit r) (hp : l <+: r) : LiteralsFit l := by
  obtain ⟨t, rfl⟩ := hp
  exact PairedWithin.of_append h

/-- **The scan gets to the end** of the texts whose literals fit and which
have at most ten words. -/
theorem bytes_next_iff (h0 : 0 ∉ text.dropLast) :
    (∃ s, ({} : Scan).bytes text = .next s) ↔
      LiteralsFit text ∧ (wordStarts text).length ≤ 10 := by
  have hout := textOutcome text h0
  generalize ({} : Scan).bytes text = r at hout ⊢
  cases hout with
  | next hfit hwords hreads => exact iff_of_true ⟨_, rfl⟩ ⟨hfit, hwords⟩
  | inputError hp _ hlate =>
    exact iff_of_false nofun fun h => hlate (h.1.of_initial hp)
  | overrun hp _ hwords =>
    refine iff_of_false nofun fun h => ?_
    have := length_wordStarts_le hp
    omega

/-- **The eleventh word overruns the slots** unless a literal that is too
long comes before it. -/
theorem bytes_overrun_iff (h0 : 0 ∉ text.dropLast) :
    ({} : Scan).bytes text = .overrun ↔
      ∃ p, p <+: text ∧ LiteralsFit p ∧ 10 < (wordStarts p).length := by
  have hout := textOutcome text h0
  generalize ({} : Scan).bytes text = r at hout ⊢
  cases hout with
  | next hfit hwords hreads =>
    refine iff_of_false nofun ?_
    rintro ⟨p, hp, -, hmore⟩
    have := length_wordStarts_le hp
    omega
  | @inputError p c hp hwords hlate =>
    refine iff_of_false nofun ?_
    rintro ⟨q, hq, hfit, hmore⟩
    -- of two beginnings of the text one is a beginning of the other
    rcases List.prefix_or_prefix_of_prefix hp hq with hpq | hqp
    · exact hlate (hfit.of_initial hpq)
    · rcases List.prefix_concat_iff.mp hqp with rfl | hqp
      · exact hlate hfit
      · have := length_wordStarts_le hqp
        omega
  | overrun hp hfit hwords => exact iff_of_true rfl ⟨_, hp, hfit, hwords⟩

/-! ## The terminator -/

/-- The literals of a line are those of the line with its terminator. -/
theorem literalsFit_concat_zero : LiteralsFit (l ++ [0]) ↔ LiteralsFit l :=
  ⟨fun h => h.of_append, fun h => h.concat_of_ne (by decide)⟩

/-- Nor does the terminator open or close anything. -/
theorem isOpen_concat_zero {mark : UInt8} (hm : mark ≠ 0) :
    isOpen mark (l ++ [0]) = isOpen mark l := isOpen_concat_of_ne (Ne.symm hm)

theorem Reads.inStr_line (h : Reads (l ++ [0]) s) : s.inStr = isOpen TelnetServ.doubleQuote l :=
  h.inStr.trans (isOpen_concat_zero (by decide))

theorem Reads.inChar_line (h : Reads (l ++ [0]) s) : s.inChar = isOpen TelnetServ.apostrophe l :=
  h.inChar.trans (isOpen_concat_zero (by decide))

theorem zero_notMem_dropLast (h0 : 0 ∉ l) : 0 ∉ (l ++ [0]).dropLast := by
  rwa [List.dropLast_concat]

/-! ## `RunCmd` -/

section RunCmd

variable {F : Type*} {cmdFunTable : CmdFunTable F} {base : UInt64} {line rest : List UInt8}

/-- **`RunCmd` dispatches the cut line**, with the words as its slots. -/
theorem runCmd_eq_dispatch (cmdFunTable : CmdFunTable F) (base : UInt64) (h0 : 0 ∉ line)
    (hlen : line.length ≤ 254) (rest : List UInt8) (hfit : LiteralsFit line)
    (hwords : (wordStarts (line ++ [0])).length ≤ 10) (hstr : isOpen doubleQuote line = false)
    (hchar : isOpen apostrophe line = false) :
    runCmd cmdFunTable base (line ++ 0 :: rest) =
      dispatch cmdFunTable base (cutText (line ++ [0]) ++ rest)
        (slots (wordSlots (line ++ [0]))) := by
  obtain ⟨s, hs⟩ := (bytes_next_iff (zero_notMem_dropLast h0)).mpr
    ⟨literalsFit_concat_zero.mpr hfit, hwords⟩
  have hout := textOutcome (line ++ [0]) (zero_notMem_dropLast h0)
  rw [runCmd_eq_scan _ _ h0 hlen]
  rw [hs] at hout ⊢
  cases hout with
  | next _ _ hreads =>
    rw [finish, hreads.inStr_line, hreads.inChar_line, hstr, hchar, hreads.out, hreads.words]
    rfl

/-- **A function that is called** gets the values of the words. -/
theorem call_reads {func : F} {para : Vector UInt64 10} {szCmd : List UInt8} (h0 : 0 ∉ line)
    (hlen : line.length ≤ 254)
    (h : runCmd cmdFunTable base (line ++ 0 :: rest) = .call func para szCmd) :
    (wordStarts (line ++ [0])).length ≤ 10 ∧ szCmd = cutText (line ++ [0]) ++ rest ∧
      para = (slots (wordSlots (line ++ [0]))).map (paraValue base szCmd) := by
  have hout := textOutcome (line ++ [0]) (zero_notMem_dropLast h0)
  rw [runCmd_eq_scan _ _ h0 hlen] at h
  generalize ({} : Scan).bytes (line ++ [0]) = r at hout h
  cases hout with
  | next _ hwords hreads =>
    refine ⟨hwords, ?_⟩
    rw [finish, hreads.out, hreads.words] at h
    unfold dispatch at h
    split_ifs at h
    split at h
    · obtain ⟨-, rfl, rfl⟩ := RunOutcome.call.inj h
      exact ⟨rfl, rfl⟩
    · cases h
  | inputError => cases h
  | overrun => cases h

end RunCmd

end TelnetServ
