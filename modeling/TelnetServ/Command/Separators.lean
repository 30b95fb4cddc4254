import TelnetServ.Command.Tokenizer
import TelnetServ.Command.Values
import Mathlib.Data.List.Forall2
/-!
# Commands — separators

A line without quote marks is a name and words, with runs of separators
between them. Read that way the tokenizer finds the name and the words
whatever the separators are, and the terminator is passed over as long as
it stands right behind a word. Behind a separator it is taken for one more
word (`onlySeparates_iff`).
-/

namespace TelnetServ

open CStr Pairing Decimal

variable {F : Type*}

/-! ## Lines of words -/

/-- Bytes of a word or a name. -/
structure IsWord (w : List UInt8) : Prop where
  ne_nil : w ≠ []
  bytes : ∀ c ∈ w, IsWordByte c ∧ c ≠ 0

/-- A word and the separators in front of it. -/
structure Part where
  sep : List UInt8
  word : List UInt8
  sep_ne : sep ≠ []
  isSep : ∀ c ∈ sep, c ∈ separators
  isWord : IsWord word

/-- The parts of a line as they are written. -/
def written (parts : List Part) : List UInt8 := parts.flatMap fun p => p.sep ++ p.word

/-- **A line without quote marks**: a name, at most ten words, and separators
at the end or none. -/
structure WordLine where
  name : List UInt8
  parts : List Part
  trail : List UInt8
  isName : IsWord name
  few : parts.length ≤ 10
  isTrail : ∀ c ∈ trail, c ∈ separators
  short : (name ++ written parts ++ trail).length ≤ 200

namespace WordLine

/-- The bytes of the line. -/
def text (l : WordLine) : List UInt8 := l.name ++ written l.parts ++ l.trail

def words (l : WordLine) : List (List UInt8) := l.parts.map Part.word

end WordLine

/-- The tokenizer recorded this name and exactly these words, in order. -/
structure Records (t : Tokens) (name : List UInt8) (words : List (List UInt8)) : Prop where
  closed : t.bStrStart = false ∧ t.bCharStart = false
  name : cstr t.szCmd = name
  filled : ∀ (i : Fin 10) (w), words[i.val]? = some w →
    ∃ p, t.atRawPara[i] = { paraStr := some p } ∧ cstr (t.szCmd.drop p) = w
  empty : ∀ i : Fin 10, words.length ≤ i.val → t.atRawPara[i] = {}

/-- The parameters are the values of these words, each where it is stored,
and 0 behind them. -/
structure PassesWords (base : UInt64) (szCmd : List UInt8) (words : List (List UInt8))
    (para : Vector UInt64 10) : Prop where
  values : ∀ (i : Fin 10) (w), words[i.val]? = some w →
    ∃ p, para[i] = UInt64.ofInt (wordValue (base + UInt64.ofNat p) w) ∧ cstr (szCmd.drop p) = w
  zeros : ∀ i : Fin 10, words.length ≤ i.val → para[i] = 0

/-- **The separators of a line only separate.** -/
structure OnlySeparates (table : CmdFunTable F) (base : UInt64) (l : WordLine)
    (rest : List UInt8) : Prop where
  recorded : ∃ n t, tokenize n (l.text ++ 0 :: rest) = .done t ∧ Records t l.name l.words
  passed : ∀ func, findCommand table l.name = some func → l.name ≠ ascii "bye" →
    l.name ≠ ascii "telhelp" →
    ∃ para szCmd, runCmd table base (l.text ++ 0 :: rest) = .call func para szCmd ∧
      PassesWords base szCmd l.words para

/-! ## Where the words are -/

/-- Where the words of the parts start, behind `pos` bytes. -/
def startsFrom (pos : ℕ) : List Part → List ℕ
  | [] => []
  | p :: ps => (pos + p.sep.length) :: startsFrom (pos + p.sep.length + p.word.length) ps

theorem length_startsFrom (pos : ℕ) (ps : List Part) : (startsFrom pos ps).length = ps.length := by
  induction ps generalizing pos with
  | nil => rfl
  | cons p ps ih => rw [startsFrom, List.length_cons, List.length_cons, ih]

variable {c : UInt8} {front r : List UInt8} {p : Part} {ps : List Part}

theorem not_isWordByte_separator (h : c ∈ separators) : ¬ IsWordByte c := fun hw => hw.2.2 h

theorem separator_ne (h : c ∈ separators) : c ≠ 0 ∧ c ≠ doubleQuote ∧ c ≠ apostrophe := by
  simp only [separators, List.mem_cons, List.not_mem_nil, or_false] at h
  rcases h with rfl | rfl | rfl | rfl | rfl | rfl <;> decide

/-- Outside a string a separator is cut. -/
theorem isCut_separator (h : c ∈ separators) (hstr : isOpen doubleQuote front = false) :
    IsCut front c := Or.inr (Or.inr ⟨h, hstr⟩)

theorem doubleQuote_notMem_sep (hsep : ∀ c ∈ r, c ∈ separators) : doubleQuote ∉ r := fun h =>
  (separator_ne (hsep _ h)).2.1 rfl

theorem doubleQuote_notMem_word {w : List UInt8} (hw : IsWord w) : doubleQuote ∉ w := fun h =>
  (hw.bytes _ h).1.2.1 rfl

/-- So a run of them ends in a cut byte. -/
theorem endsCut_separators (hne : r ≠ []) (hsep : ∀ c ∈ r, c ∈ separators)
    (hstr : isOpen doubleQuote front = false) : EndsCut (front ++ r) := by
  rcases List.eq_nil_or_concat' r with rfl | ⟨r, c, rfl⟩
  · exact absurd rfl hne
  · refine ⟨front ++ r, c, (List.append_assoc _ _ _).symm, isCut_separator (hsep c (by simp)) ?_⟩
    rw [isOpen_append_of_notMem]
    · exact hstr
    · exact doubleQuote_notMem_sep fun d hd => hsep d (List.mem_append_left _ hd)

/-- A part leaves no string open. -/
theorem isOpen_part (hstr : isOpen doubleQuote front = false) (p : Part) :
    isOpen doubleQuote (front ++ (p.sep ++ p.word)) = false := by
  rw [isOpen_append_of_notMem, hstr]
  rw [List.mem_append, not_or]
  exact ⟨doubleQuote_notMem_sep p.isSep, doubleQuote_notMem_word p.isWord⟩

/-- **Every part adds its word**, and nothing else starts one. -/
theorem wordStarts_written (hstr : isOpen doubleQuote front = false) (ps : List Part) :
    wordStarts (front ++ written ps) = wordStarts front ++ startsFrom front.length ps := by
  induction ps generalizing front with
  | nil => rw [written, List.flatMap_nil, startsFrom, List.append_nil, List.append_nil]
  | cons p ps ih =>
    have hword : wordStarts (front ++ p.sep ++ p.word) =
        wordStarts front ++ [(front ++ p.sep).length] := by
      rw [wordStarts_append_word (endsCut_separators p.sep_ne p.isSep hstr) p.isWord.ne_nil
          fun c hc => (p.isWord.bytes c hc).1,
        wordStarts_append_of_not fun c hc => not_isWordByte_separator (p.isSep c hc)]
    have hsplit : front ++ written (p :: ps) = front ++ (p.sep ++ p.word) ++ written ps := by
      rw [written, List.flatMap_cons, ← List.append_assoc]
      rfl
    rw [hsplit, ih (isOpen_part hstr p), ← List.append_assoc front, hword, startsFrom,
      List.append_assoc, List.length_append, List.length_append, List.length_append]
    rfl

/-- A NUL follows: a separator that was cut, or the terminator. -/
theorem cutFrom_written_zero (hstr : isOpen doubleQuote front = false) (ps : List Part)
    (r : List UInt8) : ∃ r', cutFrom front (written ps) ++ 0 :: r = 0 :: r' := by
  cases ps with
  | nil => exact ⟨r, rfl⟩
  | cons p ps =>
    obtain ⟨c, sep, hsep⟩ := List.exists_cons_of_ne_nil p.sep_ne
    have hc : c ∈ separators := p.isSep c (by rw [hsep]; exact List.mem_cons_self)
    rw [written, List.flatMap_cons, hsep, List.cons_append, List.cons_append, cutFrom, cutByte,
      if_pos (isCut_separator hc hstr)]
    exact ⟨_, rfl⟩

/-- **Every word is read back** from where it starts. -/
theorem read_written (hstr : isOpen doubleQuote front = false) (ps : List Part)
    (pre : List UInt8) (hpre : pre.length = front.length) (r : List UInt8) :
    List.Forall₂ (fun i p => cstr ((pre ++ (cutFrom front (written ps) ++ 0 :: r)).drop i) = p.word)
      (startsFrom front.length ps) ps := by
  induction ps generalizing front pre with
  | nil => exact List.Forall₂.nil
  | cons p ps ih =>
    have hopen := isOpen_part hstr p
    have hword : cutFrom (front ++ p.sep) p.word = p.word :=
      cutFrom_word (fun c hc => (p.isWord.bytes c hc).1) _
    have hcut : cutFrom front (written (p :: ps)) = cutFrom front p.sep ++ p.word ++
        cutFrom (front ++ (p.sep ++ p.word)) (written ps) := by
      rw [written, List.flatMap_cons, cutFrom_append, cutFrom_append, hword]
      rfl
    have hlen : (pre ++ cutFrom front p.sep).length = front.length + p.sep.length := by
      rw [List.length_append, length_cutFrom, hpre]
    rw [startsFrom, hcut]
    refine List.Forall₂.cons ?_ ?_
    · obtain ⟨r', hr'⟩ := cutFrom_written_zero hopen ps r
      rw [List.append_assoc, hr', List.append_assoc, ← List.append_assoc pre,
        List.drop_left' hlen, cstr_append_zero fun h => (p.isWord.bytes 0 h).2 rfl]
    · have hpre' : (pre ++ (cutFrom front p.sep ++ p.word)).length =
          (front ++ (p.sep ++ p.word)).length := by
        simp only [List.length_append, length_cutFrom, hpre]
      have hrest := ih hopen _ hpre'
      have hpos : (front ++ (p.sep ++ p.word)).length =
          front.length + p.sep.length + p.word.length := by
        simp only [List.length_append]
        omega
      rw [hpos] at hrest
      rwa [List.append_assoc _ _ (0 :: r), ← List.append_assoc pre]

/-! ## A line of words -/

theorem IsWord.not_endsCut {w : List UInt8} (hw : IsWord w) (front : List UInt8) :
    ¬ EndsCut (front ++ w) := by
  rcases List.eq_nil_or_concat' w with rfl | ⟨w, c, rfl⟩
  · exact absurd rfl hw.ne_nil
  · rw [← List.append_assoc]
    exact not_endsCut_concat (hw.bytes c (by simp)).1

/-- A line ends in a word unless separators follow. -/
theorem not_endsCut_written {name : List UInt8} (hname : IsWord name) (ps : List Part) :
    ¬ EndsCut (name ++ written ps) := by
  rcases List.eq_nil_or_concat' ps with rfl | ⟨ps, p, rfl⟩
  · have h := hname.not_endsCut []
    rwa [List.nil_append, ← List.append_nil name] at h
  · have hsplit : name ++ written (ps ++ [p]) = name ++ written ps ++ p.sep ++ p.word := by
      simp [written]
    rw [hsplit]
    exact p.isWord.not_endsCut _

namespace WordLine

variable (l : WordLine)

/-- A line of words is free of marks and NULs. -/
theorem clean {c : UInt8} (hc : c ∈ l.text) : c ≠ 0 ∧ c ≠ doubleQuote ∧ c ≠ apostrophe := by
  have hword : ∀ {w : List UInt8}, IsWord w → c ∈ w →
      c ≠ 0 ∧ c ≠ doubleQuote ∧ c ≠ apostrophe := fun hw hmem =>
    ⟨(hw.bytes c hmem).2, (hw.bytes c hmem).1.2.1, (hw.bytes c hmem).1.1⟩
  rcases List.mem_append.mp hc with hc | hc
  · rcases List.mem_append.mp hc with hc | hc
    · exact hword l.isName hc
    · obtain ⟨p, -, hp⟩ := List.mem_flatMap.mp hc
      rcases List.mem_append.mp hp with hp | hp
      · exact separator_ne (p.isSep c hp)
      · exact hword p.isWord hp
  · exact separator_ne (l.isTrail c hc)

theorem zero_notMem : 0 ∉ l.text := fun h => (l.clean h).1 rfl

theorem doubleQuote_notMem : doubleQuote ∉ l.text := fun h => (l.clean h).2.1 rfl

theorem apostrophe_notMem : apostrophe ∉ l.text := fun h => (l.clean h).2.2 rfl

theorem length_text : l.text.length ≤ 254 := l.short.trans (by decide)

/-- The words of a line and of the line with its terminator. -/
theorem wordStarts_text : wordStarts l.text = startsFrom l.name.length l.parts := by
  have hstr : isOpen doubleQuote l.name = false :=
    isOpen_of_notMem (doubleQuote_notMem_word l.isName)
  have hname : wordStarts l.name = [] := by
    have h := wordStarts_append_of_inside (l := []) (r := l.name) (by simp [EndsCut])
      fun c hc => (l.isName.bytes c hc).1
    rwa [List.nil_append] at h
  rw [text, wordStarts_append_of_not fun c hc => not_isWordByte_separator (l.isTrail c hc),
    wordStarts_written hstr, hname, List.nil_append]

/-- A word is recorded with no mark open. -/
theorem wordSlots_text : wordSlots (l.text ++ [0]) =
    (wordStarts (l.text ++ [0])).map fun i => { paraStr := some i } := by
  refine List.map_congr_left fun i _ => ?_
  have hnot : ∀ mark : UInt8, mark ≠ 0 → mark ∉ l.text → mark ∉ (l.text ++ [0]).take i := by
    intro mark hm htext h
    rcases List.mem_append.mp (List.mem_of_mem_take h) with h | h
    · exact htext h
    · exact hm (List.mem_singleton.mp h)
  rw [wordSlot, isOpen_of_notMem (hnot _ (by decide) l.doubleQuote_notMem),
    isOpen_of_notMem (hnot _ (by decide) l.apostrophe_notMem)]

/-- What is left of the line: the name, and the words behind NULs. -/
theorem cutText_text (htrail : l.trail = []) (rest : List UInt8) :
    cutText (l.text ++ [0]) ++ rest =
      l.name ++ (cutFrom l.name (written l.parts) ++ 0 :: rest) := by
  have hname : cutText l.name = l.name := cutFrom_word (fun c hc => (l.isName.bytes c hc).1) []
  have hzero : cutByte l.text 0 = 0 := by
    rw [cutByte]
    split_ifs <;> rfl
  rw [cutText_concat, hzero, text, htrail, List.append_nil, cutText_append, hname]
  simp only [List.append_assoc, List.singleton_append]

/-- **Without separators at the end** the words of the line are all. -/
theorem wordStarts_clean (htrail : l.trail = []) :
    wordStarts (l.text ++ [0]) = startsFrom l.name.length l.parts := by
  have hend : ¬ EndsCut l.text := by
    rw [text, htrail, List.append_nil]
    exact not_endsCut_written l.isName l.parts
  rw [wordStarts_concat_of_not fun hs => hend (startsWord_concat.mp hs).2, l.wordStarts_text]

/-- **Behind separators the terminator** is one more. -/
theorem wordStarts_trailing (htrail : l.trail ≠ []) :
    wordStarts (l.text ++ [0]) = startsFrom l.name.length l.parts ++ [l.text.length] := by
  have hzero : IsWordByte 0 := ⟨by decide, by decide, by decide⟩
  have hfront : doubleQuote ∉ l.name ++ written l.parts := fun h =>
    l.doubleQuote_notMem (List.mem_append_left _ h)
  have hend : EndsCut l.text := endsCut_separators htrail l.isTrail (isOpen_of_notMem hfront)
  rw [wordStarts_concat, if_pos (startsWord_concat.mpr ⟨hzero, hend⟩), l.wordStarts_text]

/-- The slots hold the words, read back from the cut line. -/
theorem getElem_slots_clean (htrail : l.trail = []) (rest : List UInt8) {i : ℕ} (hi : i < 10)
    {w : List UInt8} (hw : l.words[i]? = some w) :
    ∃ p, (slots (wordSlots (l.text ++ [0])))[i] = { paraStr := some p } ∧
      cstr ((cutText (l.text ++ [0]) ++ rest).drop p) = w := by
  have hread := read_written (isOpen_of_notMem (doubleQuote_notMem_word l.isName)) l.parts
    l.name rfl rest
  rw [words, List.getElem?_map] at hw
  obtain ⟨part, hpart, rfl⟩ := Option.map_eq_some_iff.mp hw
  obtain ⟨hlt, hget⟩ := List.getElem?_eq_some_iff.mp hpart
  have hlt' : i < (startsFrom l.name.length l.parts).length := by rwa [length_startsFrom]
  refine ⟨(startsFrom l.name.length l.parts)[i], ?_, ?_⟩
  · rw [getElem_slots hi, l.wordSlots_text, l.wordStarts_clean htrail, List.getD_eq_getElem _ _
      (by rwa [List.length_map]), List.getElem_map]
  · rw [l.cutText_text htrail]
    have h := hread.get hlt' hlt
    rwa [List.get_eq_getElem, List.get_eq_getElem, hget] at h

/-- Behind them they are empty. -/
theorem getElem_slots_behind (htrail : l.trail = []) {i : ℕ} (hi : i < 10)
    (hle : l.words.length ≤ i) : (slots (wordSlots (l.text ++ [0])))[i] = {} := by
  rw [words, List.length_map] at hle
  rw [getElem_slots hi, l.wordSlots_text, l.wordStarts_clean htrail, List.getD_eq_default]
  rw [List.length_map, length_startsFrom]
  exact hle

/-! ## What the tokenizer and `RunCmd` make of the line -/

theorem literalsFit_text : LiteralsFit l.text := pairedWithin_of_notMem l.apostrophe_notMem

theorem length_wordStarts_clean (htrail : l.trail = []) :
    (wordStarts (l.text ++ [0])).length ≤ 10 := by
  rw [l.wordStarts_clean htrail, length_startsFrom]
  exact l.few

/-- The name is read back. -/
theorem cstr_cutText (htrail : l.trail = []) (rest : List UInt8) :
    cstr (cutText (l.text ++ [0]) ++ rest) = l.name := by
  obtain ⟨r', hr'⟩ := cutFrom_written_zero
    (isOpen_of_notMem (doubleQuote_notMem_word l.isName)) l.parts rest
  rw [l.cutText_text htrail, hr', cstr_append_zero fun h => (l.isName.bytes 0 h).2 rfl]

/-- **Without separators at the end** the name and the words are recorded. -/
theorem records_clean (htrail : l.trail = []) (rest : List UInt8) :
    ∃ n t, tokenize n (l.text ++ 0 :: rest) = .done t ∧ Records t l.name l.words := by
  obtain ⟨n, t, ht⟩ := (exists_done_iff l.zero_notMem l.length_text rest).mpr
    ⟨l.literalsFit_text, l.length_wordStarts_clean htrail⟩
  obtain ⟨hszCmd, hstr, hchar, hslots, -⟩ := done_reads l.zero_notMem l.length_text ht
  refine ⟨n, t, ht, ⟨?_, ?_⟩, ?_, ?_, ?_⟩
  · exact hstr.trans (isOpen_of_notMem l.doubleQuote_notMem)
  · exact hchar.trans (isOpen_of_notMem l.apostrophe_notMem)
  · rw [hszCmd, l.cstr_cutText htrail]
  · intro i w hw
    rw [hslots, hszCmd]
    exact l.getElem_slots_clean htrail rest i.isLt hw
  · intro i hle
    rw [hslots]
    exact l.getElem_slots_behind htrail i.isLt hle

/-- **Behind separators** the slot after the last word is taken by the
terminator, or there is none left. -/
theorem not_records_trailing (htrail : l.trail ≠ []) {n : ℕ} {t : Tokens} {rest : List UInt8}
    (ht : tokenize n (l.text ++ 0 :: rest) = .done t) : ¬ Records t l.name l.words := by
  intro hrec
  obtain ⟨-, -, -, hslots, hwords⟩ := done_reads l.zero_notMem l.length_text ht
  have hstarts := l.wordStarts_trailing htrail
  have hlen : (wordStarts (l.text ++ [0])).length = l.parts.length + 1 := by
    rw [hstarts, List.length_append, length_startsFrom, List.length_singleton]
  have hk : l.parts.length < 10 := by omega
  have hempty := hrec.empty ⟨l.parts.length, hk⟩ (by rw [words, List.length_map])
  rw [hslots, Fin.getElem_fin, getElem_slots hk, l.wordSlots_text, hstarts, List.map_append,
    List.getD_append_right _ _ _ _ (by rw [List.length_map, length_startsFrom]),
    List.length_map, length_startsFrom, Nat.sub_self] at hempty
  exact absurd (congrArg TRawPara.paraStr hempty) nofun

/-- **A registered function** gets the values of the words. -/
theorem runCmd_clean (htrail : l.trail = []) (table : CmdFunTable F) (base : UInt64)
    (rest : List UInt8) {func : F} (hfunc : findCommand table l.name = some func)
    (hbye : l.name ≠ ascii "bye") (htel : l.name ≠ ascii "telhelp") :
    ∃ para szCmd, runCmd table base (l.text ++ 0 :: rest) = .call func para szCmd ∧
      PassesWords base szCmd l.words para := by
  have hrun := runCmd_eq_dispatch table base l.zero_notMem l.length_text rest l.literalsFit_text
    (l.length_wordStarts_clean htrail) (isOpen_of_notMem l.doubleQuote_notMem)
    (isOpen_of_notMem l.apostrophe_notMem)
  rw [dispatch_call (l.cstr_cutText htrail rest) hfunc hbye htel] at hrun
  refine ⟨_, _, hrun, ?_, ?_⟩
  · intro i w hw
    obtain ⟨p, hslot, hword⟩ := l.getElem_slots_clean htrail rest i.isLt hw
    refine ⟨p, ?_, hword⟩
    rw [Fin.getElem_fin, Vector.getElem_map, hslot, paraValue_bare hword]
  · intro i hle
    rw [Fin.getElem_fin, Vector.getElem_map, l.getElem_slots_behind htrail i.isLt hle]
    rfl

end WordLine

/-- **Separators only separate exactly if** none stands at the end. -/
theorem onlySeparates_iff (table : CmdFunTable F) (base : UInt64) (l : WordLine)
    (rest : List UInt8) : OnlySeparates table base l rest ↔ l.trail = [] := by
  constructor
  · rintro ⟨⟨n, t, ht, hrec⟩, -⟩
    by_contra htrail
    exact l.not_records_trailing htrail ht hrec
  · intro htrail
    refine ⟨l.records_clean htrail rest, fun func hfunc hbye htel => ?_⟩
    exact l.runCmd_clean htrail table base rest hfunc hbye htel

theorem isWord_f : IsWord [102] :=
  ⟨List.cons_ne_nil 102 [], List.forall_mem_singleton.mpr (by decide)⟩

theorem isWord_a : IsWord [97] :=
  ⟨List.cons_ne_nil 97 [], List.forall_mem_singleton.mpr (by decide)⟩

theorem isSep_open : ∀ c ∈ [(40 : UInt8)], c ∈ separators :=
  List.forall_mem_singleton.mpr (by decide)

theorem isSep_close : ∀ c ∈ [(41 : UInt8)], c ∈ separators :=
  List.forall_mem_singleton.mpr (by decide)

theorem one_le_ten : 1 ≤ 10 := by decide

theorem four_le_limit : 4 ≤ 200 := by decide

/-- The line `f(a)`. -/
abbrev lineFA : WordLine where
  name := [102]
  parts := [⟨[40], [97], List.cons_ne_nil 40 [], isSep_open, isWord_a⟩]
  trail := [41]
  isName := isWord_f
  few := one_le_ten
  isTrail := isSep_close
  short := four_le_limit

/-- **Behind the closing parenthesis of `f(a)`** stands one more word. -/
theorem not_onlySeparates_parenthesis : ¬ OnlySeparates (∅ : CmdFunTable Unit) 0 lineFA [] := by
  rintro ⟨⟨n, t, ht, hrec⟩, -⟩
  obtain ⟨t', ht', hslot⟩ : ∃ t', tokenize 10 (lineFA.text ++ 0 :: []) = .done t' ∧
      t'.atRawPara[1].paraStr = some 4 := ⟨_, rfl, rfl⟩
  have hempty := hrec.empty 1 (by decide)
  rw [done_unique ht ht'] at hempty
  rw [show t'.atRawPara[1] = {} from hempty] at hslot
  exact absurd hslot nofun

end TelnetServ
