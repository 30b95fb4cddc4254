import TelnetServ.Command.Scan
import TelnetServ.Line.Model
import Mathlib.Data.List.Forall2
import Mathlib.Tactic.Ring
/-!
# Commands — typed arguments

Arguments as a user types them: integers, character literals and string
literals, each behind a blank. `bytes_args` says what the tokenizer makes of
any list of them whose strings hold no apostrophe: every argument is cut in
its own way and records one word, unless it is one of the *lost* ones, the
empty string and whatever begins with a separator, which record none.
`delivered_iff` follows: the parameters are the arguments exactly when
nothing is lost, no string holds an apostrophe, and the closing quote of a
tenth argument does not start an eleventh word at the end of the line.
-/

namespace TelnetServ

open CStr Decimal

variable {F : Type*}

/-- A typed argument. -/
inductive Arg where
  | int (v : ℤ)
  | char (c : UInt8)
  | str (s : List UInt8)

/-- A byte the line editor puts into the line as it is. -/
def Typed (c : UInt8) : Prop := IsText c ∧ c ≠ 0

instance (c : UInt8) : Decidable (Typed c) := inferInstanceAs (Decidable (IsText c ∧ c ≠ 0))

namespace Arg

/-- The argument as typed. -/
def text : Arg → List UInt8
  | int v => decimal v
  | char c => [apostrophe, c, apostrophe]
  | str s => doubleQuote :: (s ++ [doubleQuote])

/-- The arguments that can be typed. -/
def Ok : Arg → Prop
  | int v => -2 ^ 31 ≤ v ∧ v < 2 ^ 31
  | char c => Typed c ∧ c ≠ apostrophe ∧ c ≠ doubleQuote
  | str s => ∀ c ∈ s, Typed c ∧ c ≠ doubleQuote

instance : DecidablePred Ok
  | int v => inferInstanceAs (Decidable (-2 ^ 31 ≤ v ∧ v < 2 ^ 31))
  | char c => inferInstanceAs (Decidable (Typed c ∧ c ≠ apostrophe ∧ c ≠ doubleQuote))
  | str s => List.decidableBAll (fun c => Typed c ∧ c ≠ doubleQuote) s

/-- **The parameter is the argument**: the integer, the character, or a
pointer to a NUL-terminated copy of the string in the line `szCmd` at
`base`. -/
def Passed (base : UInt64) (szCmd : List UInt8) (p : UInt64) : Arg → Prop
  | int v => p = UInt64.ofInt v
  | char c => p = UInt64.ofInt (charVal c)
  | str s => ∃ i, i < szCmd.length ∧ p = base + UInt64.ofNat i ∧ 0 ∈ szCmd.drop i ∧
      cstr (szCmd.drop i) = s

/-- The arguments the tokenizer never notices. -/
def Lost : Arg → Prop
  | int _ => False
  | char c => c ∈ separators
  | str s => s = [] ∨ deref s ∈ separators

instance : DecidablePred Lost
  | int _ => inferInstanceAs (Decidable False)
  | char c => inferInstanceAs (Decidable (c ∈ separators))
  | str s => inferInstanceAs (Decidable (s = [] ∨ deref s ∈ separators))

/-- A literal. -/
def Quoted : Arg → Prop
  | int _ => False
  | char _ => True
  | str _ => True

instance : DecidablePred Quoted
  | int _ => inferInstanceAs (Decidable False)
  | char _ => inferInstanceAs (Decidable True)
  | str _ => inferInstanceAs (Decidable True)

/-- No string with an apostrophe in it. -/
def Plain : Arg → Prop
  | int _ => True
  | char _ => True
  | str s => apostrophe ∉ s

instance : DecidablePred Plain
  | int _ => inferInstanceAs (Decidable True)
  | char _ => inferInstanceAs (Decidable True)
  | str s => inferInstanceAs (Decidable (apostrophe ∉ s))

/-- The argument and the blank before it, as rewritten. -/
def cut : Arg → List UInt8
  | int v => 0 :: decimal v
  | char c => [0, 0, if c ∈ separators then 0 else c, 0]
  | str s => 0 :: 0 :: (s ++ [0])

/-- The word recorded when the blank before the argument is at `pos`. -/
def word (pos : ℕ) : Arg → TRawPara
  | int _ => ⟨some (pos + 1), false, false⟩
  | char _ => ⟨some (pos + 2), false, true⟩
  | str _ => ⟨some (pos + 2), true, false⟩

/-- The words recorded: one, or none. -/
def words (pos : ℕ) (a : Arg) : List TRawPara := if a.Lost then [] else [a.word pos]

end Arg

/-- A command line: the name, and the arguments behind single blanks. -/
def argLine (name : List UInt8) (args : List Arg) : List UInt8 :=
  name ++ args.flatMap fun a => blankChar :: a.text

/-- The words of a list of arguments that starts at `pos`. -/
def wordsFrom : ℕ → List Arg → List TRawPara
  | _, [] => []
  | pos, a :: as => a.words pos ++ wordsFrom (pos + a.cut.length) as

/-- **The call gets through**: `RunCmd` calls the function found under the
name, and its parameters are the arguments. -/
def Delivered (cmdFunTable : CmdFunTable F) (base : UInt64) (name : List UInt8)
    (args : List Arg) : Prop :=
  ∃ func para szCmd,
    runCmd cmdFunTable base (padded maxCommandLength (argLine name args)) =
      .call func para szCmd ∧
    findCommand cmdFunTable name = some func ∧
    ∀ i (hi : i < args.length) (h10 : i < 10), args[i].Passed base szCmd para[i]

/-- A command name of letters and digits. -/
def IsName (name : List UInt8) : Prop := name ≠ [] ∧ ∀ c ∈ name, IsAlnum c

instance (name : List UInt8) : Decidable (IsName name) :=
  have := List.decidableBAll IsAlnum name
  inferInstanceAs (Decidable (name ≠ [] ∧ ∀ c ∈ name, IsAlnum c))

/-- The last argument is a literal. -/
def EndsQuoted (args : List Arg) : Prop := ∃ a ∈ args.getLast?, a.Quoted

instance (args : List Arg) : Decidable (EndsQuoted args) := by unfold EndsQuoted; infer_instance

/-- **The lines that get through.** -/
structure CleanLine (name : List UInt8) (args : List Arg) : Prop where
  not_bye : name ≠ ascii "bye"
  not_telhelp : name ≠ ascii "telhelp"
  plain : ∀ a ∈ args, a.Plain
  kept : ∀ a ∈ args, ¬ a.Lost
  room : args.length = 10 → ¬ EndsQuoted args

/-! ## Scanning the line -/

theorem isWordByte_decimal {v : ℤ} {c : UInt8} (h : c ∈ decimal v) : IsWordByte c ∧ c ≠ 0 := by
  rcases mem_decimal h with rfl | hd
  · exact ⟨⟨by decide, by decide, by decide⟩, by decide⟩
  · exact isWordByte_alnum (Or.inl hd)

namespace Scan

/-- An integer behind a blank is one word. -/
theorem bytes_int (v : ℤ) {s : Scan} (hstr : s.inStr = false) (hroom : s.words.length < 10) :
    s.bytes (blankChar :: (Arg.int v).text) =
      .next { s with
        out := s.out ++ (Arg.int v).cut
        words := s.words ++ [⟨some (s.out.length + 1), false, s.inChar⟩] } := by
  obtain ⟨d, ds, hd⟩ := List.exists_cons_of_ne_nil (decimal_ne_nil v)
  have hbytes : ∀ c ∈ decimal v, IsWordByte c ∧ c ≠ 0 := fun c hc => isWordByte_decimal hc
  rw [Arg.text, Arg.cut, bytes_cons (byte_separator (by decide)), hstr, if_neg (by decide)]
  rw [hd] at hbytes ⊢
  obtain ⟨hdw, hd0⟩ := hbytes d List.mem_cons_self
  rw [bytes_cons (byte_begin (s := s.push 0) hdw (by simp [push]) hroom),
    bytes_word (fun c hc => hbytes c (List.mem_cons_of_mem _ hc)) (by simpa [push] using hd0)]
  simp [push, hstr]

/-- A character literal is one word, or none. -/
theorem bytes_char {c : UInt8} (hok : (Arg.char c).Ok) {s : Scan} (hstr : s.inStr = false)
    (hchar : s.inChar = false) (hroom : s.words.length < 10) :
    s.bytes (blankChar :: (Arg.char c).text) =
      .next { s with
        out := s.out ++ (Arg.char c).cut
        chStart := s.out.length + 1
        words := s.words ++ (Arg.char c).words s.out.length } := by
  obtain ⟨-, hq, hd⟩ := hok
  rw [Arg.text, bytes_cons (byte_separator (by decide)), hstr]
  have hopen : (s.push 0).byte apostrophe =
      .next { (s.push 0).push 0 with chStart := s.out.length + 1, inChar := true } := by
    simp [byte, push, hchar]
  rw [if_neg (by decide), bytes_cons hopen]
  by_cases hsep : c ∈ separators
  · rw [bytes_cons (byte_separator hsep)]
    simp [push, hstr, bytes, byte, Arg.cut, Arg.words, Arg.Lost, hsep, hchar]
  · rw [bytes_cons (byte_begin ⟨hq, hd, hsep⟩ (by simp [push]) (by simpa [push] using hroom))]
    simp [push, hstr, bytes, byte, Arg.cut, Arg.words, Arg.word, Arg.Lost, hsep, hchar]

/-- The inside of a string literal is one word, or none, and is kept. -/
theorem bytes_str_body {w : List UInt8} (hok : (Arg.str w).Ok) (hap : apostrophe ∉ w) {s : Scan}
    (hstr : s.inStr = true) (hchar : s.inChar = false) (hnul : s.out.getLast? = some 0)
    (hroom : s.words.length < 10) :
    s.bytes w = .next { s with
      out := s.out ++ w
      words := s.words ++
        if (Arg.str w).Lost then [] else [⟨some s.out.length, true, false⟩] } := by
  have hw : ∀ c ∈ w, c ≠ apostrophe ∧ c ≠ doubleQuote ∧ c ≠ 0 := fun c hc =>
    ⟨fun he => hap (he ▸ hc), (hok c hc).2, (hok c hc).1.2⟩
  cases w with
  | nil => simp [Arg.Lost]
  | cons c w =>
    obtain ⟨hq, hd, hc0⟩ := hw c List.mem_cons_self
    have hrest := fun d hd => hw d (List.mem_cons_of_mem _ hd)
    by_cases hsep : c ∈ separators
    · rw [bytes_cons (byte_separator hsep), if_pos hstr,
        bytes_inStr hrest (s := s.push c) hstr (by simpa [push] using hc0)]
      simp [push, Arg.Lost, hsep]
    · rw [bytes_cons (byte_begin ⟨hq, hd, hsep⟩ hnul hroom), bytes_inStr hrest
        (s := { s.push c with words := s.words ++ [⟨some s.out.length, s.inStr, s.inChar⟩] }) hstr
        (by simpa [push] using hc0)]
      simp [push, Arg.Lost, hsep, hstr, hchar]

/-- A string literal without an apostrophe is one word, or none. -/
theorem bytes_str {w : List UInt8} (hok : (Arg.str w).Ok) (hap : apostrophe ∉ w) {s : Scan}
    (hstr : s.inStr = false) (hchar : s.inChar = false) (hroom : s.words.length < 10) :
    s.bytes (blankChar :: (Arg.str w).text) =
      .next { s with
        out := s.out ++ (Arg.str w).cut
        words := s.words ++ (Arg.str w).words s.out.length } := by
  rw [Arg.text, bytes_cons (byte_separator (by decide)), hstr, if_neg (by decide),
    bytes_cons (byte_doubleQuote _),
    bytes_append (bytes_str_body hok hap (by simp [push, hstr]) (by simp [push, hchar])
      (by simp [push]) (by simpa [push] using hroom))]
  rw [bytes_cons (byte_doubleQuote _)]
  simp [push, hstr, Arg.cut, Arg.words, Arg.word]

/-- **What one argument does to the scan.** -/
theorem bytes_arg {a : Arg} (hok : a.Ok) (hplain : a.Plain) {s : Scan} (hstr : s.inStr = false)
    (hchar : s.inChar = false) (hroom : s.words.length < 10) :
    ∃ k, s.bytes (blankChar :: a.text) =
      .next { out := s.out ++ a.cut, inStr := false, inChar := false, chStart := k,
              words := s.words ++ a.words s.out.length } := by
  cases a with
  | int v =>
    refine ⟨s.chStart, ?_⟩
    rw [bytes_int v hstr hroom]
    simp [Arg.words, Arg.Lost, Arg.word, hstr, hchar]
  | char c =>
    refine ⟨s.out.length + 1, ?_⟩
    rw [bytes_char hok hstr hchar hroom, hstr, hchar]
  | str w =>
    refine ⟨s.chStart, ?_⟩
    rw [bytes_str hok hplain hstr hchar hroom, hstr, hchar]

/-- **What a list of arguments does to the scan.** -/
theorem bytes_args {args : List Arg} (hok : ∀ a ∈ args, a.Ok) (hplain : ∀ a ∈ args, a.Plain)
    {s : Scan} (hstr : s.inStr = false) (hchar : s.inChar = false)
    (hroom : s.words.length + args.length ≤ 10) :
    ∃ k, s.bytes (args.flatMap fun a => blankChar :: a.text) =
      .next { out := s.out ++ args.flatMap Arg.cut, inStr := false, inChar := false, chStart := k,
              words := s.words ++ wordsFrom s.out.length args } := by
  induction args generalizing s with
  | nil =>
    cases s
    cases hstr
    cases hchar
    simp [wordsFrom]
  | cons a args ih =>
    rw [List.length_cons] at hroom
    obtain ⟨k, hk⟩ := bytes_arg (hok a List.mem_cons_self) (hplain a List.mem_cons_self) hstr
      hchar (by omega)
    have hone : (a.words s.out.length).length ≤ 1 := by
      rw [Arg.words]; split_ifs <;> simp
    obtain ⟨k', hk'⟩ := ih (fun b hb => hok b (List.mem_cons_of_mem _ hb))
      (fun b hb => hplain b (List.mem_cons_of_mem _ hb))
      (s := { out := s.out ++ a.cut, inStr := false, inChar := false, chStart := k,
              words := s.words ++ a.words s.out.length }) rfl rfl
      (by simp only [List.length_append]; omega)
    refine ⟨k', ?_⟩
    rw [List.flatMap_cons, bytes_append hk, hk']
    simp [wordsFrom]

end Scan

/-! ## What the words are converted to -/

/-- Every rewritten argument starts with the NUL of its blank. -/
theorem head?_cut (a : Arg) : a.cut.head? = some 0 := by cases a <;> rfl

/-- **The word of an argument is converted to the argument**, wherever the
argument stands in the line. -/
theorem passed_word {a : Arg} (hok : a.Ok) (hkept : ¬ a.Lost) (base : UInt64)
    (before : List UInt8) {after : List UInt8} (hafter : after.head? = some 0) :
    a.Passed base (before ++ a.cut ++ after)
      (paraValue base (before ++ a.cut ++ after) (a.word before.length)) := by
  obtain ⟨rest, rfl⟩ : ∃ rest, after = 0 :: rest := by
    cases after with
    | nil => cases hafter
    | cons c rest => cases hafter; exact ⟨rest, rfl⟩
  cases a with
  | int v =>
    -- a zero is a number because it is printed as `0`
    have hdrop : (before ++ (Arg.int v).cut ++ 0 :: rest).drop (before.length + 1) =
        decimal v ++ 0 :: rest := by simp [Arg.cut, List.drop_append, List.drop_eq_nil_of_le]
    have hatoi : atoi (decimal v ++ 0 :: rest) = v :=
      atoi_decimal hok.1 hok.2 (by intro c hc; cases hc; decide)
    have hfirst : v = 0 →
        (before ++ (Arg.int v).cut ++ 0 :: rest).getD (before.length + 1) 0 = 48 := by
      rintro rfl
      have h0 : decimal 0 = [48] := rfl
      simp [Arg.cut, h0]
    have hword :
        wordParse base (before ++ (Arg.int v).cut ++ 0 :: rest) (before.length + 1) = v := by
      simp only [wordParse, hdrop, hatoi]
      split_ifs with h
      · exact absurd (hfirst h.1) h.2
      · rfl
    simp only [Arg.Passed, Arg.word, paraValue, hword]
    rfl
  | char c =>
    simp only [Arg.Lost] at hkept
    simp [Arg.Passed, Arg.word, paraValue, Arg.cut, hkept]
  | str w =>
    -- the pointer goes behind the opening quote
    have h0 : 0 ∉ w := fun h => (hok 0 h).1.2 rfl
    have hdrop : (before ++ (Arg.str w).cut ++ 0 :: rest).drop (before.length + 2) =
        w ++ 0 :: 0 :: rest := by simp [Arg.cut, List.drop_append, List.drop_eq_nil_of_le]
    refine ⟨before.length + 2, ?_, rfl, ?_, ?_⟩
    · simp only [Arg.cut, List.length_append, List.length_cons]; omega
    · rw [hdrop]; simp
    · rw [hdrop, cstr_append_zero h0]

/-- **Every recorded word is converted to its argument**, in the order of
the arguments that are not lost. -/
theorem passed_words {args : List Arg} (hok : ∀ a ∈ args, a.Ok) (base : UInt64)
    (before : List UInt8) {after : List UInt8} (hafter : after.head? = some 0)
    {szCmd : List UInt8} (hsz : szCmd = before ++ args.flatMap Arg.cut ++ after) :
    List.Forall₂ (fun a w => Arg.Passed base szCmd (paraValue base szCmd w) a)
      (args.filter fun a => ¬ a.Lost) (wordsFrom before.length args) := by
  induction args generalizing before with
  | nil => exact List.Forall₂.nil
  | cons a args ih =>
    have hrest := ih (fun b hb => hok b (List.mem_cons_of_mem _ hb)) (before ++ a.cut)
      (by rw [hsz, List.flatMap_cons]; simp)
    rw [List.length_append] at hrest
    by_cases hlost : a.Lost
    · rw [List.filter_cons_of_neg (by simpa using hlost), wordsFrom, Arg.words, if_pos hlost]
      exact hrest
    · rw [List.filter_cons_of_pos (by simpa using hlost), wordsFrom, Arg.words, if_neg hlost]
      refine List.Forall₂.cons ?_ hrest
      have hnext : (args.flatMap Arg.cut ++ after).head? = some 0 := by
        cases args with
        | nil => exact hafter
        | cons b args =>
          rw [List.flatMap_cons, List.append_assoc, List.head?_append, head?_cut]
          rfl
      have := passed_word (hok a List.mem_cons_self) hlost base before hnext
      rwa [← List.append_assoc, List.append_assoc before, ← List.flatMap_cons, ← hsz] at this

/-! ## The whole line -/

variable {name : List UInt8} {args : List Arg}

theorem IsName.wordBytes (h : IsName name) : ∀ c ∈ name, IsWordByte c ∧ c ≠ 0 :=
  fun c hc => isWordByte_alnum (h.2 c hc)

theorem IsName.zero_notMem (h : IsName name) : 0 ∉ name := fun h0 => (h.wordBytes 0 h0).2 rfl

theorem zero_notMem_text {a : Arg} (hok : a.Ok) : 0 ∉ a.text := by
  cases a with
  | int v => exact fun h0 => (isWordByte_decimal h0).2 rfl
  | char c =>
    have : 0 ≠ c := Ne.symm hok.1.2
    have hq : 0 ≠ apostrophe := by decide
    simp [Arg.text, this, hq]
  | str w =>
    have : 0 ∉ w := fun h0 => (hok 0 h0).1.2 rfl
    have hd : 0 ≠ doubleQuote := by decide
    simp [Arg.text, this, hd]

theorem zero_notMem_argLine (hname : IsName name) (hok : ∀ a ∈ args, a.Ok) :
    0 ∉ argLine name args := by
  rw [argLine, List.mem_append, List.mem_flatMap, not_or]
  refine ⟨hname.zero_notMem, ?_⟩
  rintro ⟨a, ha, h0⟩
  rcases List.mem_cons.mp h0 with h0 | h0
  · exact absurd h0 (by decide)
  · exact zero_notMem_text (hok a ha) h0

/-- **The scan of a whole line**, up to the terminator. -/
theorem bytes_argLine (hname : IsName name) (hok : ∀ a ∈ args, a.Ok)
    (hplain : ∀ a ∈ args, a.Plain) (hk : args.length ≤ 10) :
    ∃ k, ({} : Scan).bytes (argLine name args) =
      .next { out := name ++ args.flatMap Arg.cut, inStr := false, inChar := false, chStart := k,
              words := wordsFrom name.length args } := by
  have hword : ({} : Scan).bytes name = .next { out := name } := by
    rw [Scan.bytes_word hname.wordBytes (by simp)]
    simp
  obtain ⟨k, hargs⟩ := Scan.bytes_args hok hplain (s := { out := name }) rfl rfl (by simpa using hk)
  exact ⟨k, by rw [argLine, Scan.bytes_append hword, hargs]; rfl⟩

/-- The rewritten line ends with a NUL exactly when its last argument is a
literal. -/
theorem getLast?_cut (hname : IsName name) :
    (name ++ args.flatMap Arg.cut).getLast? = some 0 ↔ EndsQuoted args := by
  rcases List.eq_nil_or_concat args with rfl | ⟨front, a, rfl⟩
  · obtain ⟨hne, hbytes⟩ := hname
    simp only [List.flatMap_nil, List.append_nil, EndsQuoted, List.getLast?_nil, Option.mem_def,
      reduceCtorEq, false_and, exists_false, iff_false]
    intro h0
    exact (isWordByte_alnum (hbytes 0 (List.mem_of_getLast? h0))).2 rfl
  · have hcut : a.cut.getLast? = some 0 ↔ a.Quoted := by
      cases a with
      | int v =>
        obtain ⟨d, hd⟩ : ∃ d, (decimal v).getLast? = some d :=
          ⟨_, List.getLast?_eq_some_getLast (decimal_ne_nil v)⟩
        have hd0 : d ≠ 0 := (isWordByte_decimal (List.mem_of_getLast? hd)).2
        simp [Arg.cut, Arg.Quoted, List.getLast?_cons, hd, hd0]
      | char c => simp [Arg.cut, Arg.Quoted]
      | str w => simp [Arg.cut, Arg.Quoted, List.getLast?_cons]
    have hne : a.cut ≠ [] := by cases a <;> simp [Arg.cut]
    rw [List.concat_eq_append, List.flatMap_append, List.flatMap_singleton, ← List.append_assoc,
      List.getLast?_append_of_ne_nil _ hne, hcut, EndsQuoted]
    simp

/-- The word a closing quote begins at the terminator. -/
def endWords (name : List UInt8) (args : List Arg) : List TRawPara :=
  if EndsQuoted args then [⟨some (name ++ args.flatMap Arg.cut).length, false, false⟩] else []

/-- The line as the tokenizer leaves it. -/
def rewritten (name : List UInt8) (args : List Arg) : List UInt8 :=
  name ++ args.flatMap Arg.cut ++
    0 :: List.replicate (maxCommandLength - (argLine name args).length - 1) 0

theorem length_cut (a : Arg) : a.cut.length = (blankChar :: a.text).length := by
  cases a <;> simp [Arg.cut, Arg.text]

theorem length_argLine : (name ++ args.flatMap Arg.cut).length = (argLine name args).length := by
  have hcut : ∀ a : Arg, a.cut.length = (blankChar :: a.text).length := length_cut
  simp only [argLine, List.length_append, List.length_flatMap, hcut]

theorem length_rewritten (hlen : (argLine name args).length ≤ 200) :
    (rewritten name args).length = 2048 := by
  rw [rewritten, List.length_append, length_argLine, List.length_cons, List.length_replicate]
  simp only [maxCommandLength]
  omega

/-- The rewritten line is read as the name alone. -/
theorem cstr_rewritten (hname : IsName name) : cstr (rewritten name args) = name := by
  cases args with
  | nil =>
    rw [rewritten, List.flatMap_nil, List.append_nil]
    exact cstr_append_zero hname.zero_notMem
  | cons a args =>
    obtain ⟨t, ht⟩ : ∃ t, a.cut = 0 :: t := by cases a <;> exact ⟨_, rfl⟩
    rw [rewritten, List.flatMap_cons, ht, List.append_assoc, List.append_assoc, List.cons_append]
    exact cstr_append_zero hname.zero_notMem

/-- **`RunCmd` on a line of arguments.** -/
theorem runCmd_argLine (cmdFunTable : CmdFunTable F) (base : UInt64) (hname : IsName name)
    (hok : ∀ a ∈ args, a.Ok) (hplain : ∀ a ∈ args, a.Plain) (hk : args.length ≤ 10)
    (hlen : (argLine name args).length ≤ 200) :
    runCmd cmdFunTable base (padded maxCommandLength (argLine name args)) =
      if EndsQuoted args ∧ ¬ (wordsFrom name.length args).length < 10 then .overrun
      else dispatch cmdFunTable base (rewritten name args)
        (slots (wordsFrom name.length args ++ endWords name args)) := by
  obtain ⟨k, hscan⟩ := bytes_argLine hname hok hplain hk
  have hzero : IsWordByte 0 := ⟨by decide, by decide, by decide⟩
  rw [padded_eq (lt_maxCommandLength (by omega)),
    runCmd_eq_scan _ _ (zero_notMem_argLine hname hok) (by omega), Scan.bytes_append hscan,
    Scan.bytes]
  by_cases hend : EndsQuoted args
  · have hlast := (getLast?_cut hname).mpr hend
    by_cases hroom : (wordsFrom name.length args).length < 10
    · rw [Scan.byte_begin hzero hlast hroom, if_neg fun h => h.2 hroom]
      simp [finish, Scan.push, rewritten, endWords, hend]
    · rw [Scan.byte_begin_full hzero hlast hroom, if_pos ⟨hend, hroom⟩]
      rfl
  · rw [Scan.byte_pass hzero fun h => hend ((getLast?_cut hname).mp h), if_neg fun h => hend h.1]
    simp [finish, Scan.push, rewritten, endWords, hend]

/-- The parameters `RunCmd` passes for a line of arguments. -/
def argPara (base : UInt64) (name : List UInt8) (args : List Arg) (i : ℕ) : UInt64 :=
  paraValue base (rewritten name args)
    ((wordsFrom name.length args ++ endWords name args).getD i {})

/-- **What delivery comes down to** on a line without apostrophes in its
strings. -/
theorem delivered_iff_words {cmdFunTable : CmdFunTable F} {func : F} {base : UInt64}
    (hname : IsName name) (hok : ∀ a ∈ args, a.Ok) (hplain : ∀ a ∈ args, a.Plain)
    (hk : args.length ≤ 10) (hlen : (argLine name args).length ≤ 200)
    (hfind : findCommand cmdFunTable name = some func) :
    Delivered cmdFunTable base name args ↔
      name ≠ ascii "bye" ∧ name ≠ ascii "telhelp" ∧
      ¬ (EndsQuoted args ∧ ¬ (wordsFrom name.length args).length < 10) ∧
      ∀ i (hi : i < args.length),
        args[i].Passed base (rewritten name args) (argPara base name args i) := by
  have hcstr : cstr (rewritten name args) = name := cstr_rewritten hname
  have hfind' : findCommand cmdFunTable (rewritten name args) = some func := by
    rw [findCommand, cstr_eq_self hname.zero_notMem] at hfind
    rw [findCommand, hcstr, hfind]
  have hpara : ∀ i (h10 : i < 10), ((slots (wordsFrom name.length args ++
      endWords name args)).map (paraValue base (rewritten name args)))[i] =
        argPara base name args i := by
    intro i h10
    rw [Vector.getElem_map, getElem_slots h10, argPara]
  -- what is left of `RunCmd` is its dispatch on the rewritten line
  rw [Delivered, runCmd_argLine _ _ hname hok hplain hk hlen]
  simp only [dispatch, hcstr, hfind']
  constructor
  · rintro ⟨f, para, szCmd, hrun, -, hpass⟩
    split_ifs at hrun with hover hbye htel
    cases hrun
    refine ⟨hbye, htel, hover, fun i hi => ?_⟩
    rw [← hpara i (by omega)]
    exact hpass i hi (by omega)
  · rintro ⟨hbye, htel, hover, hpass⟩
    rw [if_neg hover, if_neg hbye, if_neg htel]
    refine ⟨func, _, _, rfl, hfind, fun i hi h10 => ?_⟩
    rw [hpara i h10]
    exact hpass i hi

/-! ## Nothing lost -/

/-- **Where nothing is lost, every parameter is its argument.** -/
theorem passed_of_kept (name : List UInt8) (base : UInt64) (hok : ∀ a ∈ args, a.Ok)
    (hkept : ∀ a ∈ args, ¬ a.Lost) :
    (wordsFrom name.length args).length = args.length ∧
    ∀ i (hi : i < args.length),
      args[i].Passed base (rewritten name args) (argPara base name args i) := by
  have hsz : rewritten name args = name ++ args.flatMap Arg.cut ++ 0 :: _ := rfl
  have hall := passed_words hok base name rfl hsz
  rw [List.filter_eq_self.mpr fun a ha => by simpa using hkept a ha] at hall
  refine ⟨hall.length_eq.symm, fun i hi => ?_⟩
  have hiw : i < (wordsFrom name.length args).length := hall.length_eq ▸ hi
  rw [argPara, List.getD_append _ _ _ _ hiw, List.getD_eq_getElem _ _ hiw]
  exact hall.get hi hiw

/-! ## Something lost -/

theorem wordsFrom_append (pos : ℕ) (as bs : List Arg) :
    wordsFrom pos (as ++ bs) =
      wordsFrom pos as ++ wordsFrom (pos + (as.flatMap Arg.cut).length) bs := by
  induction as generalizing pos with
  | nil => simp [wordsFrom]
  | cons a as ih =>
    rw [List.cons_append, wordsFrom, ih, wordsFrom, List.append_assoc, List.flatMap_cons,
      List.length_append, Nat.add_assoc]

theorem length_wordsFrom (pos : ℕ) (as : List Arg) :
    (wordsFrom pos as).length = (as.filter fun a => ¬ a.Lost).length := by
  induction as generalizing pos with
  | nil => rfl
  | cons a as ih =>
    rw [wordsFrom, List.length_append, ih, Arg.words]
    by_cases hlost : a.Lost
    · rw [if_pos hlost, List.filter_cons_of_neg (by simpa using hlost)]
      simp
    · rw [if_neg hlost, List.filter_cons_of_pos (by simpa using hlost), List.length_cons,
        List.length_cons, List.length_nil]
      omega

/-- A lost argument leaves fewer words than arguments. -/
theorem length_wordsFrom_lt (pos : ℕ) {as : List Arg} {a : Arg} (ha : a ∈ as)
    (hlost : a.Lost) : (wordsFrom pos as).length < as.length := by
  rw [length_wordsFrom]
  refine lt_of_le_of_ne (List.length_filter_le _ _) fun heq => ?_
  have := List.length_filter_eq_length_iff.mp heq a ha
  simp [hlost] at this

/-- An address no number and no character is mistaken for: beyond what an
`int` can hold, with low bits beyond what a `char` can. -/
def plainBase : UInt64 := 0x400000010000

theorem toNat_plainBase {i : ℕ} (hi : i < 2048) :
    (plainBase + UInt64.ofNat i).toNat = 2 ^ 46 + 2 ^ 16 + i := by
  have : plainBase.toNat = 2 ^ 46 + 2 ^ 16 := rfl
  rw [UInt64.toNat_add, UInt64.toNat_ofNat']
  omega

theorem ofInt_inj {x y : ℤ} (hx : -2 ^ 31 ≤ x ∧ x < 2 ^ 31) (hy : -2 ^ 31 ≤ y ∧ y < 2 ^ 31)
    (h : UInt64.ofInt x = UInt64.ofInt y) : x = y := by
  have := congrArg UInt64.toNat h
  simp only [UInt64.ofInt, UInt64.toNat_ofNat'] at this
  omega

theorem charVal_range (c : UInt8) : -128 ≤ charVal c ∧ charVal c < 128 := by
  have := c.toInt8.minValue_le_toInt
  have := c.toInt8.toInt_lt
  rw [charVal]
  simp at *
  omega

theorem charVal_eq_zero {c : UInt8} (h : charVal c = 0) : c = 0 := by
  have h8 : c.toInt8 = 0 := Int8.toInt_inj.mp h
  rw [← c.toUInt8_toInt8, h8]
  rfl

/-- An empty word that is neither string nor character is converted to its
address, narrowed. -/
theorem wordParse_nul (base : UInt64) {szCmd r : List UInt8} {i : ℕ}
    (h : szCmd.drop i = 0 :: r) :
    wordParse base szCmd i = ((base + UInt64.ofNat i).toNat : ℤ).bmod (2 ^ 32) := by
  have hbyte : szCmd.getD i 0 = 0 := by
    have := congrArg (fun l => l[0]?) h
    simp only [List.getElem?_drop, Nat.add_zero, List.getElem?_cons_zero] at this
    rw [List.getD_eq_getElem?_getD, this]
    rfl
  simp only [wordParse, h, atoi_nul, hbyte]
  exact if_pos ⟨trivial, by decide⟩

/-- The word the terminator begins at `plainBase`. -/
theorem paraValue_endWord (hlen : (argLine name args).length ≤ 200) :
    paraValue plainBase (rewritten name args)
      ⟨some (name ++ args.flatMap Arg.cut).length, false, false⟩ =
        UInt64.ofInt (65536 + (argLine name args).length) := by
  have hdrop : (rewritten name args).drop (name ++ args.flatMap Arg.cut).length = 0 :: _ :=
    List.drop_left
  have hword := wordParse_nul plainBase hdrop
  rw [length_argLine, toNat_plainBase (by omega)] at hword
  have hsplit : ((2 ^ 46 + 2 ^ 16 + (argLine name args).length : ℕ) : ℤ) =
      (65536 + (argLine name args).length) + ((2 ^ 32 : ℕ) : ℤ) * 16384 := by
    push_cast; ring
  rw [hsplit, Int.add_mul_bmod_self_left, Int.bmod_eq_of_le (by omega) (by omega)] at hword
  rw [← hword, length_argLine]
  rfl

theorem forall_right_of_forall₂ {α β : Type*} {R : α → β → Prop} {P : β → Prop} {l : List α}
    {u : List β} (h : List.Forall₂ R l u) (hP : ∀ a ∈ l, ∀ b, R a b → P b) : ∀ b ∈ u, P b := by
  induction h with
  | nil => intro b hb; cases hb
  | cons hab _ ih =>
    intro b hb
    rcases List.mem_cons.mp hb with rfl | hb
    · exact hP _ List.mem_cons_self b hab
    · exact ih (fun a ha => hP a (List.mem_cons_of_mem _ ha)) b hb

/-- A literal that ends the line with only zeros behind place `j` stands at
`j`. -/
theorem quoted_of_endsQuoted {j : ℕ} (hj : j < args.length)
    (hzero : ∀ b ∈ args.drop (j + 1), b = Arg.int 0) (hend : EndsQuoted args) :
    args[j].Quoted := by
  obtain ⟨b, hb, hquoted⟩ := hend
  rw [Option.mem_def, List.getLast?_eq_getElem?, List.getElem?_eq_some_iff] at hb
  obtain ⟨hlast, rfl⟩ := hb
  rcases Nat.lt_or_ge (j + 1) args.length with hlt | hge
  · have hmem : args[args.length - 1] ∈ args.drop (j + 1) :=
      List.mem_drop_iff_getElem.mpr ⟨args.length - 1 - (j + 1), by omega, by
        congr 1
        omega⟩
    rw [hzero _ hmem] at hquoted
    cases hquoted
  · have hidx : args.length - 1 = j := by omega
    simpa only [hidx] using hquoted

/-- **The parameter at a place where a word is missing.** If every later
argument is the integer 0, the parameter there is 0, or at the last place
the narrowed address of the line's end. -/
theorem argPara_of_zeros (hok : ∀ a ∈ args, a.Ok) (hlen : (argLine name args).length ≤ 200)
    {j : ℕ} (hj : j < args.length) (hlost : ∃ a ∈ args.take (j + 1), a.Lost)
    (hzero : ∀ b ∈ args.drop (j + 1), b = Arg.int 0) :
    argPara plainBase name args j = 0 ∨
      (argPara plainBase name args j = UInt64.ofInt (65536 + (argLine name args).length) ∧
        args[j].Quoted) := by
  obtain ⟨a, ha, hla⟩ := hlost
  have hsplit : wordsFrom name.length args = wordsFrom name.length (args.take (j + 1)) ++
      wordsFrom (name ++ (args.take (j + 1)).flatMap Arg.cut).length (args.drop (j + 1)) := by
    rw [List.length_append, ← wordsFrom_append, List.take_append_drop]
  -- the lost argument leaves its slot to what comes behind it
  have hfew : (wordsFrom name.length (args.take (j + 1))).length ≤ j := by
    have := length_wordsFrom_lt name.length ha hla
    rw [List.length_take] at this
    omega
  have htail : ∀ w ∈ wordsFrom (name ++ (args.take (j + 1)).flatMap Arg.cut).length
      (args.drop (j + 1)), paraValue plainBase (rewritten name args) w = 0 := by
    have hsz : rewritten name args = name ++ (args.take (j + 1)).flatMap Arg.cut ++
        (args.drop (j + 1)).flatMap Arg.cut ++
          0 :: List.replicate (maxCommandLength - (argLine name args).length - 1) 0 := by
      rw [List.append_assoc name, ← List.flatMap_append, List.take_append_drop]
      rfl
    refine forall_right_of_forall₂ (passed_words
      (fun b hb => hok b (List.mem_of_mem_drop hb)) plainBase _ rfl hsz) ?_
    intro b hb w hw
    rw [hzero b (List.mem_of_mem_filter hb)] at hw
    exact hw
  rw [argPara, hsplit, List.append_assoc, List.getD_append_right _ _ _ _ hfew]
  -- slot `j` belongs to a later argument, to the closing quote, or to nothing
  rcases lt_or_ge (j - (wordsFrom name.length (args.take (j + 1))).length)
      (wordsFrom (name ++ (args.take (j + 1)).flatMap Arg.cut).length (args.drop (j + 1))).length
      with hin | hout
  · left
    rw [List.getD_append _ _ _ _ hin, List.getD_eq_getElem _ _ hin]
    exact htail _ (List.getElem_mem _)
  · rw [List.getD_append_right _ _ _ _ hout, endWords]
    by_cases hend : EndsQuoted args
    · rw [if_pos hend]
      generalize j - _ - _ = n
      cases n with
      | zero =>
        exact Or.inr ⟨paraValue_endWord hlen, quoted_of_endsQuoted hj hzero hend⟩
      | succ n => exact Or.inl rfl
    · rw [if_neg hend]
      exact Or.inl rfl

/-- What is passed as 0, or a literal as an address narrowed, can only have
been the integer 0. -/
theorem eq_int_zero_of_passed {a : Arg} (hok : a.Ok) {szCmd : List UInt8} {n : ℕ} {p : UInt64}
    (hsz : szCmd.length = 2048) (hn : n ≤ 200) (h : a.Passed plainBase szCmd p)
    (hp : p = 0 ∨ (p = UInt64.ofInt (65536 + n) ∧ a.Quoted)) : a = .int 0 := by
  have hzero : (0 : UInt64) = UInt64.ofInt 0 := rfl
  cases a with
  | int v =>
    rcases hp with rfl | ⟨-, hquoted⟩
    · rw [ofInt_inj (x := 0) (by omega) hok (hzero ▸ h)]
    · cases hquoted
  | char c =>
    exfalso
    have hc := charVal_range c
    simp only [Arg.Passed] at h
    rcases hp with rfl | ⟨rfl, -⟩
    · exact hok.1.2 (charVal_eq_zero (ofInt_inj (by omega) (by omega) (hzero ▸ h)).symm)
    · have := ofInt_inj (by omega) (by omega) h
      omega
  | str w =>
    exfalso
    obtain ⟨i, hi, rfl, -⟩ := h
    have haddr := toNat_plainBase (i := i) (by omega)
    rcases hp with hp | ⟨hp, -⟩
    · rw [hp, UInt64.toNat_zero] at haddr
      omega
    · rw [hp, UInt64.ofInt, UInt64.toNat_ofNat'] at haddr
      omega

/-- **A lost argument spoils the call.** The parameters from there on are
those of later arguments, or nothing; if each of them were its own
argument's, every argument from the lost one on would have to be the
integer 0. -/
theorem not_passed_of_lost (hok : ∀ a ∈ args, a.Ok) (hlen : (argLine name args).length ≤ 200)
    {a : Arg} (ha : a ∈ args) (hlost : a.Lost) :
    ¬ ∀ i (hi : i < args.length),
      args[i].Passed plainBase (rewritten name args) (argPara plainBase name args i) := by
  intro hpass
  obtain ⟨j₀, hj₀, rfl⟩ := List.getElem_of_mem ha
  -- downward from the last argument
  have key : ∀ m j, j₀ ≤ j → (hj : j < args.length) → args.length ≤ j + m →
      args[j] = Arg.int 0 := by
    intro m
    induction m with
    | zero => intro j _ hj hm; omega
    | succ m ih =>
      intro j hle hj hm
      have hzero : ∀ b ∈ args.drop (j + 1), b = Arg.int 0 := by
        intro b hb
        obtain ⟨i, hi, rfl⟩ := List.mem_drop_iff_getElem.mp hb
        exact ih (j + 1 + i) (by omega) (by omega) (by omega)
      have hmem : args[j₀] ∈ args.take (j + 1) :=
        List.mem_take_iff_getElem.mpr ⟨j₀, by omega, rfl⟩
      exact eq_int_zero_of_passed (hok _ (List.getElem_mem hj)) (length_rewritten hlen) hlen
        (hpass j hj) (argPara_of_zeros hok hlen hj ⟨_, hmem, hlost⟩ hzero)
  rw [key args.length j₀ le_rfl hj₀ (by omega)] at hlost
  cases hlost

/-! ## The round trip -/

/-- An apostrophe does not survive the tokenizer, so no parameter points to
a string that holds one. -/
theorem plain_of_delivered {cmdFunTable : CmdFunTable F} {base : UInt64} (hname : IsName name)
    (hok : ∀ a ∈ args, a.Ok) (hk : args.length ≤ 10) (hlen : (argLine name args).length ≤ 200)
    (h : Delivered cmdFunTable base name args) : ∀ a ∈ args, a.Plain := by
  obtain ⟨func, para, szCmd, hrun, -, hpass⟩ := h
  -- the scan writes a NUL over every apostrophe
  have hno : apostrophe ∉ szCmd := by
    rw [padded_eq (lt_maxCommandLength (by omega)),
      runCmd_eq_scan _ _ (zero_notMem_argLine hname hok) (by omega)] at hrun
    generalize hs : ({} : Scan).bytes (argLine name args ++ [0]) = r at hrun
    cases r with
    | inputError => cases hrun
    | overrun => cases hrun
    | next s =>
      have hout := Scan.apostrophe_notMem_bytes (by simp) hs
      simp only [finish, dispatch] at hrun
      split_ifs at hrun
      split at hrun <;> cases hrun
      rw [List.mem_append, not_or]
      exact ⟨hout, fun h => absurd (List.eq_of_mem_replicate h) (by decide)⟩
  intro a ha
  cases a with
  | int v => trivial
  | char c => trivial
  | str w =>
    intro hw
    obtain ⟨i, hi, hai⟩ := List.getElem_of_mem ha
    have := hpass i hi (by omega)
    rw [hai] at this
    obtain ⟨j, -, -, -, hcstr⟩ := this
    rw [← hcstr] at hw
    exact hno (List.mem_of_mem_drop (mem_of_mem_cstr hw))

/-- **Exactly when typed arguments get through**, wherever the line buffer
lies. -/
theorem delivered_iff {cmdFunTable : CmdFunTable F} {func : F} (hname : IsName name)
    (hok : ∀ a ∈ args, a.Ok) (hk : args.length ≤ 10) (hlen : (argLine name args).length ≤ 200)
    (hfind : findCommand cmdFunTable name = some func) :
    (∀ base, Delivered cmdFunTable base name args) ↔ CleanLine name args := by
  constructor
  · intro h
    have hplain := plain_of_delivered hname hok hk hlen (h 0)
    obtain ⟨hbye, htel, hover, hpass⟩ :=
      (delivered_iff_words hname hok hplain hk hlen hfind).mp (h plainBase)
    have hkept : ∀ a ∈ args, ¬ a.Lost := fun a ha hlost =>
      not_passed_of_lost hok hlen ha hlost hpass
    refine ⟨hbye, htel, hplain, hkept, fun h10 hend => hover ⟨hend, ?_⟩⟩
    rw [(passed_of_kept name plainBase hok hkept).1]
    omega
  · rintro ⟨hbye, htel, hplain, hkept, hroom⟩ base
    obtain ⟨hcount, hpass⟩ := passed_of_kept name base hok hkept
    refine (delivered_iff_words hname hok hplain hk hlen hfind).mpr
      ⟨hbye, htel, fun ⟨hend, hfull⟩ => hroom (by omega) hend, hpass⟩

/-- A call with one argument of each kind gets through. -/
theorem delivered_three_kinds : Delivered (regCommand ∅ (ascii "tt") (some 7) [])
    plainBase (ascii "tt") [.int (-5), .char 97, .str (ascii "a (b, c)")] :=
  (delivered_iff (by decide) (by decide) (by decide) (by decide)
    (rfl : findCommand (regCommand ∅ (ascii "tt") (some 7) []) (ascii "tt") =
      some 7)).mpr ⟨by decide, by decide, by decide, by decide, by decide⟩ plainBase

/-- An apostrophe in a string keeps the call from getting through. -/
theorem not_delivered_apostrophe :
    IsName (ascii "tt") ∧ (∀ a ∈ [Arg.str (ascii "it's")], a.Ok) ∧
    findCommand (regCommand ∅ (ascii "tt") (some 7) []) (ascii "tt") = some 7 ∧
    ∀ base, ¬ Delivered (regCommand ∅ (ascii "tt") (some 7) []) base (ascii "tt")
      [.str (ascii "it's")] := by
  refine ⟨by decide, by decide, rfl, fun base h => ?_⟩
  have hplain := plain_of_delivered (by decide) (by decide) (by decide) (by decide) h
  exact absurd (hplain _ List.mem_cons_self) (by decide)

end TelnetServ
