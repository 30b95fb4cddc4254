import TelnetServ.Command.Scan
import Mathlib.Data.List.Induction
/-!
# Commands — how a name reaches its function

A line that is one word passes `RunCmd` as it is, so what it reaches is
decided by `CmdParse` before and `FindCommand` behind. `FindCommand` is
faithful to the registrations (`findCommand_tableOf`): the last one under
a name wins. `CmdParse` is not faithful to the line: it starts at the first
letter or digit, and an underscore is neither.
-/

namespace TelnetServ

open CStr

variable {F : Type*}

/-! ## The registrations -/

/-- A call of `regCommand`. -/
structure Registration (F : Type*) where
  name : List UInt8
  func : Option F
  usage : List UInt8

/-- The command table after a sequence of `regCommand` calls. -/
def tableOf (regs : List (Registration F)) : CmdFunTable F :=
  regs.foldl (fun table r => regCommand table r.name r.func r.usage) ∅

/-- **The function most recently registered under a name.** -/
def registered (regs : List (Registration F)) (name : List UInt8) : Option F :=
  (regs.reverse.find? fun r => cstr r.name = name).bind Registration.func

/-- `FindCommand` behind one more registration. -/
theorem findCommand_regCommand (table : CmdFunTable F) (r : Registration F) (name : List UInt8) :
    findCommand (regCommand table r.name r.func r.usage) name =
      if cstr r.name = cstr name then r.func else findCommand table name := by
  rw [findCommand, regCommand, Std.TreeMap.getElem?_insert]
  by_cases h : cstr r.name = cstr name
  · rw [if_pos (Std.LawfulEqOrd.compare_eq_iff_eq.mpr h), if_pos h]
    rfl
  · rw [if_neg (mt Std.LawfulEqOrd.compare_eq_iff_eq.mp h), if_neg h]
    rfl

/-- **`FindCommand` finds the last registration.** -/
theorem findCommand_tableOf (regs : List (Registration F)) (name : List UInt8) :
    findCommand (tableOf regs) name = registered regs (cstr name) := by
  induction regs using List.reverseRecOn with
  | nil => rfl
  | append_singleton regs r ih =>
    have hfold : tableOf (regs ++ [r]) = regCommand (tableOf regs) r.name r.func r.usage := by
      simp [tableOf]
    rw [hfold, findCommand_regCommand, ih]
    simp only [registered, List.reverse_append, List.reverse_singleton, List.singleton_append]
    by_cases h : cstr r.name = cstr name
    · rw [if_pos h, List.find?_cons_of_pos (by simpa using h)]
      rfl
    · rw [if_neg h, List.find?_cons_of_neg (by simpa using h)]

/-- Only the string at the pointer is looked up. -/
theorem findCommand_cstr (table : CmdFunTable F) (p : List UInt8) :
    findCommand table (cstr p) = findCommand table p := by
  rw [findCommand, findCommand, cstr_eq_self zero_notMem_cstr]

/-- A function that is found is called. -/
theorem dispatch_call {table : CmdFunTable F} {base : UInt64} {szCmd name : List UInt8}
    {func : F} (hname : cstr szCmd = name) (hfunc : findCommand table name = some func)
    (hbye : name ≠ ascii "bye") (htel : name ≠ ascii "telhelp")
    (atRawPara : Vector TRawPara 10) :
    dispatch table base szCmd atRawPara =
      .call func (atRawPara.map (paraValue base szCmd)) szCmd := by
  rw [← hname, findCommand_cstr] at hfunc
  rw [dispatch, if_neg (hname ▸ hbye), if_neg (hname ▸ htel), hfunc]

/-! ## `CmdParse` -/

abbrev underscore : UInt8 := 95

/-- **A C identifier.** -/
structure IsIdentifier (n : List UInt8) : Prop where
  bytes : ∀ c ∈ n, IsAlnum c ∨ c = underscore
  head : ∃ c ∈ n.head?, ¬ Decimal.IsDigit c

instance (n : List UInt8) : Decidable (IsIdentifier n) :=
  have := List.decidableBAll (fun c => IsAlnum c ∨ c = underscore) n
  have := Option.decidableExistsMem (p := fun c => ¬ Decimal.IsDigit c) n.head?
  decidable_of_iff ((∀ c ∈ n, IsAlnum c ∨ c = underscore) ∧ ∃ c ∈ n.head?, ¬ Decimal.IsDigit c)
    ⟨fun h => ⟨h.1, h.2⟩, fun h => ⟨h.1, h.2⟩⟩

/-- The name without the underscores it starts with. -/
def stripped (n : List UInt8) : List UInt8 := n.dropWhile (· = underscore)

theorem stripped_subset {n : List UInt8} {c : UInt8} (h : c ∈ stripped n) : c ∈ n :=
  (List.dropWhile_suffix _).subset h

theorem stripped_eq_self {n : List UInt8} (h : n.head? ≠ some underscore) : stripped n = n := by
  cases n with
  | nil => rfl
  | cons c n => exact List.dropWhile_cons_of_neg (by simpa using h)

/-- Of an identifier, `CmdParse` skips exactly the underscores in front. -/
theorem takeWhile_identifier {n : List UInt8} (hn : ∀ c ∈ n, IsAlnum c ∨ c = underscore) :
    n.takeWhile (fun c => ¬ IsAlnum c) = n.takeWhile (· = underscore) := by
  have hnot : ¬ IsAlnum underscore := by decide
  induction n with
  | nil => rfl
  | cons c n ih =>
    rw [List.takeWhile_cons, List.takeWhile_cons, ih fun d hd => hn d (List.mem_cons_of_mem _ hd)]
    rcases hn c List.mem_cons_self with hal | rfl
    · have hne : c ≠ underscore := by rintro rfl; exact hnot hal
      simp [hal, hne]
    · simp [hnot]

/-- A length that is an `unsigned char` is never too long. -/
theorem exists_cmdParse (pchCmd : List UInt8) (byCmdLen : UInt8) :
    ∃ nCpyLen, nCpyLen ≤ 255 ∧ cmdParse pchCmd byCmdLen =
      some ((padded maxCommandLength ((pchCmd.drop
        (if 0 < byCmdLen then skipHead pchCmd byCmdLen else 0)).take nCpyLen)).set nCpyLen 0) := by
  have hle : byCmdLen.toNat ≤ 255 := Nat.le_of_lt_succ byCmdLen.toNat_lt
  refine ⟨if 0 < byCmdLen then
    byCmdLen.toNat - (if 0 < byCmdLen then skipHead pchCmd byCmdLen else 0) else 0, ?_, ?_⟩
  · split_ifs <;> omega
  · simp only [cmdParse]
    rw [if_neg (Nat.not_lt.mpr (le_of_lt (lt_maxCommandLength (by split_ifs <;> omega)))),
      if_pos (lt_maxCommandLength hle)]

/-- **`CmdParse` reads what is in front of the counter**, and of an identifier
hands over what is behind its underscores. -/
theorem cmdParse_front {pchCmd n : List UInt8} (hn : ∀ c ∈ n, IsAlnum c ∨ c = underscore)
    {byCmdLen : UInt8} (hlen : byCmdLen.toNat = n.length)
    (hfront : pchCmd.take byCmdLen.toNat = n) :
    cmdParse pchCmd byCmdLen = some (padded maxCommandLength (stripped n)) := by
  have hle : byCmdLen.toNat ≤ 255 := Nat.le_of_lt_succ byCmdLen.toNat_lt
  -- the skip ends at the first letter or digit
  have hskip : (if 0 < byCmdLen then skipHead pchCmd byCmdLen else 0) =
      (n.takeWhile (· = underscore)).length := by
    rw [skipHead, hfront, takeWhile_identifier hn]
    split_ifs with h0
    · rfl
    · have hnil : n = [] := List.eq_nil_of_length_eq_zero (by
        rw [← hlen]; exact Nat.eq_zero_of_not_pos h0)
      rw [hnil]
      rfl
  have hsplit : n.takeWhile (· = underscore) ++ stripped n = n :=
    List.takeWhile_append_dropWhile
  have hrest : (n.takeWhile (· = underscore)).length + (stripped n).length = n.length := by
    rw [← List.length_append, hsplit]
  have hcpy : (if 0 < byCmdLen then
        byCmdLen.toNat - (n.takeWhile (· = underscore)).length else 0) = (stripped n).length := by
    split_ifs with h0
    · omega
    · have : byCmdLen.toNat = 0 := Nat.eq_zero_of_not_pos h0
      omega
  have hmem : (pchCmd.drop (n.takeWhile (· = underscore)).length).take
      (stripped n).length = stripped n := by
    have hdrop : (n.takeWhile (· = underscore) ++ stripped n).drop
        (n.takeWhile (· = underscore)).length = stripped n := List.drop_left
    rw [hsplit] at hdrop
    rw [List.take_drop, hrest, ← hlen, hfront, hdrop]
  simp only [cmdParse, hskip, hcpy, hmem]
  have hlt : (stripped n).length < maxCommandLength := lt_maxCommandLength (by omega)
  rw [if_neg (by omega), if_pos (lt_maxCommandLength hle), set_terminator hlt]

/-- Of an identifier with nothing behind it. -/
theorem cmdParse_identifier {n : List UInt8} (hn : ∀ c ∈ n, IsAlnum c ∨ c = underscore)
    {byCmdLen : UInt8} (hlen : byCmdLen.toNat = n.length) :
    cmdParse (padded maxCommandLength n) byCmdLen =
      some (padded maxCommandLength (stripped n)) :=
  cmdParse_front hn hlen (by rw [hlen, take_padded])

/-! ## `RunCmd` on one word -/

/-- **A word passes `RunCmd` as it is.** -/
theorem runCmd_word (table : CmdFunTable F) (base : UInt64) {m : List UInt8}
    (hm : ∀ c ∈ m, IsWordByte c ∧ c ≠ 0) (hlen : m.length ≤ 254) :
    ∃ line, cstr line = m ∧ runCmd table base (padded maxCommandLength m) =
      dispatch table base line (slots []) := by
  have h0 : 0 ∉ m := fun h => (hm 0 h).2 rfl
  have hzero : IsWordByte 0 := ⟨by decide, by decide, by decide⟩
  have hlast : m.getLast? ≠ some 0 := fun h => h0 (List.mem_of_getLast? h)
  have hscan : ({} : Scan).bytes m = .next { out := m } := by
    rw [Scan.bytes_word hm (by simp)]
    rfl
  refine ⟨m ++ 0 :: List.replicate (maxCommandLength - m.length - 1) 0, cstr_append_zero h0, ?_⟩
  rw [padded_eq (lt_maxCommandLength (by omega)), runCmd_eq_scan _ _ h0 hlen,
    Scan.bytes_append hscan, Scan.bytes, Scan.byte_pass hzero hlast]
  simp [finish, Scan.push]

/-- **What a name reaches** once it is dispatched. -/
def reached (regs : List (Registration F)) (m : List UInt8) : Option F :=
  if m = ascii "bye" ∨ m = ascii "telhelp" then none else registered regs m

end TelnetServ
