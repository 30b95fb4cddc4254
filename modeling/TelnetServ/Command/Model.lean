import TelnetServ.Basic
import TelnetServ.Common.Decimal
import Std.Data.TreeMap
/-!
# Commands — model

The command table (`regCommand`, `FindCommand`), `CmdParse` and `RunCmd`
up to the point where it sends or calls anything. `UniformFunc` pointers
are values of a type `F`, `none` standing for `NULL`. `RunCmd` cuts its
argument in place; a pointer into it is an index, and `base` is the address
of index 0, which decides what is passed for a pointer.
-/

namespace TelnetServ

open CStr Decimal

variable {F : Type*}

/-! ## The command table -/

/-- A registered command. -/
structure TCmdTable (F : Type*) where
  funName : List UInt8
  cmdFunc : Option F
  funUsage : List UInt8

/-- `cmdFunTable_`: a map ordered by the bytes of the name. -/
abbrev CmdFunTable (F : Type*) := Std.TreeMap (List UInt8) (TCmdTable F) compare

/-- **`regCommand`.** -/
def regCommand (cmdFunTable : CmdFunTable F) (name : List UInt8) (func : Option F)
    (usage : List UInt8) : CmdFunTable F :=
  cmdFunTable.insert (cstr name)
    { funName := cstr name, cmdFunc := func, funUsage := cstr usage }

/-- **`FindCommand`**; `none` is `NULL`. -/
def findCommand (cmdFunTable : CmdFunTable F) (name : List UInt8) : Option F :=
  cmdFunTable[cstr name]?.bind TCmdTable.cmdFunc

/-! ## `CmdParse` -/

/-- `isdigit(c) || islower(c) || isupper(c)`, in the C locale. -/
def IsAlnum (c : UInt8) : Prop := IsDigit c ∨ (97 ≤ c ∧ c ≤ 122) ∨ (65 ≤ c ∧ c ≤ 90)

instance (c : UInt8) : Decidable (IsAlnum c) := by unfold IsAlnum; infer_instance

/-- Where the loop that skips the head of the line stops. -/
def skipHead (pchCmd : List UInt8) (byCmdLen : UInt8) : ℕ :=
  ((pchCmd.take byCmdLen.toNat).takeWhile fun c => ¬ IsAlnum c).length

/-- **`CmdParse`**: the string it hands to `RunCmd`, in its own array. -/
def cmdParse (pchCmd : List UInt8) (byCmdLen : UInt8) : Option (List UInt8) :=
  let count := if 0 < byCmdLen then skipHead pchCmd byCmdLen else 0
  let nCpyLen := if 0 < byCmdLen then byCmdLen.toNat - count else 0
  -- out of reach of an `unsigned char`
  if maxCommandLength < nCpyLen then none
  else
    let command := padded maxCommandLength ((pchCmd.drop count).take nCpyLen)
    if byCmdLen.toNat < maxCommandLength then some (command.set nCpyLen 0)
    else some (command.set (maxCommandLength - 1) 0)

/-! ## The tokenizer loop of `RunCmd` -/

/-- A slot of `atRawPara`; `paraStr` is an index into the line. -/
structure TRawPara where
  paraStr : Option ℕ := none
  bInQuote : Bool := false
  bIsChar : Bool := false
  deriving DecidableEq

/-- The locals of `RunCmd` its first loop works on. -/
structure Tokens where
  szCmd : List UInt8
  count : UInt8 := 0
  chStartCnt : UInt8 := 0
  bStrStart : Bool := false
  bCharStart : Bool := false
  atRawPara : Vector TRawPara 10 := Vector.replicate 10 {}
  paraNum : ℕ := 0

/-- What one pass of the loop body comes to. -/
inductive PassResult (σ : Type*) where
  /-- The body ran to its end. -/
  | next (t : σ)
  /-- The body returned from `RunCmd`. -/
  | inputError
  /-- The body wrote behind `atRawPara`. -/
  | overrun

abbrev apostrophe : UInt8 := 39
abbrev doubleQuote : UInt8 := 34

/-- The bytes that separate words: `,`, blank, tab, newline and the
parentheses. -/
def separators : List UInt8 := [44, blankChar, tabChar, newlineChar, 40, 41]

namespace Tokens

/-- `szCmd[i]`. -/
def byte (t : Tokens) (i : ℕ) : UInt8 := t.szCmd.getD i 0

/-- `szCmd[count] = '\0'`. -/
def cut (t : Tokens) : Tokens := { t with szCmd := t.szCmd.set t.count.toNat 0 }

@[simp] theorem cut_count (t : Tokens) : t.cut.count = t.count := rfl

/-- The `default` branch: a byte behind a NUL starts a word. The `break`
on the tenth word leaves the switch, not the loop. -/
def startWord (t : Tokens) : PassResult Tokens :=
  if 0 < t.count.toNat ∧ t.byte (t.count.toNat - 1) = 0 then
    if h : t.paraNum < 10 then
      let slot := t.atRawPara[t.paraNum]
      .next { t with
        atRawPara := t.atRawPara.set t.paraNum
          { paraStr := some t.count.toNat
            bInQuote := slot.bInQuote || t.bStrStart
            bIsChar := slot.bIsChar || t.bCharStart }
        paraNum := t.paraNum + 1 }
    else .overrun
  else .next t

/-- The switch of the loop body. -/
def switchByte (t : Tokens) : PassResult Tokens :=
  let c := t.byte t.count.toNat
  if c = apostrophe then
    -- a character literal that is too long
    if t.bCharStart ∧ t.chStartCnt.toNat + 2 < t.count.toNat then .inputError
    else .next { t.cut with
      chStartCnt := if t.bCharStart then t.chStartCnt else t.count
      bCharStart := !t.bCharStart }
  else if c = doubleQuote then .next { t.cut with bStrStart := !t.bStrStart }
  else if c ∈ separators then .next (if t.bStrStart then t else t.cut)
  else t.startWord

/-- The index of `atRawPara` a pass writes to. -/
def slotWritten (t : Tokens) : Option ℕ :=
  let c := t.byte t.count.toNat
  if c = apostrophe ∨ c = doubleQuote ∨ c ∈ separators then none
  else if 0 < t.count.toNat ∧ t.byte (t.count.toNat - 1) = 0 then some t.paraNum
  else none

end Tokens

/-- What the tokenizer loop comes to. -/
inductive TokenResult where
  | done (t : Tokens)
  | inputError
  | overrun
  /-- Still going when the passes were used up. -/
  | running

/-- At most `n` tests of `while (count < cmdLen)`. -/
def tokenLoop (cmdLen : ℕ) : ℕ → Tokens → TokenResult
  | 0, _ => .running
  | n + 1, t =>
    if t.count.toNat < cmdLen then
      match t.switchByte with
      | .next t' => tokenLoop cmdLen n { t' with count := t'.count + 1 }
      | .inputError => .inputError
      | .overrun => .overrun
    else .done t

/-- The loop's locals at the head of each pass through its body, of at most
`n` passes. -/
def tokenTrace (cmdLen : ℕ) : ℕ → Tokens → List Tokens
  | 0, _ => []
  | n + 1, t =>
    if t.count.toNat < cmdLen then
      t :: match t.switchByte with
        | .next t' => tokenTrace cmdLen n { t' with count := t'.count + 1 }
        | .inputError => []
        | .overrun => []
    else []

/-! ## Parameters and dispatch -/

/-- A `char` widened to a signed integer. -/
def charVal (c : UInt8) : ℤ := c.toInt8.toInt

/-- **`WordParse`**: the number the word starts with, or the address of the
word, narrowed to `int`. -/
def wordParse (base : UInt64) (szCmd : List UInt8) (i : ℕ) : ℤ :=
  let tmp := atoi (szCmd.drop i)
  -- a zero that does not start with `0` is no number
  if tmp = 0 ∧ szCmd.getD i 0 ≠ 48 then ((base + UInt64.ofNat i).toNat : ℤ).bmod (2 ^ 32)
  else tmp

/-- The conversion of one slot to a parameter. -/
def paraValue (base : UInt64) (szCmd : List UInt8) (p : TRawPara) : UInt64 :=
  match p.paraStr with
  | none => 0
  | some i =>
    if p.bInQuote then base + UInt64.ofNat i
    else if p.bIsChar then UInt64.ofInt (charVal (szCmd.getD i 0))
    else UInt64.ofInt (wordParse base szCmd i)

/-- Where `RunCmd` ends up. -/
inductive RunOutcome (F : Type*) where
  /-- Returned before the dispatch. -/
  | refused
  /-- Wrote behind `atRawPara`. -/
  | overrun
  /-- Never leaves the tokenizer loop. -/
  | endless
  | bye
  | telhelp
  /-- Calls `func` with these parameters; the line as rewritten is what
  the pointers among them point into. -/
  | call (func : F) (para : Vector UInt64 10) (szCmd : List UInt8)
  | unknown (name : List UInt8)

/-- The dispatch at the end of `RunCmd`. -/
def dispatch (cmdFunTable : CmdFunTable F) (base : UInt64) (szCmd : List UInt8)
    (atRawPara : Vector TRawPara 10) : RunOutcome F :=
  if cstr szCmd = ascii "bye" then .bye
  else if cstr szCmd = ascii "telhelp" then .telhelp
  else
    match findCommand cmdFunTable szCmd with
    | some func => .call func (atRawPara.map (paraValue base szCmd)) szCmd
    | none => .unknown (cstr szCmd)

/-- How many tests of the loop are followed: a line is gone through again and
again when the counter comes round, and the 267th time nothing is left to
change. -/
abbrev maxTests : ℕ := 256 * 267

/-- **`RunCmd`**, up to what its dispatch sends or calls. -/
def runCmd (cmdFunTable : CmdFunTable F) (base : UInt64) (szCmd : List UInt8) : RunOutcome F :=
  match tokenLoop ((cstr szCmd).length + 1) maxTests { szCmd := szCmd } with
  | .inputError => .refused
  | .overrun => .overrun
  | .running => .endless
  | .done t =>
    -- a quote mark left open
    if t.bStrStart || t.bCharStart then .refused
    else dispatch cmdFunTable base t.szCmd t.atRawPara

end TelnetServ
