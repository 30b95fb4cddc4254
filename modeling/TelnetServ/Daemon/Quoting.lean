import TelnetServ.Daemon.Model
import TelnetServ.Command.Tokenizer
/-!
# The daemon thread — a line with bad quoting

`RunCmd` refuses a line before its dispatch, from inside the tokenizer loop
at a character literal that is too long and behind the loop when a quote
mark is left open. `dispatched_iff` is what that comes to, for a line that
fits the slots, and a refused line has no effect.
-/

namespace TelnetServ

open CStr Pairing

variable {F : Type*}

/-- `RunCmd` got to its dispatch. -/
def RunOutcome.Dispatched : RunOutcome F → Prop
  | .bye | .telhelp | .call _ _ _ | .unknown _ => True
  | .refused | .overrun | .endless => False

/-- **Well-formed quoting**: no quote mark is left open, and no character
literal is too long. -/
structure WellQuoted (line : List UInt8) : Prop where
  doubleQuotes : Even (line.count doubleQuote)
  apostrophes : Even (line.count apostrophe)
  literals : LiteralsFit line

variable {line rest : List UInt8}

theorem dispatched_dispatch (table : CmdFunTable F) (base : UInt64) (szCmd : List UInt8)
    (atRawPara : Vector TRawPara 10) :
    (dispatch table base szCmd atRawPara).Dispatched := by
  unfold dispatch
  split_ifs
  · trivial
  · trivial
  · cases findCommand table szCmd <;> trivial

/-- **Refused or dispatched**, told by the quote marks of the line. -/
theorem runCmd_cases (table : CmdFunTable F) (base : UInt64) (h0 : 0 ∉ line)
    (hlen : line.length ≤ 254) (hslots : WritesInBounds (line ++ 0 :: rest)) :
    (WellQuoted line ∧ (runCmd table base (line ++ 0 :: rest)).Dispatched) ∨
      (¬ WellQuoted line ∧ runCmd table base (line ++ 0 :: rest) = .refused) := by
  have hout := textOutcome (line ++ [0]) (zero_notMem_dropLast h0)
  have hover := bytes_ne_overrun h0 hlen hslots
  rw [runCmd_eq_scan _ _ h0 hlen]
  generalize ({} : Scan).bytes (line ++ [0]) = r at hout hover
  cases hout with
  | @next s hfit hwords hreads =>
    rw [finish]
    by_cases hopen : (s.inStr || s.inChar) = true
    · refine Or.inr ⟨fun hq => ?_, if_pos hopen⟩
      rw [hreads.inStr_line, hreads.inChar_line, isOpen_eq_false_iff.mpr hq.doubleQuotes,
        isOpen_eq_false_iff.mpr hq.apostrophes] at hopen
      exact absurd hopen (by decide)
    · rw [if_neg hopen]
      rw [Bool.not_eq_true, Bool.or_eq_false_iff, hreads.inStr_line,
        hreads.inChar_line] at hopen
      exact Or.inl ⟨⟨isOpen_eq_false_iff.mp hopen.1, isOpen_eq_false_iff.mp hopen.2,
        literalsFit_concat_zero.mp hfit⟩, dispatched_dispatch table base _ _⟩
  | inputError hp _ hlate =>
    exact Or.inr ⟨fun hq => hlate ((literalsFit_concat_zero.mpr hq.literals).of_initial hp), rfl⟩
  | overrun => exact absurd rfl hover

/-- **Malformed quoting has no effect and only malformed quoting is
refused.** -/
theorem dispatched_iff (setup : Setup F) (callback : Int32) {d : Daemon}
    (hc : d.sockClient ≠ invalidSocket) (h0 : 0 ∉ line) (hlen : line.length ≤ 254)
    (hslots : WritesInBounds (line ++ 0 :: rest)) :
    ((runCmd setup.cmdFunTable setup.base (line ++ 0 :: rest)).Dispatched ↔ WellQuoted line) ∧
      (¬ WellQuoted line → doRunCmd setup callback (line ++ 0 :: rest) d = ([], d)) := by
  rcases runCmd_cases setup.cmdFunTable setup.base h0 hlen hslots with
    ⟨hq, hdis⟩ | ⟨hq, href⟩
  · exact ⟨iff_of_true hdis hq, fun h => absurd hq h⟩
  · refine ⟨iff_of_false (by rw [href]; exact id) hq, fun _ => ?_⟩
    rw [doRunCmd, if_neg hc, href]
    rfl

/-- Two bytes between apostrophes. -/
theorem doRunCmd_tooLong : doRunCmd plainSetup 0 (ascii "set 'ab'" ++ 0 :: []) { sockClient := 5 } =
    ([], { sockClient := 5 }) := by
  have hslots : WritesInBounds (ascii "set 'ab'" ++ 0 :: []) := by
    refine (writesInBounds_line_iff (by decide) (by decide) []).mpr fun p hp _ => ?_
    refine (length_wordStarts_le hp).trans ?_
    decide
  refine (dispatched_iff plainSetup 0 (by decide) (by decide) (by decide) hslots).2 fun hq => ?_
  have hle := hq.literals (ascii "set ") (ascii "ab") [] rfl (by decide) (by decide)
  exact absurd hle (by decide)

end TelnetServ
