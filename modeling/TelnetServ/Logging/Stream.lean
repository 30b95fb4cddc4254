import TelnetServ.Basic
import TelnetServ.Common.Calendar
import Mathlib.Algebra.Order.Ring.Int
import Mathlib.Tactic.IntervalCases
/-!
# Log streams

`LogStream` puts texts and numbers behind each other into a buffer of fixed
size. A number is written digit by digit, the last first, and then turned
round: what comes out is its decimal text, also of the least `long long`
(`convert_eq`). What does not fit is left out, so a stream holds all that was
put into it if and only if each piece found its room (`data_putAll_iff`).
-/

namespace TelnetServ

open Decimal

/-! ## Model -/

/-- `digits`; `zero` points at its middle. -/
def convertDigits : List UInt8 := ascii "9876543210123456789"

/-- `zero[lsd]`. -/
def zeroAt (lsd : ℤ) : UInt8 := convertDigits.getD (lsd + 9).toNat 0

/-- The loop of `convert`: what it writes, from `buf` on. -/
def convertLoop (i : ℤ) : List UInt8 :=
  zeroAt (i.tmod 10) :: if i.tdiv 10 = 0 then [] else convertLoop (i.tdiv 10)
termination_by i.natAbs
decreasing_by
  rename_i hne
  have hpos : 0 < i.natAbs := by
    rw [Int.natAbs_pos]
    rintro rfl
    exact hne rfl
  rw [Int.natAbs_tdiv]
  exact Nat.div_lt_self hpos (by decide)

/-- **`convert`**, without the NUL. -/
def convert (value : ℤ) : List UInt8 :=
  (convertLoop value ++ if value < 0 then ascii "-" else []).reverse

/-- `digitsHex`. -/
def digitsHex : List UInt8 := ascii "0123456789ABCDEF"

/-- The loop of `convertHex`. -/
def convertHexLoop (i : ℕ) : List UInt8 :=
  digitsHex.getD (i % 16) 0 :: if i / 16 = 0 then [] else convertHexLoop (i / 16)
termination_by i
decreasing_by omega

/-- **`convertHex`**, without the NUL. -/
def convertHex (value : ℕ) : List UInt8 := (convertHexLoop value).reverse

/-! ## Digits -/

/-- `zero` may be read on both sides. -/
theorem zeroAt_eq {lsd : ℤ} (hlo : -9 ≤ lsd) (hhi : lsd ≤ 9) :
    zeroAt lsd = UInt8.ofNat (lsd.natAbs.digitChar).toNat := by
  interval_cases lsd <;> decide

theorem zeroAt_tmod (i : ℤ) :
    zeroAt (i.tmod 10) = UInt8.ofNat ((i.natAbs % 10).digitChar).toNat := by
  have habs : (i.tmod 10).natAbs = i.natAbs % 10 := Int.natAbs_tmod i 10
  rw [← habs]
  exact zeroAt_eq (by omega) (by omega)

/-- **The loop does not see the sign**, and writes the digits. -/
theorem reverse_convertLoop (i : ℤ) : (convertLoop i).reverse = natDigits i.natAbs := by
  induction hn : i.natAbs using Nat.strong_induction_on generalizing i with
  | _ n ih =>
    have habs : (i.tdiv 10).natAbs = n / 10 := by
      rw [Int.natAbs_tdiv, hn]
      rfl
    have hzero : i.tdiv 10 = 0 ↔ n < 10 := by
      rw [← Int.natAbs_eq_zero, habs]
      omega
    rw [convertLoop, zeroAt_tmod, hn, List.reverse_cons, natDigits,
      Nat.toDigits_eq_if (by decide)]
    rcases Nat.lt_or_ge n 10 with hlt | hge
    · rw [if_pos (hzero.mpr hlt), if_pos hlt, Nat.mod_eq_of_lt hlt]
      rfl
    · rw [if_neg (mt hzero.mp (Nat.not_lt.mpr hge)), if_neg (Nat.not_lt.mpr hge),
        ih (n / 10) (by omega) _ habs, List.map_append]
      rfl

/-- **`convert` writes the decimal text.** -/
theorem convert_eq (value : ℤ) : convert value = decimal value := by
  rw [convert, decimal, List.reverse_append, reverse_convertLoop]
  split_ifs <;> rfl

/-- The digits of a number to the base 16. -/
def hexText (n : ℕ) : List UInt8 :=
  (Nat.toDigits 16 n).map fun c => UInt8.ofNat c.toUpper.toNat

/-- **`convertHex` writes them.** -/
theorem convertHex_eq (value : ℕ) : convertHex value = hexText value := by
  have hdigit : ∀ d, d < 16 →
      digitsHex.getD d 0 = UInt8.ofNat (d.digitChar).toUpper.toNat := by decide
  induction value using Nat.strong_induction_on with
  | _ n ih =>
    rw [convertHex, convertHexLoop, List.reverse_cons, hdigit _ (Nat.mod_lt _ (by decide)), hexText,
      Nat.toDigits_eq_if (by decide)]
    rcases Nat.lt_or_ge n 16 with hlt | hge
    · rw [if_pos (Nat.div_eq_of_lt hlt), if_pos hlt, Nat.mod_eq_of_lt hlt]
      rfl
    · have hrest := ih (n / 16) (by omega)
      rw [convertHex, hexText] at hrest
      rw [if_neg (by omega), if_neg (Nat.not_lt.mpr hge), hrest, List.map_append]
      rfl

/-! ## The buffer -/

/-- The size of the buffer of a stream. -/
abbrev kSmallBuffer : ℕ := 4000

/-- The room a number has to find. -/
abbrev kMaxNumericSize : ℕ := 32

/-- **What is put into a stream**: a text, or a number that is written into the
buffer directly. -/
inductive Piece where
  | text (bs : List UInt8)
  | number (bs : List UInt8) (h : bs.length < kMaxNumericSize)

namespace Piece

/-- The bytes of a piece. -/
def bytes : Piece → List UInt8
  | .text bs => bs
  | .number bs _ => bs

/-- How many bytes have to be free, that of a NUL included. -/
def room : Piece → ℕ
  | .text bs => bs.length + 1
  | .number _ _ => kMaxNumericSize

theorem length_decimal_le {v : ℤ} (hlo : -2 ^ 63 ≤ v) (hhi : v < 2 ^ 64) :
    (decimal v).length ≤ 20 := by
  rcases decimal_cases v with ⟨hneg, heq⟩ | ⟨hpos, heq⟩
  · have := length_natDigits_le (show 0 < 19 by decide) (show v.natAbs < 10 ^ 19 by omega)
    rw [heq, List.length_cons]
    omega
  · have := length_natDigits_le (show 0 < 20 by decide) (show v.natAbs < 10 ^ 20 by omega)
    rw [heq]
    exact this

/-- `formatInteger` of a type of at most 64 bits. -/
def integer (v : ℤ) (hlo : -2 ^ 63 ≤ v) (hhi : v < 2 ^ 64) : Piece :=
  .number (convert v) (by
    have := length_decimal_le hlo hhi
    rw [convert_eq]
    exact this.trans_lt (by decide))

/-- A pointer. -/
def pointer (p : UInt64) : Piece :=
  .number (ascii "0x" ++ convertHex p.toNat) (by
    have hdigits : (Nat.toDigits 16 p.toNat).length ≤ 16 :=
      (Nat.length_toDigits_le_iff (by decide) (by decide)).mpr p.toNat_lt
    rw [convertHex_eq, List.length_append, hexText, List.length_map]
    exact (Nat.add_le_add_left hdigits _).trans_lt (by decide))

end Piece

/-- **`FixedBuffer<kSmallBuffer>`**: the bytes from `data_` to `cur_`. Behind
them there is room for a NUL. -/
structure StreamBuffer where
  data : List UInt8 := []
  length_lt : data.length < kSmallBuffer := by decide

namespace StreamBuffer

variable (b : StreamBuffer)

/-- `avail`. -/
def avail : ℕ := kSmallBuffer - b.data.length

/-- **`append`**, `formatInteger` and the others. -/
def put : Piece → StreamBuffer
  | .text bs =>
    if h : bs.length < b.avail then
      ⟨b.data ++ bs, by unfold avail at h; rw [List.length_append]; omega⟩
    else b
  | .number bs hlen =>
    if h : kMaxNumericSize ≤ b.avail then
      ⟨b.data ++ bs, by unfold avail at h; rw [List.length_append]; omega⟩
    else b

/-- **A piece is put in whole or not at all.** -/
theorem data_put (p : Piece) : (b.put p).data =
    if b.data.length + p.room ≤ kSmallBuffer then b.data ++ p.bytes else b.data := by
  have hlt := b.length_lt
  cases p with
  | text bs =>
    rw [put, Piece.room, Piece.bytes]
    have hiff : bs.length < b.avail ↔ b.data.length + (bs.length + 1) ≤ kSmallBuffer := by
      unfold avail
      omega
    by_cases h : bs.length < b.avail
    · rw [dif_pos h, if_pos (hiff.mp h)]
    · rw [dif_neg h, if_neg (mt hiff.mpr h)]
  | number bs hlen =>
    rw [put, Piece.room, Piece.bytes]
    have hiff : kMaxNumericSize ≤ b.avail ↔ b.data.length + kMaxNumericSize ≤ kSmallBuffer := by
      unfold avail
      omega
    by_cases h : kMaxNumericSize ≤ b.avail
    · rw [dif_pos h, if_pos (hiff.mp h)]
    · rw [dif_neg h, if_neg (mt hiff.mpr h)]

/-- What a stream makes of its pieces. -/
def putAll (ps : List Piece) : StreamBuffer := ps.foldl put b

end StreamBuffer

/-- The bytes of all pieces. -/
def allBytes (ps : List Piece) : List UInt8 := ps.flatMap Piece.bytes

/-- **Each piece finds its room** behind those before it. An empty text needs
none. -/
def AllFit (used : ℕ) : List Piece → Prop
  | [] => True
  | p :: ps => (p.bytes = [] ∨ used + p.room ≤ kSmallBuffer) ∧ AllFit (used + p.bytes.length) ps

variable {b : StreamBuffer} {ps : List Piece}

/-- What is in the stream is some of the pieces, in order and each of them
whole. -/
theorem exists_kept (b : StreamBuffer) (ps : List Piece) :
    ∃ kept, kept.Sublist ps ∧ (b.putAll ps).data = b.data ++ allBytes kept := by
  induction ps generalizing b with
  | nil => exact ⟨[], List.Sublist.refl _, (List.append_nil _).symm⟩
  | cons p ps ih =>
    obtain ⟨kept, hsub, heq⟩ := ih (b.put p)
    rw [b.data_put] at heq
    split_ifs at heq
    · refine ⟨p :: kept, hsub.cons_cons p, ?_⟩
      rw [List.append_assoc] at heq
      exact heq
    · exact ⟨kept, hsub.cons p, heq⟩

/-- The kept bytes are no more than all. -/
theorem length_allBytes_le {kept : List Piece} (h : kept.Sublist ps) :
    (allBytes kept).length ≤ (allBytes ps).length := by
  induction h with
  | slnil => exact Nat.le_refl _
  | cons p _ ih =>
    rw [allBytes, allBytes, List.flatMap_cons, List.length_append]
    exact ih.trans (Nat.le_add_left _ _)
  | cons_cons p _ ih =>
    rw [allBytes, allBytes, List.flatMap_cons, List.flatMap_cons, List.length_append,
      List.length_append]
    exact Nat.add_le_add_left ih _

/-- **A stream holds all that was put into it if and only if each piece found
its room.** -/
theorem data_putAll_iff (b : StreamBuffer) (ps : List Piece) :
    (b.putAll ps).data = b.data ++ allBytes ps ↔ AllFit b.data.length ps := by
  induction ps generalizing b with
  | nil => exact iff_of_true (List.append_nil _).symm trivial
  | cons p ps ih =>
    have hput := b.data_put p
    have hrest := ih (b.put p)
    show ((b.put p).putAll ps).data = b.data ++ (p.bytes ++ allBytes ps) ↔ _
    rw [AllFit, ← List.append_assoc]
    by_cases hfits : b.data.length + p.room ≤ kSmallBuffer
    · rw [if_pos hfits] at hput
      rw [← hput, hrest, hput, List.length_append]
      exact ⟨fun h => ⟨Or.inr hfits, h⟩, fun h => h.2⟩
    · rw [if_neg hfits] at hput
      by_cases hnil : p.bytes = []
      · rw [hput] at hrest
        rw [hnil, List.append_nil, hrest]
        exact ⟨fun h => ⟨Or.inl rfl, h⟩, fun h => h.2⟩
      · -- what is left out is missed
        refine iff_of_false (fun h => ?_) fun h => ?_
        · obtain ⟨kept, hsub, heq⟩ := exists_kept (b.put p) ps
          have hle := length_allBytes_le hsub
          have hpos := List.length_pos_iff.mpr hnil
          have hlen := congrArg List.length (heq.symm.trans h)
          simp only [hput, List.length_append] at hlen
          omega
        · rcases h.1 with h | h
          · exact hnil h
          · exact hfits h

/-- Pieces that leave room for one more number all fit. -/
theorem allFit_of_length {used : ℕ}
    (h : used + (allBytes ps).length + kMaxNumericSize ≤ kSmallBuffer) :
    AllFit used ps := by
  induction ps generalizing used with
  | nil => trivial
  | cons p ps ih =>
    rw [allBytes, List.flatMap_cons, List.length_append] at h
    refine ⟨Or.inr ?_, ih (by rw [allBytes]; omega)⟩
    cases p with
    | text bs =>
      have hnum : kMaxNumericSize = 32 := rfl
      rw [Piece.room]
      rw [Piece.bytes] at h
      omega
    | number bs hlen =>
      rw [Piece.room]
      omega

end TelnetServ
