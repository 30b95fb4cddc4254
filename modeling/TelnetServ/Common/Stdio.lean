import Mathlib.Data.List.Basic
/-!
# Buffered output

A stream collects bytes before they go to its file. How much a call takes,
what it writes out and what it keeps is open, apart from the size of the
buffer. `Accounts` says of a call that nothing is lost and nothing overtaken:
what it has sent and what it still has are together what there was before
and what it has taken. So do several calls in a row (`Accounts.next`).
-/

namespace Stdio

/-- What a call makes of the bytes in the buffer and of those it is given. -/
structure Written (α : Type*) where
  /-- How many of the bytes given have been taken. -/
  taken : ℕ
  /-- What has gone to the file. -/
  sent : List α
  /-- What is in the buffer now. -/
  buffer : List α

variable {α σ : Type*} {b bs : List α} {w w' : Written α}

/-- What is taken, sent and kept by one call and a second. -/
def Written.next (w w' : Written α) : Written α where
  taken := w.taken + w'.taken
  sent := w.sent ++ w'.sent
  buffer := w'.buffer

/-- **The calls of a stream** with room for `size` elements in its buffer;
`σ` is what is behind them. -/
structure Calls (size : ℕ) (α σ : Type*) where
  /-- `fwrite`, for what is in the buffer and what it is given. -/
  fwrite : σ → List α → List α → Written α × σ
  fwrite_le : ∀ s b bs, (fwrite s b bs).1.taken ≤ bs.length
  fwrite_buffer : ∀ s b bs, b.length ≤ size → (fwrite s b bs).1.buffer.length ≤ size
  /-- `fflush` and `fclose`: what goes to the file. The buffer is empty behind
  them. -/
  fflush : σ → List α → List α × σ

/-- **Nothing is lost**: what has been sent and what is kept are what was in
the buffer and what has been taken. -/
structure Accounts (b bs : List α) (w : Written α) : Prop where
  taken_le : w.taken ≤ bs.length
  eq : w.sent ++ w.buffer = b ++ bs.take w.taken

/-- The second call is given what the first has not taken. -/
theorem Accounts.next (h : Accounts b bs w) (h' : Accounts w.buffer (bs.drop w.taken) w') :
    Accounts b bs (w.next w') where
  taken_le := by
    have hle := h.taken_le
    have hle' := h'.taken_le
    rw [List.length_drop] at hle'
    show w.taken + w'.taken ≤ bs.length
    omega
  eq := by
    calc w.sent ++ w'.sent ++ w'.buffer
        = w.sent ++ (w.buffer ++ (bs.drop w.taken).take w'.taken) := by
          rw [List.append_assoc, h'.eq]
      _ = b ++ (bs.take w.taken ++ (bs.drop w.taken).take w'.taken) := by
          rw [← List.append_assoc, h.eq, List.append_assoc]
      _ = b ++ bs.take (w.taken + w'.taken) := by rw [List.take_add]

/-- **No write fails**: no call loses anything. -/
structure Calls.Lossless {size : ℕ} (calls : Calls size α σ) : Prop where
  fwrite : ∀ s b bs, Accounts b bs (calls.fwrite s b bs).1
  fflush : ∀ s b, (calls.fflush s b).1 = b

/-- A stream that keeps what it is given until the buffer is full. -/
def holding (size : ℕ) : Calls size α Unit where
  fwrite _ b bs :=
    (if b.length + bs.length ≤ size then ⟨bs.length, [], b ++ bs⟩ else ⟨bs.length, b ++ bs, []⟩, ())
  fwrite_le _ b bs := by split_ifs <;> exact Nat.le_refl _
  fwrite_buffer _ b bs _ := by
    split_ifs with h
    · simpa using h
    · exact Nat.zero_le size
  fflush _ b := (b, ())

theorem lossless_holding (size : ℕ) : (holding size : Calls size α Unit).Lossless where
  fwrite _ b bs := by
    simp only [holding]
    split_ifs
    · exact ⟨Nat.le_refl _, by rw [List.take_length, List.nil_append]⟩
    · exact ⟨Nat.le_refl _, by rw [List.take_length, List.append_nil]⟩
  fflush _ _ := rfl

end Stdio
