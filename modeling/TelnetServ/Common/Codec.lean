import Mathlib.Data.Nat.Init
import Mathlib.Data.Int.Init
import Mathlib.Tactic.Ring
/-!
# Records in bytes

Numbers with the most significant byte first, and records one behind the
other. A reader takes what it reads from the front of the bytes and gives the
rest back; `Decodes` says that it reads what a writer has written, whatever
follows, and is kept by everything built from readers here.
-/

namespace Codec

/-! ## Numbers -/

/-- The number some bytes make. -/
def value (bs : List UInt8) : ℕ := bs.foldl (fun acc b => 256 * acc + b.toNat) 0

/-- A number in `count` bytes; what they do not hold is lost. -/
def bytesOf : ℕ → ℕ → List UInt8
  | 0, _ => []
  | count + 1, n => UInt8.ofNat (n / 256 ^ count) :: bytesOf count n

@[simp] theorem length_bytesOf (count n : ℕ) : (bytesOf count n).length = count := by
  induction count with
  | zero => rfl
  | succ count ih => rw [bytesOf, List.length_cons, ih]

theorem value_cons (b : UInt8) (bs : List UInt8) :
    value (b :: bs) = b.toNat * 256 ^ bs.length + value bs := by
  have key : ∀ (bs : List UInt8) (acc : ℕ),
      bs.foldl (fun acc b => 256 * acc + b.toNat) acc = acc * 256 ^ bs.length + value bs := by
    intro bs
    induction bs with
    | nil => intro acc; simp [value]
    | cons b bs ih =>
      intro acc
      rw [value, List.foldl_cons, List.foldl_cons, ih, ih (256 * 0 + _), List.length_cons]
      ring
  rw [value, List.foldl_cons, key]
  ring

/-- **A number is read back from its bytes**, as far as they hold it. -/
theorem value_bytesOf (count n : ℕ) : value (bytesOf count n) = n % 256 ^ count := by
  induction count with
  | zero => simp [bytesOf, value, Nat.mod_one]
  | succ count ih =>
    have hbyte : (UInt8.ofNat (n / 256 ^ count)).toNat = n / 256 ^ count % 256 :=
    UInt8.toNat_ofNat'
    rw [bytesOf, value_cons, length_bytesOf, ih, hbyte, Nat.pow_succ, Nat.mod_mul]
    ring

/-- A signed number of `count` bytes. -/
def signed (count : ℕ) (bs : List UInt8) : ℤ := (value bs : ℤ).bmod (256 ^ count)

/-- And the bytes it is written in. -/
def signedBytes (count : ℕ) (x : ℤ) : List UInt8 := bytesOf count (x % (256 ^ count : ℕ)).toNat

@[simp] theorem length_signedBytes (count : ℕ) (x : ℤ) : (signedBytes count x).length = count :=
  length_bytesOf ..

/-- **A signed number is read back** if it has room in its bytes. -/
theorem signed_signedBytes {count : ℕ} {x : ℤ} (hlo : -(256 ^ count : ℕ) ≤ x * 2)
    (hhi : x * 2 < (256 ^ count : ℕ)) : signed count (signedBytes count x) = x := by
  have hpos : (0 : ℤ) < (256 ^ count : ℕ) := by
    have := Nat.pow_pos (n := count) (show 0 < 256 by decide)
    omega
  have hmod : (((x % (256 ^ count : ℕ)).toNat % 256 ^ count : ℕ) : ℤ) = x % (256 ^ count : ℕ) := by
    have hnonneg := Int.emod_nonneg x hpos.ne'
    have hlt := Int.emod_lt_of_pos x hpos
    rw [Nat.mod_eq_of_lt (by omega), Int.toNat_of_nonneg hnonneg]
  rw [signed, signedBytes, value_bytesOf, hmod, Int.emod_bmod, Int.bmod_eq_of_le_mul_two hlo hhi]

/-! ## Readers -/

variable {α β : Type*}

/-- A reader. -/
abbrev Reader (α : Type*) := List UInt8 → Option (α × List UInt8)

/-- **The reader reads `a` from these bytes**, whatever follows. -/
def Decodes (read : Reader α) (bs : List UInt8) (a : α) : Prop :=
  ∀ rest, read (bs ++ rest) = some (a, rest)

/-- Some bytes. -/
def take (n : ℕ) : Reader (List UInt8) := fun f =>
  if n ≤ f.length then some (f.take n, f.drop n) else none

/-- A signed number. -/
def signedReader (count : ℕ) : Reader ℤ := fun f =>
  (take count f).map fun r => (signed count r.1, r.2)

/-- A byte. -/
def byteReader : Reader ℕ
  | [] => none
  | b :: f => some (b.toNat, f)

/-- As many records as are wanted, or those in front of the first that is not
there. -/
def many (read : Reader α) : ℕ → List UInt8 → List α × Option (List UInt8)
  | 0, f => ([], some f)
  | n + 1, f =>
    match read f with
    | none => ([], none)
    | some (a, f) => (a :: (many read n f).1, (many read n f).2)

theorem decodes_take {bs : List UInt8} {n : ℕ} (h : bs.length = n) : Decodes (take n) bs bs := by
  intro rest
  rw [take, if_pos (by rw [List.length_append]; omega), ← h, List.take_left, List.drop_left]

theorem decodes_signed {count : ℕ} {x : ℤ} (hlo : -(256 ^ count : ℕ) ≤ x * 2)
    (hhi : x * 2 < (256 ^ count : ℕ)) : Decodes (signedReader count) (signedBytes count x) x := by
  intro rest
  rw [signedReader, decodes_take (length_signedBytes count x), Option.map_some,
    signed_signedBytes hlo hhi]

theorem decodes_byte {n : ℕ} (h : n < 256) : Decodes byteReader [UInt8.ofNat n] n := by
  intro rest
  show some ((UInt8.ofNat n).toNat, rest) = some (n, rest)
  rw [UInt8.toNat_ofNat', Nat.mod_eq_of_lt h]

/-- **Records are read back** if each of them is. -/
theorem many_flatMap {read : Reader α} {write : α → List UInt8} {as : List α}
    (h : ∀ a ∈ as, Decodes read (write a) a) (rest : List UInt8) :
    many read as.length (as.flatMap write ++ rest) = (as, some rest) := by
  induction as with
  | nil => rfl
  | cons a as ih =>
    rw [List.forall_mem_cons] at h
    rw [List.length_cons, List.flatMap_cons, List.append_assoc, many, h.1]
    dsimp only
    rw [ih h.2]

end Codec
