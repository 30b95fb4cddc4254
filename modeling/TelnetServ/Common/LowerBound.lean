import Mathlib.Data.Nat.Init
import Mathlib.Tactic.SplitIfs
/-!
# `lower_bound`

The loop of `std::lower_bound`, over a test of the positions. Whatever the
test says, it ends between a position that has passed it and one that has
failed (`lowerBound_spec`).
-/

/-- **The loop**: `first`, and how many positions are left from there. -/
def lowerBound (below : ℕ → Bool) (first len : ℕ) : ℕ :=
  if 0 < len then
    if below (first + len / 2) then lowerBound below (first + len / 2 + 1) (len - len / 2 - 1)
    else lowerBound below first (len / 2)
  else first
termination_by len

variable {below : ℕ → Bool} {first len : ℕ}

/-- Where the loop ends. -/
structure Bounds (below : ℕ → Bool) (first len r : ℕ) : Prop where
  ge : first ≤ r
  le : r ≤ first + len
  before : first < r → below (r - 1) = true
  behind : r < first + len → below r = false

/-- **The loop ends between a position that passes and one that fails.** -/
theorem lowerBound_spec (below : ℕ → Bool) (first len : ℕ) :
    Bounds below first len (lowerBound below first len) := by
  induction len using Nat.strongRecOn generalizing first with
  | ind len ih =>
    rw [lowerBound]
    split_ifs with hlen hbelow
    · obtain ⟨hge, hle, hbefore, hbehind⟩ := ih (len - len / 2 - 1) (by omega) (first + len / 2 + 1)
      refine ⟨by omega, by omega, fun _ => ?_, fun hlt => hbehind (by omega)⟩
      rcases Nat.lt_or_ge (first + len / 2 + 1) (lowerBound below (first + len / 2 + 1)
        (len - len / 2 - 1)) with hmoved | hsame
      · exact hbefore hmoved
      · rwa [show lowerBound below (first + len / 2 + 1) (len - len / 2 - 1) - 1 =
          first + len / 2 by omega]
    · obtain ⟨hge, hle, hbefore, hbehind⟩ := ih (len / 2) (by omega) first
      refine ⟨hge, by omega, hbefore, fun _ => ?_⟩
      rcases Nat.lt_or_ge (lowerBound below first (len / 2)) (first + len / 2) with hlt | hsame
      · exact hbehind hlt
      · rw [show lowerBound below first (len / 2) = first + len / 2 by omega]
        exact Bool.eq_false_iff.mpr hbelow
    · exact ⟨Nat.le_refl _, by omega, fun h => absurd h (Nat.lt_irrefl _), fun h => by omega⟩
