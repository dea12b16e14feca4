import Mathlib.Order.Lattice
import Mathlib.Logic.Function.Basic

/-!
# Replay from snapshots of different ages

A program takes a state with many components `i : ι` through `S 0, S 1, …`.  It is interrupted, and what is left has
component `i` as it was at time `f i`.  The program then starts again from this mixed state.

`mixed S f j` is where it should be at time `j`: a component that is already past `j` waits, the others follow `S`.
`mixed_succ`: it is enough that a step acts on every component by itself, and leaves alone a component that is past
it.
-/

namespace MiniDb

variable {ι σ : Type*} {S : ℕ → ι → σ} {f : ι → ℕ} {i : ι} {j k : ℕ}

/-- The state at time `j` of a replay that started with component `i` as of time `f i`. -/
def mixed (S : ℕ → ι → σ) (f : ι → ℕ) (j : ℕ) (i : ι) : σ := S (max j (f i)) i

@[simp] lemma mixed_zero (S : ℕ → ι → σ) (f : ι → ℕ) (i : ι) : mixed S f 0 i = S (f i) i := by
  unfold mixed
  rw [Nat.zero_max]

lemma mixed_of_le (h : f i ≤ j) : mixed S f j i = S j i := by
  unfold mixed
  rw [Nat.max_eq_left h]

lemma mixed_of_lt (h : j < f i) : mixed S f j i = S (f i) i := by
  unfold mixed
  rw [Nat.max_eq_right h.le]

/-- **One step of the replay.** -/
lemma mixed_succ {g : σ → σ} (hstep : S (j + 1) i = g (S j i))
    (hkeep : ∀ k, j < k → g (S k i) = S k i) : g (mixed S f j i) = mixed S f (j + 1) i := by
  rcases Nat.lt_or_ge j (f i) with hlt | hle
  · -- the component is past the step
    rw [mixed_of_lt hlt, hkeep _ hlt]
    unfold mixed
    rw [Nat.max_eq_right hlt]
  · rw [mixed_of_le hle, mixed_of_le (Nat.le_succ_of_le hle), hstep]

section Snapshot

variable [DecidableEq ι]

/-- A component is saved as it is now; the others keep their age. -/
def savedAt (f : ι → ℕ) (i : ι) (j : ℕ) : ι → ℕ := Function.update f i (max j (f i))

lemma savedAt_self : savedAt f i j i = max j (f i) := Function.update_self ..

lemma savedAt_of_ne {i' : ι} (h : i' ≠ i) : savedAt f i j i' = f i' := Function.update_of_ne h ..

/-- Saving does not change where the replay is. -/
lemma mixed_savedAt (hjk : j ≤ k) (i' : ι) : mixed S (savedAt f i j) k i' = mixed S f k i' := by
  unfold mixed
  by_cases h : i' = i
  · subst h
    rw [savedAt_self, ← Nat.max_assoc, Nat.max_eq_left hjk]
  · rw [savedAt_of_ne h]

end Snapshot

end MiniDb
