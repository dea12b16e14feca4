import Mathlib.Data.List.Basic
import Mathlib.Tactic

/-!
# Binary search

A test that holds of a first part of a list and of nothing after it is found the end of by halving:
`partitionPoint` looks at the middle and goes on in the left or the right half.
-/

namespace MiniDb

variable {α : Type*}

/-- The loop `while (lo < hi)`; the number of rounds is bounded by the first argument. -/
def partitionLoop (q : α → Bool) (xs : List α) : ℕ → ℕ → ℕ → ℕ
  | 0, lo, _ => lo
  | n + 1, lo, hi =>
    if lo < hi then
      let mid := lo + (hi - lo) / 2
      if (xs[mid]?).all q then partitionLoop q xs n (mid + 1) hi else partitionLoop q xs n lo mid
    else lo

/-- The index of the first item of which the test does not hold. -/
def partitionPoint (q : α → Bool) (xs : List α) : ℕ := partitionLoop q xs xs.length 0 xs.length

/-- The test holds of a first part of the list. -/
def Leading (q : α → Bool) (xs : List α) : Prop := xs.Pairwise fun x y => q y = true → q x = true

variable {q : α → Bool} {xs : List α}

lemma Leading.tail {x : α} (h : Leading q (x :: xs)) : Leading q xs :=
  (List.pairwise_cons.1 h).2

lemma Leading.getElem_iff (h : Leading q xs) :
    ∀ {i x}, xs[i]? = some x → (q x = true ↔ i < (xs.takeWhile q).length) := by
  induction xs with
  | nil => intro i x hx; simp at hx
  | cons a xs ih =>
    intro i x hx
    cases ha : q a with
    | true =>
      rw [List.takeWhile_cons_of_pos ha]
      cases i with
      | zero =>
        cases hx
        simp [ha]
      | succ i =>
        rw [ih h.tail hx, List.length_cons]
        omega
    | false =>
      rw [List.takeWhile_cons_of_neg (by rw [ha]; exact Bool.false_ne_true)]
      have hx' : q x = false := by
        rw [← Bool.not_eq_true]
        intro hq
        cases i with
        | zero =>
          cases hx
          rw [ha] at hq
          cases hq
        | succ i =>
          have hmem : x ∈ xs := List.mem_of_getElem? hx
          rw [(List.pairwise_cons.1 h).1 x hmem hq] at ha
          cases ha
      simp [hx']

lemma partitionLoop_eq (h : Leading q xs) :
    ∀ n lo hi, hi - lo ≤ n → lo ≤ (xs.takeWhile q).length → (xs.takeWhile q).length ≤ hi →
      hi ≤ xs.length → partitionLoop q xs n lo hi = (xs.takeWhile q).length := by
  intro n
  induction n with
  | zero =>
    intro lo hi hn hlo hhi _
    rw [partitionLoop]
    omega
  | succ n ih =>
    intro lo hi hn hlo hhi hlen
    rw [partitionLoop]
    by_cases hlt : lo < hi
    · rw [if_pos hlt]
      have hmid : lo + (hi - lo) / 2 < xs.length := by omega
      have hx : xs[lo + (hi - lo) / 2]? = some (xs[lo + (hi - lo) / 2]) :=
        List.getElem?_eq_getElem hmid
      have hiff := h.getElem_iff hx
      dsimp only
      rw [hx, Option.all_some]
      by_cases hq : q (xs[lo + (hi - lo) / 2]) = true
      · rw [if_pos hq]
        have := hiff.1 hq
        exact ih _ _ (by omega) (by omega) hhi hlen
      · rw [if_neg hq]
        have := mt hiff.2 hq
        exact ih _ _ (by omega) hlo (by omega) (by omega)
    · rw [if_neg hlt]
      omega

/-- **Halving finds the end of the first part.** -/
theorem partitionPoint_eq (h : Leading q xs) : partitionPoint q xs = (xs.takeWhile q).length :=
  partitionLoop_eq h _ _ _ (by omega) (by omega) (List.takeWhile_sublist q).length_le le_rfl

end MiniDb
