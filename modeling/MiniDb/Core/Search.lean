import Mathlib.Algebra.Order.BigOperators.Group.Finset
import Mathlib.Logic.Relation

/-!
# Searching a graph for a way back

`search` is a depth-first search with a stack and a set of visited nodes that asks whether an edge leads
back to `target`.  Each round takes one node off the stack, and what a visited node has put there is put
there once (`search_isSome`).  When the stack is empty, the visited nodes are closed under the edges, so
the answer is right (`search_eq_some`).
-/

namespace MiniDb

open List Relation

variable {α : Type*} [DecidableEq α] (next : α → List α) (target : α)

/-- The search, for at most as many rounds as the first number says. -/
def search : ℕ → Finset α → List α → Option Bool
  | 0, _, _ => none
  | _ + 1, _, [] => some false
  | n + 1, seen, x :: stack =>
    if x ∈ seen then search n seen stack
    else if target ∈ next x then some true
    else search n (insert x seen) (((next x).filter (· ∉ insert x seen)).reverse ++ stack)

variable {next target}

/-- The search answers if the rounds are enough for the stack and the edges of the nodes to come. -/
lemma search_isSome (nodes : Finset α) (hclosed : ∀ x ∈ nodes, ∀ y ∈ next x, y ∈ nodes) {n : ℕ} :
    ∀ {seen : Finset α} {stack : List α}, (∀ x ∈ stack, x ∈ nodes) →
      stack.length + ∑ x ∈ nodes \ seen, (next x).length < n → (search next target n seen stack).isSome = true := by
  induction n with
  | zero => omega
  | succ n ih =>
    intro seen stack hstack hlt
    cases stack with
    | nil => rfl
    | cons x stack =>
      obtain ⟨hx, hstack⟩ := forall_mem_cons.1 hstack
      rw [length_cons] at hlt
      rw [search]
      split_ifs with hseen htarget
      · exact ih hstack (by omega)
      · rfl
      · refine ih (fun y hy => ?_) ?_
        · rcases mem_append.1 hy with hy | hy
          · exact hclosed x hx y (mem_filter.1 (mem_reverse.1 hy)).1
          · exact hstack y hy
        · -- the edges of `x` move from the sum to the stack
          have hsum := Finset.add_sum_erase (nodes \ seen) (fun y => (next y).length) (Finset.mem_sdiff.2 ⟨hx, hseen⟩)
          have hfilter := length_filter_le (fun y => decide (y ∉ insert x seen)) (next x)
          rw [length_append, length_reverse, Finset.sdiff_insert]
          omega

/-- **The answer of the search** is whether the target is on a cycle. -/
theorem search_eq_some {n : ℕ} {b : Bool} :
    ∀ {seen : Finset α} {stack : List α}, (∀ x ∈ stack, ReflTransGen (fun x y => y ∈ next x) target x) →
      (∀ x ∈ seen, target ∉ next x ∧ ∀ y ∈ next x, y ∈ seen ∨ y ∈ stack) → (target ∈ seen ∨ target ∈ stack) →
      search next target n seen stack = some b → (b = true ↔ TransGen (fun x y => y ∈ next x) target target) := by
  induction n with
  | zero => intro _ _ _ _ _ h; cases h
  | succ n ih =>
    intro seen stack hreach hseen hin h
    cases stack with
    | nil =>
      cases h
      refine ⟨by simp, fun hcycle => ?_⟩
      have hclosed : ∀ y, ReflTransGen (fun x y => y ∈ next x) target y → y ∈ seen := by
        intro y hy
        induction hy with
        | refl => simpa using hin
        | tail _ hz ihy => simpa using (hseen _ ihy).2 _ hz
      obtain ⟨y, hy, hback⟩ := TransGen.tail'_iff.1 hcycle
      exact absurd hback (hseen y (hclosed y hy)).1
    | cons x stack =>
      obtain ⟨hx, hreach⟩ := forall_mem_cons.1 hreach
      rw [search] at h
      split_ifs at h with hmem htarget
      · -- what was on the stack or visited still is
        have hkeep : ∀ y, y ∈ seen ∨ y ∈ x :: stack → y ∈ seen ∨ y ∈ stack := by
          rintro y (hy | hy)
          · exact .inl hy
          · rcases mem_cons.1 hy with rfl | hy
            · exact .inl hmem
            · exact .inr hy
        exact ih hreach (fun y hy => ⟨(hseen y hy).1, fun z hz => hkeep z ((hseen y hy).2 z hz)⟩) (hkeep target hin) h
      · cases h
        exact ⟨fun _ => .tail' hx htarget, fun _ => rfl⟩
      · have hkeep : ∀ y, y ∈ seen ∨ y ∈ x :: stack →
            y ∈ insert x seen ∨ y ∈ ((next x).filter (· ∉ insert x seen)).reverse ++ stack := by
          rintro y (hy | hy)
          · exact .inl (Finset.mem_insert_of_mem hy)
          · rcases mem_cons.1 hy with rfl | hy
            · exact .inl (Finset.mem_insert_self ..)
            · exact .inr (mem_append_right _ hy)
        refine ih (fun y hy => ?_) (fun y hy => ?_) (hkeep target hin) h
        · rcases mem_append.1 hy with hy | hy
          · exact hx.tail (mem_filter.1 (mem_reverse.1 hy)).1
          · exact hreach y hy
        · rcases Finset.mem_insert.1 hy with rfl | hy
          · refine ⟨htarget, fun z hz => ?_⟩
            by_cases hzs : z ∈ insert y seen
            · exact .inl hzs
            · exact .inr (mem_append_left _ (mem_reverse.2 (mem_filter.2 ⟨hz, by simpa using hzs⟩)))
          · exact ⟨(hseen y hy).1, fun z hz => hkeep z ((hseen y hy).2 z hz)⟩

end MiniDb
