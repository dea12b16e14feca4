import Mathlib.Data.List.Perm.Lattice
import Mathlib.Data.List.Count
import Mathlib.Tactic

/-!
# Lists of pairs

Each item of a list comes with a list of partners, and an item and a partner make a pair.  If the pairs
tell the two apart, then two lists of all pairs are the same up to order exactly if each item has the same
partners in both (`flatMap_pair_perm_iff`).
-/

namespace MiniDb

open List

variable {α β γ : Type*}

/-- The pair determines the item and the partner, for the items of the list. -/
def PairsApart (xs : List α) (pair : α → β → γ) : Prop :=
  ∀ x ∈ xs, ∀ x' ∈ xs, ∀ y y', pair x y = pair x' y' → x = x' ∧ y = y'

variable {pair : α → β → γ} {xs : List α}

lemma count_flatMap_pair [DecidableEq α] [DecidableEq β] [DecidableEq γ] {x : α} {y : β} (f : α → List β)
    (hapart : ∀ x' ∈ xs, ∀ y', pair x' y' = pair x y → x' = x ∧ y' = y) :
    (xs.flatMap fun x' => (f x').map (pair x')).count (pair x y) = xs.count x * (f x).count y := by
  induction xs with
  | nil => simp
  | cons a xs ih =>
    have htail := ih fun x' hx' => hapart x' (mem_cons_of_mem a hx')
    rw [flatMap_cons, count_append, htail, count_cons]
    by_cases hax : a = x
    · subst hax
      have hcount : ((f a).map (pair a)).count (pair a y) = (f a).count y := by
        rw [count, countP_map, count]
        refine countP_congr fun y' _ => ?_
        simp only [Function.comp_apply, beq_iff_eq]
        exact ⟨fun h => (hapart a mem_cons_self y' h).2, fun h => h ▸ rfl⟩
      rw [hcount, beq_self_eq_true, if_pos rfl]
      ring
    · have hcount : ((f a).map (pair a)).count (pair x y) = 0 := by
        refine count_eq_zero.2 fun hmem => ?_
        obtain ⟨y', -, hy'⟩ := mem_map.1 hmem
        exact hax (hapart a mem_cons_self y' hy').1
      rw [hcount, beq_eq_false_iff_ne.2 hax]
      simp

/-- **All pairs are the same up to order exactly if each item has the same partners.** -/
theorem flatMap_pair_perm_iff (hapart : PairsApart xs pair) (f g : α → List β) :
    (xs.flatMap fun x => (f x).map (pair x)).Perm (xs.flatMap fun x => (g x).map (pair x)) ↔
      ∀ x ∈ xs, (f x).Perm (g x) := by
  classical
  constructor
  · intro hperm x hx
    refine perm_iff_count.2 fun y => ?_
    have hx' : ∀ x' ∈ xs, ∀ y', pair x' y' = pair x y → x' = x ∧ y' = y := fun x' hmem y' =>
      hapart x' hmem x hx y' y
    have hcount := hperm.count_eq (pair x y)
    rw [count_flatMap_pair f hx', count_flatMap_pair g hx'] at hcount
    exact Nat.eq_of_mul_eq_mul_left (count_pos_iff.2 hx) hcount
  · intro h
    exact .flatMap_left xs fun x hx => (h x hx).map (pair x)

/-- Concatenations of rows of one width are such pairs. -/
lemma pairsApart_append {xs : List (List α)} {width : ℕ} (hw : ∀ x ∈ xs, x.length = width) :
    PairsApart xs fun x (y : List α) => x ++ y := fun x hx x' hx' _ _ heq =>
  append_inj heq ((hw x hx).trans (hw x' hx').symm)

end MiniDb
