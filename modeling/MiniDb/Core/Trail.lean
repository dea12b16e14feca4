import Mathlib.Data.List.Basic

/-!
# Following links to the first accepted cell

A store maps addresses to cells, and a cell may name the address of the next one.  `follow` starts
at an address and goes from cell to cell until it finds one that it accepts, over a bounded number
of links.  `Trail` is the relation behind it: the list of the addresses visited, with the cell found
at its end.
-/

namespace MiniDb

variable {α τ : Type*}

/-- Go to the first cell that `stop` accepts, over at most the given number of links. -/
def follow (cell : α → Option τ) (stop : τ → Bool) (next : τ → Option α) : ℕ → α → Option (α × τ)
  | 0, a => (cell a).bind fun t => if stop t then some (a, t) else none
  | n + 1, a => (cell a).bind fun t =>
    if stop t then some (a, t) else (next t).bind (follow cell stop next n)

/-- The addresses visited on the way to an accepted cell. -/
inductive Trail (cell : α → Option τ) (stop : τ → Bool) (next : τ → Option α) : List α → τ → Prop where
  | found {a : α} {t : τ} (hcell : cell a = some t) (hstop : stop t = true) :
      Trail cell stop next [a] t
  | link {a b : α} {t s : τ} {path : List α} (hcell : cell a = some t) (hstop : stop t = false)
      (hnext : next t = some b) (hrest : Trail cell stop next (b :: path) s) :
      Trail cell stop next (a :: b :: path) s

variable {cell : α → Option τ} {stop : τ → Bool} {next : τ → Option α} {a c : α} {s : τ} {path : List α} {n : ℕ}

section

variable (h : Trail cell stop next path s)
include h

lemma Trail.last : ∃ c, path.getLast? = some c ∧ cell c = some s ∧ stop s = true := by
  induction h with
  | @found a t hcell hstop => exact ⟨a, rfl, hcell, hstop⟩
  | link _ _ _ _ ih => simpa using ih

/-- A trail survives in another store that keeps, on the trail, verdicts and links. -/
lemma Trail.transfer {cell' : α → Option τ} {R : τ → τ → Prop}
    (hR : ∀ t t', R t t' → stop t' = stop t ∧ next t' = next t)
    (hcells : ∀ x ∈ path, ∀ t, cell x = some t → ∃ t', cell' x = some t' ∧ R t t') :
    ∃ s', R s s' ∧ Trail cell' stop next path s' := by
  induction h with
  | @found a t hcell hstop =>
    obtain ⟨t', ht', hr⟩ := hcells a (by simp) t hcell
    exact ⟨t', hr, .found ht' ((hR t t' hr).1.trans hstop)⟩
  | @link a b t s path hcell hstop hnext _ ih =>
    obtain ⟨t', ht', hr⟩ := hcells a (by simp) t hcell
    obtain ⟨s', hs', hrest⟩ := ih fun x hx => hcells x (List.mem_cons_of_mem a hx)
    exact ⟨s', hs', .link ht' ((hR t t' hr).1.trans hstop) ((hR t t' hr).2.trans hnext) hrest⟩

lemma Trail.follow_eq_some (hhead : path.head? = some a) (hlast : path.getLast? = some c)
    (hlen : path.length ≤ n + 1) :
    follow cell stop next n a = some (c, s) := by
  induction h generalizing a n with
  | found hcell hstop =>
    cases hhead
    cases hlast
    cases n <;> simp [follow, hcell, hstop]
  | link hcell hstop hnext _ ih =>
    cases hhead
    cases n with
    | zero => simp at hlen
    | succ n =>
      rw [follow, hcell, Option.bind_some, hstop, hnext]
      exact ih rfl hlast (by simpa using hlen)

end

lemma exists_trail_of_follow (h : follow cell stop next n a = some (c, s)) :
    ∃ path, Trail cell stop next path s ∧ path.head? = some a ∧ path.getLast? = some c ∧ path.length ≤ n + 1 := by
  induction n generalizing a with
  | zero =>
    obtain ⟨t, hcell, h⟩ := Option.bind_eq_some_iff.1 h
    split at h
    · next hstop => cases h; exact ⟨[c], .found hcell hstop, rfl, rfl, Nat.le_refl 1⟩
    · cases h
  | succ n ih =>
    obtain ⟨t, hcell, h⟩ := Option.bind_eq_some_iff.1 h
    split at h
    · next hstop => cases h; exact ⟨[c], .found hcell hstop, rfl, rfl, by simp⟩
    · next hstop =>
      obtain ⟨b, hnext, h⟩ := Option.bind_eq_some_iff.1 h
      obtain ⟨path, hpath, hhead, hlast, hlen⟩ := ih h
      cases path with
      | nil => cases hhead
      | cons b' path =>
        cases hhead
        refine ⟨a :: b :: path, .link hcell (Bool.eq_false_iff.2 hstop) hnext hpath, rfl, ?_, Nat.succ_le_succ hlen⟩
        exact hlast

end MiniDb
