import Mathlib.Data.List.Count
import Mathlib.Tactic

/-!
# Scans that jump ahead

A scan visits places one after the other.  A place may show an item, lead on to an item that has its
own place elsewhere, or give nothing.  An item that was reached by a lead is put on a skip list, and
is not given again when its own place comes.  Leads do not look at the list.

`count_gather` says how often an item is given, and `count_gather_eq_one_iff` when it is given
exactly once.
-/

namespace MiniDb

open List

variable {α : Type*} [DecidableEq α]

/-- What a place has for the scan. -/
inductive Visit (α : Type*) where
  | shows (a : α)
  | leads (a : α)
  | pass
  deriving DecidableEq, Repr

/-- What the scan gives, with the skip list it has so far. -/
def gather : List α → List (Visit α) → List α
  | _, [] => []
  | skip, .shows a :: vs => if a ∈ skip then gather skip vs else a :: gather skip vs
  | skip, .leads a :: vs => a :: gather (a :: skip) vs
  | skip, .pass :: vs => gather skip vs

variable {vs : List (Visit α)} {skip : List α} {a : α}

lemma gather_congr {skip' : List α} (h : ∀ a, a ∈ skip ↔ a ∈ skip') : gather skip vs = gather skip' vs := by
  induction vs generalizing skip skip' with
  | nil => rfl
  | cons v vs ih =>
    cases v with
    | shows a => simp [gather, h a, ih h]
    | leads a =>
      have h' : ∀ b, b ∈ a :: skip ↔ b ∈ a :: skip' := fun b => by
        rw [mem_cons, mem_cons, h b]
      simp [gather, ih h']
    | pass => exact ih h

/-- The places before the first lead to `a`. -/
def beforeLead (a : α) (vs : List (Visit α)) : List (Visit α) :=
  vs.takeWhile fun v => v ≠ .leads a

lemma count_gather_of_mem (h : a ∈ skip) : (gather skip vs).count a = vs.count (.leads a) := by
  induction vs generalizing skip with
  | nil => rfl
  | cons v vs ih =>
    cases v with
    | shows b =>
      rw [gather, count_cons_of_ne (by simp)]
      split
      · exact ih h
      · next hb =>
        have hne : b ≠ a := fun hba => hb (hba ▸ h)
        rw [count_cons_of_ne hne, ih h]
    | leads b =>
      have hmem : a ∈ b :: skip := mem_cons_of_mem b h
      rw [gather, count_cons, count_cons, ih hmem]
      simp
    | pass => exact ih h

/-- **How often an item is given**: once for every lead to it, and once for every place that shows it
before the first of these. -/
theorem count_gather (h : a ∉ skip) : (gather skip vs).count a =
      vs.count (.leads a) + (beforeLead a vs).count (.shows a) := by
  induction vs generalizing skip with
  | nil => rfl
  | cons v vs ih =>
    cases v with
    | shows b =>
      have hbefore : beforeLead a (.shows b :: vs) = .shows b :: beforeLead a vs := by
        simp [beforeLead]
      rw [gather, hbefore, count_cons_of_ne (by simp), count_cons]
      split
      · next hb =>
        have hne : b ≠ a := fun hba => h (hba ▸ hb)
        rw [ih h]
        simp [hne]
      · rw [count_cons, ih h]
        simp only [beq_iff_eq, Visit.shows.injEq]
        omega
    | leads b =>
      by_cases hba : b = a
      · subst hba
        have hbefore : beforeLead b (.leads b :: vs) = [] := by simp [beforeLead]
        rw [gather, hbefore, count_cons_self, count_cons_self, count_gather_of_mem mem_cons_self, count_nil]
      · have hbefore : beforeLead a (.leads b :: vs) = .leads b :: beforeLead a vs := by
          simp [beforeLead, hba]
        have hnot : a ∉ b :: skip := by
          rw [mem_cons, not_or]
          exact ⟨Ne.symm hba, h⟩
        rw [gather, hbefore, count_cons_of_ne hba, ih hnot,
          count_cons_of_ne (by simpa using hba), count_cons_of_ne (by simp)]
    | pass =>
      have hbefore : beforeLead a (.pass :: vs) = .pass :: beforeLead a vs := by
        simp [beforeLead]
      rw [gather, hbefore, ih h, count_cons_of_ne (by simp),
        count_cons_of_ne (by simp)]

lemma beforeLead_of_count_eq_zero (h : vs.count (.leads a) = 0) : beforeLead a vs = vs := by
  rw [count_eq_zero] at h
  induction vs with
  | nil => rfl
  | cons v vs ih =>
    rw [mem_cons, not_or] at h
    have hv : v ≠ .leads a := .symm h.1
    have hcons : beforeLead a (v :: vs) = v :: beforeLead a vs := by simp [beforeLead, hv]
    rw [hcons, ih h.2]

/-- **When an item is given exactly once**: no lead and one place, or one lead and no place before
it. -/
theorem count_gather_eq_one_iff : (gather [] vs).count a = 1 ↔
      (vs.count (.leads a) = 0 ∧ vs.count (.shows a) = 1) ∨ (vs.count (.leads a) = 1 ∧ .shows a ∉ beforeLead a vs) := by
  rw [count_gather (not_mem_nil), ← count_eq_zero]
  constructor
  · intro h
    by_cases hz : vs.count (.leads a) = 0
    · rw [beforeLead_of_count_eq_zero hz] at h
      exact .inl ⟨hz, by omega⟩
    · exact .inr ⟨by omega, by omega⟩
  · rintro (⟨h1, h2⟩ | ⟨h1, h2⟩)
    · rw [beforeLead_of_count_eq_zero h1]
      omega
    · omega

end MiniDb
