import MiniDb.Core.BinarySearch

/-!
# A list of versions in the order of their keys

Versions are kept in a list that is sorted by key; a new one goes behind all versions with the same key.
`findVersion` gives the last version whose key is not above a bound.

`findVersion_addVersion` says what an insertion does to a search: it is found if its key is not above the bound
and nothing better was found before.
-/

namespace MiniDb

open List

variable {α : Type*} (key : α → ℕ)

section

variable (l : List α)

/-- The position behind all versions whose key is not above the bound. -/
def upperBound (x : ℕ) : ℕ := partitionPoint (fun a => decide (key a ≤ x)) l

/-- Append the version if it belongs at the end, else make room for it. -/
def addVersion (a : α) : List α :=
  if l.getLast?.all fun b => key b ≤ key a then l ++ [a]
  else l.take (upperBound key l (key a)) ++ a :: l.drop (upperBound key l (key a))

/-- The last version whose key is not above the bound. -/
def findVersion (x : ℕ) : Option α :=
  match upperBound key l x with
  | 0 => none
  | n + 1 => l[n]?

/-- One version is in order behind another one. -/
def SortedBy : Prop := l.Pairwise fun a b => key a ≤ key b

end

/-- The better one of what was found so far and another version. -/
def better (x : ℕ) (o : Option α) (a : α) : Option α :=
  if key a ≤ x ∧ ∀ b ∈ o, key b ≤ key a then some a else o

variable {key} {l : List α}

section

variable (h : SortedBy key l)
include h

lemma SortedBy.leading (x : ℕ) : Leading (fun a => decide (key a ≤ x)) l := by
  refine .imp (fun {a b} hab => ?_) h
  simp only [decide_eq_true_eq]
  exact hab.trans

/-- A sorted list is cut in two by a bound. -/
lemma SortedBy.exists_cut (x : ℕ) :
    ∃ low high, l = low ++ high ∧ upperBound key l x = low.length ∧ (∀ a ∈ low, key a ≤ x) ∧ ∀ a ∈ high, x < key a := by
  refine ⟨l.takeWhile fun a => decide (key a ≤ x), l.dropWhile fun a => decide (key a ≤ x),
    takeWhile_append_dropWhile.symm, partitionPoint_eq (h.leading x), fun a ha => ?_, fun a ha => ?_⟩
  · simpa using all_eq_true.1 all_takeWhile a ha
  · obtain ⟨i, hi⟩ := mem_iff_getElem?.1 ha
    have hlen : l[(l.takeWhile fun a => decide (key a ≤ x)).length + i]? = some a := by
      rw [← takeWhile_append_dropWhile (p := fun a => decide (key a ≤ x)) (l := l), getElem?_append_right (by simp)]
      simpa using hi
    have hiff := (h.leading x).getElem_iff hlen
    simp only [decide_eq_true_eq] at hiff
    omega

/-- An insertion puts the version behind all that are not above it. -/
lemma SortedBy.exists_add (a : α) :
    ∃ low high, l = low ++ high ∧ addVersion key l a = low ++ a :: high ∧ (∀ b ∈ low, key b ≤ key a) ∧
      ∀ b ∈ high, key a < key b := by
  obtain ⟨low, high, hl, hpos, hlow, hhigh⟩ := h.exists_cut (key a)
  refine ⟨low, high, hl, ?_, hlow, hhigh⟩
  rw [addVersion]
  split_ifs with hlast
  · cases high using reverseRecOn with
    | nil => simp [hl]
    | append_singleton high b =>
      -- the last version is above the new one
      have hb := hhigh b (by simp)
      simp [hl, ← append_assoc] at hlast
      omega
  · rw [hpos, hl]
    simp

lemma SortedBy.addVersion (a : α) : SortedBy key (addVersion key l a) := by
  obtain ⟨low, high, rfl, hins, hlow, hhigh⟩ := h.exists_add a
  obtain ⟨hl, hh, hlh⟩ := pairwise_append.1 h
  rw [hins]
  refine pairwise_append.2 ⟨hl, pairwise_cons.2 ⟨fun b hb => (hhigh b hb).le, hh⟩, ?_⟩
  intro b hb c hc
  rcases mem_cons.1 hc with rfl | hc
  · exact hlow b hb
  · exact hlh b hb c hc

lemma SortedBy.mem_addVersion {a b : α} : b ∈ MiniDb.addVersion key l a ↔ b = a ∨ b ∈ l := by
  obtain ⟨low, high, rfl, hins, -⟩ := h.exists_add a
  rw [hins]
  simp only [mem_append, mem_cons]
  tauto

/-- A search ends at the last version that is not above the bound. -/
lemma SortedBy.findVersion_eq (x : ℕ) : findVersion key l x = (l.filter fun a => decide (key a ≤ x)).getLast? := by
  obtain ⟨low, high, hl, hpos, hlow, hhigh⟩ := h.exists_cut x
  have hfilter : l.filter (fun a => decide (key a ≤ x)) = low := by
    rw [hl, filter_append, filter_eq_self.2 (by simpa using hlow),
      filter_eq_nil_iff.2 (by simpa using hhigh), append_nil]
  rw [findVersion, hpos, hfilter]
  cases low using reverseRecOn with
  | nil => rfl
  | append_singleton low b => simp [hl]

lemma SortedBy.le_of_findVersion {x : ℕ} {a : α} (ha : findVersion key l x = some a) :
    a ∈ l ∧ key a ≤ x ∧ ∀ b ∈ l, key b ≤ x → key b ≤ key a := by
  rw [h.findVersion_eq] at ha
  obtain ⟨front, hfront⟩ := getLast?_eq_some_iff.1 ha
  have hmem : ∀ b, b ∈ front ++ [a] ↔ b ∈ l ∧ key b ≤ x := by
    intro b
    rw [← hfront, mem_filter, decide_eq_true_eq]
  have hsorted : (front ++ [a]).Pairwise fun a b => key a ≤ key b := hfront ▸ h.filter _
  obtain ⟨hal, hle⟩ := (hmem a).1 (by simp)
  refine ⟨hal, hle, fun b hb hbx => ?_⟩
  rcases mem_append.1 ((hmem b).2 ⟨hb, hbx⟩) with hb | hb
  · exact (pairwise_append.1 hsorted).2.2 b hb a (by simp)
  · rw [mem_singleton.1 hb]

/-- **What an insertion does to a search.** -/
theorem SortedBy.findVersion_addVersion (a : α) (x : ℕ) :
    findVersion key (MiniDb.addVersion key l a) x = better key x (findVersion key l x) a := by
  rw [(h.addVersion a).findVersion_eq, h.findVersion_eq]
  obtain ⟨low, high, rfl, hins, hlow, hhigh⟩ := h.exists_add a
  rw [hins, filter_append, filter_append, better]
  by_cases hle : key a ≤ x
  · rw [filter_cons_of_pos (by simpa using hle)]
    generalize hrest : high.filter (fun b => decide (key b ≤ x)) = rest
    cases rest using reverseRecOn with
    | nil =>
      have hbest : ∀ b ∈ ((low.filter fun b => decide (key b ≤ x)) ++ []).getLast?, key b ≤ key a := by
        intro b hb
        rw [append_nil] at hb
        exact hlow b (mem_filter.1 (mem_of_getLast? hb)).1
      rw [if_pos ⟨hle, hbest⟩, getLast?_concat]
    | append_singleton rest c =>
      -- a version between the new one and the bound is found before and after
      have hc : key a < key c := by
        have hmem : c ∈ high.filter fun b => decide (key b ≤ x) := hrest ▸ by simp
        exact hhigh c (mem_filter.1 hmem).1
      rw [← append_assoc, getLast?_concat, if_neg fun hbest => ?_, ← cons_append, ← append_assoc, getLast?_concat]
      exact absurd (hbest.2 c rfl) (not_le.2 hc)
  · rw [filter_cons_of_neg (by simpa using hle), if_neg fun hbest => hle hbest.1]

end

lemma SortedBy.nil : SortedBy key ([] : List α) := List.Pairwise.nil

end MiniDb
