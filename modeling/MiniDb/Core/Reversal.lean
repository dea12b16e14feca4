import Mathlib.Data.List.Basic
import Mathlib.Logic.Function.Basic

/-!
# Edits that can be taken back

A state is a function from keys to values.  An edit is a list of changes to single keys, each with the change that
takes it back.  Several owners edit one state; each takes back its last pending edit at any time, or makes all of its
edits final.

`Sound x es` is what this needs of the pending edits `es` over the final state `x`: two edits that touch a key in
common are of one owner, and each edit can be taken back in the state that it was made in.  It is kept by a new edit
(`Sound.concat`), when an owner takes back its last one (`Sound.pop`), and when its edits become final
(`Sound.settle`).
-/

namespace MiniDb

open List

variable {κ ν τ : Type*} [DecidableEq κ]

/-- Changes to single keys, each with the one that takes it back. -/
abbrev Edit (κ ν : Type*) := List (κ × (ν → ν) × (ν → ν))

variable {x y : κ → ν} {p : τ × Edit κ ν → Bool}

namespace Edit

def keys (e : Edit κ ν) : List κ := e.map Prod.fst

/-- What the edit makes of the value of a key. -/
def act : Edit κ ν → κ → ν → ν
  | [], _, v => v
  | (k', f, _) :: e, k, v => act e k (if k' = k then f v else v)

def undo : Edit κ ν → κ → ν → ν
  | [], _, v => v
  | (k', _, g) :: e, k, v => if k' = k then g (undo e k v) else undo e k v

variable {e e' : Edit κ ν} {k : κ} {v : ν}

lemma act_of_notMem (h : k ∉ e.keys) : e.act k v = v := by
  induction e with
  | nil => rfl
  | cons c e ih =>
    obtain ⟨hc, he⟩ := not_or.1 (mt mem_cons.2 h)
    rw [act, if_neg (Ne.symm hc), ih he]

lemma undo_of_notMem (h : k ∉ e.keys) : e.undo k v = v := by
  induction e with
  | nil => rfl
  | cons c e ih =>
    obtain ⟨hc, he⟩ := not_or.1 (mt mem_cons.2 h)
    rw [undo, if_neg (Ne.symm hc), ih he]

lemma act_append : (e ++ e' : Edit κ ν).act k v = e'.act k (e.act k v) := by
  induction e generalizing v with
  | nil => rfl
  | cons c e ih => exact ih

lemma undo_append : (e ++ e' : Edit κ ν).undo k v = e.undo k (e'.undo k v) := by
  induction e with
  | nil => rfl
  | cons c e ih =>
    obtain ⟨k', f, g⟩ := c
    show (if k' = k then g (undo (e ++ e') k v) else undo (e ++ e') k v) = _
    rw [ih]
    rfl

/-- The edit that takes another one back. -/
def inverse (e : Edit κ ν) : Edit κ ν := (e.map fun c => (c.1, c.2.2, c.2.1)).reverse

omit [DecidableEq κ] in
lemma inverse_cons {c : κ × (ν → ν) × (ν → ν)} : inverse (c :: e) = inverse e ++ [(c.1, c.2.2, c.2.1)] := reverse_cons

@[simp] lemma act_inverse : e.inverse.act k v = e.undo k v := by
  induction e with
  | nil => rfl
  | cons c e ih =>
    rw [inverse_cons, act_append, ih]
    rfl

@[simp] lemma undo_inverse : e.inverse.undo k v = e.act k v := by
  induction e generalizing v with
  | nil => rfl
  | cons c e ih =>
    rw [inverse_cons, undo_append, ih]
    rfl

/-- Taking the edit back leads to where it was made. -/
def Fits (e : Edit κ ν) (x : κ → ν) : Prop := ∀ k, e.undo k (e.act k (x k)) = x k

/-- Only its own keys matter for that. -/
lemma Fits.congr (h : e.Fits x) (hxy : ∀ k ∈ e.keys, x k = y k) : e.Fits y := by
  intro k
  by_cases hk : k ∈ e.keys
  · rw [← hxy k hk]
    exact h k
  · rw [e.act_of_notMem hk, e.undo_of_notMem hk]

/-- Changes to different keys can be taken back if each of them can. -/
lemma fits_of_nodup (hnodup : e.keys.Nodup) (h : ∀ c ∈ e, c.2.2 (c.2.1 (x c.1)) = x c.1) : e.Fits x := by
  induction e with
  | nil => exact fun _ => rfl
  | cons c e ih =>
    obtain ⟨hc, hnodup⟩ := nodup_cons.1 hnodup
    intro k
    rw [act, undo]
    split_ifs with hk
    · subst hk
      rw [act_of_notMem hc, undo_of_notMem hc]
      exact h c mem_cons_self
    · exact ih hnodup (fun c' hc' => h c' (mem_cons_of_mem c hc')) k

lemma Fits.append (h : e.Fits x) (h' : e'.Fits fun k => e.act k (x k)) : (e ++ e').Fits x := by
  intro k
  rw [act_append, undo_append, h' k, h k]

omit [DecidableEq κ] in
lemma inverse_append : (e ++ e').inverse = e'.inverse ++ e.inverse := by
  rw [inverse, map_append, reverse_append]
  rfl

end Edit

def effects (x : κ → ν) (es : List (Edit κ ν)) (k : κ) : ν := es.foldl (fun v e => e.act k v) (x k)

section Effects

variable {x : κ → ν} {es es' : List (Edit κ ν)} {e : Edit κ ν} {k : κ}

lemma effects_append : effects x (es ++ es') k = effects (effects x es) es' k := by
  unfold effects
  rw [foldl_append]

lemma effects_congr (h : x k = y k) : effects x es k = effects y es k := by
  unfold effects
  rw [h]

lemma effects_concat : effects x (es ++ [e]) k = e.act k (effects x es k) := effects_append

lemma effects_of_notMem (h : ∀ e ∈ es, k ∉ e.keys) : effects x es k = x k := by
  unfold effects
  generalize x k = v
  induction es generalizing v with
  | nil => rfl
  | cons e es ih =>
    rw [foldl_cons, e.act_of_notMem (h e mem_cons_self)]
    exact ih (fun e' he' => h e' (mem_cons_of_mem e he')) v

end Effects

/-! ## Pending edits of several owners -/

def edits (es : List (τ × Edit κ ν)) : List (Edit κ ν) := es.map Prod.snd

/-- Something holds of every edit and the state that it was made in. -/
def AtEach (Q : Edit κ ν → (κ → ν) → Prop) (x : κ → ν) (es : List (τ × Edit κ ν)) : Prop :=
  ∀ front a back, es = front ++ a :: back → Q a.2 (effects x (edits front))

namespace AtEach

variable {Q : Edit κ ν → (κ → ν) → Prop} {x : κ → ν} {es : List (τ × Edit κ ν)} {t : τ} {e : Edit κ ν}

lemma nil : AtEach Q x ([] : List (τ × Edit κ ν)) := by
  intro front a back h
  simp at h

lemma concat (h : AtEach Q x es) (he : Q e (effects x (edits es))) : AtEach Q x (es ++ [(t, e)]) := by
  intro front a back heq
  rcases eq_nil_or_concat back with rfl | ⟨back, b, rfl⟩
  · obtain ⟨rfl, ha⟩ := append_inj' heq rfl
    cases ha
    exact he
  · rw [concat_eq_append, ← cons_append, ← append_assoc] at heq
    exact h front a back (append_inj' heq rfl).1

end AtEach

structure Sound (x : κ → ν) (es : List (τ × Edit κ ν)) : Prop where
  /-- Edits that touch a key in common are of one owner. -/
  owner : ∀ a ∈ es, ∀ b ∈ es, ∀ k ∈ a.2.keys, k ∈ b.2.keys → a.1 = b.1
  /-- Every edit fits where it was made. -/
  fits : AtEach Edit.Fits x es

namespace Sound

variable {x : κ → ν} {es front back : List (τ × Edit κ ν)} {t : τ} {e : Edit κ ν} {k : κ}
  {Q : Edit κ ν → (κ → ν) → Prop}

lemma nil (x : κ → ν) : Sound x ([] : List (τ × Edit κ ν)) where
  owner _ h := absurd h not_mem_nil
  fits := .nil

/-- An owner makes an edit that touches no key of the edits of others. -/
lemma concat (h : Sound x es) (hfits : e.Fits (effects x (edits es)))
    (howner : ∀ a ∈ es, ∀ k ∈ a.2.keys, k ∈ e.keys → a.1 = t) : Sound x (es ++ [(t, e)]) where
  owner a ha b hb k hka hkb := by
    rcases mem_append.1 ha with ha | ha <;> rcases mem_append.1 hb with hb | hb
    · exact h.owner a ha b hb k hka hkb
    · obtain rfl := mem_singleton.1 hb
      exact howner a ha k hka hkb
    · obtain rfl := mem_singleton.1 ha
      exact (howner b hb k hkb hka).symm
    · rw [mem_singleton.1 ha, mem_singleton.1 hb]
  fits := h.fits.concat hfits

/-- The edits behind the last edit of an owner leave its keys alone. -/
lemma notMem_back (h : Sound x (front ++ (t, e) :: back)) (hlast : ∀ a ∈ back, a.1 ≠ t) (hk : k ∈ e.keys) :
    ∀ e' ∈ edits back, k ∉ e'.keys := by
  intro e' he' hk'
  obtain ⟨a, ha, rfl⟩ := mem_map.1 he'
  exact hlast a ha (h.owner a (by simp [ha]) (t, e) (by simp) k hk' hk)

omit [DecidableEq κ] in
lemma edits_append : edits (front ++ back) = edits front ++ edits back := map_append

section

variable (h : Sound x (front ++ (t, e) :: back)) (hlast : ∀ a ∈ back, a.1 ≠ t)
include h hlast

/-- The last edit of an owner could as well have been made last of all. -/
lemma effects_last (k : κ) :
    effects x (edits (front ++ (t, e) :: back)) k = e.act k (effects x (edits (front ++ back)) k) := by
  have hsplit : edits (front ++ (t, e) :: back) = (edits front ++ [e]) ++ edits back := by
    simp [edits]
  rw [hsplit, edits_append, effects_append, effects_append]
  by_cases hk : k ∈ e.keys
  · have hback := h.notMem_back hlast hk
    rw [effects_of_notMem hback, effects_of_notMem hback, effects_concat]
  · rw [e.act_of_notMem hk]
    unfold effects
    rw [foldl_append, foldl_cons, foldl_nil, e.act_of_notMem hk]

/-- What only depends on the keys of an edit holds without the last edit of an owner as well. -/
lemma atEach_pop (hcongr : ∀ {e : Edit κ ν} {x y : κ → ν}, Q e x → (∀ k ∈ e.keys, x k = y k) → Q e y)
    (hQ : AtEach Q x (front ++ (t, e) :: back)) : AtEach Q x (front ++ back) := by
  have hbehind : ∀ a mid back', back = mid ++ a :: back' → Q a.2 (effects x (edits (front ++ mid))) := by
    intro a mid back' hback
    have ha : a ∈ back := by simp [hback]
    refine hcongr (hQ (front ++ (t, e) :: mid) a back' (by simp [hback])) fun k hk => ?_
    have hke : k ∉ e.keys := fun hke => h.notMem_back hlast hke a.2 (mem_map_of_mem ha) hk
    simp [effects, edits, e.act_of_notMem hke]
  intro front' a back' heq
  rcases append_eq_append_iff.1 heq with ⟨mid, rfl, hback⟩ | ⟨mid, rfl, hmid⟩
  · exact hbehind a mid back' hback
  · cases mid with
    | nil =>
      simpa using hbehind a [] back' hmid.symm
    | cons b mid =>
      obtain ⟨rfl, rfl⟩ := hmid
      exact hQ front' a (mid ++ (t, e) :: back) (by simp)

/-- Before the last edit of an owner, its keys were as they are without it. -/
lemma effects_before (hk : k ∈ e.keys) : effects x (edits (front ++ back)) k = effects x (edits front) k := by
  rw [edits_append, effects_append, effects_of_notMem (h.notMem_back hlast hk)]

/-- **The last edit of an owner is taken back.** -/
lemma pop : (∀ k, e.undo k (effects x (edits (front ++ (t, e) :: back)) k) = effects x (edits (front ++ back)) k) ∧
      Sound x (front ++ back) := by
  refine ⟨fun k => ?_, ?_, h.atEach_pop hlast Edit.Fits.congr h.fits⟩
  · rw [h.effects_last hlast]
    by_cases hk : k ∈ e.keys
    · rw [h.effects_before hlast hk]
      exact h.fits front (t, e) back rfl k
    · rw [e.act_of_notMem hk, e.undo_of_notMem hk]
  · have hsub : (front ++ back).Sublist (front ++ (t, e) :: back) :=
      (sublist_cons_self (t, e) back).append_left front
    exact fun a ha b hb => h.owner a (hsub.subset ha) b (hsub.subset hb)

end

omit [DecidableEq κ] in
lemma mem_edits_filter {e : Edit κ ν} : e ∈ edits (es.filter p) ↔ ∃ a ∈ es, p a ∧ a.2 = e := by
  simp only [edits, mem_map, mem_filter, and_assoc]

lemma effects_filter (h : ∀ a ∈ es, k ∈ a.2.keys → p a) :
    effects x (edits (es.filter p)) k = effects x (edits es) k := by
  unfold effects edits
  generalize x k = v
  induction es generalizing v with
  | nil => rfl
  | cons a es ih =>
    have hrest : ∀ b ∈ es, k ∈ b.2.keys → p b := fun b hb => h b (mem_cons_of_mem a hb)
    by_cases hp : p a
    · rw [filter_cons_of_pos hp]
      exact ih hrest _
    · have hk : k ∉ a.2.keys := fun hk => hp (h a mem_cons_self hk)
      rw [filter_cons_of_neg hp, map_cons, foldl_cons, a.2.act_of_notMem hk]
      exact ih hrest v

section Owner

variable [DecidableEq τ]

/-- The edits of an owner, and those of the others. -/
def ofOwner (t : τ) (es : List (τ × Edit κ ν)) : List (τ × Edit κ ν) := es.filter fun a => a.1 = t

def ofOthers (t : τ) (es : List (τ × Edit κ ν)) : List (τ × Edit κ ν) := es.filter fun a => a.1 ≠ t

section

variable (h : Sound x es)
include h

/-- A key that the edits of others touch is as the edits of the owner have found it. -/
lemma effects_ofOwner {a : τ × Edit κ ν} (ha : a ∈ ofOthers t es) (hk : k ∈ a.2.keys) :
    effects x (edits (ofOwner t es)) k = x k := by
  obtain ⟨ha, hne⟩ := mem_filter.1 ha
  refine effects_of_notMem fun e he hke => of_decide_eq_true hne ?_
  obtain ⟨b, hb, hbt, rfl⟩ := mem_edits_filter.1 he
  rw [h.owner a ha b hb k hk hke]
  exact of_decide_eq_true hbt

/-- The edits of the owner could as well have been made first. -/
lemma effects_settle (t : τ) (k : κ) :
    effects (effects x (edits (ofOwner t es))) (edits (ofOthers t es)) k = effects x (edits es) k := by
  by_cases hk : ∃ a ∈ ofOthers t es, k ∈ a.2.keys
  · obtain ⟨a, ha, hka⟩ := hk
    rw [effects_congr (h.effects_ofOwner ha hka)]
    refine effects_filter fun b hb hkb => decide_eq_true ?_
    obtain ⟨ha, hne⟩ := mem_filter.1 ha
    rw [← h.owner a ha b hb k hka hkb]
    exact of_decide_eq_true hne
  · rw [effects_of_notMem fun e he hke => hk ?_]
    · refine effects_filter fun b hb hkb => decide_eq_true ?_
      by_contra hne
      exact hk ⟨b, mem_filter.2 ⟨hb, decide_eq_true hne⟩, hkb⟩
    · obtain ⟨b, hb, rfl⟩ := mem_map.1 he
      exact ⟨b, hb, hke⟩

lemma atEach_settle (t : τ)
    (hcongr : ∀ {e : Edit κ ν} {x y : κ → ν}, Q e x → (∀ k ∈ e.keys, x k = y k) → Q e y) (hQ : AtEach Q x es) :
    AtEach Q (effects x (edits (ofOwner t es))) (ofOthers t es) := by
  intro front' a back' heq
  have ha : a ∈ ofOthers t es := by simp [heq]
  obtain ⟨front, rest, rfl, rfl, hrest⟩ := filter_eq_append_iff.1 heq
  obtain ⟨skipped, back, rfl, hskipped, _, _⟩ := filter_eq_cons_iff.1 hrest
  refine hcongr (hQ (front ++ skipped) a back (by simp)) fun k hk => ?_
  have hnone : skipped.filter (fun b => decide (b.1 ≠ t)) = [] := filter_eq_nil_iff.2 hskipped
  have hfront : ofOthers t front = ofOthers t (front ++ skipped) := by
    rw [ofOthers, ofOthers, filter_append, hnone, append_nil]
  show _ = effects _ (edits (ofOthers t front)) k
  rw [effects_congr (h.effects_ofOwner ha hk), hfront]
  refine (effects_filter fun b hb hkb => decide_eq_true ?_).symm
  have hb' : b ∈ front ++ (skipped ++ a :: back) := by
    rw [← append_assoc]
    exact mem_append_left _ hb
  obtain ⟨ha', hne⟩ := mem_filter.1 ha
  rw [h.owner b hb' a ha' k hkb hk]
  exact of_decide_eq_true hne

/-- **The edits of an owner become final.** -/
lemma settle (t : τ) : Sound (effects x (edits (ofOwner t es))) (ofOthers t es) where
  owner a ha b hb := h.owner a (mem_of_mem_filter ha) b (mem_of_mem_filter hb)
  fits := h.atEach_settle t Edit.Fits.congr h.fits

end

end Owner

end Sound

/-! ## The last entry of an owner -/

section

variable {α : Type*} [DecidableEq τ] {t : τ} {x : α} {l rest : List (τ × α)}

/-- The last entry of an owner, and the list without it. -/
def popLast (t : τ) : List (τ × α) → Option (α × List (τ × α))
  | [] => none
  | a :: l =>
    match popLast t l with
    | some (x, rest) => some (x, a :: rest)
    | none => if a.1 = t then some (a.2, l) else none

lemma popLast_eq_none (h : popLast t l = none) : ∀ a ∈ l, a.1 ≠ t := by
  induction l with
  | nil => exact fun _ ha => nomatch ha
  | cons b l ih =>
    rw [popLast] at h
    cases hpop : popLast t l with
    | some p =>
      rw [hpop] at h
      cases h
    | none =>
      rw [hpop] at h
      split_ifs at h with hb
      exact forall_mem_cons.2 ⟨hb, ih hpop⟩

lemma popLast_eq_some (h : popLast t l = some (x, rest)) :
    ∃ front back, l = front ++ (t, x) :: back ∧ rest = front ++ back ∧ ∀ a ∈ back, a.1 ≠ t := by
  induction l generalizing rest with
  | nil => cases h
  | cons b l ih =>
    rw [popLast] at h
    cases hpop : popLast t l with
    | some p =>
      obtain ⟨y, rest'⟩ := p
      rw [hpop] at h
      cases h
      obtain ⟨front, back, rfl, rfl, hback⟩ := ih hpop
      exact ⟨b :: front, back, rfl, rfl, hback⟩
    | none =>
      rw [hpop] at h
      split_ifs at h with hb
      cases h
      exact ⟨[], l, by rw [← hb]; rfl, rfl, popLast_eq_none hpop⟩

end

end MiniDb
