import Mathlib.Logic.Function.Basic
import Mathlib.Data.List.Basic
import Mathlib.Tactic

/-!
# Ledgers of writes that can still be taken back

Several owners share an array of cells.  A cell is empty or holds a value, which may bear the stamp of one owner.  An
owner fills empty cells and stamps values, and until it has finished it may take its writes back, the last one first.
Its *ledger* is the list of the writes it can still take back, oldest first.

* `LedgerOk` — a filled cell holds a value that is unstamped or bears the owner's stamp, a stamped one bears the
  owner's stamp; and no two owners depend on one cell unless neither has filled it.
* `StampLog` — a log of who stamped which value, with values numbered as they are written, agrees with the stamps in
  the cells, so that no value is ever stamped by two owners.
-/

namespace MiniDb

open Function List

variable {ρ τ : Type*}

/-- Empty, or a value that bears no stamp or the stamp of one owner. -/
abbrev Cells (ρ τ : Type*) := ρ → Option (Option τ)

/-- A write that can be taken back. -/
inductive Entry (ρ : Type*) where
  | fill (r : ρ)
  | stamp (r : ρ)
  deriving DecidableEq

namespace Entry

def cell : Entry ρ → ρ
  | .fill r => r
  | .stamp r => r

/-- What the cell shows while the entry stands in the ledger of `t`. -/
def Holds (c : Cells ρ τ) (t : τ) : Entry ρ → Prop
  | .fill r => c r = some none ∨ c r = some (some t)
  | .stamp r => c r = some (some t)

/-- An owner comes back to a cell only to stamp what it has filled. -/
def Before (a b : Entry ρ) : Prop :=
  a.cell = b.cell → (∃ r, a = .fill r) ∧ ∃ r, b = .stamp r

variable {c : Cells ρ τ} {t : τ} {en : Entry ρ}

lemma Holds.congr {c' : Cells ρ τ} (h : en.Holds c t) (hc : c' en.cell = c en.cell) : en.Holds c' t := by
  cases en with
  | fill r => exact h.imp hc.trans hc.trans
  | stamp r => exact hc.trans h

lemma Holds.cases (h : en.Holds c t) : c en.cell = some none ∨ c en.cell = some (some t) := by
  cases en with
  | fill r => exact h
  | stamp r => exact .inr h

lemma Holds.occupied (h : en.Holds c t) : c en.cell ≠ none := by
  rcases h.cases with h | h <;> simp [h]

end Entry

/-- The ledgers agree with the cells. -/
structure LedgerOk (c : Cells ρ τ) (L : τ → List (Entry ρ)) : Prop where
  holds : ∀ t, ∀ en ∈ L t, en.Holds c t
  order : ∀ t, (L t).Pairwise Entry.Before
  exclusive : ∀ t t', t ≠ t' → ∀ en ∈ L t, ∀ r, .fill r ∈ L t' → en.cell ≠ r

namespace LedgerOk

variable {c c' : Cells ρ τ} {L L' : τ → List (Entry ρ)}

/-- Ledgers may be cut short. -/
theorem shrink (h : LedgerOk c L) (hL : ∀ t, (L' t).Sublist (L t)) : LedgerOk c L' where
  holds t en hen := h.holds t en ((hL t).mem hen)
  order t := (h.order t).sublist (hL t)
  exclusive t t' hne en hen r hr := h.exclusive t t' hne en ((hL t).mem hen) r ((hL t').mem hr)

/-- Cells change freely if they bear the stamp of an owner with nothing to take back. -/
theorem forget (h : LedgerOk c L) (hc : ∀ r, c' r = c r ∨ ∃ x, c r = some (some x) ∧ L x = []) :
    LedgerOk c' L := by
  refine ⟨fun t en hen => ?_, h.order, h.exclusive⟩
  have hh := h.holds t en hen
  rcases hc en.cell with heq | ⟨x, hx, hLx⟩
  · exact hh.congr heq
  · rcases hh.cases with h' | h'
    · rw [hx] at h'; cases h'
    · rw [hx] at h'
      cases h'
      rw [hLx] at hen
      cases hen

variable [DecidableEq ρ] [DecidableEq τ] {t : τ} {r : ρ} {u w : List (Entry ρ)}

omit [DecidableEq ρ] in
lemma mem_update {l : List (Entry ρ)} {t' : τ} {en : Entry ρ}
    (hen : en ∈ update L t l t') : t' = t ∧ en ∈ l ∨ t' ≠ t ∧ en ∈ L t' := by
  by_cases ht : t' = t
  · subst ht
    rw [update_self] at hen
    exact .inl ⟨rfl, hen⟩
  · rw [update_of_ne ht] at hen
    exact .inr ⟨ht, hen⟩

omit [DecidableEq ρ] in
lemma mem_update_insert {x en : Entry ρ} {t' : τ} (hL : L t = u ++ w) (hen : en ∈ update L t (u ++ x :: w) t') :
    en ∈ L t' ∨ t' = t ∧ en = x := by
  rcases mem_update hen with ⟨rfl, hl⟩ | ⟨-, hl⟩
  · rw [mem_append, mem_cons] at hl
    rw [hL, mem_append]
    tauto
  · exact .inl hl

/-- An empty cell is filled. -/
theorem fill (h : LedgerOk c L) (hr : c r = none) :
    LedgerOk (update c r (some none)) (update L t (L t ++ [.fill r])) := by
  -- no entry is about an empty cell
  have hne : ∀ t', ∀ en ∈ L t', en.cell ≠ r := fun t' en hen heq =>
    (h.holds t' en hen).occupied (heq ▸ hr)
  have hmem : ∀ t', ∀ en ∈ update L t (L t ++ [.fill r]) t', en ∈ L t' ∨ t' = t ∧ en = .fill r := fun _ _ =>
    mem_update_insert (append_nil _).symm
  refine ⟨fun t' en hen => ?_, fun t' => ?_, fun t1 t2 hne12 en hen r' hr' => ?_⟩
  · rcases hmem t' en hen with hen | ⟨rfl, rfl⟩
    · exact (h.holds t' en hen).congr (update_of_ne (hne t' en hen) ..)
    · exact .inl (update_self ..)
  · by_cases ht : t' = t
    · subst ht
      rw [update_self]
      refine pairwise_append.2 ⟨h.order t', pairwise_singleton _ _, ?_⟩
      intro a ha b hb
      rw [mem_singleton] at hb
      subst hb
      exact fun heq => absurd heq (hne t' a ha)
    · rw [update_of_ne ht]
      exact h.order t'
  · rcases hmem t1 en hen with hen1 | ⟨rfl, rfl⟩
    · rcases hmem t2 _ hr' with hr2 | ⟨rfl, heq⟩
      · exact h.exclusive t1 t2 hne12 en hen1 r' hr2
      · cases heq
        exact hne t1 en hen1
    · rcases hmem t2 _ hr' with hr2 | ⟨rfl, heq⟩
      · exact (hne t2 _ hr2).symm
      · exact absurd rfl hne12

/-- Stamping a value that bears no stamp and that no other owner has filled.  The entry need not be
the last one, as long as the later ones are about other cells. -/
theorem stamp (h : LedgerOk c L) (hL : L t = u ++ w) (hr : c r = some none)
    (hother : ∀ t', t' ≠ t → .fill r ∉ L t') (hw : ∀ b ∈ w, b.cell ≠ r) :
    LedgerOk (update c r (some (some t))) (update L t (u ++ .stamp r :: w)) := by
  -- entries about the cell are fills, and of this owner
  have hcell : ∀ t', ∀ en ∈ L t', en.cell = r → t' = t ∧ en = .fill r := by
    intro t' en hen heq
    have hh := h.holds t' en hen
    cases en with
    | fill r' =>
      subst heq
      refine ⟨?_, rfl⟩
      by_contra hne
      exact hother t' hne hen
    | stamp r' =>
      subst heq
      exact absurd (hh.symm.trans hr) (by simp)
  refine ⟨fun t' en hen => ?_, fun t' => ?_, fun t1 t2 hne en hen r' hr' => ?_⟩
  · rcases mem_update_insert hL hen with hen | ⟨rfl, rfl⟩
    · by_cases heq : en.cell = r
      · obtain ⟨rfl, rfl⟩ := hcell t' en hen heq
        exact .inr (update_self ..)
      · exact (h.holds t' en hen).congr (update_of_ne heq ..)
    · exact update_self ..
  · by_cases ht : t' = t
    · subst ht
      rw [update_self]
      have hord := h.order t'
      rw [hL, pairwise_append] at hord
      refine pairwise_append.2 ⟨hord.1, pairwise_cons.2 ⟨?_, hord.2.1⟩, ?_⟩
      · exact fun b hb heq => absurd heq.symm (hw b hb)
      · intro a ha b hb
        rcases mem_cons.1 hb with rfl | hb
        · intro heq
          obtain ⟨-, rfl⟩ := hcell t' a (by rw [hL]; exact mem_append_left w ha) heq
          exact ⟨⟨r, rfl⟩, ⟨r, rfl⟩⟩
        · exact hord.2.2 a ha b hb
    · rw [update_of_ne ht]
      exact h.order t'
  · have hr2 : .fill r' ∈ L t2 := by
      rcases mem_update_insert hL hr' with hr' | ⟨-, heq⟩
      · exact hr'
      · cases heq
    rcases mem_update_insert hL hen with hen1 | ⟨rfl, rfl⟩
    · exact h.exclusive t1 t2 hne en hen1 r' hr2
    · intro heq
      have heq : r = r' := heq
      exact hother t2 (.symm hne) (heq ▸ hr2)

omit [DecidableEq ρ] in
lemma sublist_update (hL : (L t) = u ++ w) (t' : τ) : (update L t u t').Sublist (L t') := by
  by_cases ht : t' = t
  · subst ht
    rw [update_self, hL]
    exact sublist_append_left u w
  · rw [update_of_ne ht]

/-- The last entry is taken back: the cell is empty again. -/
theorem unfill (h : LedgerOk c L) (hL : L t = u ++ [.fill r]) : LedgerOk (update c r none) (update L t u) := by
  have hs := h.shrink (sublist_update hL)
  have hfill : .fill r ∈ L t := by rw [hL]; simp
  refine ⟨fun t' en hen => ?_, hs.order, hs.exclusive⟩
  refine (hs.holds t' en hen).congr (update_of_ne ?_ ..)
  intro heq
  rcases mem_update hen with ⟨rfl, hl⟩ | ⟨hne, hl⟩
  · -- an earlier entry about the cell would have had to be followed by a stamp
    have hord := h.order t'
    rw [hL, pairwise_append] at hord
    obtain ⟨-, r', hr'⟩ := hord.2.2 en hl (.fill r) (by simp) heq
    cases hr'
  · exact h.exclusive t' t hne en hl r hfill heq

/-- The last entry is taken back: the stamp is gone. -/
theorem unstamp (h : LedgerOk c L) (hL : L t = u ++ [.stamp r]) :
    LedgerOk (update c r (some none)) (update L t u) := by
  have hs := h.shrink (sublist_update hL)
  have hstamp : .stamp r ∈ L t := by rw [hL]; simp
  have hcr : c r = some (some t) := h.holds t _ hstamp
  refine ⟨fun t' en hen => ?_, hs.order, hs.exclusive⟩
  by_cases heq : en.cell = r
  · rcases mem_update hen with ⟨rfl, hl⟩ | ⟨hne, hl⟩
    · have hord := h.order t'
      rw [hL, pairwise_append] at hord
      obtain ⟨⟨r', rfl⟩, -⟩ := hord.2.2 en hl (.stamp r) (by simp) heq
      subst heq
      exact .inl (update_self ..)
    · -- another owner has neither filled nor stamped it
      exfalso
      cases en with
      | fill r' => exact h.exclusive t t' (.symm hne) _ hstamp r' hl heq.symm
      | stamp r' =>
        subst heq
        have := (h.holds t' _ hl).symm.trans hcr
        exact hne (by simpa using this)
  · exact (hs.holds t' en hen).congr (update_of_ne heq ..)

end LedgerOk

/-- A log of stamps.  `ver` numbers the values in the cells, `next` is the next number, and the log
has a pair for each stamp on each value that was not taken back. -/
structure StampLog (c : Cells ρ τ) (ver : ρ → ℕ) (next : ℕ) (log : List (ℕ × τ)) : Prop where
  current : ∀ t r x, (ver r, t) ∈ log → c r = some x → x = some t
  unique : ∀ v t t', (v, t) ∈ log → (v, t') ∈ log → t = t'
  log_lt : ∀ p ∈ log, p.1 < next
  ver_lt : ∀ r, ver r < next
  inj : ∀ r r', c r ≠ none → c r' ≠ none → ver r = ver r' → r = r'

namespace StampLog

variable {c c' : Cells ρ τ} {ver : ρ → ℕ} {next : ℕ} {log : List (ℕ × τ)}

/-- Cells may be emptied. -/
theorem forget (h : StampLog c ver next log) (hc : ∀ r, c' r = c r ∨ c' r = none) :
    StampLog c' ver next log := by
  have hocc : ∀ r, c' r ≠ none → c' r = c r := fun r hr => (hc r).resolve_right hr
  refine ⟨fun t r x ht hx => ?_, h.unique, h.log_lt, h.ver_lt, fun r r' hr hr' => ?_⟩
  · exact h.current t r x ht ((hocc r (by simp [hx])).symm.trans hx)
  · exact h.inj r r' (hocc r hr ▸ hr) (hocc r' hr' ▸ hr')

/-- The log may forget. -/
theorem shrink (h : StampLog c ver next log) {log' : List (ℕ × τ)} (hl : ∀ p ∈ log', p ∈ log) :
    StampLog c ver next log' where
  current t r x ht := h.current t r x (hl _ ht)
  unique v t t' ht ht' := h.unique v t t' (hl _ ht) (hl _ ht')
  log_lt p hp := h.log_lt p (hl p hp)
  ver_lt := h.ver_lt
  inj := h.inj

variable [DecidableEq ρ] {r : ρ} {t : τ}

lemma occupied_of_update {x : Option τ} {r' : ρ} (hr : c r ≠ none) (hr' : update c r (some x) r' ≠ none) :
    c r' ≠ none := by
  by_cases heq : r' = r
  · rwa [heq]
  · rwa [update_of_ne heq] at hr'

section

variable (h : StampLog c ver next log)
include h

/-- A new version gets a number of its own. -/
theorem fill : StampLog (update c r (some none)) (update ver r next) (next + 1) log := by
  refine ⟨fun t r' x ht hx => ?_, h.unique, fun p hp => (h.log_lt p hp).trans (Nat.lt_succ_self _),
    fun r' => ?_, fun r1 r2 h1 h2 heq => ?_⟩
  · by_cases hr : r' = r
    · subst hr
      rw [update_self] at ht
      exact absurd (h.log_lt _ ht) (lt_irrefl _)
    · rw [update_of_ne hr] at ht hx
      exact h.current t r' x ht hx
  · by_cases hr : r' = r
    · subst hr
      rw [update_self]
      exact Nat.lt_succ_self _
    · rw [update_of_ne hr]
      exact (h.ver_lt r').trans (Nat.lt_succ_self _)
  · by_cases hr1 : r1 = r <;> by_cases hr2 : r2 = r
    · rw [hr1, hr2]
    · rw [hr1, update_self, update_of_ne hr2] at heq
      exact absurd (h.ver_lt r2) (by omega)
    · rw [hr2, update_self, update_of_ne hr1] at heq
      exact absurd (h.ver_lt r1) (by omega)
    · rw [update_of_ne hr1, update_of_ne hr2] at heq
      rw [update_of_ne hr1] at h1
      rw [update_of_ne hr2] at h2
      exact h.inj r1 r2 h1 h2 heq

/-- A stamp on a version that has none is logged. -/
theorem stamp (hr : c r = some none) : StampLog (update c r (some (some t))) ver next ((ver r, t) :: log) := by
  have hnone : ∀ t', (ver r, t') ∉ log := fun t' ht' => by
    have := h.current t' r none ht' hr
    cases this
  have hocc : ∀ r', update c r (some (some t)) r' ≠ none → c r' ≠ none := fun _ => occupied_of_update (by simp [hr])
  refine ⟨fun t' r' x ht' hx => ?_, fun v t1 t2 h1 h2 => ?_, fun p hp => ?_, h.ver_lt,
    fun r1 r2 h1 h2 => h.inj r1 r2 (hocc r1 h1) (hocc r2 h2)⟩
  · by_cases heq : r' = r
    · subst heq
      rw [update_self] at hx
      rcases mem_cons.1 ht' with ht' | ht'
      · cases ht'
        exact (Option.some.inj hx).symm
      · exact absurd ht' (hnone t')
    · rcases mem_cons.1 ht' with ht' | ht'
      · -- no other cell holds the same value
        have hv : ver r' = ver r := congrArg Prod.fst ht'
        exact absurd (h.inj r' r (hocc r' (by simp [hx])) (by simp [hr]) hv) heq
      · rw [update_of_ne heq] at hx
        exact h.current t' r' x ht' hx
  · rcases mem_cons.1 h1 with h1 | h1 <;> rcases mem_cons.1 h2 with h2 | h2
    · exact (congrArg Prod.snd h1).trans (congrArg Prod.snd h2).symm
    · cases h1
      exact absurd h2 (hnone t2)
    · cases h2
      exact absurd h1 (hnone t1)
    · exact h.unique v t1 t2 h1 h2
  · rcases mem_cons.1 hp with rfl | hp
    · exact h.ver_lt r
    · exact h.log_lt p hp

/-- A stamp that is taken back leaves the log. -/
theorem unstamp [DecidableEq τ] (hr : c r = some (some t)) :
    StampLog (update c r (some none)) ver next (log.filter fun p => p ≠ (ver r, t)) := by
  have hs := h.shrink fun _ => mem_of_mem_filter (p := fun p => p ≠ (ver r, t))
  have hocc : ∀ r', update c r (some none) r' ≠ none → c r' ≠ none := fun _ => occupied_of_update (by simp [hr])
  refine ⟨fun t' r' x ht' hx => ?_, hs.unique, hs.log_lt, h.ver_lt,
    fun r1 r2 h1 h2 => h.inj r1 r2 (hocc r1 h1) (hocc r2 h2)⟩
  · obtain ⟨hlog, hne⟩ := mem_filter.1 ht'
    by_cases heq : r' = r
    · subst heq
      -- the only stamp on this value was the one taken back
      have hx' := h.current t' r' (some t) hlog hr
      cases hx'
      simp at hne
    · rw [update_of_ne heq] at hx
      exact h.current t' r' x hlog hx

end

end StampLog

end MiniDb
