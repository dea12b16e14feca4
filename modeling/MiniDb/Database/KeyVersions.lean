import MiniDb.Executor.UniqueCheck
import MiniDb.Database.LostUpdate

/-!
# Versions with the same key

Two versions with the same key may stand in the heap side by side as long as one of them is replaced: its `xmax` is
that of a transaction that has committed, or of the one that wrote the other version, and then the stamp comes before
that version in the undo records, so that a rollback takes the newer version away first.

`KeyInv` says that all versions with a common key are apart in this sense, but for the two versions of an UPDATE
between its two writes.  There is one lemma for each kind of change to the heap.
-/

namespace MiniDb

open Function List HeapFile Option

variable {V κ : Type*} {ops : RowOps V} {d : TableDef} {e e' : Engine (List V) κ}

section

variable (e : Engine (List V) κ)

/-- The version at `r₁` is replaced, and not to be brought back as long as the one at `r₂` is there. -/
def Replaced (r₁ r₂ : RecordId) : Prop :=
  ∃ t₁ t₂, e.heap.tupleAt r₁ = some t₁ ∧ e.heap.tupleAt r₂ = some t₂ ∧ t₁.xmax ≠ kInvalidTxnId ∧
    (.committed t₁.xmax ∈ e.sys.hist ∨ t₁.xmax = t₂.xmin ∧ [.stamp r₁, .fill r₂] <+ e.ledger t₁.xmax)

/-- An UPDATE has written the version at `new` and has still to stamp the one at `old`. -/
def Updating (old new : RecordId) : Prop :=
  ∃ t st row hot lsn, e.stmts t = some st ∧ st.pc = .installed old new row hot lsn

def Apart (r₁ r₂ : RecordId) : Prop :=
  (Replaced e r₁ r₂ ∨ Updating e r₁ r₂) ∨ Replaced e r₂ r₁ ∨ Updating e r₂ r₁

end

structure KeyInv (ops : RowOps V) (d : TableDef) (e : Engine (List V) κ) : Prop where
  /-- who has stamped a version has committed or can take it back -/
  stamped : ∀ r tup, e.heap.tupleAt r = some tup → tup.xmax ≠ kInvalidTxnId →
    .committed tup.xmax ∈ e.sys.hist ∨ .stamp r ∈ e.ledger tup.xmax
  filled : ∀ t r, .fill r ∈ e.ledger t → ∀ tup, e.heap.tupleAt r = some tup → tup.xmin = t
  apart : ∀ g ∈ d.uniqueGroups, ∀ r₁ r₂ t₁ t₂, r₁ ≠ r₂ → e.heap.tupleAt r₁ = some t₁ →
    e.heap.tupleAt r₂ = some t₂ → sameOn ops t₁.row t₂.row g = true → Apart e r₁ r₂

/-- The last entry of a ledger may go, if it is not the second of the two. -/
lemma sublist_of_concat {α : Type*} {a b x : α} {l : List α} (h : [a, b] <+ l ++ [x]) (hne : b ≠ x) :
    [a, b] <+ l := by
  have hrev : [b, a] <+ x :: l.reverse := by simpa using h.reverse
  exact reverse_sublist.1 (by simpa using hrev.of_cons_of_ne hne)

variable {r₁ r₂ : RecordId}

lemma Replaced.transfer (h : Replaced e r₁ r₂) (h1 : ∀ t₁, e.heap.tupleAt r₁ = some t₁ → t₁.xmax ≠ kInvalidTxnId →
      ∃ t1', e'.heap.tupleAt r₁ = some t1' ∧ t1'.xmax = t₁.xmax)
    (h2 : ∀ t₂, e.heap.tupleAt r₂ = some t₂ → ∃ t2', e'.heap.tupleAt r₂ = some t2' ∧ t2'.xmin = t₂.xmin)
    (hhist : ∀ ev ∈ e.sys.hist, ev ∈ e'.sys.hist) (hL : ∀ t, [.stamp r₁, .fill r₂] <+ e.ledger t →
      .committed t ∈ e'.sys.hist ∨ [.stamp r₁, .fill r₂] <+ e'.ledger t) : Replaced e' r₁ r₂ := by
  obtain ⟨t₁, t₂, ht1, ht2, hx, hwhy⟩ := h
  obtain ⟨t1', ht1', hx1⟩ := h1 t₁ ht1 hx
  obtain ⟨t2', ht2', hx2⟩ := h2 t₂ ht2
  refine ⟨t1', t2', ht1', ht2', hx1 ▸ hx, ?_⟩
  rw [hx1, hx2]
  rcases hwhy with hc | ⟨heq, hsub⟩
  · exact .inl (hhist _ hc)
  · exact (hL _ hsub).imp_right fun hsub => ⟨heq, hsub⟩

lemma Apart.symm (h : Apart e r₁ r₂) : Apart e r₂ r₁ := Or.symm h

lemma Apart.transfer (h : Apart e r₁ r₂)
    (h12 : Replaced e r₁ r₂ ∨ Updating e r₁ r₂ → Replaced e' r₁ r₂ ∨ Updating e' r₁ r₂)
    (h21 : Replaced e r₂ r₁ ∨ Updating e r₂ r₁ → Replaced e' r₂ r₁ ∨ Updating e' r₂ r₁) :
    Apart e' r₁ r₂ := h.imp h12 h21

namespace KeyInv

/-- No version appears, and what is apart stays so. -/
lemma carry (hk : KeyInv ops d e) (hback : ∀ {r t₁}, e'.heap.tupleAt r = some t₁ →
      ∃ t0, e.heap.tupleAt r = some t0 ∧ t0.row = t₁.row ∧ t0.xmin = t₁.xmin)
    (hstamped : ∀ r tup, e'.heap.tupleAt r = some tup → tup.xmax ≠ kInvalidTxnId →
      .committed tup.xmax ∈ e'.sys.hist ∨ .stamp r ∈ e'.ledger tup.xmax)
    (hfill : ∀ t r, .fill r ∈ e'.ledger t → .fill r ∈ e.ledger t)
    (htransfer : ∀ {r₁ r₂ t₁ t₂}, e'.heap.tupleAt r₁ = some t₁ → e'.heap.tupleAt r₂ = some t₂ →
      Replaced e r₁ r₂ ∨ Updating e r₁ r₂ → Replaced e' r₁ r₂ ∨ Updating e' r₁ r₂) : KeyInv ops d e' := by
  refine ⟨hstamped, fun t r hr t₁ h1 => ?_, fun g hg r₁ r₂ t₁ t₂ hne h1 h2 hsame => ?_⟩
  · obtain ⟨t0, h0, -, hx0⟩ := hback h1
    exact hx0 ▸ hk.filled t r (hfill t r hr) t0 h0
  · obtain ⟨t1', h1', hrow1, -⟩ := hback h1
    obtain ⟨t2', h2', hrow2, -⟩ := hback h2
    rw [← hrow1, ← hrow2] at hsame
    exact (hk.apart g hg r₁ r₂ t1' t2' hne h1' h2' hsame).transfer (htransfer h1 h2) (htransfer h2 h1)

lemma same (hk : KeyInv ops d e) (hheap : e'.heap = e.heap) (hhist : ∀ ev ∈ e.sys.hist, ev ∈ e'.sys.hist)
    (hL : ∀ t, e'.ledger t = e.ledger t ∨ .committed t ∈ e'.sys.hist ∧ e'.ledger t = [])
    (hupd : ∀ old new, Updating e old new → Updating e' old new) : KeyInv ops d e' := by
  refine hk.carry (fun htup => ⟨_, hheap ▸ htup, rfl, rfl⟩) (fun r tup htup hx => ?_) (fun t r hr => ?_) fun _ _ => ?_
  · rcases hk.stamped r tup (hheap ▸ htup) hx with hc | hr
    · exact .inl (hhist _ hc)
    · rcases hL tup.xmax with heq | ⟨hc, -⟩
      · exact .inr (heq ▸ hr)
      · exact .inl hc
  · rcases hL t with heq | ⟨-, hnil⟩
    · exact heq ▸ hr
    · rw [hnil] at hr
      exact absurd hr not_mem_nil
  · refine Or.imp (fun h => h.transfer ?_ ?_ hhist fun t hsub => ?_) (hupd _ _)
    · exact fun t₁ ht1 _ => ⟨t₁, hheap ▸ ht1, rfl⟩
    · exact fun t₂ ht2 => ⟨t₂, hheap ▸ ht2, rfl⟩
    · rcases hL t with heq | ⟨hc, -⟩
      · exact .inr (heq ▸ hsub)
      · exact .inl hc

variable {rid : RecordId} {t : ℕ} {u : List (Entry RecordId)}

/-- A slot loses its version, and a ledger possibly the entry for it. -/
lemma removed (hk : KeyInv ops d e) (hheap : ∀ r, e'.heap.tupleAt r = if r = rid then none else e.heap.tupleAt r)
    (hhist : e'.sys.hist = e.sys.hist) (hL : ∀ t, e'.ledger t = e.ledger t ∨ e.ledger t = e'.ledger t ++ [.fill rid])
    (hupd : ∀ old new, Updating e old new → new ≠ rid → Updating e' old new) : KeyInv ops d e' := by
  have hold : ∀ {r tup}, e'.heap.tupleAt r = some tup → r ≠ rid ∧ e.heap.tupleAt r = some tup := by
    intro r tup htup
    rw [hheap r] at htup
    split_ifs at htup with hr
    exact ⟨hr, htup⟩
  have hkept : ∀ {r tup}, r ≠ rid → e.heap.tupleAt r = some tup → e'.heap.tupleAt r = some tup := by
    intro r tup hr htup
    rw [hheap r, if_neg hr]
    exact htup
  refine hk.carry (fun htup => ⟨_, (hold htup).2, rfl, rfl⟩) (fun r tup htup hx => ?_) (fun t r hr => ?_)
    fun h1 h2 => ?_
  · refine (hk.stamped r tup (hold htup).2 hx).imp (fun hc => hhist ▸ hc) fun hr => ?_
    rcases hL tup.xmax with heq | heq
    · exact heq ▸ hr
    · rw [heq, mem_append] at hr
      exact hr.resolve_right (by simp)
  · rcases hL t with heq | heq
    · exact heq ▸ hr
    · rw [heq]
      exact mem_append_left _ hr
  · refine Or.imp (fun h => h.transfer ?_ ?_ (fun _ h => hhist ▸ h) fun t hsub => .inr ?_)
      fun h => hupd _ _ h (hold h2).1
    · exact fun t₁ ht1 _ => ⟨t₁, hkept (hold h1).1 ht1, rfl⟩
    · exact fun t₂ ht2 => ⟨t₂, hkept (hold h2).1 ht2, rfl⟩
    · rcases hL t with heq | heq
      · exact heq ▸ hsub
      · rw [heq] at hsub
        exact sublist_of_concat hsub fun h => (hold h2).1 (Entry.fill.inj h)

/-- The version at `r` is no obstacle to a new version of `t`. -/
def Dead (e : Engine (List V) κ) (t : ℕ) (r : RecordId) (tup : Tuple (List V)) : Prop :=
  tup.xmax ≠ kInvalidTxnId ∧
    (.committed tup.xmax ∈ e.sys.hist ∨ tup.xmax = t ∧ .stamp r ∈ e.ledger t)

/-- An empty slot gets a version, and all others with its key are dead or replaced by the same UPDATE. -/
lemma inserted (hk : KeyInv ops d e) (hledger : LedgerOk e.heap.cells e.ledger)
    {row : List V} (hins : HeapFile.Inserted e.heap e'.heap rid (Engine.freshTuple t row))
    (hhist : e'.sys.hist = e.sys.hist) (hL : e'.ledger = update e.ledger t (e.ledger t ++ [.fill rid]))
    (hupd : ∀ old new, Updating e old new → Updating e' old new)
    (hnew : ∀ g ∈ d.uniqueGroups, ∀ r tup, e.heap.tupleAt r = some tup → sameOn ops row tup.row g = true →
      Dead e t r tup ∨ Updating e' r rid) : KeyInv ops d e' := by
  have hempty : e.heap.tupleAt rid = none := by
    rw [tupleAt_eq_look, hins.empty]
    rfl
  have htuple : ∀ r, e'.heap.tupleAt r = if r = rid then some (Engine.freshTuple t row) else e.heap.tupleAt r := by
    intro r
    rw [tupleAt_eq_look, hins.look r]
    split_ifs <;> rfl
  have hself : e'.heap.tupleAt rid = some (Engine.freshTuple t row) := by rw [htuple, if_pos rfl]
  have hne : ∀ {r tup}, e.heap.tupleAt r = some tup → r ≠ rid := by
    rintro r tup htup rfl
    rw [hempty] at htup
    cases htup
  have hkept : ∀ {r tup}, e.heap.tupleAt r = some tup → e'.heap.tupleAt r = some tup := by
    intro r tup htup
    rw [htuple, if_neg (hne htup)]
    exact htup
  have hsub : ∀ t', e.ledger t' <+ e'.ledger t' := by
    intro t'
    rw [hL]
    by_cases ht : t' = t
    · rw [ht, update_self]
      exact sublist_append_left _ _
    · rw [update_of_ne ht]
  have hlast : e'.ledger t = e.ledger t ++ [.fill rid] := by rw [hL, update_self]
  have htransfer : ∀ r₁ r₂, Replaced e r₁ r₂ ∨ Updating e r₁ r₂ → Replaced e' r₁ r₂ ∨ Updating e' r₁ r₂ := by
    intro r₁ r₂
    refine Or.imp (fun h => h.transfer ?_ ?_ (fun _ h => hhist ▸ h) fun t' h => .inr (h.trans (hsub t'))) (hupd r₁ r₂)
    · exact fun t₁ ht1 _ => ⟨t₁, hkept ht1, rfl⟩
    · exact fun t₂ ht2 => ⟨t₂, hkept ht2, rfl⟩
  -- an old version with the key of the new one
  have hpair : ∀ g ∈ d.uniqueGroups, ∀ r tup, e.heap.tupleAt r = some tup → sameOn ops row tup.row g = true →
      Apart e' r rid := by
    intro g hg r tup htup hsame
    rcases hnew g hg r tup htup hsame with ⟨hx, hdead⟩ | hu
    · refine .inl (.inl ⟨tup, _, hkept htup, hself, hx, ?_⟩)
      rcases hdead with hc | ⟨heq, hr⟩
      · exact .inl (hhist ▸ hc)
      · refine .inr ⟨heq, ?_⟩
        rw [heq, hlast]
        exact (singleton_sublist.2 hr).append (List.Sublist.refl _)
    · exact .inl (.inr hu)
  refine ⟨fun r tup htup hx => ?_, fun t' r hr tup htup => ?_, fun g hg r₁ r₂ t₁ t₂ hr12 h1 h2 hsame => ?_⟩
  · rw [htuple] at htup
    split_ifs at htup with hr
    · cases htup
      exact absurd rfl hx
    · exact (hk.stamped r tup htup hx).imp (fun hc => hhist ▸ hc) (hsub _).mem
  · rw [htuple] at htup
    split_ifs at htup with hrid
    · cases htup
      show t = t'
      by_contra htt
      -- nobody else has an entry for a slot that was empty
      rw [hL, update_of_ne (Ne.symm htt)] at hr
      refine (hledger.holds t' _ hr).occupied ?_
      rw [cells_eq_none]
      exact hrid ▸ hempty
    · rw [hL] at hr
      rcases LedgerOk.mem_update hr with ⟨rfl, hl⟩ | ⟨-, hl⟩
      · rcases mem_append.1 hl with hl | hl
        · exact hk.filled t' r hl tup htup
        · exact absurd (Entry.fill.inj (mem_singleton.1 hl)) hrid
      · exact hk.filled t' r hl tup htup
  · rw [htuple] at h1 h2
    split_ifs at h1 h2 with hr1 hr2 hr2
    · exact absurd (hr1.trans hr2.symm) hr12
    · cases h1
      exact hr1 ▸ (hpair g hg r₂ t₂ h2 hsame).symm
    · cases h2
      exact hr2 ▸ hpair g hg r₁ t₁ h1 (sameOn_comm _ _ _ ▸ hsame)
    · exact (hk.apart g hg r₁ r₂ t₁ t₂ hr12 h1 h2 hsame).transfer (htransfer r₁ r₂) (htransfer r₂ r₁)

/-- A version is written over by one that differs in the `xmax` and the link at most. -/
structure Rewritten (e e' : Engine (List V) κ) (rid : RecordId) (tup tup' : Tuple (List V)) : Prop where
  old : e.heap.tupleAt rid = some tup
  heap : ∀ r, e'.heap.tupleAt r = if r = rid then some tup' else e.heap.tupleAt r
  row : tup'.row = tup.row
  xmin : tup'.xmin = tup.xmin

namespace Rewritten

variable {tup tup' t₁ : Tuple (List V)} {r : RecordId}

section

variable (h : Rewritten e e' rid tup tup')
include h

lemma self : e'.heap.tupleAt rid = some tup' := by rw [h.heap, if_pos rfl]

lemma other (hr : r ≠ rid) : e'.heap.tupleAt r = e.heap.tupleAt r := by
  rw [h.heap, if_neg hr]

lemma back (h1 : e'.heap.tupleAt r = some t₁) :
    ∃ t0, e.heap.tupleAt r = some t0 ∧ t0.row = t₁.row ∧ t0.xmin = t₁.xmin := by
  by_cases hr : r = rid
  · subst hr
    obtain rfl : tup' = t₁ := some.inj (h.self.symm.trans h1)
    exact ⟨tup, h.old, h.row.symm, h.xmin.symm⟩
  · exact ⟨t₁, h.other hr ▸ h1, rfl, rfl⟩

lemma forth (h1 : e.heap.tupleAt r = some t₁) : ∃ t0, e'.heap.tupleAt r = some t0 ∧ t0.xmin = t₁.xmin := by
  by_cases hr : r = rid
  · subst hr
    obtain rfl : tup = t₁ := some.inj (h.old.symm.trans h1)
    exact ⟨tup', h.self, h.xmin⟩
  · exact ⟨t₁, (h.other hr).trans h1, rfl⟩

end

end Rewritten

variable {tup tup' : Tuple (List V)} {n : ℕ}

section

variable (hk : KeyInv ops d e)
include hk

lemma marked {w : List (Entry RecordId)}
    (hw : Rewritten e e' rid tup tup') (hx : tup.xmax = kInvalidTxnId) (hxmax : tup'.xmax = t)
    (hhist : e'.sys.hist = e.sys.hist)
    (hL : e.ledger t = u ++ w) (hL' : e'.ledger = update e.ledger t (u ++ .stamp rid :: w))
    (hupd : ∀ old new, Updating e old new → Replaced e' old new ∨ Updating e' old new) : KeyInv ops d e' := by
  have hmem : ∀ {t' en}, en ∈ e'.ledger t' → en ∈ e.ledger t' ∨ en = .stamp rid := by
    intro t' en hen
    rw [hL'] at hen
    rcases LedgerOk.mem_update hen with ⟨rfl, hl⟩ | ⟨-, hl⟩
    · rw [hL, mem_append]
      rcases mem_append.1 hl with hl | hl
      · exact .inl (.inl hl)
      · exact (mem_cons.1 hl).symm.imp_left .inr
    · exact .inl hl
  have hsub : ∀ t', e.ledger t' <+ e'.ledger t' := by
    intro t'
    rw [hL']
    by_cases ht : t' = t
    · rw [ht, update_self, hL]
      exact (List.Sublist.refl u).append (sublist_cons_self _ _)
    · rw [update_of_ne ht]
  refine hk.carry hw.back (fun r t₁ h1 hx1 => ?_) (fun t' r hr => (hmem hr).resolve_right (by simp)) fun _ _ => ?_
  · by_cases hr : r = rid
    · subst hr
      obtain rfl : tup' = t₁ := some.inj (hw.self.symm.trans h1)
      rw [hxmax, hL', update_self]
      exact .inr (mem_append_right _ mem_cons_self)
    · exact (hk.stamped r t₁ (hw.other hr ▸ h1) hx1).imp (fun hc => hhist ▸ hc) (hsub _).mem
  · rintro (h | h)
    · refine .inl (h.transfer (fun t₁ ht1 hx1 => ?_) (fun _ => hw.forth) (fun _ h => hhist ▸ h)
        fun t' h => .inr (h.trans (hsub t')))
      refine ⟨t₁, (hw.other fun hr => hx1 ?_).trans ht1, rfl⟩
      obtain rfl : tup = t₁ := some.inj (hw.old.symm.trans (hr ▸ ht1))
      exact hx
    · exact hupd _ _ h

/-- The last entry of a ledger is a stamp, and it is taken back. -/
lemma unmarked (hledger : LedgerOk e.heap.cells e.ledger)
    (hw : Rewritten e e' rid tup tup') (hxmax : tup'.xmax = kInvalidTxnId)
    (hhist : e'.sys.hist = e.sys.hist) (hnc : .committed t ∉ e.sys.hist) (hL : e.ledger t = u ++ [.stamp rid])
    (hL' : e'.ledger = update e.ledger t u)
    (hupd : ∀ old new, Updating e old new → Updating e' old new) : KeyInv ops d e' := by
  have hx : tup.xmax = t := xmax_of_cells hw.old (hledger.holds t (.stamp rid) (by simp [hL]))
  have hsplit : ∀ t', e'.ledger t' = e.ledger t' ∨ e.ledger t' = e'.ledger t' ++ [.stamp rid] := by
    intro t'
    rw [hL']
    by_cases ht : t' = t
    · rw [ht, update_self]
      exact .inr hL
    · exact .inl (update_of_ne ht ..)
  -- the session has stamped the version once
  have honce : .stamp rid ∉ u := by
    intro hr
    have hord := hledger.order t
    rw [hL, pairwise_append] at hord
    obtain ⟨⟨r, hr⟩, -⟩ := hord.2.2 _ hr (.stamp rid) mem_cons_self rfl
    cases hr
  refine hk.carry hw.back (fun r t₁ h1 hx1 => ?_) (fun t' r hr => ?_) fun {r₁ r₂ _ _} _ _ => ?_
  · by_cases hr : r = rid
    · subst hr
      obtain rfl : tup' = t₁ := some.inj (hw.self.symm.trans h1)
      exact absurd hxmax hx1
    · refine (hk.stamped r t₁ (hw.other hr ▸ h1) hx1).imp (fun hc => hhist ▸ hc) fun hst => ?_
      rcases hsplit t₁.xmax with heq | heq
      · exact heq ▸ hst
      · rw [heq, mem_append] at hst
        exact hst.resolve_right fun h => hr (Entry.stamp.inj (mem_singleton.1 h))
  · rcases hsplit t' with heq | heq
    · exact heq ▸ hr
    · rw [heq]
      exact mem_append_left _ hr
  · rintro (h | h)
    · by_cases hr : r₁ = rid
      · -- the other version was written after the stamp, so it went before
        subst hr
        obtain ⟨t₁, t₂, ht1, -, -, hwhy⟩ := h
        obtain rfl : tup = t₁ := some.inj (hw.old.symm.trans ht1)
        rw [hx] at hwhy
        rcases hwhy with hc | ⟨-, hsub⟩
        · exact absurd hc hnc
        · rw [hL] at hsub
          exact absurd ((sublist_of_concat hsub (by simp)).mem mem_cons_self) honce
      · refine .inl (h.transfer ?_ (fun _ => hw.forth) (fun _ h => hhist ▸ h) fun t' h => .inr ?_)
        · exact fun t₁ ht1 _ => ⟨t₁, (hw.other hr).trans ht1, rfl⟩
        · rcases hsplit t' with heq | heq
          · exact heq ▸ h
          · rw [heq] at h
            exact sublist_of_concat h (by simp)
    · exact .inr (hupd r₁ r₂ h)

lemma takeBackFill (hheap : e'.heap = (e.heap.rollbackInsert rid n).getD e.heap)
    (hhist : e'.sys.hist = e.sys.hist)
    (hL : e.ledger t = u ++ [.fill rid]) (hL' : e'.ledger = update e.ledger t u)
    (hupd : ∀ old new, Updating e old new → new ≠ rid → Updating e' old new) : KeyInv ops d e' := by
  refine hk.removed (fun r => ?_) hhist (fun t' => ?_) hupd
  · rw [hheap, tupleAt_eq_look, look_rollbackInsert]
    split_ifs <;> rfl
  · rw [hL']
    by_cases ht : t' = t
    · subst ht
      rw [update_self]
      exact .inr hL
    · exact .inl (update_of_ne ht ..)

lemma takeBackStamp (hledger : LedgerOk e.heap.cells e.ledger) (hlen : ∀ q, (e.heap.pages q).LengthsOk)
    (hheap : e'.heap = (e.heap.rollbackDelete rid n).getD e.heap) (hhist : e'.sys.hist = e.sys.hist)
    (hnc : .committed t ∉ e.sys.hist) (hL : e.ledger t = u ++ [.stamp rid]) (hL' : e'.ledger = update e.ledger t u)
    (hupd : ∀ old new, Updating e old new → Updating e' old new) : KeyInv ops d e' := by
  have hcell : e.heap.cells rid = some (some t) := hledger.holds t (.stamp rid) (by simp [hL])
  obtain ⟨tup, htup⟩ : ∃ tup, e.heap.tupleAt rid = some tup := by
    refine ne_none_iff_exists'.1 (mt cells_eq_none.2 ?_)
    simp [hcell]
  have hheap' : ∀ r, e'.heap.tupleAt r = if r = rid then
      some { tup with xmax := kInvalidTxnId, nextPage := kNullPageId, nextSlot := 0 } else e.heap.tupleAt r := by
    intro r
    rw [hheap, tupleAt_eq_look, look_rollbackDelete hlen, tupleAt_eq_some_iff.1 htup]
    split_ifs <;> rfl
  exact hk.unmarked hledger ⟨htup, hheap', rfl, rfl⟩ rfl hhist hnc hL hL' hupd

end

end KeyInv

end MiniDb
