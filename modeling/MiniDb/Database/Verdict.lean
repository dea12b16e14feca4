import MiniDb.Storage.Page
import MiniDb.Transaction.Horizon

/-!
# What readers make of a version

`isVisible` asks the reader's snapshot, the slots and the status log.  Here are the two verdicts
that no later step of the transaction system changes: a version that everybody sees (`AllVisible`)
and a version that nobody sees (`Hidden`).
-/

namespace MiniDb

open TransactionManager

variable {β : Type*}

variable {sys sys' : TxnSystem} {tup : Tuple β} {txn : Transaction}
  {tm : TransactionManager} {xmin xmax r : ℕ} {a : TxnAction}

/-- Nobody sees a version that bears its own stamp. -/
lemma xmax_ne_of_isVisible (hid : txn.id ≠ kInvalidTxnId) (hv : tm.isVisible xmin xmax txn = true) :
    xmax ≠ txn.id := by
  rintro rfl
  by_cases h0 : xmin = kInvalidTxnId
  · simp [isVisible, h0] at hv
  by_cases h2 : xmin = kFrozenTxnId
  · simp [isVisible, h2, hid, show kFrozenTxnId ≠ kInvalidTxnId by decide] at hv
  by_cases hx : xmin = txn.id
  · simp [isVisible, h0, h2, ← hx] at hv
  · rw [isVisible_other _ _ h0 h2 hx] at hv
    simp [hid] at hv

/-- A version is invisible to a reader that counts its deleter as committed, or does not count its
creator so, unless the reader created it itself. -/
lemma isVisible_eq_false (hmax : xmax ≠ kInvalidTxnId) (hid : xmin ≠ txn.id)
    (h : xmin = kFrozenTxnId ∨ tm.countsAsCommitted xmin txn = false ∨
      tm.countsAsCommitted xmax txn = true) : tm.isVisible xmin xmax txn = false := by
  by_cases h0 : xmin = kInvalidTxnId
  · simp [isVisible, h0]
  by_cases h2 : xmin = kFrozenTxnId
  · simp [isVisible, h2, hmax, show kFrozenTxnId ≠ kInvalidTxnId by decide]
  rw [isVisible_other _ _ h0 h2 hid]
  rcases h with h | h | h
  · exact absurd h h2
  · simp [h]
  · simp [h, hmax]

/-! ## What everybody sees -/

/-- Undeleted, and the creator is frozen or settled. -/
def AllVisible (sys : TxnSystem) (tup : Tuple β) : Prop :=
  tup.xmax = kInvalidTxnId ∧ (tup.xmin = kFrozenTxnId ∨ Settled sys tup.xmin)

lemma isVisible_of_allVisible (hi : TxnInv sys) (hv : AllVisible sys tup)
    (hr : sys.sessions r = some ⟨txn, .running⟩) :
    sys.tm.isVisible tup.xmin tup.xmax txn = true := by
  obtain ⟨hmax, hmin⟩ := hv
  rw [hmax]
  by_cases h2 : tup.xmin = kFrozenTxnId
  · simp [isVisible, h2, show kFrozenTxnId ≠ kInvalidTxnId by decide]
  have hset := hmin.resolve_left h2
  have h0 : tup.xmin ≠ kInvalidTxnId :=
    hi.began_ne _ (hi.histOk.began_of_mem hset.1)
  have hid : tup.xmin ≠ txn.id := by
    rw [(hi.session_ok r _ hr).id_eq]
    intro heq
    exact (hi.session_ok r _ hr).phase.2.1 (heq ▸ hset.1)
  rw [isVisible_other _ _ h0 h2 hid, countsAsCommitted_of_before hi hr (hset.2 r txn hr)]
  rfl

lemma AllVisible.step (hv : AllVisible sys tup) (h : sys.step a = some sys') : AllVisible sys' tup :=
  ⟨hv.1, hv.2.imp_right fun hs => hs.step h⟩

lemma AllVisible.congr (hv : AllVisible sys tup) (h : SameTxns sys sys') : AllVisible sys' tup :=
  ⟨hv.1, hv.2.imp_right fun hs => hs.congr h⟩

/-! ## What nobody sees -/

/-- The deleter committed, and before every running transaction that counts the creator as
committed. -/
def Hidden (sys : TxnSystem) (tup : Tuple β) : Prop :=
  .committed tup.xmax ∈ sys.hist ∧
    (tup.xmin = kFrozenTxnId ∨ .committed tup.xmin ∈ sys.hist) ∧
    ∀ r txn, sys.sessions r = some ⟨txn, .running⟩ →
      tup.xmin = kFrozenTxnId ∨ ¬ CommittedBefore sys.hist tup.xmin r ∨
        CommittedBefore sys.hist tup.xmax r

lemma isVisible_of_hidden (hi : TxnInv sys) (hh : Hidden sys tup) (hr : sys.sessions r = some ⟨txn, .running⟩) :
    sys.tm.isVisible tup.xmin tup.xmax txn = false := by
  obtain ⟨hmax, hmin, hverdict⟩ := hh
  have h0 : tup.xmax ≠ kInvalidTxnId := hi.began_ne _ (hi.histOk.began_of_mem hmax)
  by_cases h2 : tup.xmin = kFrozenTxnId
  · simp [isVisible, h2, h0, show kFrozenTxnId ≠ kInvalidTxnId by decide]
  have hcom := hmin.resolve_left h2
  have hs := hi.session_ok r _ hr
  have hid : txn.id = r := hs.id_eq
  have hne : tup.xmin ≠ txn.id := by
    rw [hid]
    intro heq
    exact hs.phase.2.1 (heq ▸ hcom)
  refine isVisible_eq_false h0 hne (Or.inr ?_)
  rcases hverdict r txn hr with h | h | h
  · exact absurd h h2
  · -- a committed creator that does not count as committed was running when the reader began
    left
    rw [Bool.eq_false_iff]
    intro hc
    have hsnap : txn.snapshotId = r + 1 := hs.snapshot_eq
    simp only [countsAsCommitted, hsnap, Bool.and_eq_true, decide_eq_true_eq,
      Bool.not_eq_true', List.contains_eq_mem, decide_eq_false_iff_not] at hc
    exact h ((committedBefore_iff hi hr hcom).2 ⟨by omega, hc.1.2⟩)
  · exact Or.inr (countsAsCommitted_of_before hi hr h)

/-- Later transactions begin after the deleter has committed. -/
lemma Hidden.step (hh : Hidden sys tup) (h : sys.step a = some sys') : Hidden sys' tup := by
  obtain ⟨hmax, hmin, hverdict⟩ := hh
  refine ⟨hist_of_step h hmax, hmin.imp_right (hist_of_step h), fun r txn hr => ?_⟩
  unfold CommittedBefore
  rcases running_of_step h hr with ⟨-, -, hb⟩ | ⟨hr, hb⟩
  · rw [hb]
    exact Or.inr (Or.inr hmax)
  · rw [hb]
    exact hverdict r txn hr

lemma Hidden.congr (hh : Hidden sys tup) (h : SameTxns sys sys') : Hidden sys' tup := by
  rw [Hidden, h.hist]
  refine ⟨hh.1, hh.2.1, fun r txn hr => ?_⟩
  obtain ⟨txn0, hr0, -⟩ := h.running hr
  exact hh.2.2 r txn0 hr0

end MiniDb
