import MiniDb.Database.EngineInv
import MiniDb.Executor.SeqScan
import Mathlib.Data.Set.Card

/-!
# When a sequential scan is exact

In a reachable state every version that a reader sees has a slot that the scan comes by, so none is
missed, and `fast_count` has the right number.  What can go wrong is that a version is returned more
than once: a chain does not look at the skip list, and a version that was returned from its own slot
is not on it.  `seqScanExact_iff_shownOnce` gives the exact condition.
-/

namespace MiniDb

open List

variable {β κ : Type*}

section

variable (h : HeapFile β) (tm : TransactionManager) (txn : Transaction)

/-- What the slots have for the scan, in order. -/
def HeapFile.visits : List (Visit RecordId) := h.slotIds.map (h.visit tm txn)

/-- The scan returns every version that the reader sees exactly once and nothing else, and
`fast_count` returns their number. -/
structure SeqScanExact : Prop where
  once : ∀ rid, h.VisibleAt tm txn rid →
    ((seqScan tm (some txn) h).map Prod.fst).count rid = 1
  only : ∀ hit ∈ seqScan tm (some txn) h,
    h.VisibleAt tm txn hit.1 ∧ h.tupleAt hit.1 = some hit.2
  fastCount : seqFastCount tm (some txn) h = {rid | h.VisibleAt tm txn rid}.ncard

/-- The version is at the end of no version chain that the scan follows, and comes up at one slot; or it is
at the end of one such chain, which is followed before the version comes up itself. -/
def ShownOnceAt (rid : RecordId) : Prop :=
  ((h.visits tm txn).count (.leads rid) = 0 ∧ (h.visits tm txn).count (.shows rid) = 1) ∨
    ((h.visits tm txn).count (.leads rid) = 1 ∧ .shows rid ∉ beforeLead rid (h.visits tm txn))

instance (rid : RecordId) : Decidable (ShownOnceAt h tm txn rid) := inferInstanceAs (Decidable (_ ∨ _))

/-- So it is with every version that the reader sees. -/
def ShownOnce : Prop := ∀ rid, h.VisibleAt tm txn rid → ShownOnceAt h tm txn rid

end

section

variable {h : HeapFile β} {tm : TransactionManager} {txn : Transaction}

lemma map_fst_seqScan : (seqScan tm (some txn) h).map Prod.fst = gather [] (h.visits tm txn) :=
  map_fst_seqScanFrom (by simp)

lemma visibleAt_of_mem_seqScan {hit : RecordId × Tuple β} (hhit : hit ∈ seqScan tm (some txn) h) :
    h.VisibleAt tm txn hit.1 ∧ h.tupleAt hit.1 = some hit.2 := by
  refine ⟨?_, tupleAt_of_mem_seqScanFrom (by simp) hhit⟩
  have hmem : hit.1 ∈ gather [] (h.visits tm txn) := by
    rw [← map_fst_seqScan]
    exact mem_map_of_mem hhit
  have hpos := count_pos_iff.2 hmem
  rw [count_gather not_mem_nil] at hpos
  have hcases : .leads hit.1 ∈ h.visits tm txn ∨ .shows hit.1 ∈ h.visits tm txn := by
    by_contra hnot
    rw [not_or] at hnot
    have hbefore : .shows hit.1 ∉ beforeLead hit.1 (h.visits tm txn) := fun hs =>
      hnot.2 (takeWhile_subset _ hs)
    rw [count_eq_zero.2 hnot.1, count_eq_zero.2 hbefore] at hpos
    omega
  rcases hcases with hv | hv
  · obtain ⟨rid, -, hrid⟩ := mem_map.1 hv
    exact visibleAt_of_visit (.inr hrid)
  · obtain ⟨rid, -, hrid⟩ := mem_map.1 hv
    exact visibleAt_of_visit (.inl hrid)

/-- **`fast_count` is right**: it counts the slots, and each version has one. -/
lemma seqFastCount_eq_ncard (hok : HeapFile.HeapOk h) :
    seqFastCount tm (some txn) h = {rid | h.VisibleAt tm txn rid}.ncard := by
  classical
  have hset : {rid | h.VisibleAt tm txn rid} =
      ↑(h.slotIds.filter fun rid => decide (h.VisibleAt tm txn rid)).toFinset := by
    ext rid
    simp only [Set.mem_ofPred_eq, coe_toFinset, mem_filter, decide_eq_true_eq]
    refine ⟨fun hv => ⟨?_, hv⟩, fun hv => hv.2⟩
    obtain ⟨t, ht, -⟩ := hv
    exact HeapFile.mem_slotIds_of_tupleAt hok ht
  rw [hset, Set.ncard_coe_finset, toFinset_card_of_nodup (h.nodup_slotIds.filter _), ← countP_eq_length_filter]
  refine countP_congr fun rid _ => ?_
  rw [Bool.and_eq_true, decide_eq_true_eq, decide_eq_true_eq, Option.any_eq_true]
  constructor
  · rintro ⟨-, t, ht, hvis⟩
    exact ⟨t, ht, hvis⟩
  · rintro ⟨t, ht, hvis⟩
    have hfits := ((hok.lengths rid.pageId).header_fits ht).2.2
    simp only [kTupleHeaderSize] at hfits
    exact ⟨by omega, t, ht, hvis⟩

end

/-- **When a sequential scan is exact.**  In every state that the engine reaches, and for every
reader, the scan returns each version that the reader sees exactly once and nothing else, with
`fast_count` giving their number, if and only if each of these versions is shown once. -/
theorem seqScanExact_iff_shownOnce [DecidableEq κ] {slotCount next : ℕ}
    {log : Option TxnStatusLog} (hnext : 0 < next)
    (hlog : ∀ l ∈ log, ∀ c, next ≤ c → l.states c = none) (keys : List (β → κ))
    {acts : List (Action β)} {e : Engine β κ}
    (hr : runs Engine.step (Engine.init (TxnSystem.init slotCount next log) keys) acts = some e)
    (txn : Transaction) :
    SeqScanExact e.heap e.sys.tm txn ↔ ShownOnce e.heap e.sys.tm txn := by
  have hok := ((EngineInv.init hnext hlog keys).runs hr).heap.heapOk
  constructor
  · intro hexact rid hv
    have hone := hexact.once rid hv
    rw [map_fst_seqScan] at hone
    exact count_gather_eq_one_iff.1 hone
  · intro honce
    refine ⟨fun rid hv => ?_, fun hit => visibleAt_of_mem_seqScan, seqFastCount_eq_ncard hok⟩
    rw [map_fst_seqScan]
    exact count_gather_eq_one_iff.2 (honce rid hv)

/-! ## Runs -/

/-- Transaction 1 inserts two rows.  Transaction 3 updates the second one, and its commit turns the old slot into a
redirect.  Transaction 5 begins; 6 updates the first row, whose new version goes to another page, and commits while 5
is running, so that the old version stays; then 8 begins. -/
def chainAndRedirect : List (Action ℕ) :=
  [.txn .begin] ++ Engine.insertStmt 1 7 40 1 ++ Engine.insertStmt 1 70 40 2 ++ Engine.commitTxn 1 ++
    [.txn (.finish 1), .txn .begin] ++ Engine.updateStmt 3 ⟨1, 1⟩ 71 40 3 true ++ Engine.commitTxn 3 ++
    [.prune 3 4, .txn (.finish 3), .txn .begin, .txn .begin] ++ Engine.updateStmt 6 ⟨1, 0⟩ 8 40 5 false ++
    Engine.commitTxn 6 ++ [.prune 6 6, .txn (.finish 6), .txn .begin]

/-- Transaction 5 sees the old version of the first row, and 8 the one at the end of the chain; both see the second
row behind its redirect, and the scan of either is exact. -/
theorem seqScanExact_chainAndRedirect :
    ∃ e, runs Engine.step (Engine.init (TxnSystem.init 4 1 (some TxnStatusLog.empty)) ([] : List (ℕ → ℕ)))
        chainAndRedirect = some e ∧
      ∀ r ∈ [(5, [7, 71]), (8, [8, 71])], ∃ txn, e.running r.1 = some txn ∧
        (seqScan e.sys.tm (some txn) e.heap).map (fun hit => hit.2.row) = r.2 ∧
        ShownOnce e.heap e.sys.tm txn ∧ SeqScanExact e.heap e.sys.tm txn := by
  obtain ⟨e, he, hcheck⟩ : ∃ e, runs Engine.step (Engine.init (TxnSystem.init 4 1 (some TxnStatusLog.empty))
      ([] : List (ℕ → ℕ))) chainAndRedirect = some e ∧
        ([(5, [7, 71]), (8, [8, 71])].all fun r => (e.running r.1).any fun txn =>
          (seqScan e.sys.tm (some txn) e.heap).map (fun hit => hit.2.row) == r.2 && e.heap.slotIds.all fun rid =>
            (e.heap.tupleAt rid).all fun t =>
              !e.sys.tm.isVisible t.xmin t.xmax txn || decide (ShownOnceAt e.heap e.sys.tm txn rid)) = true :=
    exists_run (by decide +kernel)
  refine ⟨e, he, fun r hr => ?_⟩
  obtain ⟨txn, htxn, htrue⟩ := (Option.any_eq_true _ _).1 (all_eq_true.1 hcheck r hr)
  obtain ⟨hrows, hslots⟩ := Bool.and_eq_true_iff.1 htrue
  have hok := ((EngineInv.init (by decide) TxnStatusLog.empty_unused []).runs he).heap.heapOk
  have honce : ShownOnce e.heap e.sys.tm txn := by
    rintro rid ⟨t, ht, hvis⟩
    have hslot := all_eq_true.1 hslots rid (HeapFile.mem_slotIds_of_tupleAt hok ht)
    simpa [ht, hvis] using hslot
  exact ⟨txn, htxn, beq_iff_eq.1 hrows, honce,
    (seqScanExact_iff_shownOnce (by decide) TxnStatusLog.empty_unused [] he txn).2 honce⟩

/-- A transaction inserts a row and updates it twice: versions at slots 0, 1 and 2, of which it sees
the last. -/
def updateTwice : List (Action ℕ) :=
  [.txn .begin] ++ Engine.insertStmt 1 7 40 1 ++ Engine.updateStmt 1 ⟨1, 0⟩ 8 40 2 true ++
    Engine.updateStmt 1 ⟨1, 1⟩ 9 40 3 true

/-- The transaction's own scan returns the row twice: once from the chain that starts at slot 0,
once from the one that starts at slot 1. -/
theorem row_updated_twice_returned_twice :
    ∃ e txn, runs Engine.step
        (Engine.init (TxnSystem.init 4 1 (some TxnStatusLog.empty)) ([] : List (ℕ → ℕ)))
        updateTwice = some e ∧ e.running 1 = some txn ∧
      ¬ SeqScanExact e.heap e.sys.tm txn := by
  obtain ⟨e, he, hrun⟩ : ∃ e, runs Engine.step (Engine.init (TxnSystem.init 4 1 (some
      TxnStatusLog.empty)) ([] : List (ℕ → ℕ))) updateTwice = some e ∧
      ((e.running 1).map fun txn => (seqScan e.sys.tm (some txn) e.heap).map Prod.fst) = some [⟨1,
        2⟩, ⟨1, 2⟩] := exists_run (by decide +kernel)
  obtain ⟨txn, htxn, hscan⟩ := Option.map_eq_some_iff.1 hrun
  refine ⟨e, txn, he, htxn, fun hexact => ?_⟩
  have hmem : (⟨1, 2⟩ : RecordId) ∈ (seqScan e.sys.tm (some txn) e.heap).map Prod.fst := by
    rw [hscan]
    exact mem_cons_self
  obtain ⟨hit, hhit, heq⟩ := mem_map.1 hmem
  have honce := hexact.once ⟨1, 2⟩ (heq ▸ (hexact.only hit hhit).1)
  rw [hscan] at honce
  revert honce
  decide

end MiniDb
