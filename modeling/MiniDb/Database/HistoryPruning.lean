import MiniDb.Database.WriteSkew

/-!
# Pruning the history of commits

A commit drops the write sets with commit ids below the snapshots of all running transactions.  A run of `keepStep` is
a run of `SsiEngine` that keeps them all beside it.  `ssi_check_conflict` gives the same answer with either history
(`ssiCheckConflict_unpruned`): transactions that are yet to begin have larger snapshots still.
-/

namespace MiniDb

open List Option Engine TxnSystem

variable {β κ : Type*} {P : ℕ → Prop} {sys sys' : TxnSystem} {full : List CommittedWriteSet} {a : TxnAction} {t : ℕ}

/-- A step, and the history of commits if it is never pruned. -/
def SsiEngine.keepStep [DecidableEq κ] (x : SsiEngine β κ × List CommittedWriteSet) (a : SsiAction β) :
    Option (SsiEngine β κ × List CommittedWriteSet) :=
  (x.1.step a).map fun s => (s,
    match a with
    | .engine (.txn (.publish t)) => x.2 ++ ((s.done t).map CommittedTxn.entry).toList
    | _ => x.2)

/-- The history has what running transactions may still meet. -/
structure HistoryKept (sys : TxnSystem) (full : List CommittedWriteSet) : Prop where
  txn : TxnInv sys
  slot_snapshot : ∀ sl ∈ sys.tm.txnSlots, sl.isActive = true → sl.snapshotId = sl.txnId + 1
  subset : sys.tm.committedHistory ⊆ full
  commitId_lt : ∀ entry ∈ full, entry.commitId < sys.tm.nextTxnId
  kept : ∀ entry ∈ full, ∀ u txn, sys.sessions u = some ⟨txn, .running⟩ → u < entry.commitId →
    entry ∈ sys.tm.committedHistory

lemma mem_of_mem_prune {tm : TransactionManager} {entry : CommittedWriteSet}
    (h : entry ∈ tm.pruneCommittedHistory.committedHistory) : entry ∈ tm.committedHistory := by
  unfold TransactionManager.pruneCommittedHistory at h
  split at h
  · exact mem_of_mem_filter h
  · cases h

namespace HistoryKept

section

variable (h : HistoryKept sys full)
include h

lemma alike (ha : AlikeTxns P sys sys') : HistoryKept sys' full where
  txn := ha.txnInv h.txn
  slot_snapshot := by
    rw [ha.slots]
    exact h.slot_snapshot
  subset := by
    rw [ha.committed]
    exact h.subset
  commitId_lt := by
    rw [ha.next]
    exact h.commitId_lt
  kept entry hentry u txn hr hlt := by
    obtain ⟨txn, hr, -⟩ := ha.running hr
    rw [ha.committed]
    exact h.kept entry hentry u txn hr hlt

lemma txnSection (hs : sys.step a = some sys') (hne : ∀ t, a ≠ .publish t) : HistoryKept sys' full where
  txn := h.txn.step hs
  slot_snapshot := slot_snapshot_of_step hs h.slot_snapshot
  subset := by
    rw [committedHistory_of_step hs hne]
    exact h.subset
  commitId_lt entry hentry := (h.commitId_lt entry hentry).trans_le (nextTxnId_le_of_step hs)
  kept entry hentry u txn hr hlt := by
    rw [committedHistory_of_step hs hne]
    rcases running_of_step hs hr with ⟨-, rfl, -⟩ | ⟨hr, -⟩
    · exact absurd hlt (h.commitId_lt entry hentry).not_gt
    · exact h.kept entry hentry u txn hr hlt

lemma publish (hs : sys.step (.publish t) = some sys') : ∃ txn o, sys'.sessions t = some ⟨txn, o⟩ ∧
    HistoryKept sys' (full ++ [⟨txn.commitId, txn.id, txn.undoRecords.map fun r => ⟨r.tableId, r.rid⟩⟩]) := by
  obtain ⟨txn, o, -, hx', -, hnext, tm, htm, hhistory⟩ := publish_eq_some hs
  refine ⟨_, o, hx', h.txn.step hs, slot_snapshot_of_step hs h.slot_snapshot, ?_, ?_, ?_⟩
  · intro entry hentry
    rw [htm] at hentry
    have hentry := mem_of_mem_prune hentry
    rw [hhistory] at hentry
    exact mem_append.2 ((mem_append.1 hentry).imp_left fun hentry => h.subset hentry)
  · intro entry hentry
    rw [hnext]
    rcases mem_append.1 hentry with hentry | hentry
    · exact (h.commitId_lt entry hentry).trans (Nat.lt_succ_self _)
    · rw [mem_singleton.1 hentry]
      exact Nat.lt_succ_self _
  · intro entry hentry u txn hu hlt
    refine mem_committedHistory_of_publish h.txn h.slot_snapshot hs htm ?_ hu hlt
    rw [hhistory]
    refine (mem_append.1 hentry).elim (fun hentry => mem_append_left _ ?_) (mem_append_right _)
    rcases running_of_step hs hu with ⟨⟨⟩, -⟩ | ⟨hu, -⟩
    exact h.kept entry hentry u txn hu hlt

lemma ssiCheckConflict_eq {txn : Transaction} (hr : sys.sessions t = some ⟨txn, .running⟩) :
    TransactionManager.ssiCheckConflict { sys.tm with committedHistory := full } txn = sys.tm.ssiCheckConflict txn := by
  refine Bool.eq_iff_iff.2 ⟨fun hany => ?_, fun hany => ?_⟩
  · obtain ⟨entry, hentry, hmeets⟩ := any_eq_true.1 hany
    refine any_eq_true.2 ⟨entry, h.kept entry hentry t txn hr ?_, hmeets⟩
    have hle : txn.snapshotId ≤ entry.commitId := by
      simp only [Bool.and_eq_true, decide_eq_true_eq] at hmeets
      exact hmeets.1.2
    rwa [(h.txn.session_ok t _ hr).snapshot_eq] at hle
  · obtain ⟨entry, hentry, hmeets⟩ := any_eq_true.1 hany
    exact any_eq_true.2 ⟨entry, h.subset hentry, hmeets⟩

end

lemma step [DecidableEq κ] {x x' : SsiEngine β κ × List CommittedWriteSet} {a : SsiAction β}
    (h : HistoryKept x.1.engine.sys x.2) (hx : SsiEngine.keepStep x a = some x') :
    HistoryKept x'.1.engine.sys x'.2 := by
  obtain ⟨s, hs, rfl⟩ := map_eq_some_iff.1 hx
  have halike := fun hne => h.alike (SsiEngine.alike_of_step hs hne)
  cases a with
  | engine a =>
    cases a with
    | txn b =>
      simp only [SsiEngine.step] at hs
      split_ifs at hs
      obtain ⟨e, he, rfl⟩ := map_eq_some_iff.1 hs
      obtain ⟨-, sys, hstep, rfl⟩ := txnStep_eq_some he
      cases b with
      | publish t =>
        obtain ⟨txn, o, hsession, hkept⟩ := h.publish hstep
        simpa [SsiEngine.after, hsession, CommittedTxn.entry] using hkept
      | begin | recordCommitted t | flip t | recordAborted t | finish t => exact h.txnSection hstep (by simp)
    | _ => exact halike (by simp)
  | _ => exact halike (by simp)

end HistoryKept

/-- **Pruning never changes a verdict.** -/
theorem ssiCheckConflict_unpruned [DecidableEq κ] {slotCount next : ℕ} {log : Option TxnStatusLog}
    (hnext : 0 < next)
    (hlog : ∀ l ∈ log, ∀ c, next ≤ c → l.states c = none) (keys : List (β → κ)) {acts : List (SsiAction β)}
    {s : SsiEngine β κ} (hr : runs SsiEngine.keepStep
      (SsiEngine.init (TxnSystem.init slotCount next log) keys, []) acts = some (s, full))
    {txn : Transaction} (htxn : s.engine.running t = some txn) :
    TransactionManager.ssiCheckConflict { s.engine.sys.tm with committedHistory := full } txn =
      s.engine.sys.tm.ssiCheckConflict txn := by
  have hinit : HistoryKept (TxnSystem.init slotCount next log) [] := by
    refine ⟨TxnInv.init hnext hlog, fun sl hsl hact => ?_, nil_subset _, by simp, by simp⟩
    rw [eq_of_mem_replicate hsl] at hact
    cases hact
  have hkept := runs_invariant_of_step (I := fun x => HistoryKept x.1.engine.sys x.2)
    (fun _ _ _ h hs => h.step hs) hinit hr
  exact hkept.ssiCheckConflict_eq (running_eq_some.1 htxn)

/-- A serializable transaction inserts a row and reads it. -/
def insertAndRead : List (SsiAction ℕ) :=
  [.setDefaultIsolation .serializable, .engine (.txn .begin)] ++
    (insertStmt 1 5 40 1).map .engine ++ [.read 1 .indexOnlyScan ⟨1, 0⟩, .check 1]

/-- The write set of transaction 1 is dropped before transaction 3 begins. -/
def commitThenBegin : Option (SsiEngine ℕ ℕ × List CommittedWriteSet) :=
  runs SsiEngine.keepStep (SsiEngine.init (TxnSystem.init 4 1 (some TxnStatusLog.empty)) [(id : ℕ → ℕ)], [])
    (insertAndRead ++ [.engine (.txn (.publish 1)), .engine (.txn .begin)])

/-- The check of transaction 3 does not miss it. -/
theorem ssiCheckConflict_unpruned_insert : ∃ s full txn, commitThenBegin = some (s, full) ∧
    s.engine.running 3 = some txn ∧ full.length = 1 ∧ s.engine.sys.tm.committedHistory.length = 0 ∧
    TransactionManager.ssiCheckConflict { s.engine.sys.tm with committedHistory := full } txn =
      s.engine.sys.tm.ssiCheckConflict txn := by
  obtain ⟨⟨s, full⟩, hs, heval⟩ : ∃ x, commitThenBegin = some x ∧
      ((x.1.engine.running 3).isSome, x.2.length, x.1.engine.sys.tm.committedHistory.length) = (true, 1, 0) :=
    exists_run (by decide +kernel)
  simp only [Prod.mk.injEq, isSome_iff_exists] at heval
  obtain ⟨⟨txn, htxn⟩, hfull, hhistory⟩ := heval
  exact ⟨s, full, txn, hs, htxn, hfull, hhistory,
    ssiCheckConflict_unpruned (by decide) TxnStatusLog.empty_unused [id] hs htxn⟩

end MiniDb
