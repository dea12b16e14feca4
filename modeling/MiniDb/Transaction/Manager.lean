import MiniDb.Common.Defs
import Mathlib.Data.List.Basic
import Mathlib.Order.Basic
import Mathlib.Logic.Function.Basic

/-!
# The transaction manager

`TransactionManager` keeps a fixed array of transaction slots, the shared id counter, and a status log that remembers
the final state of transactions whose slot was reused.

`begin`, `commit` and `rollback` are cut at their latch-protected sections: `begin` is one section, `commit` publishes
under the latch (`publish`) and then calls the status log (`recordStatus`), `rollback` flips its slot under the latch
(`flipAborted`) and then calls the status log.

`isVisible`, `isTxnCommitted` and `getOldestActiveTxnId` are the queries that readers and the garbage collector ask.

Transaction ids are 64-bit numbers in the source and natural numbers here: a counter that starts near zero and moves by
one does not wrap in practice.
-/

namespace MiniDb

inductive TxnState where
  | active
  | committed
  | aborted
  deriving DecidableEq, Repr

inductive TxnFinalState where
  | committed
  | aborted
  deriving DecidableEq, Repr

inductive IsolationLevel where
  | snapshot
  | serializable
  deriving DecidableEq, Repr

/-- The kinds of undo records.  The seven kinds for schema changes are one constructor with the
number the source gives them. -/
inductive UndoType where
  | insert
  | delete
  | hotInsert
  | hotDelete
  | ddl (kind : ℕ)
  deriving DecidableEq, Repr

structure UndoRecord where
  type : UndoType
  tableId : ℕ
  rid : RecordId
  deriving DecidableEq, Repr

/-- One entry of a transaction's read set, and of a committed write set. -/
structure ReadRecord where
  tableId : ℕ
  rid : RecordId
  deriving DecidableEq, Repr

/-- One slot of the manager.  A slot with `txnId = 0` was never used. -/
structure TxnSlot where
  txnId : ℕ := kInvalidTxnId
  snapshotId : ℕ := 0
  commitId : ℕ := 0
  state : TxnState := .active
  deriving DecidableEq, Repr

open TxnSlot

/-- A transaction object, owned by the session that began it. -/
structure Transaction where
  id : ℕ
  snapshotId : ℕ
  commitId : ℕ := 0
  state : TxnState := .active
  activeSnapshot : List ℕ
  undoRecords : List UndoRecord := []
  readSet : List ReadRecord := []
  isolation : IsolationLevel := .snapshot
  deriving DecidableEq, Repr

/-- The status log's map from transaction ids to final states.  `isOpen` is false when the log
file could not be opened; `record` then does nothing. -/
structure TxnStatusLog where
  isOpen : Bool
  states : ℕ → Option TxnFinalState

/-- The status log of a new database. -/
def TxnStatusLog.empty : TxnStatusLog := ⟨true, fun _ => none⟩

/-- The empty log knows no transaction. -/
theorem TxnStatusLog.empty_unused : ∀ l ∈ some TxnStatusLog.empty, ∀ c, 1 ≤ c → l.states c = none := by
  rintro l hl c -
  cases hl
  rfl

/-- `TxnStatusLog::record`.  The map is updated before the write and the `fsync`, so their
outcome does not matter to a reader; callers ignore the returned flag. -/
def TxnStatusLog.record (log : TxnStatusLog) (xid : ℕ) (state : TxnFinalState) : TxnStatusLog :=
  if log.isOpen then { log with states := Function.update log.states xid (some state) } else log

/-- The write set of one committed transaction, kept for the serializable mode. -/
structure CommittedWriteSet where
  commitId : ℕ
  txnId : ℕ
  writes : List ReadRecord
  deriving DecidableEq, Repr

structure TransactionManager where
  txnSlots : List TxnSlot
  nextTxnId : ℕ
  defaultIsolation : IsolationLevel
  /-- Absent when the manager runs without a database directory. -/
  statusLog : Option TxnStatusLog
  committedHistory : List CommittedWriteSet

variable {s : TxnSlot} {txn : Transaction}

namespace TxnSlot

/-- The slot of a transaction that is still running. -/
def isActive (s : TxnSlot) : Bool := s.txnId != kInvalidTxnId && s.state == .active

/-- A slot that `begin` may take over: unused, or left by a finished transaction. -/
def isFree (s : TxnSlot) : Bool := s.txnId == kInvalidTxnId || s.state != .active

lemma isActive_iff : s.isActive = true ↔ s.txnId ≠ kInvalidTxnId ∧ s.state = .active := by
  simp [isActive]

end TxnSlot

namespace TransactionManager

section

variable (tm : TransactionManager)

/-- The final state the status log knows for `xid`, if there is a status log. -/
def status (xid : ℕ) : Option TxnFinalState :=
  tm.statusLog.bind fun log => log.states xid

/-- `get_txn_state`: the state of the first slot that carries the id. -/
def getTxnState (xid : ℕ) : Option TxnState :=
  (tm.txnSlots.find? fun s => s.txnId == xid).map state

/-- The ids of the running transactions, in slot order. -/
def activeIds : List ℕ :=
  (tm.txnSlots.filter isActive).map txnId

/-- Change the first slot that satisfies `p`: `begin` does so with a free slot, `commit` and
`rollback` with what `find_active_slot` and `find_slot` return. -/
def modifyFirst (p : TxnSlot → Bool) (f : TxnSlot → TxnSlot) : List TxnSlot → List TxnSlot
  | [] => []
  | s :: ss => if p s then f s :: ss else s :: modifyFirst p f ss

/-- The transaction object that `begin` hands out: it remembers who is running. -/
def newTransaction : Transaction :=
  { id := tm.nextTxnId
    snapshotId := tm.nextTxnId + 1
    activeSnapshot := tm.activeIds
    isolation := tm.defaultIsolation }

/-- What `begin` does to the manager: the first free slot is taken over and an id is drawn. -/
def takeFreeSlot : TransactionManager :=
  { tm with
    txnSlots := modifyFirst isFree
      (fun _ => { txnId := tm.nextTxnId, snapshotId := tm.nextTxnId + 1, commitId := 0
                  state := .active }) tm.txnSlots
    nextTxnId := tm.nextTxnId + 1 }

/-- `begin`, which fails when every slot belongs to a running transaction. -/
def begin : Option (TransactionManager × Transaction) :=
  match tm.txnSlots.find? isFree with
  | none => none
  | some _ => some (tm.takeFreeSlot, tm.newTransaction)

/-- The smallest `key` of a running transaction below `bound`, else `bound`: the loop over the
slots shared by the horizon computations. -/
def oldestBelow (key : TxnSlot → ℕ) (slots : List TxnSlot) (bound : ℕ) : ℕ :=
  slots.foldl (fun acc s => if s.isActive && key s < acc then key s else acc) bound

/-- `prune_committed_history`: keep the write sets that a running transaction may still meet. -/
def pruneCommittedHistory : TransactionManager :=
  if tm.txnSlots.any isActive then
    let oldestSnapshot := oldestBelow snapshotId tm.txnSlots tm.nextTxnId
    { tm with
      committedHistory := tm.committedHistory.filter fun e => oldestSnapshot ≤ e.commitId }
  else { tm with committedHistory := [] }

/-- The section of `commit` under the latch: draw the commit id, flip the slot to committed,
compute the horizon for pruning, and keep the write set.  Returns the manager, the horizon and the
transaction object. -/
def publish (txn : Transaction) : TransactionManager × ℕ × Transaction :=
  let commitId := tm.nextTxnId
  let slots := modifyFirst (fun s => s.txnId == txn.id && s.state == .active)
    (fun s => { s with commitId := commitId, state := .committed }) tm.txnSlots
  let oldestActive := oldestBelow txnId slots (tm.nextTxnId + 1)
  let entry : CommittedWriteSet :=
    { commitId := commitId, txnId := txn.id
      writes := txn.undoRecords.map fun r => ⟨r.tableId, r.rid⟩ }
  (pruneCommittedHistory { tm with
        txnSlots := slots
        nextTxnId := tm.nextTxnId + 1
        committedHistory := tm.committedHistory ++ [entry] },
    oldestActive, { txn with commitId := commitId, state := .committed })

/-- The section of `rollback` under the latch: flip the slot to aborted. -/
def flipAborted (txnId : ℕ) : TransactionManager :=
  { tm with
    txnSlots := modifyFirst (fun s => s.txnId == txnId)
      (fun s => { s with state := .aborted }) tm.txnSlots }

/-- The status-log call of `commit` and `rollback`, skipped when there is no status log. -/
def recordStatus (txnId : ℕ) (state : TxnFinalState) : TransactionManager :=
  { tm with statusLog := tm.statusLog.map fun log => log.record txnId state }

/-- The lambda `is_uncommitted` of `is_visible`: a transaction with neither a status entry nor a
slot is taken to be committed. -/
def isUncommitted (xid : ℕ) : Bool :=
  match tm.status xid with
  | some s => s == .aborted
  | none =>
    match tm.getTxnState xid with
    | some live => live != .committed
    | none => false

/-- `is_visible`: does the transaction see the version stamped `xmin`, `xmax`? -/
def isVisible (xmin xmax : ℕ) (txn : Transaction) : Bool :=
  if xmin = kInvalidTxnId then false
  else if xmin = kFrozenTxnId then xmax == kInvalidTxnId
  else if xmin = txn.id then xmax != txn.id
  else if xmin < txn.snapshotId then
    if txn.activeSnapshot.contains xmin then false
    else if tm.isUncommitted xmin then false
    else if xmax = kInvalidTxnId then true
    else if xmax = txn.id then false
    else if txn.snapshotId ≤ xmax then true
    else if txn.activeSnapshot.contains xmax then true
    else if tm.isUncommitted xmax then true
    else false
  else false

/-- The three tests that `is_visible` makes of a creator and, negated, of a deleter: the id precedes
the snapshot, was not running when the snapshot was taken, and is not known to be uncommitted. -/
def countsAsCommitted (xid : ℕ) (txn : Transaction) : Bool :=
  xid < txn.snapshotId && !txn.activeSnapshot.contains xid && !tm.isUncommitted xid

/-- `is_visible` on a version that another transaction created. -/
lemma isVisible_other {xmin : ℕ} (xmax : ℕ)
    (h0 : xmin ≠ kInvalidTxnId) (h2 : xmin ≠ kFrozenTxnId) (hid : xmin ≠ txn.id) :
    tm.isVisible xmin xmax txn = (tm.countsAsCommitted xmin txn &&
      (xmax == kInvalidTxnId || xmax != txn.id && !tm.countsAsCommitted xmax txn)) := by
  have hdel : (if xmax = kInvalidTxnId then true else if xmax = txn.id then false
      else if txn.snapshotId ≤ xmax then true
      else if txn.activeSnapshot.contains xmax then true
      else if tm.isUncommitted xmax then true
      else false) =
      (xmax == kInvalidTxnId || xmax != txn.id && !tm.countsAsCommitted xmax txn) := by
    unfold countsAsCommitted
    by_cases hm0 : xmax = kInvalidTxnId
    · simp [hm0]
    · by_cases hmid : xmax = txn.id
      · simp [hmid, hmid ▸ hm0]
      · by_cases hlt : txn.snapshotId ≤ xmax
        · simp [hm0, hmid, hlt]
        · have hlt' : xmax < txn.snapshotId := by omega
          cases txn.activeSnapshot.contains xmax <;> cases tm.isUncommitted xmax <;> simp [hm0, hmid, hlt, hlt']
  unfold isVisible
  rw [if_neg h0, if_neg h2, if_neg hid, hdel]
  unfold countsAsCommitted
  by_cases hlt : xmin < txn.snapshotId
  · cases txn.activeSnapshot.contains xmin <;> cases tm.isUncommitted xmin <;> simp [hlt]
  · simp [hlt]

/-- `is_txn_committed`: unlike `isUncommitted` it asks the slots first. -/
def isTxnCommitted (txnId : ℕ) : Bool :=
  match tm.getTxnState txnId with
  | some st => st == .committed
  | none => tm.status txnId == some .committed

def getOldestActiveTxnId : ℕ :=
  oldestBelow txnId tm.txnSlots tm.nextTxnId

end

/-! ## What the sections change -/

lemma modifyFirst_split {p : TxnSlot → Bool} (f : TxnSlot → TxnSlot) :
    ∀ {l : List TxnSlot}, l.find? p = some s →
      p s = true ∧ ∃ l1 l2, l = l1 ++ s :: l2 ∧ modifyFirst p f l = l1 ++ f s :: l2
  | [], h => by cases h
  | a :: l, h => by
      rw [List.find?_cons] at h
      split at h
      · next hp =>
        cases h
        exact ⟨hp, [], l, rfl, by simp [modifyFirst, hp]⟩
      · next hp =>
        obtain ⟨hs, l1, l2, hl, hm⟩ := modifyFirst_split f h
        exact ⟨hs, a :: l1, l2, by rw [hl]; rfl, by simp [modifyFirst, hp, hm]⟩

lemma begin_eq_some {tm tm' : TransactionManager} (h : tm.begin = some (tm', txn)) :
    (∃ s, tm.txnSlots.find? isFree = some s) ∧ tm' = tm.takeFreeSlot ∧ txn = tm.newTransaction := by
  unfold begin at h
  split at h
  · cases h
  · next s hs =>
    cases h
    exact ⟨⟨s, hs⟩, rfl, rfl⟩

section

variable (tm : TransactionManager)

@[simp] lemma takeFreeSlot_status : tm.takeFreeSlot.status = tm.status := rfl

@[simp] lemma pruneCommittedHistory_txnSlots : tm.pruneCommittedHistory.txnSlots = tm.txnSlots := by
  unfold pruneCommittedHistory; split <;> rfl

@[simp] lemma pruneCommittedHistory_nextTxnId : tm.pruneCommittedHistory.nextTxnId = tm.nextTxnId := by
  unfold pruneCommittedHistory; split <;> rfl

@[simp] lemma pruneCommittedHistory_status : tm.pruneCommittedHistory.status = tm.status := by
  unfold pruneCommittedHistory; split <;> rfl

section

variable (txn : Transaction)

@[simp] lemma publish_nextTxnId : (tm.publish txn).1.nextTxnId = tm.nextTxnId + 1 := by
  simp [publish]

@[simp] lemma publish_txnSlots : (tm.publish txn).1.txnSlots =
      modifyFirst (fun s => s.txnId == txn.id && s.state == .active)
        (fun s => { s with commitId := tm.nextTxnId, state := .committed }) tm.txnSlots := by
  simp [publish]

@[simp] lemma publish_status : (tm.publish txn).1.status = tm.status := by
  simp only [publish, pruneCommittedHistory_status]
  rfl

end

@[simp] lemma flipAborted_status (t : ℕ) : (tm.flipAborted t).status = tm.status := rfl

lemma recordStatus_status_of_ne {t c : ℕ} (st : TxnFinalState)
    (h : c ≠ t) : (tm.recordStatus t st).status c = tm.status c := by
  cases hl : tm.statusLog with
  | none => simp [status, recordStatus, hl]
  | some log =>
    simp only [status, recordStatus, hl, Option.map_some, Option.bind_some, TxnStatusLog.record]
    split
    · exact Function.update_of_ne h _ _
    · rfl

/-- The call leaves its own transaction's entry as it was, or sets it to the given state. -/
lemma recordStatus_status_self (t : ℕ) (st : TxnFinalState) : (tm.recordStatus t st).status t = tm.status t ∨
      (tm.recordStatus t st).status t = some st := by
  cases hl : tm.statusLog with
  | none => simp [status, recordStatus, hl]
  | some log =>
    simp only [status, recordStatus, hl, Option.map_some, Option.bind_some, TxnStatusLog.record]
    split
    · right; exact Function.update_self ..
    · left; rfl

end

end TransactionManager

end MiniDb
