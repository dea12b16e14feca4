import MiniDb.Core.Run
import MiniDb.Storage.HeapFile

/-!
# Replay of the write-ahead log

`WalManager::recover` reads the log twice.  The first pass collects the transactions that have a commit record.  The
second pass redoes their data records, takes back what a savepoint record says, and puts the data records of all other
transactions on a list, which is then undone, the last record first.

The records are given with their payloads decoded.  Records that recovery of heap pages does not look at (begin, index,
page allocation, checkpoint and DDL records) are `other`.
-/

namespace MiniDb

open HeapFile

variable {β : Type*}

inductive WalOp (β : Type*) where
  | txnCommit
  | txnAbort
  | insert (table : ℕ) (rid : RecordId) (data : Tuple β) (length : ℕ)
  | delete (table : ℕ) (rid : RecordId)
  | update (table : ℕ) (old new : RecordId) (data : Tuple β) (length : ℕ)
  | savepointUndoInsert (table : ℕ) (rid : RecordId)
  | savepointUndoDelete (table : ℕ) (rid : RecordId)
  | other
  deriving DecidableEq

/-- `is_data_record`. -/
def WalOp.isData : WalOp β → Bool
  | .insert .. => true
  | .delete .. => true
  | .update .. => true
  | _ => false

structure WalRecord (β : Type*) where
  lsn : ℕ
  txnId : ℕ
  op : WalOp β
  deriving DecidableEq

abbrev Heaps (β : Type*) := ℕ → Option (HeapFile β)

/-- The row version at an address, if the slot there is valid. -/
def Heaps.look (hs : Heaps β) (table : ℕ) (rid : RecordId) : SlotView β :=
  match hs table with
  | none => .empty
  | some h => h.look rid

/-- Apply a function to the heap of a table, if there is one. -/
def Heaps.modify (hs : Heaps β) (table : ℕ) (f : HeapFile β → HeapFile β) : Heaps β :=
  match hs table with
  | none => hs
  | some h => Function.update hs table (some (f h))

/-- What the first pass collects. -/
def isCommitted (log : List (WalRecord β)) (t : ℕ) : Bool :=
  log.any fun r => r.txnId == t && match r.op with
    | .txnCommit => true
    | _ => false

namespace HeapFile

section

variable (h : HeapFile β)

/-- Is the page durable at or past the record? -/
def pageDone (pageId lsn : ℕ) : Bool :=
  pageId != kNullPageId && decide (lsn ≤ (h.pages pageId).lsn)

/-- The metadata takes note of a page that it may not know yet. -/
def noteDataPage (pageId : ℕ) : HeapFile β :=
  { h with
    lastDataPage := max h.lastDataPage pageId
    numDataPages := max h.numDataPages pageId }

/-- `recover_insert_at`.  The flag says whether a tuple was written: a page that is past the record,
and a slot that is in use, are left as they are. -/
def recoverInsertAt (rid : RecordId) (data : Tuple β) (length lsn : ℕ) : Option (HeapFile β × Bool) :=
  let p := h.pages rid.pageId
  if lsn ≠ 0 ∧ lsn ≤ p.lsn then some (h.noteDataPage rid.pageId, false)
  else if (p.linePointer rid.slotIdx).isValid then
    some ((h.setPage rid.pageId (stampLsn lsn p)).noteDataPage rid.pageId, false)
  else
    (p.insertTupleAt data length rid.slotIdx).map fun p' =>
      ((h.setPage rid.pageId (stampLsn lsn p')).noteDataPage rid.pageId, true)

/-- The redo of an update.  If the old version cannot be marked and linked, a new version that was
just written is taken back. -/
def redoUpdate (txnId lsn : ℕ) (old new : RecordId) (data : Tuple β) (length : ℕ) : HeapFile β :=
  let oldDone := h.pageDone old.pageId lsn
  let newDone := h.pageDone new.pageId lsn
  if oldDone && newDone then h
  else
    match if newDone then some (h, false) else h.recoverInsertAt new data length lsn with
    | none => h
    | some (h₁, inserted) =>
      if oldDone then h₁
      else
        let h₂ := (h₁.markDeleted old txnId lsn).getD h₁
        let h₃ := (h₂.setNextVersion old new lsn).getD h₂
        if (h₁.markDeleted old txnId lsn).isSome && (h₂.setNextVersion old new lsn).isSome then h₃
        else if inserted then (h₃.rollbackInsert new lsn).getD h₃
        else h₃

/-- `rollback_insert_if_xmin`: free the slot if it still holds a version of the transaction. -/
def rollbackInsertIfXmin (rid : RecordId) (txnId lsn : ℕ) : HeapFile β :=
  let p := h.pages rid.pageId
  match p.tupleAt rid.slotIdx with
  | none => h
  | some t =>
    if kPageSize < (p.linePointer rid.slotIdx).offset + 8 then h
    else if t.xmin ≠ txnId then h
    else (h.rollbackInsert rid lsn).getD h

end

end HeapFile

/-- The state of the second pass. -/
structure Replay (β : Type*) where
  heaps : Heaps β
  /-- The data records to be undone, in the order of the log. -/
  undoRefs : List (WalRecord β)

def redoRecord (committed : ℕ → Bool) (s : Replay β) (r : WalRecord β) : Replay β :=
  let onHeap := fun table f => { s with heaps := s.heaps.modify table f }
  let loser := { s with undoRefs := s.undoRefs ++ [r] }
  match r.op with
  | .savepointUndoInsert table rid =>
    onHeap table fun h =>
      if h.pageDone rid.pageId r.lsn then h else (h.rollbackInsert rid r.lsn).getD h
  | .savepointUndoDelete table rid =>
    onHeap table fun h =>
      if h.pageDone rid.pageId r.lsn then h else (h.rollbackDelete rid r.lsn).getD h
  | .insert table rid data length =>
    if committed r.txnId then
      onHeap table fun h => ((h.recoverInsertAt rid data length r.lsn).map Prod.fst).getD h
    else loser
  | .delete table rid =>
    if committed r.txnId then
      onHeap table fun h =>
        if h.pageDone rid.pageId r.lsn then h else (h.markDeleted rid r.txnId r.lsn).getD h
    else loser
  | .update table old new data length =>
    if committed r.txnId then
      onHeap table fun h => h.redoUpdate r.txnId r.lsn old new data length
    else loser
  | .txnCommit => s
  | .txnAbort => s
  | .other => s

def undoRecord (hs : Heaps β) (r : WalRecord β) : Heaps β :=
  match r.op with
  | .insert table rid _ _ => hs.modify table fun h => h.rollbackInsertIfXmin rid r.txnId r.lsn
  | .delete table rid => hs.modify table fun h => (h.rollbackDelete rid r.lsn).getD h
  | .update table old new _ _ =>
    hs.modify table fun h =>
      ((h.rollbackDelete old r.lsn).getD h).rollbackInsertIfXmin new r.txnId r.lsn
  | _ => hs

def redoPass (log : List (WalRecord β)) (hs : Heaps β) : Replay β :=
  log.foldl (redoRecord (isCommitted log)) ⟨hs, []⟩

def undoPass (refs : List (WalRecord β)) (hs : Heaps β) : Heaps β :=
  refs.reverse.foldl undoRecord hs

/-- `WalManager::recover`, the heap files it leaves. -/
def recover (log : List (WalRecord β)) (hs : Heaps β) : Heaps β :=
  undoPass (redoPass log hs).undoRefs (redoPass log hs).heaps

/-! ## Well-formed heap files -/

/-- Every tuple of every table has room for its header. -/
def Heaps.Ok (hs : Heaps β) : Prop :=
  ∀ table h, hs table = some h → ∀ q, (h.pages q).LengthsOk

/-- The tuples that a record carries are as long as serialised tuples are. -/
def WalOp.LengthsOk : WalOp β → Prop
  | .insert _ _ _ length => LengthOk length
  | .update _ _ _ _ length => LengthOk length
  | _ => True

lemma Heaps.Ok.modify {hs : Heaps β} (hok : hs.Ok) {table : ℕ} {f : HeapFile β → HeapFile β}
    (hf : ∀ h : HeapFile β, (∀ q, (h.pages q).LengthsOk) → ∀ q, ((f h).pages q).LengthsOk) :
    (hs.modify table f).Ok := by
  unfold Heaps.modify
  split
  · exact hok
  · next h hh =>
    intro table' h' hh'
    rcases update_eq_some hh' with ⟨rfl, ⟨⟩⟩ | ⟨-, hh'⟩
    · exact hf h (hok _ h hh)
    · exact hok _ h' hh'

namespace HeapFile

variable {h : HeapFile β}

section

variable (hl : ∀ q, (h.pages q).LengthsOk)
include hl

/-- A function that may fail is applied where it succeeds. -/
lemma lengthsOk_getD {o : Option (HeapFile β)}
    (ho : ∀ h', o = some h' → ∀ q, (h'.pages q).LengthsOk) : ∀ q, ((o.getD h).pages q).LengthsOk := by
  cases o with
  | none => exact hl
  | some h' => exact ho h' rfl

section

variable (rid : RecordId)

lemma lengthsOk_rollbackInsert (lsn : ℕ) : ∀ q, (((h.rollbackInsert rid lsn).getD h).pages q).LengthsOk :=
  lengthsOk_getD hl fun _ hu => (rollbackInsert_eq_some hu).1.lengths hl

lemma lengthsOk_updateTuple {n : ℕ} {f : Tuple β → Tuple β} (lsn : ℕ) :
    ∀ q, (((h.updateTuple rid n f lsn).getD h).pages q).LengthsOk := by
  refine lengthsOk_getD hl fun _ hu => ?_
  obtain ⟨t, -, hw, -⟩ := updateTuple_eq_some hu
  exact hw.lengths hl

lemma lengthsOk_markDeleted (xmax lsn : ℕ) : ∀ q, (((h.markDeleted rid xmax lsn).getD h).pages q).LengthsOk := by
  refine lengthsOk_getD hl fun _ hu => ?_
  obtain ⟨t, -, hw, -⟩ := markDeleted_eq_some hu
  exact hw.lengths hl

lemma lengthsOk_rollbackInsertIfXmin
    (txnId lsn : ℕ) : ∀ q, ((h.rollbackInsertIfXmin rid txnId lsn).pages q).LengthsOk := by
  unfold rollbackInsertIfXmin
  simp only
  split
  · exact hl
  · split_ifs
    · exact hl
    · exact hl
    · exact lengthsOk_rollbackInsert hl rid lsn

end

variable {data : Tuple β} {length lsn : ℕ}

lemma lengthsOk_recoverInsertAt {rid : RecordId} (hlen : LengthOk length) {res : HeapFile β × Bool}
    (hr : h.recoverInsertAt rid data length lsn = some res) : ∀ q, (res.1.pages q).LengthsOk := by
  unfold recoverInsertAt at hr
  simp only at hr
  split_ifs at hr
  · cases hr
    exact hl
  · cases hr
    exact lengthsOk_setPage hl (lengthsOk_stampLsn lsn (hl _))
  · obtain ⟨p, hp, rfl⟩ := Option.map_eq_some_iff.1 hr
    exact lengthsOk_setPage hl (lengthsOk_stampLsn lsn ((hl _).insertTupleAt hlen hp))

lemma lengthsOk_redoUpdate {txnId : ℕ} {old new : RecordId} (hlen : LengthOk length) :
    ∀ q, ((h.redoUpdate txnId lsn old new data length).pages q).LengthsOk := by
  unfold redoUpdate
  simp only
  split
  · exact hl
  split
  · exact hl
  next h₁ inserted hins =>
  have hl1 : ∀ q, (h₁.pages q).LengthsOk := by
    split at hins
    · cases hins
      exact hl
    · exact lengthsOk_recoverInsertAt hl hlen hins
  have hl2 := lengthsOk_markDeleted hl1 old txnId lsn
  split_ifs
  · exact hl1
  · exact lengthsOk_updateTuple hl2 old lsn
  · exact lengthsOk_rollbackInsert (lengthsOk_updateTuple hl2 old lsn) new lsn
  · exact lengthsOk_updateTuple hl2 old lsn

end

end HeapFile

lemma ok_redoRecord {committed : ℕ → Bool} {s : Replay β} {r : WalRecord β} (hok : s.heaps.Ok)
    (hr : r.op.LengthsOk) : (redoRecord committed s r).heaps.Ok := by
  unfold redoRecord
  cases hop : r.op with
  | savepointUndoInsert table rid =>
    refine hok.modify fun h hl => ?_
    split
    · exact hl
    · exact lengthsOk_rollbackInsert hl rid r.lsn
  | savepointUndoDelete table rid =>
    refine hok.modify fun h hl => ?_
    split
    · exact hl
    · exact lengthsOk_updateTuple hl rid r.lsn
  | insert table rid data length =>
    rw [hop] at hr
    simp only
    split
    · refine hok.modify fun h hl => lengthsOk_getD hl fun h' hh' => ?_
      obtain ⟨res, hres, rfl⟩ := Option.map_eq_some_iff.1 hh'
      exact lengthsOk_recoverInsertAt hl hr hres
    · exact hok
  | delete table rid =>
    simp only
    split
    · refine hok.modify fun h hl => ?_
      split
      · exact hl
      · exact lengthsOk_markDeleted hl rid r.txnId r.lsn
    · exact hok
  | update table old new data length =>
    rw [hop] at hr
    simp only
    split
    · exact hok.modify fun h hl => lengthsOk_redoUpdate hl hr
    · exact hok
  | txnCommit | txnAbort | other => exact hok

lemma ok_redoPass {log : List (WalRecord β)} {hs : Heaps β} (hok : hs.Ok)
    (hlog : ∀ r ∈ log, r.op.LengthsOk) : (redoPass log hs).heaps.Ok := by
  unfold redoPass
  generalize isCommitted log = committed
  generalize hs' : (⟨hs, []⟩ : Replay β) = s
  have hs : s.heaps.Ok := hs' ▸ hok
  clear hs' hok
  induction log generalizing s with
  | nil => exact hs
  | cons r log ih =>
    exact ih (fun x hx => hlog x (List.mem_cons_of_mem r hx)) _ (ok_redoRecord hs (hlog r List.mem_cons_self))

lemma undoRefs_redoRecord (committed : ℕ → Bool) (s : Replay β) (r : WalRecord β) :
    (redoRecord committed s r).undoRefs = s.undoRefs ++ if r.op.isData && !committed r.txnId then [r] else [] := by
  unfold redoRecord
  cases r.op <;> cases committed r.txnId <;> simp [WalOp.isData]

/-- The records to be undone are the data records of transactions without a commit record. -/
lemma undoRefs_redoPass (log : List (WalRecord β)) (hs : Heaps β) :
    (redoPass log hs).undoRefs = log.filter fun r => r.op.isData && !isCommitted log r.txnId := by
  unfold redoPass
  generalize isCommitted log = committed
  suffices h : ∀ s : Replay β, (log.foldl (redoRecord committed) s).undoRefs =
      s.undoRefs ++ log.filter fun r => r.op.isData && !committed r.txnId by
    simpa using h ⟨hs, []⟩
  induction log with
  | nil => simp
  | cons r log ih =>
    intro s
    rw [List.foldl_cons, ih, undoRefs_redoRecord, List.filter_cons, List.append_assoc]
    split <;> rfl

end MiniDb
