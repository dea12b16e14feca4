import MiniDb.Transaction.Horizon
import MiniDb.Database.Engine

/-!
# What the actions of the engine do, and what every run keeps

One lemma for each action says everything the action can do (`install_eq_some`, `commitOld_eq_some`, …); the control
actions, which touch neither the table nor the transaction system, share `controlled_of_step`.  Proofs about runs use
these lemmas and do not unfold the actions.

The invariant `EngineInv`: the transaction system and the horizons are in order, the heap is well formed, and every
stamp in it is the id of a transaction that began.
-/

namespace MiniDb

open Function Option Engine HeapFile

/-- The new version of an `UPDATE` whose old version is not stamped yet. -/
def Pc.inFlight {β : Type*} : Pc β → Option RecordId
  | .installed _ new _ _ _ => some new
  | _ => none

/-- The session that takes a control action. -/
def Action.control? {β : Type*} : Action β → Option ℕ
  | .beginStmt t | .scan t _ | .readRow t | .lockRow t | .recheck t | .lockDelete t | .failStmt t
  | .endStmt t => some t
  | _ => none

namespace Engine

variable {β κ : Type*} {e e' : Engine β κ}

/-! ## The fields after an update -/

section

variable (e) (t : ℕ) (st : Stmt β) (pc : Pc β) (h : HeapFile β) (u : List UndoRecord)

@[simp] lemma setPc_heap : (e.setPc t st pc).heap = e.heap := rfl
@[simp] lemma setHeap_heap : (e.setHeap h).heap = h := rfl
@[simp] lemma setUndo_stmts : (e.setUndo t u).stmts = e.stmts := rfl

/-- Undo records play no part in the transaction system. -/
lemma sameTxns_setUndo : SameTxns e.sys (e.setUndo t u).sys := by
  refine ⟨rfl, rfl, fun r => ?_⟩
  simp only [setUndo]
  by_cases hr : r = t
  · subst hr
    rw [update_self, map_map]
    rfl
  · rw [update_of_ne hr]

end

variable {t length lsn : ℕ} {txn : Transaction} {st : Stmt β} {rid : RecordId} {row : β}

lemma running_eq_some : e.running t = some txn ↔ e.sys.sessions t = some ⟨txn, .running⟩ := by
  unfold running
  split
  · next txn' hx => rw [hx]; simp
  · next hx =>
    constructor
    · intro h; cases h
    · intro h; exact absurd h (hx txn)

lemma running_of_same (h : SameTxns e.sys e'.sys)
    (hr : ∃ txn, e.running t = some txn) : ∃ txn, e'.running t = some txn := by
  obtain ⟨txn, hr⟩ := hr
  obtain ⟨txn', hr', -⟩ := h.symm.running (running_eq_some.1 hr)
  exact ⟨txn', running_eq_some.2 hr'⟩

lemma withStmt_eq_some {f : Transaction → Stmt β → Option (Engine β κ)} (h : e.withStmt t f = some e') :
    ∃ txn st, e.running t = some txn ∧ e.stmts t = some st ∧ f txn st = some e' := by
  obtain ⟨txn, htxn, h⟩ := bind_eq_some_iff.1 h
  obtain ⟨st, hst, h⟩ := bind_eq_some_iff.1 h
  exact ⟨txn, st, htxn, hst, h⟩

/-! ## Control actions -/

/-- What a control action may make of a session's statement. -/
inductive StmtMove (e : Engine β κ) (t : ℕ) : Option (Stmt β) → Prop where
  | begin (mark : ℕ) (hst : e.stmts t = none) : StmtMove e t (some ⟨mark, [], .idle⟩)
  | scan (st : Stmt β) (txn : Transaction) (rid : RecordId) (tup : Tuple β)
      (hst : e.stmts t = some st) (hpc : st.pc = .idle) (hnew : rid ∉ st.targets)
      (htup : e.heap.tupleAt rid = some tup) (hr : e.running t = some txn)
      (hvis : e.sys.tm.isVisible tup.xmin tup.xmax txn = true) :
      StmtMove e t (some ⟨st.mark, st.targets ++ [rid], .idle⟩)
  | skip (st : Stmt β) (rid : RecordId) (rest : List RecordId) (hst : e.stmts t = some st)
      (hpc : st.pc = .idle) (htargets : st.targets = rid :: rest) :
      StmtMove e t (some ⟨st.mark, rest, .idle⟩)
  | read (st : Stmt β) (rid : RecordId) (rest : List RecordId) (tup : Tuple β)
      (hst : e.stmts t = some st) (hpc : st.pc = .idle) (htargets : st.targets = rid :: rest)
      (htup : e.heap.tupleAt rid = some tup) :
      StmtMove e t (some ⟨st.mark, rest, .read rid tup.row⟩)
  | lock (st : Stmt β) (rid : RecordId) (row : β) (hst : e.stmts t = some st)
      (hpc : st.pc = .read rid row) : StmtMove e t (some ⟨st.mark, st.targets, .locked rid row⟩)
  | check (st : Stmt β) (rid : RecordId) (row : β) (tup : Tuple β) (hst : e.stmts t = some st)
      (hpc : st.pc = .locked rid row) (htup : e.heap.tupleAt rid = some tup)
      (hxmax : tup.xmax = kInvalidTxnId ∨ tup.xmax = t) :
      StmtMove e t (some ⟨st.mark, st.targets, .checked rid row⟩)
  | lockDelete (st : Stmt β) (rid : RecordId) (rest : List RecordId) (hst : e.stmts t = some st)
      (hpc : st.pc = .idle) (htargets : st.targets = rid :: rest) :
      StmtMove e t (some ⟨st.mark, rest, .deleting rid⟩)
  | fail (st : Stmt β) (targets : List RecordId) (hst : e.stmts t = some st)
      (hpc : st.pc.inFlight = none) (htargets : targets.Sublist st.targets) :
      StmtMove e t (some ⟨st.mark, targets, .failed⟩)
  | finish (st : Stmt β) (hst : e.stmts t = some st) (hpc : st.pc.inFlight = none) :
      StmtMove e t none

lemma StmtMove.failed (hst : e.stmts t = some st) (hpc : st.pc.inFlight = none) :
    StmtMove e t (some { st with pc := .failed }) := .fail st st.targets hst hpc (List.Sublist.refl _)

/-- `e'` is `e` after a control action of session `t`. -/
structure Controlled (e e' : Engine β κ) (t : ℕ) : Prop where
  running : ∃ txn, e.running t = some txn
  sys : e'.sys = e.sys
  table : e'.table = e.table
  pruneQueue : e'.pruneQueue = e.pruneQueue
  ver : e'.ver = e.ver
  nextVer : e'.nextVer = e.nextVer
  superseded : e'.superseded = e.superseded
  stmts : ∃ st', e'.stmts = Function.update e.stmts t st' ∧ StmtMove e t st'

lemma controlled_setStmt {st' : Option (Stmt β)}
    (hr : e.running t = some txn) (hst : StmtMove e t st') : Controlled e (e.setStmt t st') t :=
  ⟨⟨txn, hr⟩, rfl, rfl, rfl, rfl, rfl, rfl, st', rfl, hst⟩

lemma controlled_lockThen {pc : Pc β} (hr : e.running t = some txn)
    (hgrant : StmtMove e t (some { st with pc := pc }))
    (hfail : StmtMove e t (some { st with pc := .failed }))
    (h : e.lockThen t st rid pc = some e') : Controlled e e' t := by
  unfold lockThen at h
  split at h
  · cases h
    exact ⟨⟨txn, hr⟩, rfl, rfl, rfl, rfl, rfl, rfl, _, rfl, hgrant⟩
  · cases h
  · cases h
    exact controlled_setStmt hr hfail

lemma beginStmt_eq_some (h : e.beginStmt t = some e') : Controlled e e' t := by
  obtain ⟨txn, hr, h⟩ := bind_eq_some_iff.1 h
  split at h
  · next hst => cases h; exact controlled_setStmt hr (.begin _ hst)
  · cases h

lemma scan_eq_some (h : e.scan t rid = some e') : Controlled e e' t := by
  obtain ⟨txn, st, hr, hst, h⟩ := withStmt_eq_some h
  split at h
  · next hpc =>
    obtain ⟨tup, htup, h⟩ := bind_eq_some_iff.1 h
    split at h
    · next hc =>
      cases h
      rw [hpc]
      exact controlled_setStmt hr (.scan st txn rid tup hst hpc hc.1 htup hr hc.2)
    · cases h
  · cases h

lemma readRow_eq_some (h : e.readRow t = some e') : Controlled e e' t := by
  obtain ⟨txn, st, hr, hst, h⟩ := withStmt_eq_some h
  split at h
  · next rid rest hpc htg =>
    split at h
    · cases h
      rw [hpc]
      exact controlled_setStmt hr (.skip st rid rest hst hpc htg)
    · next tup htup =>
      cases h
      exact controlled_setStmt hr (.read st rid rest tup hst hpc htg htup)
  · cases h

lemma lockRow_eq_some (h : e.lockRow t = some e') : Controlled e e' t := by
  obtain ⟨txn, st, hr, hst, h⟩ := withStmt_eq_some h
  split at h
  · next rid row hpc => exact controlled_lockThen hr (.lock st rid row hst hpc) (.failed hst (by rw [hpc]; rfl)) h
  · cases h

lemma recheck_eq_some (h : e.recheck t = some e') : Controlled e e' t := by
  obtain ⟨txn, st, hr, hst, h⟩ := withStmt_eq_some h
  split at h
  · next rid row hpc =>
    have hfail := controlled_setStmt hr (.failed hst (by rw [hpc]; rfl))
    split at h
    · cases h; exact hfail
    · next tup htup =>
      split at h
      · cases h; exact hfail
      · next hx =>
        cases h
        exact controlled_setStmt hr (.check st rid row tup hst hpc htup (by tauto))
  · cases h

lemma lockDelete_eq_some (h : e.lockDelete t = some e') : Controlled e e' t := by
  obtain ⟨txn, st, hr, hst, h⟩ := withStmt_eq_some h
  split at h
  · next rid rest hpc htg =>
    refine controlled_lockThen hr (.lockDelete st rid rest hst hpc htg) (.fail st rest hst (by rw [hpc]; rfl) ?_) h
    rw [htg]
    exact List.sublist_cons_self rid rest
  · cases h

lemma failStmt_eq_some (h : e.failStmt t = some e') : Controlled e e' t := by
  obtain ⟨txn, st, hr, hst, h⟩ := withStmt_eq_some h
  split at h
  · cases h
  · next hpc =>
    cases h
    refine controlled_setStmt hr (.failed hst ?_)
    generalize st.pc = pc at hpc
    cases pc with
    | installed old new row hot lsn => exact absurd rfl (hpc old new row hot lsn)
    | _ => rfl

lemma endStmt_eq_some (h : e.endStmt t = some e') : Controlled e e' t := by
  obtain ⟨txn, st, hr, hst, h⟩ := withStmt_eq_some h
  split at h
  · next hpc => cases h; exact controlled_setStmt hr (.finish st hst (by rw [hpc]; rfl))
  · next hpc =>
    split at h
    · cases h; exact controlled_setStmt hr (.finish st hst (by rw [hpc]; rfl))
    · cases h
  · cases h

lemma controlled_of_step [DecidableEq κ] {a : Action β} (h : e.step a = some e')
    (ha : a.control? = some t) : Controlled e e' t := by
  cases a with
  | beginStmt c => cases ha; exact beginStmt_eq_some h
  | scan c rid => cases ha; exact scan_eq_some h
  | readRow c => cases ha; exact readRow_eq_some h
  | lockRow c => cases ha; exact lockRow_eq_some h
  | recheck c => cases ha; exact recheck_eq_some h
  | lockDelete c => cases ha; exact lockDelete_eq_some h
  | failStmt c => cases ha; exact failStmt_eq_some h
  | endStmt c => cases ha; exact endStmt_eq_some h
  | _ => cases ha

/-! ## Actions that write -/

/-- The first version of a row that session `t` writes. -/
def freshTuple (t : ℕ) (row : β) : Tuple β := ⟨t, kInvalidTxnId, kNullPageId, 0, row⟩

lemma install_eq_some [DecidableEq κ] {hot : Bool} (h : e.install t row length lsn hot = some e') :
    ∃ txn st old oldRow hp new, e.running t = some txn ∧ e.stmts t = some st ∧
      st.pc = .checked old oldRow ∧ LengthOk length ∧
      (hot = true → ∀ ix ∈ e.table.indexes, ix.key row = ix.key oldRow) ∧
      (if hot then e.heap.insertVersionInPage old.pageId (freshTuple t row) length lsn
        else e.heap.insertVersion (freshTuple t row) length lsn) = some (hp, new) ∧
      e' = ((e.setHeap hp).newVersion new).setPc t st (.installed old new row hot lsn) := by
  obtain ⟨txn, st, hr, hst, h⟩ := withStmt_eq_some h
  split at h
  · next old oldRow hpc =>
    split at h
    · cases h
    next hlen =>
    split at h
    · cases h
    next hkey =>
    obtain ⟨⟨hp, new⟩, hins, rfl⟩ := map_eq_some_iff.1 h
    have hkeys : hot = true → ∀ ix ∈ e.table.indexes, ix.key row = ix.key oldRow := by
      intro hhot
      simpa [hhot] using hkey
    exact ⟨txn, st, old, oldRow, hp, new, hr, hst, hpc, not_not.1 hlen, hkeys, hins, rfl⟩
  · cases h

lemma commitOld_eq_some (h : e.commitOld t = some e') :
    ∃ txn st old new row hot lsn, e.running t = some txn ∧ e.stmts t = some st ∧
      st.pc = .installed old new row hot lsn ∧ ((e.heap.commitOldTuple old new t lsn = none ∧
          e' = (e.setHeap ((e.heap.rollbackInsert new lsn).getD e.heap)).setPc t st .failed) ∨
        ∃ hp, e.heap.commitOldTuple old new t lsn = some hp ∧ e' = ((((e.setHeap hp).noteSuperseded old t).setUndo t
            (txn.undoRecords ++ updateUndo hot old new)).setPc t st (if hot then .idle else .indexing new row))) := by
  obtain ⟨txn, st, hr, hst, h⟩ := withStmt_eq_some h
  split at h
  · next old new row hot lsn hpc =>
    refine ⟨txn, st, old, new, row, hot, lsn, hr, hst, hpc, ?_⟩
    split at h
    · next hc => cases h; exact Or.inl ⟨hc, rfl⟩
    · next hp hc => cases h; exact Or.inr ⟨hp, hc, rfl⟩
  · cases h

lemma insert_eq_some (h : e.insert t row length lsn = some e') :
    ∃ txn st, e.running t = some txn ∧ e.stmts t = some st ∧ st.pc = .idle ∧ LengthOk length ∧
      ((∃ hp rid lm, e.heap.insertVersion (freshTuple t row) length lsn = some (hp, rid) ∧
          e' = { ((((e.setHeap hp).newVersion rid).setUndo t (txn.undoRecords ++
            [⟨.insert, kTableId, rid⟩])).setPc t st (.indexing rid row)) with locks := lm }) ∨
        Controlled e e' t) := by
  obtain ⟨txn, st, hr, hst, h⟩ := withStmt_eq_some h
  split at h
  · next hpc =>
    split at h
    · cases h
    next hlen =>
    refine ⟨txn, st, hr, hst, hpc, not_not.1 hlen, ?_⟩
    obtain ⟨⟨hp, rid⟩, hins, h⟩ := bind_eq_some_iff.1 h
    simp only at h
    split at h
    · next lm _ => cases h; exact Or.inl ⟨hp, rid, lm, hins, rfl⟩
    · cases h
    · cases h; exact Or.inr (controlled_setStmt hr (.failed hst (by rw [hpc]; rfl)))
  · cases h

lemma indexRow_eq_some (h : e.indexRow t = some e') :
    ∃ txn st new row, e.running t = some txn ∧ e.stmts t = some st ∧ st.pc = .indexing new row ∧
      e' = { e.setPc t st .idle with
        table := { e.table with indexes := insertIndexEntries e.table.indexes row new } } := by
  obtain ⟨txn, st, hr, hst, h⟩ := withStmt_eq_some h
  split at h
  · next new row hpc => cases h; exact ⟨txn, st, new, row, hr, hst, hpc, rfl⟩
  · cases h

lemma delete_eq_some (h : e.delete t lsn = some e') :
    ∃ txn st rid, e.running t = some txn ∧ e.stmts t = some st ∧ st.pc = .deleting rid ∧
      ((e.heap.markDeletedIfCurrent rid t lsn = none ∧ e' = e.setPc t st .failed ∧ Controlled e e' t) ∨
        ∃ hp, e.heap.markDeletedIfCurrent rid t lsn = some hp ∧ e' = ((((e.setHeap hp).noteSuperseded rid t).setUndo t
            (txn.undoRecords ++ [⟨.delete, kTableId, rid⟩])).setPc t st .idle)) := by
  obtain ⟨txn, st, hr, hst, h⟩ := withStmt_eq_some h
  split at h
  · next rid hpc =>
    refine ⟨txn, st, rid, hr, hst, hpc, ?_⟩
    split at h
    · next hc => cases h; exact Or.inl ⟨hc, rfl, controlled_setStmt hr (.failed hst (by rw [hpc]; rfl))⟩
    · next hp hc => cases h; exact Or.inr ⟨hp, hc, rfl⟩
  · cases h

lemma undo_eq_some [DecidableEq κ] (h : e.undo t lsn = some e') :
    ∃ x rec, e.sys.sessions t = some x ∧ x.txn.undoRecords.getLast? = some rec ∧ e.mayUndo t x = true ∧
      e' = (e.applyUndoRecord t lsn rec).setUndo t x.txn.undoRecords.dropLast := by
  obtain ⟨x, hx, h⟩ := bind_eq_some_iff.1 h
  obtain ⟨rec, hrec, h⟩ := bind_eq_some_iff.1 h
  split at h
  · next hmay => cases h; exact ⟨x, rec, hx, hrec, hmay, rfl⟩
  · cases h

lemma prune_eq_some (h : e.prune t lsn = some e') :
    ∃ x o rid rest, e.sys.sessions t = some x ∧ x.phase = .recorded o ∧ e.pruneQueue t = rid :: rest ∧
      e' = { e.setHeap ((e.heap.pruneObsoleteVersion rid o t lsn).getD e.heap) with
        pruneQueue := update e.pruneQueue t rest } := by
  obtain ⟨x, hx, h⟩ := bind_eq_some_iff.1 h
  split at h
  · next o rid rest hph hq => cases h; exact ⟨x, o, rid, rest, hx, hph, hq, rfl⟩
  · cases h

lemma txnStep_eq_some {a : TxnAction} (h : e.txnStep a = some e') :
    e.mayTake a = true ∧ ∃ sys, e.sys.step a = some sys ∧ e' = e.afterTxn sys a := by
  unfold txnStep at h
  split at h
  · next hmay =>
    obtain ⟨sys, hs, rfl⟩ := map_eq_some_iff.1 h
    exact ⟨hmay, sys, hs, rfl⟩
  · cases h

@[simp] lemma afterTxn_sys (e : Engine β κ) (sys : TxnSystem) (a : TxnAction) :
    (e.afterTxn sys a).sys = sys := by cases a <;> rfl

@[simp] lemma afterTxn_heap (e : Engine β κ) (sys : TxnSystem) (a : TxnAction) :
    (e.afterTxn sys a).heap = e.heap := by cases a <;> rfl

end Engine

/-! ## The invariant of the heap -/

/-- The stamps of a tuple are ids of transactions that began, the frozen id or none. -/
def StampsOk {β : Type*} (hist : List TxnEvent) (tup : Tuple β) : Prop :=
  (tup.xmin = kFrozenTxnId ∨ .began tup.xmin ∈ hist) ∧
    (tup.xmax = kInvalidTxnId ∨ .began tup.xmax ∈ hist)

structure HeapInv {β : Type*} (hist : List TxnEvent) (h : HeapFile β) : Prop where
  heapOk : h.HeapOk
  stamps : ∀ rid tup, h.tupleAt rid = some tup → StampsOk hist tup

/-- The heap stays in order and loses no page. -/
def HeapInv.Kept {β : Type*} (hist : List TxnEvent) (h h' : HeapFile β) : Prop :=
  HeapInv hist h' ∧ h.numDataPages ≤ h'.numDataPages

namespace HeapInv

variable {β : Type*} {hist hist' : List TxnEvent} {h h' : HeapFile β} {rid : RecordId}

section

variable (hi : HeapInv hist h)
include hi

lemma mono (hh : ∀ e ∈ hist, e ∈ hist') : HeapInv hist' h :=
  ⟨hi.heapOk, fun rid tup ht => ⟨(hi.stamps rid tup ht).1.imp_right (hh _), (hi.stamps rid tup ht).2.imp_right (hh _)⟩⟩

/-- What is written over a tuple has to be in order, if it is a tuple. -/
lemma write {tup : Tuple β} {v : SlotView β} (ht : h.tupleAt rid = some tup)
    (hw : HeapFile.SlotWrite h h' rid v)
    (hv : ∀ tup', v = .tuple tup' → StampsOk hist tup') : Kept hist h h' := by
  refine ⟨⟨hw.heapOk hi.heapOk fun _ => hi.heapOk.range_of_tupleAt ht, fun r tup' ht' => ?_⟩, hw.numDataPages.ge⟩
  rw [tupleAt_eq_some_iff, hw.look r] at ht'
  split at ht'
  · exact hv tup' ht'
  · exact hi.stamps r tup' (tupleAt_eq_some_iff.2 ht')

lemma insert {t : ℕ} {row : β} (ht : .began t ∈ hist)
    (hins : HeapFile.Inserted h h' rid (freshTuple t row)) : Kept hist h h' := by
  refine ⟨⟨hins.heapOk, fun r tup' ht' => ?_⟩, hins.le_numDataPages⟩
  rw [tupleAt_eq_some_iff, hins.look r] at ht'
  split at ht'
  · cases ht'
    exact ⟨Or.inr ht, Or.inl rfl⟩
  · exact hi.stamps r tup' (tupleAt_eq_some_iff.2 ht')

omit hi in
lemma collected {κ : Type*} {tm : TransactionManager} {oldest : ℕ} {freezing : Bool}
    {tb tb' : GcTable β κ} (hi : HeapInv hist tb.heap)
    (hc : Collected tm oldest freezing tb tb') : Kept hist tb.heap tb'.heap := by
  refine ⟨⟨hc.heapOk hi.heapOk, fun r tup' ht' => ?_⟩, hc.numDataPages.ge⟩
  have hl := hc.look r
  rw [tupleAt_eq_some_iff.1 ht'] at hl
  generalize hv : tb.heap.look r = v at hl
  cases hl with
  | keep => exact hi.stamps r tup' (tupleAt_eq_some_iff.2 hv)
  | freeze tup _ _ => exact ⟨Or.inl rfl, (hi.stamps r tup (tupleAt_eq_some_iff.2 hv)).2⟩

lemma rollbackInsert (rid : RecordId) (lsn : ℕ) : Kept hist h ((h.rollbackInsert rid lsn).getD h) := by
  cases hr : h.rollbackInsert rid lsn with
  | none => exact ⟨hi, le_rfl⟩
  | some h' =>
    have hw := (rollbackInsert_eq_some hr).1
    refine ⟨⟨hw.heapOk hi.heapOk (absurd rfl), fun r tup' ht' => ?_⟩, hw.numDataPages.ge⟩
    rw [getD_some, tupleAt_eq_some_iff, hw.look r] at ht'
    split at ht'
    · cases ht'
    · exact hi.stamps r tup' (tupleAt_eq_some_iff.2 ht')

lemma rollbackDelete (rid : RecordId) (lsn : ℕ) : Kept hist h ((h.rollbackDelete rid lsn).getD h) := by
  cases hr : h.rollbackDelete rid lsn with
  | none => exact ⟨hi, le_rfl⟩
  | some h' =>
    obtain ⟨tup, htup, hw, -⟩ := rollbackDelete_eq_some hr
    refine hi.write htup hw fun tup' heq => ?_
    cases heq
    exact ⟨(hi.stamps rid tup htup).1, Or.inl rfl⟩

lemma prune (rid : RecordId) (o t lsn : ℕ) : Kept hist h ((h.pruneObsoleteVersion rid o t lsn).getD h) := by
  cases hr : h.pruneObsoleteVersion rid o t lsn with
  | none => exact ⟨hi, le_rfl⟩
  | some h' =>
    obtain ⟨-, -, tup, htup, -, hw, -⟩ := pruneObsoleteVersion_eq_some hr
    refine hi.write htup hw fun tup' heq => ?_
    split at heq <;> cases heq

end

end HeapInv

/-! ## The invariant of the engine -/

/-- The row that an `UPDATE` has in hand and has not yet written a new version of. -/
def Pc.oldRid {β : Type*} : Pc β → Option RecordId
  | .read old _ => some old
  | .locked old _ => some old
  | .checked old _ => some old
  | _ => none

def HeapFile.InRange {β : Type*} (h : HeapFile β) (rid : RecordId) : Prop :=
  1 ≤ rid.pageId ∧ rid.pageId ≤ h.numDataPages

/-- What every reachable state of the engine satisfies. -/
structure EngineInv {β κ : Type*} (e : Engine β κ) : Prop where
  txn : TxnInv e.sys
  horizon : HorizonOk e.sys
  heap : HeapInv e.sys.hist e.heap
  range : ∀ t st old, e.stmts t = some st → st.pc.oldRid = some old → e.heap.InRange old
  stmt_running : ∀ t st, e.stmts t = some st → ∃ txn, e.running t = some txn

namespace EngineInv

variable {β κ : Type*} {e e' : Engine β κ}

variable {length lsn : ℕ} {a : TxnAction} {row : β} {st' : Option (Stmt β)} {txn : Transaction}

section

variable (hi : EngineInv e)
include hi

variable {t : ℕ} {hot : Bool}

lemma began (hr : e.running t = some txn) :
    .began t ∈ e.sys.hist := (hi.txn.session_ok t _ (running_eq_some.1 hr)).began

lemma range_update (hst : e'.stmts = update e.stmts t st') (hnum : e.heap.numDataPages ≤ e'.heap.numDataPages)
    (hpc : ∀ st old, st' = some st → st.pc.oldRid = some old → e'.heap.InRange old) :
    ∀ t st old, e'.stmts t = some st → st.pc.oldRid = some old → e'.heap.InRange old := by
  intro t' st old hst' hold
  rw [hst] at hst'
  rcases update_eq_some hst' with ⟨rfl, hs⟩ | ⟨-, hst'⟩
  · exact hpc st old hs hold
  · obtain ⟨h1, h2⟩ := hi.range t' st old hst' hold
    exact ⟨h1, h2.trans hnum⟩

lemma stmt_running_update (hsys : SameTxns e.sys e'.sys) (hr : e.running t = some txn)
    (hst : e'.stmts = update e.stmts t st') : ∀ t st, e'.stmts t = some st → ∃ txn, e'.running t = some txn := by
  intro t' st hst'
  have hrun : ∃ txn, e.running t' = some txn := by
    by_cases ht : t' = t
    · exact ⟨txn, ht ▸ hr⟩
    · rw [hst, update_of_ne ht] at hst'
      exact hi.stmt_running t' st hst'
  exact running_of_same hsys hrun

lemma controlled (hc : Engine.Controlled e e' t) : EngineInv e' := by
  have hheap : e'.heap = e.heap := congrArg GcTable.heap hc.table
  obtain ⟨st', hst', hmove⟩ := hc.stmts
  obtain ⟨txn, hr⟩ := hc.running
  have hsame : SameTxns e.sys e'.sys := by rw [hc.sys]; exact .refl _
  refine ⟨hc.sys ▸ hi.txn, hc.sys ▸ hi.horizon, by rw [hc.sys, hheap]; exact hi.heap, ?_,
    hi.stmt_running_update hsame hr hst'⟩
  refine hi.range_update hst' (by rw [hheap]) fun st old hst hold => ?_
  rw [hheap]
  cases hmove with
  | read st0 rid rest tup hst0 hpc0 htg htup =>
    cases hst
    cases hold
    exact hi.heap.heapOk.range_of_tupleAt htup
  | lock st0 rid row hst0 hpc0 | check st0 rid row tup hst0 hpc0 htup hxmax =>
    cases hst
    exact hi.range t st0 old hst0 (by rw [hpc0]; exact hold)
  | finish => cases hst
  | _ =>
    cases hst
    cases hold

/-- The shape of the actions that write: the transaction system changes at most in undo records,
the heap stays in order, and the session has no row of an `UPDATE` in hand afterwards. -/
lemma written
    (hr : e.running t = some txn) (hsys : SameTxns e.sys e'.sys) (hheap : HeapInv.Kept e.sys.hist e.heap e'.heap)
    (hst : e'.stmts = update e.stmts t st') (hpc : ∀ st, st' = some st → st.pc.oldRid = none) : EngineInv e' := by
  refine ⟨hi.txn.congr hsys, hi.horizon.congr hsys, hsys.hist ▸ hheap.1, ?_, hi.stmt_running_update hsys hr hst⟩
  refine hi.range_update hst hheap.2 fun st old hst' hold => ?_
  rw [hpc st hst'] at hold
  cases hold

lemma written_of_stmts (hsys : SameTxns e.sys e'.sys)
    (hheap : HeapInv.Kept e.sys.hist e.heap e'.heap) (hst : e'.stmts = e.stmts) : EngineInv e' := by
  refine ⟨hi.txn.congr hsys, hi.horizon.congr hsys, hsys.hist ▸ hheap.1, fun t st old h hold => ?_, fun t st h => ?_⟩
  · obtain ⟨h1, h2⟩ := hi.range t st old (hst ▸ h) hold
    exact ⟨h1, h2.trans hheap.2⟩
  · exact running_of_same hsys (hi.stmt_running t st (hst ▸ h))

/-- What `install` writes to the heap: a HOT version goes to the page of the old one and leaves the
visibility bits, any other one clears the bits of its page. -/
lemma install_heap {st : Stmt β} {old new : RecordId} {oldRow : β} {hp : HeapFile β} (hst : e.stmts t = some st)
    (hpc : st.pc = .checked old oldRow) (hlen : LengthOk length)
    (hins : (if hot then e.heap.insertVersionInPage old.pageId (freshTuple t row) length lsn
      else e.heap.insertVersion (freshTuple t row) length lsn) = some (hp, new)) :
    HeapFile.Inserted e.heap hp new (freshTuple t row) ∧ (if hot then hp.vm = e.heap.vm ∧ new.pageId = old.pageId
        else hp.vm = update e.heap.vm new.pageId {}) := by
  cases hot with
  | true =>
    have hrange : e.heap.InRange old := hi.range t st old hst (by rw [hpc]; rfl)
    exact insertVersionInPage_eq_some hlen hi.heap.heapOk hrange hins
  | false => exact insertVersion_eq_some hlen hi.heap.heapOk hins

lemma install [DecidableEq κ] (h : e.install t row length lsn hot = some e') : EngineInv e' := by
  obtain ⟨txn, st, old, oldRow, hp, new, hr, hst, hpc, hlen, -, hins, rfl⟩ :=
    install_eq_some h
  have hkept := hi.heap.insert (hi.began hr) (hi.install_heap hst hpc hlen hins).1
  exact hi.written hr (.refl _) hkept rfl fun st' hst' => by cases hst'; rfl

lemma commitOld (h : e.commitOld t = some e') : EngineInv e' := by
  obtain ⟨txn, st, old, new, row, hot, lsn, hr, hst, hpc, hc⟩ := commitOld_eq_some h
  rcases hc with ⟨-, rfl⟩ | ⟨hp, hc, rfl⟩
  · exact hi.written hr (.refl _) (hi.heap.rollbackInsert new lsn) rfl fun st' hst' => by cases hst'; rfl
  · obtain ⟨tup, htup, hw, -⟩ := commitOldTuple_eq_some hc
    have hkept := hi.heap.write htup hw fun tup' heq => by
      cases heq
      exact ⟨(hi.heap.stamps old tup htup).1, Or.inr (hi.began hr)⟩
    refine hi.written hr (sameTxns_setUndo ..) hkept rfl fun st' hst' => ?_
    cases hst'
    cases hot <;> rfl

lemma insert (h : e.insert t row length lsn = some e') : EngineInv e' := by
  obtain ⟨txn, st, hr, hst, hpc, hlen, ⟨hp, rid, lm, hins, rfl⟩ | hc⟩ := insert_eq_some h
  · have hkept := hi.heap.insert (hi.began hr) (insertVersion_eq_some hlen hi.heap.heapOk hins).1
    exact hi.written hr (sameTxns_setUndo ..) hkept rfl fun st' hst' => by cases hst'; rfl
  · exact hi.controlled hc

lemma indexRow (h : e.indexRow t = some e') : EngineInv e' := by
  obtain ⟨txn, st, new, row, hr, hst, hpc, rfl⟩ := indexRow_eq_some h
  exact hi.written hr (.refl _) ⟨hi.heap, le_rfl⟩ rfl fun st' hst' => by cases hst'; rfl

lemma delete (h : e.delete t lsn = some e') : EngineInv e' := by
  obtain ⟨txn, st, rid, hr, hst, hpc, ⟨-, -, hc⟩ | ⟨hp, hd, rfl⟩⟩ := delete_eq_some h
  · exact hi.controlled hc
  · obtain ⟨tup, htup, -, hw, -⟩ := markDeletedIfCurrent_eq_some hd
    have hkept := hi.heap.write htup hw fun tup' heq => by
      cases heq
      exact ⟨(hi.heap.stamps rid tup htup).1, Or.inr (hi.began hr)⟩
    exact hi.written hr (sameTxns_setUndo ..) hkept rfl fun st' hst' => by cases hst'; rfl

lemma undo [DecidableEq κ] (h : e.undo t lsn = some e') : EngineInv e' := by
  obtain ⟨x, rec, hx, hrec, hmay, rfl⟩ := undo_eq_some h
  obtain ⟨type, tableId, rid⟩ := rec
  cases type with
  | insert | hotInsert => exact hi.written_of_stmts (sameTxns_setUndo ..) (hi.heap.rollbackInsert rid lsn) rfl
  | delete | hotDelete => exact hi.written_of_stmts (sameTxns_setUndo ..) (hi.heap.rollbackDelete rid lsn) rfl
  | ddl => exact hi.written_of_stmts (sameTxns_setUndo ..) ⟨hi.heap, le_rfl⟩ rfl

lemma prune (h : e.prune t lsn = some e') : EngineInv e' := by
  obtain ⟨x, o, rid, rest, hx, hph, hq, rfl⟩ := prune_eq_some h
  exact hi.written_of_stmts (.refl _) (hi.heap.prune rid o t lsn) rfl

end

variable {sys : TxnSystem} {t : ℕ} {st : Stmt β}

lemma afterTxn_stmts (hst : (e.afterTxn sys a).stmts t = some st) : e.stmts t = some st ∧ a ≠ .flip t := by
  cases a with
  | flip t' =>
    have hst : update e.stmts t' none t = some st := hst
    obtain ⟨-, ⟨⟩⟩ | ⟨ht, hst⟩ := update_eq_some hst
    exact ⟨hst, fun h => ht (by cases h; rfl)⟩
  | _ => exact ⟨hst, by simp⟩

section

variable (hi : EngineInv e)
include hi

/-- A session with a statement takes part in no section but the flip. -/
lemma running_of_stmt (hmay : e.mayTake a = true) (hs : e.sys.step a = some sys)
    (hst : e.stmts t = some st) (hflip : a ≠ .flip t) :
    ∃ txn, e.sys.sessions t = some ⟨txn, .running⟩ ∧ sys.sessions t = some ⟨txn, .running⟩ := by
  obtain ⟨txn, hr⟩ := hi.stmt_running t st hst
  have hr := running_eq_some.1 hr
  refine ⟨txn, hr, ?_⟩
  cases TxnSystem.step_cases hs with
  | begin => exact (e.sys.setSession_of_ne _ (hi.txn.session_ne_fresh hr)).trans hr
  | @publish t' =>
    have hne : t ≠ t' := by
      rintro rfl
      simp [mayTake, hst] at hmay
    exact (e.sys.setSession_of_ne _ hne).trans hr
  | @recordCommitted t' txn' o hx | @recordAborted t' txn' hx =>
    have hne : t ≠ t' := by rintro rfl; rw [hr] at hx; cases hx
    exact (e.sys.setSession_of_ne _ hne).trans hr
  | @flip t' =>
    have hne : t ≠ t' := by rintro rfl; exact hflip rfl
    exact (e.sys.setSession_of_ne _ hne).trans hr
  | @finish t' txn' ph hx hph =>
    have hne : t ≠ t' := by
      rintro rfl
      rw [hr] at hx
      cases hx
      rcases hph with ⟨o, h⟩ | h <;> cases h
    exact (e.sys.setSession_of_ne _ hne).trans hr

lemma txnStep (h : e.txnStep a = some e') : EngineInv e' := by
  obtain ⟨hmay, sys, hs, rfl⟩ := txnStep_eq_some h
  refine ⟨?_, ?_, ?_, fun t st old hst hold => ?_, fun t st hst => ?_⟩
  · rw [afterTxn_sys]; exact hi.txn.step hs
  · rw [afterTxn_sys]; exact HorizonOk.step hi.txn hi.horizon hs
  · rw [afterTxn_sys, afterTxn_heap]
    exact hi.heap.mono fun ev hev => hist_of_step hs hev
  · rw [afterTxn_heap]
    exact hi.range t st old (afterTxn_stmts hst).1 hold
  · obtain ⟨hst, hflip⟩ := afterTxn_stmts hst
    obtain ⟨txn, -, hr⟩ := hi.running_of_stmt hmay hs hst hflip
    refine ⟨txn, running_eq_some.2 ?_⟩
    rw [afterTxn_sys]
    exact hr

theorem step [DecidableEq κ] {a : Action β} (h : e.step a = some e') : EngineInv e' := by
  cases a with
  | txn a => exact hi.txnStep h
  | install t row length lsn hot => exact hi.install h
  | commitOld t => exact hi.commitOld h
  | insert t row length lsn => exact hi.insert h
  | indexRow t => exact hi.indexRow h
  | delete t lsn => exact hi.delete h
  | undo t lsn => exact hi.undo h
  | prune t lsn => exact hi.prune h
  | gc maxPages =>
    obtain rfl := some.inj h
    exact hi.written_of_stmts (.refl _) (hi.heap.collected (collected_runGc ..)) rfl
  | vacuum =>
    obtain rfl := some.inj h
    exact hi.written_of_stmts (.refl _) (hi.heap.collected (collected_runVacuum ..)) rfl
  | _ => exact hi.controlled (controlled_of_step h rfl)

/-- The invariant holds after every run. -/
theorem runs [DecidableEq κ] {acts : List (Action β)} (h : MiniDb.runs Engine.step e acts = some e') :
    EngineInv e' :=
  runs_invariant_of_step (fun _ _ _ hi h => hi.step h) hi h

end

lemma init {slotCount next : ℕ} {log : Option TxnStatusLog} (hnext : 0 < next)
    (hlog : ∀ l ∈ log, ∀ c, next ≤ c → l.states c = none) (keys : List (β → κ)) :
    EngineInv (init (TxnSystem.init slotCount next log) keys) := by
  refine ⟨TxnInv.init hnext hlog, ?_, ⟨heapOk_create, ?_⟩, ?_, ?_⟩
  · intro t x o hx; cases hx
  · intro rid tup ht; cases ht
  · intro t st old hst; cases hst
  · intro t st hst; cases hst

end EngineInv

end MiniDb
