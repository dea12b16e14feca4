import MiniDb.Database.UndoLedger
import MiniDb.Database.Verdict

/-!
# Collectors and readers

`run_gc` and `run_vacuum` should be invisible: a transaction that reads the heap afterwards, now or after further
deletes, commits and rollbacks, finds the rows that it would have found without them.  The two runs, with and without
the collector, are compared slot by slot (`Twin`): the slots agree, or the collected version is one that nobody sees
and nobody can bring back (`gone`), or the version was frozen and everybody sees it (`frozen`).

Three things spoil this, and the conditions exclude them:

* the horizon compares ids, while a reader that had the deleter, or the creator of a version to be frozen, in its
  active list still needs the old verdict (`ReadersSafe`);
* a session may hold an undo record for a version that the collector removes, because another transaction has
  overwritten its `xmax` (`CollectSafe`);
* `is_visible` takes any `xmax` on a frozen version for a committed one, so that its first deleter hides it from
  everybody at once (`SparesFrozen`).
-/

namespace MiniDb

open Option Engine HeapFile TxnStatusLog

open TransactionManager

variable {β κ : Type*}

/-! ## The statement -/

/-- The row version that a transaction finds at an address. -/
def Engine.visibleRow (e : Engine β κ) (txn : Transaction) (rid : RecordId) : Option β :=
  (e.heap.tupleAt rid).bind fun tup =>
    if e.sys.tm.isVisible tup.xmin tup.xmax txn then some tup.row else none

open Engine

def Action.isCollector : Action β → Bool
  | .gc _ => true
  | .vacuum => true
  | _ => false

/-- The actions that begins, deletes, commits and rollbacks are made of. -/
def Action.isLater : Action β → Bool
  | .txn _ => true
  | .beginStmt _ => true
  | .scan _ _ => true
  | .lockDelete _ => true
  | .delete _ _ => true
  | .failStmt _ => true
  | .endStmt _ => true
  | .undo _ _ => true
  | .prune _ _ => true
  | _ => false

/-- What could have happened without the collector can happen after it, the same transactions run
then, and each of them sees the same row versions. -/
def CollectsInvisibly [DecidableEq κ] (e : Engine β κ) (a : Action β) (later : List (Action β)) : Prop :=
  ∀ m, runs step e later = some m →
    ∃ e₁ m₁, e.step a = some e₁ ∧ runs step e₁ later = some m₁ ∧
      ∀ r, m₁.running r = m.running r ∧ ∀ txn, m.running r = some txn →
        ∀ rid, m₁.visibleRow txn rid = m.visibleRow txn rid

/-- The pages that a collector looks at. -/
def Engine.Visits (e : Engine β κ) : Action β → ℕ → Prop
  | .gc maxPages, pageId => pageId ∈ gcPages e.table maxPages
  | .vacuum, pageId => (e.heap.vm pageId).frozen = false
  | _, _ => False

/-- On the pages that the collector visits: no running transaction that had the deleter of a
garbage version in its active list counts the creator as committed, and no running transaction has
the creator of a version to be frozen in its active list. -/
def ReadersSafe (e : Engine β κ) (a : Action β) : Prop :=
  ∀ rid tup, e.Visits a rid.pageId → e.heap.tupleAt rid = some tup →
    (isGarbage e.sys.tm e.sys.tm.getOldestActiveTxnId tup = true →
      ∀ r txn, e.running r = some txn → tup.xmax ∈ txn.activeSnapshot →
        tup.xmin = kFrozenTxnId ∨ e.sys.tm.countsAsCommitted tup.xmin txn = false) ∧
    (a = .vacuum → isFreezable e.sys.tm e.sys.tm.getOldestActiveTxnId tup = true →
      ∀ r txn, e.running r = some txn → tup.xmin ∉ txn.activeSnapshot)

/-- Besides, no session can still take back the deletion of a garbage version. -/
def CollectSafe (e : Engine β κ) (a : Action β) : Prop :=
  ReadersSafe e a ∧ ∀ rid tup, e.Visits a rid.pageId → e.heap.tupleAt rid = some tup →
    isGarbage e.sys.tm e.sys.tm.getOldestActiveTxnId tup = true → ∀ t, .stamp rid ∉ e.ledger t

/-- A `DELETE` does not mark a version that is frozen now and was not frozen in `h₀`. -/
def SparesFrozen (h₀ : HeapFile β) (e : Engine β κ) : Action β → Prop
  | .delete t _ => ∀ st rid tup, e.stmts t = some st → st.pc = .deleting rid →
      e.heap.tupleAt rid = some tup → tup.xmin = kFrozenTxnId →
        ∃ tup₀, h₀.tupleAt rid = some tup₀ ∧ tup₀.xmin = kFrozenTxnId
  | _ => True

/-! ## The relation between the two runs -/

/-- The slot `rid` without and with the collector.  `h₀` is the heap when the collector ran, and
`free` says that nobody can take back a deletion at `rid`. -/
inductive Twin (sys : TxnSystem) (h₀ : HeapFile β) (free : RecordId → Prop) (rid : RecordId) :
    SlotView β → SlotView β → Prop where
  | same (v : SlotView β) : Twin sys h₀ free rid v v
  | gone (v v' : SlotView β) (hv : ∀ tup, v = .tuple tup → Hidden sys tup)
      (hv' : v'.tuple? = none) (hfree : free rid) : Twin sys h₀ free rid v v'
  | frozen (tup : Tuple β) (hx : tup.xmax = kInvalidTxnId) (hs : Settled sys tup.xmin)
      (hnew : ∀ tup₀, h₀.tupleAt rid = some tup₀ → tup₀.xmin ≠ kFrozenTxnId) :
      Twin sys h₀ free rid (.tuple tup) (.tuple tup.freeze)

variable {sys : TxnSystem} {h₀ : HeapFile β} {free free' : RecordId → Prop} {rid : RecordId} {v v' : SlotView β}

section

variable (h : Twin sys h₀ free rid v v')
include h

lemma Twin.mono {sys' : TxnSystem} (hhid : ∀ tup : Tuple β, Hidden sys tup → Hidden sys' tup)
    (hset : ∀ c, Settled sys c → Settled sys' c) (hfree : free rid → free' rid) : Twin sys' h₀ free' rid v v' := by
  cases h with
  | same => exact .same v
  | gone _ _ hv hv' hf => exact .gone v v' (fun tup ht => hhid tup (hv tup ht)) hv' (hfree hf)
  | frozen tup hx hs hnew => exact .frozen tup hx (hset _ hs) hnew

/-- Taking a deletion back does the same to both, unless the version is gone. -/
lemma Twin.rollbackDelete (hnot : ¬ free rid) : Twin sys h₀ free' rid (v.mapTuple fun t =>
        { t with xmax := kInvalidTxnId, nextPage := kNullPageId, nextSlot := 0 }) (v'.mapTuple fun t =>
        { t with xmax := kInvalidTxnId, nextPage := kNullPageId, nextSlot := 0 }) := by
  cases h with
  | same => exact .same _
  | gone _ _ _ _ hf => exact absurd hf hnot
  | frozen tup hx hs hnew => exact .frozen { tup with xmax := _, nextPage := _, nextSlot := _ } rfl hs hnew

/-- A commit prunes neither a version that is gone nor one that nobody has deleted. -/
lemma Twin.prune (num oldest xmax : ℕ) :
    Twin sys h₀ free rid (pruneView rid.pageId num oldest xmax v) (pruneView rid.pageId num oldest xmax v') := by
  cases h with
  | same => exact .same _
  | gone _ _ hv hv' hf =>
    refine .gone _ _ (fun tup heq => ?_) ?_ hf
    · cases v with
      | tuple t =>
        simp only [pruneView] at heq
        split_ifs at heq <;> cases heq <;> exact hv _ rfl
      | redirect n => cases heq
      | empty => cases heq
    · cases v' with
      | tuple t => cases hv'
      | redirect n => rfl
      | empty => rfl
  | frozen tup hx hs hnew =>
    have hcond : ¬ (xmax ≠ kInvalidTxnId ∧ xmax < oldest ∧ tup.xmax = xmax) := by
      rintro ⟨h0, -, rfl⟩
      exact h0 hx
    have hkeep : pruneView rid.pageId num oldest xmax (.tuple tup) = .tuple tup :=
      if_neg hcond
    have hkeep' : pruneView rid.pageId num oldest xmax (.tuple tup.freeze) = .tuple tup.freeze := if_neg hcond
    rw [hkeep, hkeep']
    exact .frozen tup hx hs hnew

end

variable {rid : RecordId} {lsn : ℕ}

namespace Engine

/-- The same engine with another table. -/
def withTable (e : Engine β κ) (tb : GcTable β κ) : Engine β κ := { e with table := tb }

/-- No session can take back a deletion at `rid`. -/
def Free (e : Engine β κ) (rid : RecordId) : Prop := ∀ t, .stamp rid ∉ e.ledger t

/-- `tb` is the table of the run with the collector. -/
structure Twins (h₀ : HeapFile β) (e : Engine β κ) (tb : GcTable β κ) : Prop where
  inv : EngineInv e
  inv' : EngineInv (e.withTable tb)
  numTuples : ∀ q, (tb.heap.pages q).numTuples = (e.heap.pages q).numTuples
  twin : ∀ rid, Twin e.sys h₀ e.Free rid (e.heap.look rid) (tb.heap.look rid)

variable {h₀ : HeapFile β} {e e' : Engine β κ} {tb : GcTable β κ} {t : ℕ}

lemma Twins.visibleRow (h : Twins h₀ e tb) {r : ℕ} {txn : Transaction}
    (hr : e.running r = some txn) (rid : RecordId) :
    (e.withTable tb).visibleRow txn rid = e.visibleRow txn rid := by
  have hr := running_eq_some.1 hr
  have ht := h.twin rid
  show (tb.heap.tupleAt rid).bind (fun tup =>
    if e.sys.tm.isVisible tup.xmin tup.xmax txn then some tup.row else none) = _
  rw [Engine.visibleRow, HeapFile.tupleAt_eq_look, HeapFile.tupleAt_eq_look]
  generalize e.heap.look rid = v at ht
  generalize tb.heap.look rid = v' at ht
  cases ht with
  | same => rfl
  | gone _ _ hv hv' _ =>
    rw [hv']
    cases v with
    | tuple tup =>
      have hf := isVisible_of_hidden h.inv.txn (hv tup rfl) hr
      simp [SlotView.tuple?, hf]
    | redirect n => rfl
    | empty => rfl
  | frozen tup hx hs _ =>
    have hv : AllVisible e.sys tup := ⟨hx, .inr hs⟩
    have hv' : AllVisible e.sys tup.freeze := ⟨hx, .inl rfl⟩
    simp only [SlotView.tuple?, bind_some, isVisible_of_allVisible h.inv.txn hv hr,
      isVisible_of_allVisible h.inv.txn hv' hr, if_true]
    rfl

/-! ## Actions that do not look at the table -/

lemma running_withTable : (e.withTable tb).running t = e.running t := rfl

lemma stmts_withTable : (e.withTable tb).stmts = e.stmts := rfl

lemma heap_withTable : (e.withTable tb).heap = tb.heap := rfl

lemma withStmt_withTable {f : Transaction → Stmt β → Option (Engine β κ)}
    {f' : Transaction → Stmt β → Option (Engine β κ)}
    (hf : ∀ txn st, f' txn st = (f txn st).map fun e => e.withTable tb) :
    (e.withTable tb).withStmt t f' = (e.withStmt t f).map fun e => e.withTable tb := by
  rw [withStmt, withStmt, running_withTable, stmts_withTable]
  cases e.running t with
  | none => rfl
  | some txn =>
    cases e.stmts t with
    | none => rfl
    | some st => exact hf txn st

lemma beginStmt_withTable : (e.withTable tb).beginStmt t = (e.beginStmt t).map fun e => e.withTable tb := by
  rw [beginStmt, beginStmt, running_withTable, stmts_withTable]
  cases e.running t with
  | none => rfl
  | some txn =>
    cases e.stmts t with
    | none => rfl
    | some st => rfl

lemma lockDelete_withTable : (e.withTable tb).lockDelete t = (e.lockDelete t).map fun e => e.withTable tb := by
  refine withStmt_withTable fun txn st => ?_
  split
  · next rid rest _ _ =>
    rw [lockThen, lockThen, show (e.withTable tb).locks = e.locks from rfl]
    cases e.locks.lockRecord t rid .rowExclusive <;> rfl
  · rfl

lemma failStmt_withTable : (e.withTable tb).failStmt t = (e.failStmt t).map fun e => e.withTable tb := by
  refine withStmt_withTable fun txn st => ?_
  split <;> rfl

lemma endStmt_withTable : (e.withTable tb).endStmt t = (e.endStmt t).map fun e => e.withTable tb := by
  refine withStmt_withTable fun txn st => ?_
  split
  · rfl
  · split <;> rfl
  · rfl

section

variable (h : Twins h₀ e tb)
include h

lemma Twins.controlled (hc : Controlled e e' t)
    (hc' : Controlled (e.withTable tb) (e'.withTable tb) t) : Twins h₀ e' tb := by
  have hheap : e'.heap = e.heap := congrArg GcTable.heap hc.table
  refine ⟨h.inv.controlled hc, h.inv'.controlled hc', ?_, fun rid => ?_⟩
  · rw [hheap]
    exact h.numTuples
  · rw [hheap, hc.sys]
    refine (h.twin rid).mono (fun _ => id) (fun _ => id) fun hf t' => ?_
    rw [ledger_of_controlled hc]
    exact hf t'

lemma Twins.blind {f : Engine β κ → Option (Engine β κ)}
    (hf : f (e.withTable tb) = (f e).map fun e => e.withTable tb)
    (hctl : ∀ {e e' : Engine β κ}, f e = some e' → Controlled e e' t) (hstep : f e = some e') :
    f (e.withTable tb) = some (e'.withTable tb) ∧ Twins h₀ e' tb := by
  have hf' : f (e.withTable tb) = some (e'.withTable tb) := by rw [hf, hstep]; rfl
  exact ⟨hf', h.controlled (hctl hstep) (hctl hf')⟩

lemma Twins.scan (hstep : e.scan t rid = some e') :
    (e.withTable tb).scan t rid = some (e'.withTable tb) ∧ Twins h₀ e' tb := by
  obtain ⟨txn, st, hr, hst, hf⟩ := withStmt_eq_some hstep
  split at hf
  · next hpc =>
    obtain ⟨tup, htup, hf⟩ := bind_eq_some_iff.1 hf
    split at hf
    · next hc =>
      cases hf
      have hrow := h.visibleRow hr rid
      have hsee : e.visibleRow txn rid = some tup.row := by
        simp [Engine.visibleRow, htup, hc.2]
      rw [hsee] at hrow
      obtain ⟨tup', htup', hv⟩ := bind_eq_some_iff.1 hrow
      have hvis := (ite_none_right_eq_some.1 hv).1
      have hscan : (e.withTable tb).scan t rid = some ((e.setStmt t
          (some { st with targets := st.targets ++ [rid] })).withTable tb) := by
        show ((e.running t).bind fun txn => (e.stmts t).bind fun st => _) = _
        rw [hr, hst]
        simp only [bind_some, hpc]
        show (tb.heap.tupleAt rid).bind _ = _
        rw [show tb.heap.tupleAt rid = some tup' from htup', bind_some, if_pos ⟨hc.1, hvis⟩]
        rfl
      exact ⟨hscan, h.controlled (scan_eq_some hstep) (scan_eq_some hscan)⟩
    · cases hf
  · cases hf

lemma Twins.txnStep {a : TxnAction} (hstep : e.txnStep a = some e') :
    (e.withTable tb).txnStep a = some (e'.withTable tb) ∧ Twins h₀ e' tb := by
  obtain ⟨hmay, sys, hs, rfl⟩ := txnStep_eq_some hstep
  have hmay' : (e.withTable tb).mayTake a = true := by cases a <;> exact hmay
  have hafter : (e.withTable tb).afterTxn sys a = (e.afterTxn sys a).withTable tb := by
    cases a <;> rfl
  have hstep' : (e.withTable tb).txnStep a = some ((e.afterTxn sys a).withTable tb) := by
    rw [txnStep, if_pos hmay', ← hafter]
    show (e.sys.step a).map _ = _
    rw [hs]
    rfl
  refine ⟨hstep', h.inv.txnStep hstep, h.inv'.txnStep hstep', ?_, fun rid => ?_⟩
  · rw [afterTxn_heap]
    exact h.numTuples
  · rw [afterTxn_heap, afterTxn_sys]
    refine (h.twin rid).mono (fun _ hh => hh.step hs) (fun _ hc => hc.step hs) fun hf t' hmem => ?_
    exact hf t' ((ledger_of_txnStep h.inv hs t').mem hmem)

end

/-! ## Actions that write to the heap -/

section

variable (h : Twins h₀ e tb)
include h

lemma Twins.written {tb' : GcTable β κ} (rid : RecordId) (v v' : SlotView β)
    (hinv : EngineInv e') (hinv' : EngineInv (e'.withTable tb')) (hsys : SameTxns e.sys e'.sys)
    (hnum : ∀ q, (e'.heap.pages q).numTuples = (e.heap.pages q).numTuples)
    (hnum' : ∀ q, (tb'.heap.pages q).numTuples = (tb.heap.pages q).numTuples)
    (hlook : ∀ r, e'.heap.look r = if r = rid then v else e.heap.look r)
    (hlook' : ∀ r, tb'.heap.look r = if r = rid then v' else tb.heap.look r)
    (hfree : ∀ r, r ≠ rid → e.Free r → e'.Free r) (htwin : Twin e'.sys h₀ e'.Free rid v v') : Twins h₀ e' tb' := by
  refine ⟨hinv, hinv', fun q => ?_, fun r => ?_⟩
  · rw [hnum, hnum', h.numTuples]
  · rw [hlook r, hlook' r]
    by_cases hr : r = rid
    · rw [if_pos hr, if_pos hr, hr]
      exact htwin
    · rw [if_neg hr, if_neg hr]
      exact (h.twin r).mono (fun _ hh => hh.congr hsys) (fun _ hc => hc.congr hsys) (hfree r hr)

/-- A deletion that is refused in one run is refused in the other, and a deletion that succeeds
succeeds in the other. -/
lemma Twins.delete (hspare : SparesFrozen h₀ (e.withTable tb) (.delete t lsn : Action β))
    (hstep : e.delete t lsn = some e') :
    ∃ tb', (e.withTable tb).delete t lsn = some (e'.withTable tb') ∧ Twins h₀ e' tb' := by
  obtain ⟨txn, st, rid, hr, hst, hpc, hcase⟩ := delete_eq_some hstep
  have htwin := h.twin rid
  rcases hcase with ⟨hnone, rfl, hc⟩ | ⟨hp, hsome, rfl⟩
  · -- refused: there is no version, or another transaction has marked it
    have hnone' : tb.heap.markDeletedIfCurrent rid t lsn = none := by
      by_contra hne
      obtain ⟨hp', hsome'⟩ := ne_none_iff_exists'.1 hne
      obtain ⟨tup', htup', hcur, -⟩ := markDeletedIfCurrent_eq_some hsome'
      rw [tupleAt_eq_some_iff.1 htup'] at htwin
      have hex : ∃ tup, e.heap.look rid = .tuple tup ∧ (tup.xmax = kInvalidTxnId ∨ tup.xmax = t) := by
        generalize hv : e.heap.look rid = v at htwin
        cases htwin with
        | same => exact ⟨tup', rfl, hcur⟩
        | gone _ _ _ hv' _ => cases hv'
        | frozen tup hx => exact ⟨tup, rfl, .inl hx⟩
      obtain ⟨tup, htup, hx⟩ := hex
      obtain ⟨h', hh'⟩ := markDeletedIfCurrent_isSome h.inv.heap.heapOk.lengths (tupleAt_eq_some_iff.2 htup) hx lsn
      exact absurd (hnone.symm.trans hh') (by simp)
    have hstep' : (e.withTable tb).delete t lsn = some ((e.setPc t st .failed).withTable tb) := by
      simp only [delete, withStmt, running_withTable, stmts_withTable, heap_withTable, hr, hst, bind_some, hpc, hnone']
      rfl
    refine ⟨tb, hstep', h.controlled hc ?_⟩
    exact controlled_setStmt (e := e.withTable tb) hr (.failed hst (by rw [hpc]; rfl))
  · obtain ⟨tup, htup, hcur, hw, -⟩ := markDeletedIfCurrent_eq_some hsome
    rw [tupleAt_eq_some_iff.1 htup] at htwin
    -- what is marked is the same version in both runs
    have htup' : tb.heap.tupleAt rid = some tup := by
      rw [tupleAt_eq_some_iff]
      generalize hv : tb.heap.look rid = v at htwin
      cases htwin with
      | same => rfl
      | gone _ _ hh _ _ =>
        exfalso
        have hcom := (hh tup rfl).1
        have hbegan := h.inv.txn.histOk.began_of_mem hcom
        rcases hcur with h0 | ht
        · exact h.inv.txn.began_ne _ hbegan h0
        · have hrun := (h.inv.txn.session_ok t _ (running_eq_some.1 hr)).phase
          exact hrun.2.1 (ht ▸ hcom)
      | frozen _ _ _ hnew =>
        exfalso
        obtain ⟨tup₀, htup0, hfr⟩ := hspare st rid tup.freeze hst hpc (tupleAt_eq_some_iff.2 hv) rfl
        exact hnew tup₀ htup0 hfr
    obtain ⟨hp', hsome'⟩ : ∃ hp', tb.heap.markDeletedIfCurrent rid t lsn = some hp' :=
      markDeletedIfCurrent_isSome h.inv'.heap.heapOk.lengths htup' hcur lsn
    obtain ⟨tup1, htup1, -, hw', -⟩ := markDeletedIfCurrent_eq_some hsome'
    obtain rfl : tup1 = tup := some.inj (htup1.symm.trans htup')
    set e2 := (((e.setHeap hp).noteSuperseded rid t).setUndo t
      (txn.undoRecords ++ [⟨.delete, kTableId, rid⟩])).setPc t st .idle with he2
    have hstep' : (e.withTable tb).delete t lsn = some (e2.withTable { tb with heap := hp' }) := by
      simp only [delete, withStmt, running_withTable, stmts_withTable, heap_withTable, hr, hst, bind_some, hpc, hsome']
      rfl
    have hr2 : e2.running t = some { txn with undoRecords := txn.undoRecords ++ [⟨.delete, kTableId, rid⟩] } :=
      running_setUndo hr _
    have hst2 : e2.stmts = Function.update e.stmts t (some { st with pc := .idle }) := rfl
    have hs2 : ∀ t', t' ≠ t → e2.sys.sessions t' = e.sys.sessions t' :=
      fun t' ht => sessions_setUndo_of_ne ht _
    have hledger := ledger_eq_update hs2 hst2 hr2
    have hold : e.ledger t = txn.undoRecords.filterMap UndoRecord.entry? ++ [] := by
      rw [ledger_of_running hr hst, hpc]
      rfl
    refine ⟨_, hstep', h.written rid _ _ (h.inv.delete hstep) (h.inv'.delete hstep')
      (sameTxns_setUndo ..) (numTuples_markDeletedIfCurrent hsome)
      (numTuples_markDeletedIfCurrent hsome') hw.look hw'.look ?_ (.same _)⟩
    intro r hne hf t' hmem
    rw [hledger] at hmem
    rcases LedgerOk.mem_update hmem with ⟨rfl, hmem⟩ | ⟨-, hmem⟩
    · refine hf t' ?_
      rw [hold]
      simpa [UndoRecord.entry?, hne] using hmem
    · exact hf t' hmem

/-- Undo does the same to both heaps, since nobody can take back the deletion of a version that is
gone. -/
lemma Twins.undo [DecidableEq κ] (hstep : e.undo t lsn = some e') :
    ∃ tb', (e.withTable tb).undo t lsn = some (e'.withTable tb') ∧ Twins h₀ e' tb' := by
  obtain ⟨x, rec, hx, hrec, hmay, rfl⟩ := undo_eq_some hstep
  obtain ⟨hL, hledger⟩ := ledger_of_undo h.inv hx hmay hrec (n := lsn)
  obtain ⟨type, tableId, rid⟩ := rec
  set rec : UndoRecord := ⟨type, tableId, rid⟩ with hrec'
  set e2 := (e.applyUndoRecord t lsn rec).setUndo t x.txn.undoRecords.dropLast with he2
  set tb' := ((e.withTable tb).applyUndoRecord t lsn rec).table with htb'
  have hstep' : (e.withTable tb).undo t lsn = some (e2.withTable tb') := by
    show ((e.sys.sessions t).bind fun x => (x.txn.undoRecords.getLast?).bind fun rec =>
      if e.mayUndo t x then _ else none) = _
    rw [hx, bind_some, hrec, bind_some, if_pos hmay, he2, htb']
    unfold applyUndoRecord
    split <;> rfl
  have hfree : ∀ r, e.Free r → e2.Free r := by
    intro r hf t' hmem
    rw [hledger] at hmem
    exact hf t' ((LedgerOk.sublist_update hL t').mem hmem)
  have hsys : SameTxns e.sys e2.sys := by
    have hs := sameTxns_setUndo (e.applyUndoRecord t lsn rec) t x.txn.undoRecords.dropLast
    rwa [applyUndoRecord_sys] at hs
  have hinv := h.inv.undo hstep
  have hinv' := h.inv'.undo hstep'
  refine ⟨tb', hstep', ?_⟩
  cases type with
  | insert | hotInsert =>
    exact h.written rid .empty .empty hinv hinv' hsys (numTuples_rollbackInsert rid lsn)
      (numTuples_rollbackInsert rid lsn) (look_rollbackInsert rid lsn) (look_rollbackInsert rid lsn)
      (fun r _ => hfree r) (.same _)
  | delete | hotDelete =>
    have hstamp : .stamp rid ∈ e.ledger t := by
      rw [hL, hrec']
      simp [UndoRecord.entry?]
    refine h.written rid _ _ hinv hinv' hsys (numTuples_rollbackDelete rid lsn) (numTuples_rollbackDelete rid lsn)
      (look_rollbackDelete h.inv.heap.heapOk.lengths rid lsn)
      (look_rollbackDelete h.inv'.heap.heapOk.lengths rid lsn) (fun r _ => hfree r) ?_
    exact ((h.twin rid).mono (fun _ hh => hh.congr hsys) (fun _ hc => hc.congr hsys)
      (fun hf => hf)).rollbackDelete fun hf => hf t hstamp
  | ddl d =>
    refine ⟨hinv, hinv', h.numTuples, fun r => ?_⟩
    exact (h.twin r).mono (fun _ hh => hh.congr hsys) (fun _ hc => hc.congr hsys) (hfree r)

lemma Twins.prune (hstep : e.prune t lsn = some e') :
    ∃ tb', (e.withTable tb).prune t lsn = some (e'.withTable tb') ∧ Twins h₀ e' tb' := by
  obtain ⟨x, o, rid, rest, hx, hph, hq, rfl⟩ := prune_eq_some hstep
  set hp' := (tb.heap.pruneObsoleteVersion rid o t lsn).getD tb.heap with hhp'
  have hstep' : (e.withTable tb).prune t lsn = some (({ e.setHeap
      ((e.heap.pruneObsoleteVersion rid o t lsn).getD e.heap) with
        pruneQueue := Function.update e.pruneQueue t rest }).withTable { tb with heap := hp' }) := by
    have hx' : (e.withTable tb).sys.sessions t = some x := hx
    have hq' : (e.withTable tb).pruneQueue t = rid :: rest := hq
    simp only [prune, hx', bind_some, hph, hq']
    rfl
  have hlook := look_pruneObsoleteVersion h.inv.heap.heapOk.lengths rid o t lsn
  have hlook' : ∀ r, hp'.look r = _ :=
    look_pruneObsoleteVersion (h := tb.heap) h.inv'.heap.heapOk.lengths rid o t lsn
  refine ⟨_, hstep', h.written rid _ _ (h.inv.prune hstep) (h.inv'.prune hstep') (SameTxns.refl _)
    (numTuples_pruneObsoleteVersion rid o t lsn)
    (numTuples_pruneObsoleteVersion rid o t lsn) hlook hlook' (fun r _ hf => hf) ?_⟩
  rw [h.numTuples]
  exact (h.twin rid).prune _ o t

/-- **Related states stay related** when both take the same action. -/
theorem Twins.step [DecidableEq κ] {b : Action β} (hb : b.isLater = true)
    (hspare : SparesFrozen h₀ (e.withTable tb) b) (hstep : e.step b = some e') :
    ∃ tb', (e.withTable tb).step b = some (e'.withTable tb') ∧ Twins h₀ e' tb' := by
  cases b with
  | txn a => exact ⟨tb, h.txnStep hstep⟩
  | beginStmt t => exact ⟨tb, h.blind beginStmt_withTable beginStmt_eq_some hstep⟩
  | scan t rid => exact ⟨tb, h.scan hstep⟩
  | lockDelete t => exact ⟨tb, h.blind lockDelete_withTable lockDelete_eq_some hstep⟩
  | delete t lsn => exact h.delete hspare hstep
  | failStmt t => exact ⟨tb, h.blind failStmt_withTable failStmt_eq_some hstep⟩
  | endStmt t => exact ⟨tb, h.blind endStmt_withTable endStmt_eq_some hstep⟩
  | undo t lsn => exact h.undo hstep
  | prune t lsn => exact h.prune hstep
  | _ => cases hb

end

end Engine

/-! ## What the collector leaves behind -/

section

variable {e : Engine β κ} {tup : Tuple β}

lemma hidden_of_isGarbage (hi : EngineInv e) (htup : e.heap.tupleAt rid = some tup)
    (hg : isGarbage e.sys.tm e.sys.tm.getOldestActiveTxnId tup = true)
    (hsafe : ∀ r txn, e.running r = some txn → tup.xmax ∈ txn.activeSnapshot →
      tup.xmin = kFrozenTxnId ∨ e.sys.tm.countsAsCommitted tup.xmin txn = false) : Hidden e.sys tup := by
  simp only [isGarbage, Bool.and_eq_true, bne_iff_ne, decide_eq_true_eq] at hg
  obtain ⟨⟨⟨⟨⟨-, hcmin⟩, -⟩, hx⟩, hcmax⟩, hlt⟩ := hg
  obtain ⟨hbmin, hbmax⟩ := hi.heap.stamps rid tup htup
  have hcom : .committed tup.xmax ∈ e.sys.hist :=
    hi.txn.committed_of_isTxnCommitted (hbmax.resolve_left hx) hcmax
  refine ⟨hcom, hbmin.imp_right fun hb => hi.txn.committed_of_isTxnCommitted hb hcmin, ?_⟩
  intro r txn hr
  by_cases hmem : tup.xmax ∈ txn.activeSnapshot
  · refine (hsafe r txn (running_eq_some.2 hr) hmem).imp_right fun hf => .inl fun hb => ?_
    rw [countsAsCommitted_of_before hi.txn hr hb] at hf
    cases hf
  · have hltr := hlt.trans_le (hi.txn.oldestActive_le hr)
    exact .inr (.inr ((committedBefore_iff hi.txn hr hcom).2 ⟨hltr, hmem⟩))

lemma settled_of_isFreezable (hi : EngineInv e) (htup : e.heap.tupleAt rid = some tup)
    (hf : isFreezable e.sys.tm e.sys.tm.getOldestActiveTxnId tup = true)
    (hsafe : ∀ r txn, e.running r = some txn → tup.xmin ∉ txn.activeSnapshot) :
    tup.xmax = kInvalidTxnId ∧ tup.xmin ≠ kFrozenTxnId ∧ Settled e.sys tup.xmin := by
  simp only [isFreezable, Bool.and_eq_true, bne_iff_ne, beq_iff_eq, decide_eq_true_eq] at hf
  obtain ⟨⟨⟨⟨h2, -⟩, hc⟩, hlt⟩, hx⟩ := hf
  have hb := (hi.heap.stamps rid tup htup).1.resolve_left h2
  refine ⟨hx, h2, settled_of_lt hi.txn (hi.txn.committed_of_isTxnCommitted hb hc) ?_ ?_⟩
  · exact fun r txn hr => hlt.trans_le (hi.txn.oldestActive_le hr)
  · exact fun r txn hr => hsafe r txn (running_eq_some.2 hr)

lemma twins_of_collected [DecidableEq κ] (hi : EngineInv e) {a : Action β} {freezing : Bool}
    {tb : GcTable β κ} (hfreezing : freezing = true → a = .vacuum)
    (hc : Collected e.sys.tm e.sys.tm.getOldestActiveTxnId freezing e.table tb)
    (hout : ∀ rid, ¬ e.Visits a rid.pageId → tb.heap.look rid = e.heap.look rid)
    (hinv' : EngineInv (e.withTable tb)) (hsafe : CollectSafe e a) : e.Twins e.heap tb := by
  refine ⟨hi, hinv', hc.numTuples, fun rid => ?_⟩
  by_cases hv : e.Visits a rid.pageId
  · have hl := hc.look rid
    have hs := fun tup htup => hsafe.1 rid tup hv (tupleAt_eq_some_iff.2 htup)
    change CollectStep _ _ _ _ (e.heap.look rid) _ at hl
    generalize hlook : e.heap.look rid = v at hl
    generalize tb.heap.look rid = v' at hl
    have hgone : ∀ tup, e.heap.look rid = .tuple tup →
        isGarbage e.sys.tm e.sys.tm.getOldestActiveTxnId tup = true → ∀ v' : SlotView β,
          v'.tuple? = none → Twin e.sys e.heap e.Free rid (.tuple tup) v' := by
      intro tup hlook hg v' hv'
      have htup := tupleAt_eq_some_iff.2 hlook
      refine .gone _ _ (fun tup' heq => ?_) hv' (hsafe.2 rid tup hv htup hg)
      cases heq
      exact hidden_of_isGarbage hi htup hg ((hs tup hlook).1 hg)
    cases hl with
    | keep => exact .same _
    | redirect tup hg | remove tup hg => exact hgone tup hlook hg _ rfl
    | freeze tup hfr hf =>
      have htup := tupleAt_eq_some_iff.2 hlook
      obtain ⟨hx, h2, hset⟩ := settled_of_isFreezable hi htup hf ((hs tup hlook).2 (hfreezing hfr) hf)
      refine .frozen tup hx hset fun tup₀ htup0 => ?_
      cases htup.symm.trans htup0
      exact h2
  · rw [hout rid hv]
    exact .same _

end

/-- **Collectors are invisible when nobody still needs the old verdicts.**  In every reachable state
that meets the condition, whatever begins, deletes, commits and rollbacks follow, they find what
they would have found without the collector, as long as no deletion marks a version that this call
has frozen. -/
theorem collectsInvisibly_of_safe [DecidableEq κ] {slotCount next : ℕ} {log : Option TxnStatusLog}
    (hnext : 0 < next) (hlog : ∀ l ∈ log, ∀ c, next ≤ c → l.states c = none)
    (keys : List (β → κ)) {acts : List (Action β)} {e : Engine β κ}
    (hrun : runs Engine.step (Engine.init (TxnSystem.init slotCount next log) keys) acts = some e)
    {a : Action β} (ha : a.isCollector = true) (hsafe : CollectSafe e a)
    {later : List (Action β)} (hlater : ∀ b ∈ later, b.isLater = true)
    (hspare : ∀ e₁, e.step a = some e₁ →
      StepsMeet Engine.step (SparesFrozen e.heap) e₁ later) : CollectsInvisibly e a later := by
  have hi := (EngineInv.init hnext hlog keys).runs hrun
  -- both collectors leave a related table
  have hstart : ∃ tb, e.step a = some (e.withTable tb) ∧ e.Twins e.heap tb := by
    cases a with
    | gc maxPages =>
      have hstep : e.step (.gc maxPages) =
          some (e.withTable (runGc e.sys.tm maxPages e.table)) := rfl
      refine ⟨_, hstep, twins_of_collected hi (fun h => (by cases h)) (collected_runGc ..) ?_
        (hi.step hstep) hsafe⟩
      exact fun rid hv => look_runGc_of_notMem _ hv
    | vacuum =>
      have hstep : e.step .vacuum = some (e.withTable (runVacuum e.sys.tm e.table)) := rfl
      refine ⟨_, hstep, twins_of_collected hi (fun _ => rfl) (collected_runVacuum ..) ?_ (hi.step hstep) hsafe⟩
      intro rid hv
      exact look_runVacuum_of_frozen _ (Bool.eq_true_of_not_eq_false hv)
    | _ => cases ha
  obtain ⟨tb, hstep, htwins⟩ := hstart
  intro m hm
  -- the two runs side by side
  have hmeet : StepsMeet step (fun e₁ b => b.isLater = true ∧ SparesFrozen e.heap e₁ b)
      (e.withTable tb) later :=
    (StepsMeet.of_forall fun b hb _ => hlater b hb).and (hspare _ hstep)
  obtain ⟨m₁, hm1, tb', rfl, htw⟩ := runs_simulation
    (R := fun s s1 => ∃ tb, s1 = s.withTable tb ∧ s.Twins e.heap tb)
    (fun s s1 b s' ⟨tb, heq, htw⟩ ⟨hb, hsp⟩ hs => by
      subst heq
      obtain ⟨tb', hs', htw'⟩ := htw.step hb hsp hs
      exact ⟨_, hs', tb', rfl, htw'⟩)
    ⟨tb, rfl, htwins⟩ hmeet hm
  exact ⟨_, _, hstep, hm1, fun r => ⟨rfl, fun txn hr rid => htw.visibleRow hr rid⟩⟩

/-- Transaction 1 inserts a row and commits; transaction 3 deletes it and commits. -/
def insertThenDelete : List (Action ℕ) :=
  [.txn .begin] ++ insertStmt 1 7 40 1 ++ commitTxn 1 ++ [.txn (.finish 1)] ++
    [.txn .begin] ++ deleteStmt 3 ⟨1, 0⟩ 2 ++ commitTxn 3

/-- `run_gc` collects the row, and the rest of the commit and a later reader do not notice. -/
theorem collectsInvisibly_deleted_row :
    ∃ e, runs Engine.step (Engine.init (TxnSystem.init 4 1 (some TxnStatusLog.empty))
        ([] : List (ℕ → ℕ))) insertThenDelete = some e ∧
      CollectsInvisibly e (.gc 10) [.prune 3 3, .txn (.finish 3), .txn .begin] := by
  obtain ⟨e, he, hrun⟩ : ∃ e, runs step (init (TxnSystem.init 4 1
      (some empty)) ([] : List (ℕ → ℕ))) insertThenDelete = some e ∧
      ∀ ev ∈ e.sys.hist, e.running ev.txn = none ∧ e.ledger ev.txn = [] := exists_run (by decide +kernel)
  have hi := (EngineInv.init (by decide) empty_unused []).runs he
  have hidle : ∀ r txn, e.running r ≠ some txn := fun r txn hr => by
    cases hr.symm.trans (hrun _ (hi.began hr)).1
  refine ⟨e, he, collectsInvisibly_of_safe (by decide) empty_unused [] he rfl ?_ ?_ ?_⟩
  · refine ⟨fun rid tup _ _ => ⟨fun _ r txn hr => absurd hr (hidle r txn), fun h => by cases h⟩,
      fun rid tup _ _ _ t hmem => ?_⟩
    rw [show e.ledger t = [] from (hrun _ (began_of_mem_ledger hi.txn hmem)).2] at hmem
    cases hmem
  · decide
  · intro e₁ _
    refine StepsMeet.of_forall fun b hb s => ?_
    cases b with
    | delete t lsn => simp at hb
    | _ => trivial

def insertOnly : List (Action ℕ) :=
  [.txn .begin] ++ insertStmt 1 7 40 1 ++ commitTxn 1 ++ [.txn (.finish 1)]

/-- Transactions 3 and 4 begin, and 3 deletes the row. -/
def deleteUnderReaders : List (Action ℕ) :=
  [.txn .begin, .txn .begin] ++ deleteStmt 3 ⟨1, 0⟩ 2

/-- If `run_vacuum` freezes the row in between, transaction 4 misses it: any `xmax` on a frozen
version counts as committed. -/
theorem frozen_row_missed :
    ¬ ∀ e, runs Engine.step (Engine.init (TxnSystem.init 4 1 (some TxnStatusLog.empty))
        ([] : List (ℕ → ℕ))) insertOnly = some e →
      CollectsInvisibly e .vacuum deleteUnderReaders := by
  intro hall
  obtain ⟨m, hm⟩ := isSome_iff_exists.1 (show (runs step (init (.init 4 1 (some empty)) ([] : List (ℕ → ℕ)))
    (insertOnly ++ deleteUnderReaders)).isSome = true by decide +kernel)
  obtain ⟨e, he, hm'⟩ := runs_append_eq_some.1 hm
  obtain ⟨e₁, m₁, hstep, hm1, hsame⟩ := hall e he m hm'
  have hrun1 : runs step
      (init (.init 4 1 (some empty)) ([] : List (ℕ → ℕ)))
      (insertOnly ++ .vacuum :: deleteUnderReaders) = some m₁ :=
    runs_append_eq_some.2 ⟨e, he, runs_cons_eq_some.2 ⟨e₁, hstep, hm1⟩⟩
  have hsees := runs_eval (f := fun m => (m.running 4).map fun txn => m.visibleRow txn ⟨1, 0⟩)
    (v := some (some 7)) (by decide +kernel) hm
  have hmisses := runs_eval (f := fun m => (m.running 4).map fun txn => m.visibleRow txn ⟨1, 0⟩)
    (v := some none) (by decide +kernel) hrun1
  obtain ⟨txn, hr, hsees⟩ := map_eq_some_iff.1 hsees
  obtain ⟨hrunning, hrows⟩ := hsame 4
  rw [hrunning, hr, map_some, hrows txn hr, hsees] at hmisses
  cases hmisses

end MiniDb
