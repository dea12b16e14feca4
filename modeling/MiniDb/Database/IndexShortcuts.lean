import MiniDb.Database.CollectorInvisible
import MiniDb.Database.VisibilityMap
import MiniDb.Executor.IndexBatch

/-!
# When the shortcuts of an index agree with its scan

The index-only scan and `fast_count` take the entries of a page that the visibility map shows as all-visible for rows,
without a look at the heap.  They are right as long as no such entry is stale.

**Where stale entries come from.**  The pruning of a commit frees the slot of a deleted row and leaves its entry;
`run_gc` then finds only visible rows on the page and marks it.  Nothing else makes an entry of a marked page stale: a
marked page has no deleted rows to prune or collect, and what is inserted, updated or deleted clears the bits, the
steps that `BitsSafe` excludes apart.

**The invariant.**  `EntriesInv`: of a marked page, no transaction has a write that it could still take back or has
still to put into the indexes, and every entry that points to it leads, over at most one redirect, to a row with its
key.  It is kept by every step that meets `BitsSafe` and `MarksCovered`: the collectors mark no page that has a stale
entry.  Each step other than a collection `Spares` the marked pages.

**The result.**  `shortcutsSound_of_marksCovered`: in every state of such a run, for every running reader, index and
range.
-/

namespace MiniDb

open List Option Engine HeapFile

variable {β κ : Type*}

/-- The new version that a statement has in hand. -/
def Pc.newRid : Pc β → Option RecordId
  | .installed _ new _ _ _ => some new
  | .indexing new _ => some new
  | _ => none

/-- The entries of the index that point to the page. -/
def TableIndex.onPage (ix : TableIndex β κ) (pageId : ℕ) : List (κ × RecordId) :=
  ix.entries.filter fun entry => entry.2.pageId = pageId

/-- The entries that point to the page are all different and lead, over at most one redirect, to rows with their
keys. -/
structure TableIndex.Covered (ix : TableIndex β κ) (h : HeapFile β) (pageId : ℕ) : Prop where
  nodup : (ix.onPage pageId).Nodup
  leads : ∀ entry ∈ ix.onPage pageId, ∃ t, h.tupleAt (h.visibleSlot entry.2) = some t ∧ ix.key t.row = entry.1

/-- The versions written by a transaction that may still take them back or has to put them into the indexes. -/
def Engine.unsettled (e : Engine β κ) (t : ℕ) : List RecordId :=
  (e.ledger t).map Entry.cell ++ ((e.stmts t).bind fun st => st.pc.newRid).toList

/-- Nothing on the page is unsettled, and no entry that points to it is stale. -/
structure Engine.Covered (e : Engine β κ) (pageId : ℕ) : Prop where
  settled : ∀ t, ∀ rid ∈ e.unsettled t, rid.pageId ≠ pageId
  indexes : ∀ ix ∈ e.table.indexes, ix.Covered e.heap pageId

/-- The collectors mark only pages without stale entries. -/
def MarksCovered (e : Engine β κ) : Action β → Prop
  | .gc maxPages => ∀ pageId ∈ gcPages e.table maxPages,
      (∀ i tup, e.heap.tupleAt ⟨pageId, i⟩ = some tup →
        isAllVisibleTuple e.sys.tm e.sys.tm.getOldestActiveTxnId tup = true) → e.Covered pageId
  | .vacuum => ∀ pageId, e.heap.InRange ⟨pageId, 0⟩ → (e.heap.vm pageId).frozen = false →
      (∀ i tup, e.heap.tupleAt ⟨pageId, i⟩ = some tup →
        isFreezable e.sys.tm e.sys.tm.getOldestActiveTxnId tup = true ∨ tup.xmin = kFrozenTxnId) → e.Covered pageId
  | _ => True

/-- The entries of marked pages are not stale; entries and unsettled versions lie on pages of the heap. -/
structure EntriesInv (e : Engine β κ) : Prop where
  marked : ∀ pageId, e.heap.Marked pageId → e.Covered pageId
  entries : ∀ ix ∈ e.table.indexes, ∀ entry ∈ ix.entries, e.heap.InRange entry.2
  unsettled : ∀ t, ∀ rid ∈ e.unsettled t, e.heap.InRange rid

/-! ## What is unsettled -/

namespace Engine

variable {e e' : Engine β κ} {t t' : ℕ} {txn : Transaction} {st : Stmt β} {rid : RecordId}

lemma mem_unsettled_running (hr : e.running t = some txn) (hst : e.stmts t = some st) : rid ∈ e.unsettled t ↔
    rid ∈ (txn.undoRecords.filterMap UndoRecord.entry?).map Entry.cell ∨ st.pc.newRid = some rid := by
  -- a version in flight is the new version in hand
  have hflight : rid ∈ (st.pc.inFlight.toList.map Entry.fill).map Entry.cell → st.pc.newRid = some rid := by
    cases st.pc <;> simp [Pc.inFlight, Pc.newRid, Entry.cell, eq_comm]
  simp only [unsettled, ledger_of_running hr hst, hst, map_append, mem_append, bind_some, Option.mem_toList]
  tauto

lemma unsettled_congr (hs : e'.ledger t = e.ledger t) (hst : e'.stmts t = e.stmts t) :
    e'.unsettled t = e.unsettled t := by
  rw [unsettled, unsettled, hs, hst]

/-- A control action has no new version in hand, before or after. -/
lemma unsettled_of_controlled (hc : Controlled e e' t) (hmem : rid ∈ e'.unsettled t') :
    rid ∈ e.unsettled t' := by
  obtain ⟨st', hst', hmove⟩ := hc.stmts
  by_cases ht : t' = t
  · subst ht
    rw [unsettled, ledger_of_controlled hc, hst', Function.update_self] at hmem
    have hnone : (st'.bind fun st => st.pc.newRid) = none := by cases hmove <;> rfl
    rw [hnone, toList_none, append_nil] at hmem
    exact mem_append_left _ hmem
  · rwa [unsettled_congr (congrFun (ledger_of_controlled hc) t') (by rw [hst', Function.update_of_ne ht])] at hmem

lemma unsettled_of_txnStep (hi : EngineInv e) {a : TxnAction} {sys : TxnSystem} (hs : e.sys.step a = some sys)
    (hmem : rid ∈ (e.afterTxn sys a).unsettled t) : rid ∈ e.unsettled t := by
  rcases mem_append.1 hmem with hmem | hmem
  · exact mem_append_left _ (((ledger_of_txnStep hi hs t).map Entry.cell).subset hmem)
  · obtain ⟨st, hst, hnew⟩ := bind_eq_some_iff.1 (Option.mem_toList.1 hmem)
    refine mem_append_right _ (Option.mem_toList.2 (bind_eq_some_iff.2 ⟨st, ?_, hnew⟩))
    exact (EngineInv.afterTxn_stmts hst).1

end Engine

/-! ## Steps that spare the marked pages -/

/-- Pages that are marked afterwards were marked before and are as they were. -/
structure HeapSpared (h h' : HeapFile β) : Prop where
  numDataPages : h.numDataPages ≤ h'.numDataPages
  marked : ∀ pageId, h'.Marked pageId → h.Marked pageId
  look : ∀ rid, h'.Marked rid.pageId → h'.look rid = h.look rid

section

variable {h h' : HeapFile β} {rid : RecordId}

lemma HeapSpared.refl (h : HeapFile β) : HeapSpared h h :=
  ⟨le_rfl, fun _ => id, fun _ _ => rfl⟩

lemma HeapSpared.inRange (hs : HeapSpared h h') (hr : h.InRange rid) : h'.InRange rid :=
  ⟨hr.1, hr.2.trans hs.numDataPages⟩

/-- A write to a slot of a page that is not marked afterwards. -/
lemma heapSpared_write {v : SlotView β} (hnum : h.numDataPages ≤ h'.numDataPages)
    (hmarked : ∀ pageId, h'.Marked pageId → h.Marked pageId)
    (hlook : ∀ r, h'.look r = if r = rid then v else h.look r) (hrid : ¬ h'.Marked rid.pageId) : HeapSpared h h' := by
  refine ⟨hnum, hmarked, fun r hm => ?_⟩
  rw [hlook, if_neg]
  rintro rfl
  exact hrid hm

/-- A write that leaves the bits alone, to a slot of a page that is not marked. -/
lemma HeapFile.SlotWrite.spared {v : SlotView β} (hw : SlotWrite h h' rid v) (hvm : h'.vm = h.vm)
    (hrid : ¬ h.Marked rid.pageId) : HeapSpared h h' :=
  heapSpared_write hw.numDataPages.ge (fun _ => marked_of_vm_eq hvm) hw.look fun hm => hrid (marked_of_vm_eq hvm hm)

lemma heapSpared_rollbackInsert (hrid : ¬ h.Marked rid.pageId) (lsn : ℕ) :
    HeapSpared h ((h.rollbackInsert rid lsn).getD h) := by
  cases hr : h.rollbackInsert rid lsn with
  | none => exact .refl h
  | some h' =>
    obtain ⟨hw, hvm⟩ := rollbackInsert_eq_some hr
    exact hw.spared hvm hrid

lemma heapSpared_rollbackDelete (hrid : ¬ h.Marked rid.pageId) (lsn : ℕ) :
    HeapSpared h ((h.rollbackDelete rid lsn).getD h) := by
  cases hr : h.rollbackDelete rid lsn with
  | none => exact .refl h
  | some h' =>
    obtain ⟨tup, -, hw, hvm⟩ := rollbackDelete_eq_some hr
    exact hw.spared hvm hrid

end

/-- The index gets no entries on marked pages, and its new ones point to pages of the heap. -/
structure IndexSpared (h : HeapFile β) (ix ix' : TableIndex β κ) : Prop where
  key : ix'.key = ix.key
  onPage : ∀ pageId, h.Marked pageId → (ix'.onPage pageId).Sublist (ix.onPage pageId)
  entries : ∀ entry ∈ ix'.entries, entry ∈ ix.entries ∨ h.InRange entry.2

lemma indexSpared_refl (h : HeapFile β) (ixs : List (TableIndex β κ)) : Forall₂ (IndexSpared h) ixs ixs :=
  forall₂_same.2 fun _ _ => ⟨rfl, fun _ _ => .refl _, fun _ hmem => .inl hmem⟩

lemma indexSpared_delete [DecidableEq κ] (h : HeapFile β) (ixs : List (TableIndex β κ)) (row : β)
    (rid : RecordId) :
    Forall₂ (IndexSpared h) ixs (deleteIndexEntries ixs row rid) :=
  forall₂_map_right_iff.2 (forall₂_same.2 fun _ _ => ⟨rfl, fun _ _ => erase_sublist.filter _,
    fun _ hmem => .inl (erase_sublist.subset hmem)⟩)

/-- A step that leaves the marked pages, the entries that point to them and the unsettled versions there alone. -/
structure Spares (e e' : Engine β κ) : Prop where
  heap : HeapSpared e.heap e'.heap
  indexes : Forall₂ (IndexSpared e'.heap) e.table.indexes e'.table.indexes
  unsettled : ∀ t, ∀ rid ∈ e'.unsettled t,
    rid ∈ e.unsettled t ∨ e'.heap.InRange rid ∧ ¬ e'.heap.Marked rid.pageId

section

variable {e e' : Engine β κ} {t lsn : ℕ} {rid : RecordId}

lemma visibleSlot_pageId (h : HeapFile β) (rid : RecordId) : (h.visibleSlot rid).pageId = rid.pageId := by
  unfold HeapFile.visibleSlot
  split
  · split <;> rfl
  · rfl

lemma HeapSpared.visibleSlot {h h' : HeapFile β} (hs : HeapSpared h h') (hm : h'.Marked rid.pageId) :
    h'.visibleSlot rid = h.visibleSlot rid := by
  rw [HeapFile.visibleSlot, HeapFile.visibleSlot, hs.look rid hm]

lemma TableIndex.Covered.spared {h h' : HeapFile β} {ix ix' : TableIndex β κ} {pageId : ℕ}
    (hc : ix.Covered h pageId)
    (hs : HeapSpared h h') (hix : IndexSpared h' ix ix') (hm : h'.Marked pageId) : ix'.Covered h' pageId := by
  refine ⟨hc.nodup.sublist (hix.onPage pageId hm), fun entry hmem => ?_⟩
  obtain ⟨t, ht, hkey⟩ := hc.leads entry ((hix.onPage pageId hm).subset hmem)
  have hpage : entry.2.pageId = pageId := of_decide_eq_true (mem_filter.1 hmem).2
  refine ⟨t, ?_, hix.key ▸ hkey⟩
  rw [hs.visibleSlot (hpage ▸ hm), tupleAt_eq_look, hs.look _ (by rwa [visibleSlot_pageId, hpage])]
  exact ht

/-- **What a step that spares the marked pages keeps.** -/
lemma EntriesInv.spared (he : EntriesInv e) (hs : Spares e e') : EntriesInv e' where
  marked pageId hm := by
    have hcov := he.marked pageId (hs.heap.marked pageId hm)
    refine ⟨fun t rid hmem heq => ?_, fun ix' hix' => ?_⟩
    · rcases hs.unsettled t rid hmem with hold | ⟨-, hnot⟩
      · exact hcov.settled t rid hold heq
      · exact hnot (heq ▸ hm)
    · obtain ⟨ix, hix, hspared⟩ := exists_mem_of_forall₂ hs.indexes hix'
      exact (hcov.indexes ix hix).spared hs.heap hspared hm
  entries ix' hix' entry hmem := by
    obtain ⟨ix, hix, hspared⟩ := exists_mem_of_forall₂ hs.indexes hix'
    exact (hspared.entries entry hmem).elim (fun hold => hs.heap.inRange (he.entries ix hix entry hold)) id
  unsettled t rid hmem :=
    (hs.unsettled t rid hmem).elim (fun hold => hs.heap.inRange (he.unsettled t rid hold)) And.left

variable {txn txn' : Transaction} {st st' : Stmt β} {recs : List UndoRecord}

/-- A write of session `t` spares the marked pages if it does so in heap and indexes, and what it adds to the undo
records or has in hand lies elsewhere. -/
lemma spares_write (hr : e.running t = some txn) (hst : e.stmts t = some st) (heap : HeapSpared e.heap e'.heap)
    (indexes : Forall₂ (IndexSpared e'.heap) e.table.indexes e'.table.indexes)
    (hsess : ∀ t', t' ≠ t → e'.sys.sessions t' = e.sys.sessions t')
    (hst' : e'.stmts = Function.update e.stmts t (some st')) (hr' : e'.running t = some txn')
    (hundo : txn'.undoRecords = txn.undoRecords ++ recs)
    (hnew : ∀ rid, rid ∈ (recs.filterMap UndoRecord.entry?).map Entry.cell ∨ st'.pc.newRid = some rid →
      rid ∈ e.unsettled t ∨ e'.heap.InRange rid ∧ ¬ e'.heap.Marked rid.pageId) : Spares e e' := by
  refine ⟨heap, indexes, fun t' rid hmem => ?_⟩
  by_cases ht : t' = t
  · subst ht
    rw [mem_unsettled_running hr' (by rw [hst', Function.update_self]), hundo, filterMap_append, map_append,
      mem_append] at hmem
    rcases hmem with (hold | hmem) | hmem
    · exact .inl ((mem_unsettled_running hr hst).2 (.inl hold))
    · exact hnew rid (.inl hmem)
    · exact hnew rid (.inr hmem)
  · have hstmt : ∀ t', t' ≠ t → e'.stmts t' = e.stmts t' := fun t' ht => by rw [hst', Function.update_of_ne ht]
    have hledger : e'.ledger t' = e.ledger t' := by rw [ledger_update hsess hstmt, Function.update_of_ne ht]
    exact .inl (unsettled_congr hledger (hstmt t' ht) ▸ hmem)

/-- The page of an unsettled version is not marked. -/
lemma EntriesInv.not_marked (he : EntriesInv e) (hmem : rid ∈ e.unsettled t) : ¬ e.heap.Marked rid.pageId :=
  fun hm => (he.marked rid.pageId hm).settled t rid hmem rfl

lemma spares_of_controlled (hc : Controlled e e' t) : Spares e e' := by
  have hheap : e'.heap = e.heap := congrArg GcTable.heap hc.table
  refine ⟨hheap ▸ .refl _, ?_, fun t' rid hmem => .inl (unsettled_of_controlled hc hmem)⟩
  rw [hc.table]
  exact indexSpared_refl _ _

section

variable (hi : EngineInv e)
include hi

lemma spares_install [DecidableEq κ] {row : β} {length : ℕ} {hot : Bool}
    (hsafe : BitsSafe e (.install t row length lsn hot))
    (h : e.install t row length lsn hot = some e') : Spares e e' := by
  obtain ⟨txn, st, old, oldRow, hp, new, hr, hst, hpc, hlen, -, hins, rfl⟩ := install_eq_some h
  obtain ⟨hnew, hvm⟩ := hi.install_heap hst hpc hlen hins
  have hbits : (∀ pageId, hp.Marked pageId → e.heap.Marked pageId) ∧ ¬ hp.Marked new.pageId := by
    cases hot with
    | true =>
      obtain ⟨hvm, hpage⟩ := hvm
      refine ⟨fun _ => marked_of_vm_eq hvm, fun hm => ?_⟩
      exact hsafe rfl st old oldRow hst hpc (marked_of_vm_eq hvm (hpage ▸ hm))
    | false => exact ⟨fun _ => marked_of_cleared hvm, not_marked_of_cleared hvm⟩
  have hrange : hp.InRange new := hnew.heapOk.range new (by rw [hnew.look, if_pos rfl]; nofun)
  refine spares_write hr hst (heapSpared_write hnew.le_numDataPages hbits.1 hnew.look hbits.2) (indexSpared_refl _ _)
    (fun _ _ => rfl) rfl hr (append_nil _).symm ?_
  rintro rid (hmem | hmem) <;> cases hmem
  exact .inr ⟨hrange, hbits.2⟩

lemma spares_insert {row : β} {length : ℕ} (h : e.insert t row length lsn = some e') : Spares e e' := by
  obtain ⟨txn, st, hr, hst, hpc, hlen, ⟨hp, new, lm, hins, rfl⟩ | hc⟩ := insert_eq_some h
  · obtain ⟨hnew, hvm⟩ := insertVersion_eq_some hlen hi.heap.heapOk hins
    have hcleared : ¬ hp.Marked new.pageId := not_marked_of_cleared hvm
    have hrange : hp.InRange new := hnew.heapOk.range new (by rw [hnew.look, if_pos rfl]; nofun)
    refine spares_write hr hst
      (heapSpared_write hnew.le_numDataPages (fun _ => marked_of_cleared hvm) hnew.look hcleared)
      (indexSpared_refl _ _) (fun t' ht => sessions_setUndo_of_ne ht _) rfl (running_setUndo hr _) rfl ?_
    rintro rid (hmem | hmem)
    · obtain rfl := mem_singleton.1 hmem
      exact .inr ⟨hrange, hcleared⟩
    · cases hmem
      exact .inr ⟨hrange, hcleared⟩
  · exact spares_of_controlled hc

lemma spares_delete (h : e.delete t lsn = some e') : Spares e e' := by
  obtain ⟨txn, st, rid, hr, hst, hpc, ⟨-, -, hc⟩ | ⟨hp, hd, rfl⟩⟩ := delete_eq_some h
  · exact spares_of_controlled hc
  · obtain ⟨tup, htup, -, hw, hvm⟩ := markDeletedIfCurrent_eq_some hd
    have hcleared : ¬ hp.Marked rid.pageId := not_marked_of_cleared hvm
    have hspared : HeapSpared e.heap hp :=
      heapSpared_write hw.numDataPages.ge (fun _ => marked_of_cleared hvm) hw.look hcleared
    have hrange : hp.InRange rid := hspared.inRange
      (hi.heap.heapOk.range rid (by rw [tupleAt_eq_some_iff.1 htup]; nofun))
    refine spares_write hr hst hspared (indexSpared_refl _ _) (fun t' ht => sessions_setUndo_of_ne ht _) rfl
      (running_setUndo hr _) rfl ?_
    rintro rid' (hmem | hmem)
    · obtain rfl := mem_singleton.1 hmem
      exact .inr ⟨hrange, hcleared⟩
    · cases hmem

variable (he : EntriesInv e)
include he

/-- The stamp goes on a page that is not marked, and so does the new version that is taken back. -/
lemma spares_commitOld (hsafe : BitsSafe e (.commitOld t)) (h : e.commitOld t = some e') : Spares e e' := by
  obtain ⟨txn, st, old, new, row, hot, lsn, hr, hst, hpc, ⟨-, rfl⟩ | ⟨hp, hc, rfl⟩⟩ := commitOld_eq_some h
  · have hnew : new ∈ e.unsettled t := (mem_unsettled_running hr hst).2 (.inr (by rw [hpc]; rfl))
    refine spares_write hr hst (heapSpared_rollbackInsert (he.not_marked hnew) lsn) (indexSpared_refl _ _)
      (fun _ _ => rfl) rfl hr (append_nil _).symm ?_
    rintro rid (hmem | hmem) <;> cases hmem
  · have hnew : new ∈ e.unsettled t := (mem_unsettled_running hr hst).2 (.inr (by rw [hpc]; rfl))
    obtain ⟨tup, htup, hw, hvm⟩ := commitOldTuple_eq_some hc
    have hold : ¬ e.heap.Marked old.pageId := hsafe st old new row hot lsn hst hpc (by rw [htup]; rfl)
    have hspared : HeapSpared e.heap hp := hw.spared hvm hold
    have hrange : hp.InRange old := hspared.inRange
      (hi.heap.heapOk.range old (by rw [tupleAt_eq_some_iff.1 htup]; nofun))
    refine spares_write hr hst hspared (indexSpared_refl _ _) (fun t' ht => sessions_setUndo_of_ne ht _) rfl
      (running_setUndo hr _) rfl ?_
    rintro rid (hmem | hmem)
    · have hpair : rid = old ∨ rid = new := by
        cases hot <;> simpa [updateUndo, UndoRecord.entry?, Entry.cell] using hmem
      rcases hpair with rfl | rfl
      · exact .inr ⟨hrange, fun hm => hold (marked_of_vm_eq hvm hm)⟩
      · exact .inl hnew
    · cases hot with
      | true => cases hmem
      | false =>
        cases hmem
        exact .inl hnew

omit hi in
/-- The entries are made while the new version is in hand, so its page is not marked. -/
lemma spares_indexRow (h : e.indexRow t = some e') : Spares e e' := by
  obtain ⟨txn, st, new, row, hr, hst, hpc, rfl⟩ := indexRow_eq_some h
  have hnew : new ∈ e.unsettled t := (mem_unsettled_running hr hst).2 (.inr (by rw [hpc]; rfl))
  refine spares_write hr hst (.refl _) ?_ (fun _ _ => rfl) rfl hr (append_nil _).symm ?_
  · refine forall₂_map_right_iff.2 (forall₂_same.2 fun ix _ => ⟨rfl, fun pageId hm => ?_, fun entry hmem => ?_⟩)
    · have hne : new.pageId ≠ pageId := fun heq => he.not_marked hnew (heq ▸ hm)
      simp [TableIndex.onPage, TableIndex.insertEntry, hne]
    · rcases mem_append.1 hmem with hmem | hmem
      · exact .inl hmem
      · obtain rfl := mem_singleton.1 hmem
        exact .inr (he.unsettled t new hnew)
  · rintro rid (hmem | hmem) <;> cases hmem

/-- What an undo record takes back is on a page that is not marked. -/
lemma spares_undo [DecidableEq κ] (h : e.undo t lsn = some e') : Spares e e' := by
  obtain ⟨x, rec, hx, hrec, hmay, rfl⟩ := undo_eq_some h
  obtain ⟨hbefore, hafter⟩ := ledger_of_undo hi (n := lsn) hx hmay hrec
  have huns : ∀ t', ∀ rid ∈ ((e.applyUndoRecord t lsn rec).setUndo t x.txn.undoRecords.dropLast).unsettled t',
      rid ∈ e.unsettled t' := by
    intro t' rid hmem
    rw [unsettled, hafter, setUndo_stmts, applyUndoRecord_stmts] at hmem
    refine (mem_append.1 hmem).elim (fun hmem => mem_append_left _ ?_) (mem_append_right _)
    by_cases ht : t' = t
    · subst ht
      rw [Function.update_self] at hmem
      rw [hbefore, map_append]
      exact mem_append_left _ hmem
    · rwa [Function.update_of_ne ht] at hmem
  have hfree : ∀ en ∈ rec.entry?, ¬ e.heap.Marked en.cell.pageId := by
    intro en hen
    refine he.not_marked (t := t) (mem_append_left _ (mem_map_of_mem ?_))
    rw [hbefore]
    exact mem_append_right _ (Option.mem_toList.2 hen)
  obtain ⟨type, tableId, rid⟩ := rec
  cases type with
  | insert =>
    refine ⟨heapSpared_rollbackInsert (hfree _ rfl) lsn, ?_, fun t' rid hmem => .inl (huns t' rid hmem)⟩
    simp only [applyUndoRecord, setUndo]
    split
    · exact indexSpared_delete _ _ _ _
    · exact indexSpared_refl _ _
  | hotInsert =>
    exact ⟨heapSpared_rollbackInsert (hfree _ rfl) lsn, indexSpared_refl _ _,
      fun t' rid hmem => .inl (huns t' rid hmem)⟩
  | delete | hotDelete =>
    exact ⟨heapSpared_rollbackDelete (hfree _ rfl) lsn, indexSpared_refl _ _,
      fun t' rid hmem => .inl (huns t' rid hmem)⟩
  | ddl => exact ⟨.refl _, indexSpared_refl _ _, fun t' rid hmem => .inl (huns t' rid hmem)⟩

end

/-- A pruned version is deleted, and marked pages have none that are. -/
lemma spares_prune (hv : VmInv e) (h : e.prune t lsn = some e') : Spares e e' := by
  obtain ⟨x, o, rid, rest, hx, hph, hq, rfl⟩ := prune_eq_some h
  refine ⟨?_, indexSpared_refl _ _, fun t' rid hmem => .inl hmem⟩
  show HeapSpared e.heap ((e.heap.pruneObsoleteVersion rid o t lsn).getD e.heap)
  cases hr : e.heap.pruneObsoleteVersion rid o t lsn with
  | none => exact .refl _
  | some h' =>
    obtain ⟨hne, -, tup, htup, hxmax, hw, hvm, -⟩ := pruneObsoleteVersion_eq_some hr
    refine hw.spared hvm fun hm => hne ?_
    rw [← hxmax]
    exact (hv rid.pageId hm rid.slotIdx tup htup).1

/-! ## Collections -/

section

variable {tm : TransactionManager} {oldest pageId : ℕ} {freezing : Bool} {v v' : SlotView β}

/-- What is not garbage is kept or frozen. -/
lemma CollectStep.kept (h : CollectStep tm oldest freezing pageId v v')
    (hg : ∀ t, v = .tuple t → isGarbage tm oldest t = false) : v' = v ∨ ∃ t, v = .tuple t ∧ v' = .tuple t.freeze := by
  cases h with
  | keep => exact .inl rfl
  | redirect t hgarbage | remove t hgarbage =>
    rw [hg t rfl] at hgarbage
    cases hgarbage
  | freeze t => exact .inr ⟨t, rfl, rfl⟩

variable {tb tb' : GcTable β κ}

/-- On a page without garbage a collection leads entries to the same slots, with the same rows. -/
lemma TableIndex.Covered.collected {ix ix' : TableIndex β κ} (hcov : ix.Covered tb.heap pageId)
    (hc : Collected tm oldest freezing tb tb') (hkey : ix'.key = ix.key) (hsub : ix'.entries.Sublist ix.entries)
    (hg : ∀ i t, tb.heap.tupleAt ⟨pageId, i⟩ = some t → isGarbage tm oldest t = false) :
    ix'.Covered tb'.heap pageId := by
  have hkept : ∀ rid, rid.pageId = pageId → tb'.heap.look rid = tb.heap.look rid ∨
      ∃ t, tb.heap.look rid = .tuple t ∧ tb'.heap.look rid = .tuple t.freeze := by
    rintro rid rfl
    exact (hc.look rid).kept fun t ht => hg rid.slotIdx t (tupleAt_eq_some_iff.2 ht)
  refine ⟨hcov.nodup.sublist (hsub.filter _), fun entry hmem => ?_⟩
  have hpage : entry.2.pageId = pageId := of_decide_eq_true (mem_filter.1 hmem).2
  obtain ⟨t, ht, hrow⟩ := hcov.leads entry ((hsub.filter _).subset hmem)
  have hslot : tb'.heap.visibleSlot entry.2 = tb.heap.visibleSlot entry.2 := by
    unfold HeapFile.visibleSlot
    rcases hkept entry.2 hpage with heq | ⟨t, heq, heq'⟩
    · rw [heq]
    · rw [heq, heq']
  rw [hslot, hkey]
  rcases hkept _ ((visibleSlot_pageId _ _).trans hpage) with heq | ⟨t', heq, heq'⟩
  · exact ⟨t, by rw [tupleAt_eq_look, heq]; exact ht, hrow⟩
  · rw [tupleAt_eq_some_iff, heq] at ht
    cases ht
    exact ⟨t.freeze, tupleAt_eq_some_iff.2 heq', hrow⟩

end

/-- **What a collection keeps** that marks only pages without garbage and without stale entries. -/
lemma EntriesInv.collected (he : EntriesInv e) {tm : TransactionManager} {oldest : ℕ} {freezing : Bool}
    {tb : GcTable β κ} (hc : Collected tm oldest freezing e.table tb)
    (hmark : ∀ pageId, tb.heap.Marked pageId → e.Covered pageId ∧
      ∀ i t, e.heap.tupleAt ⟨pageId, i⟩ = some t → isGarbage tm oldest t = false) :
    EntriesInv { e with table := tb } := by
  have hrange : ∀ rid, e.heap.InRange rid → tb.heap.InRange rid := fun rid hr =>
    ⟨hr.1, hr.2.trans hc.numDataPages.ge⟩
  refine ⟨fun pageId hm => ?_, fun ix' hix' entry hmem => ?_, fun t rid hmem => hrange rid (he.unsettled t rid hmem)⟩
  · obtain ⟨hcov, hg⟩ := hmark pageId hm
    refine ⟨hcov.settled, fun ix' hix' => ?_⟩
    obtain ⟨ix, hix, hkey, hsub, -⟩ := exists_mem_of_forall₂ hc.indexes hix'
    exact (hcov.indexes ix hix).collected hc hkey hsub hg
  · obtain ⟨ix, hix, hkey, hsub, -⟩ := exists_mem_of_forall₂ hc.indexes hix'
    exact hrange entry.2 (he.entries ix hix entry (hsub.subset hmem))

section

variable [DecidableEq κ] (he : EntriesInv e) (hv : VmInv e)
include he hv

/-- A page marked after the walk was marked before, or the collector has just marked it. -/
lemma EntriesInv.covered_of_walk (freezing : Bool) {l : List ℕ} (hl : l.Nodup)
    (hmarks : ∀ pageId ∈ l, (freezing && (e.heap.vm pageId).frozen) = false →
      (∀ i t, e.heap.tupleAt ⟨pageId, i⟩ = some t →
        (freezing = true ∧ (isFreezable e.sys.tm e.sys.tm.getOldestActiveTxnId t = true ∨ t.xmin = kFrozenTxnId)) ∨
          isAllVisibleTuple e.sys.tm e.sys.tm.getOldestActiveTxnId t = true) → e.Covered pageId) {pageId : ℕ}
    (hm : (l.foldl (collectPage e.sys.tm e.sys.tm.getOldestActiveTxnId freezing) e.table).heap.Marked pageId) :
    e.Covered pageId ∧ ∀ i t, e.heap.tupleAt ⟨pageId, i⟩ = some t →
      isGarbage e.sys.tm e.sys.tm.getOldestActiveTxnId t = false := by
  rcases marked_foldl e.sys.tm e.sys.tm.getOldestActiveTxnId freezing hl hm with ⟨hm, -⟩ | ⟨hq, hskip, hflags⟩
  · refine ⟨he.marked pageId hm, fun i t ht => ?_⟩
    simp [isGarbage, (hv pageId hm i t ht).1]
  · exact ⟨hmarks pageId hq hskip fun i t ht => (hflags i t ht).2, fun i t ht => (hflags i t ht).1⟩

lemma EntriesInv.gc {maxPages : ℕ} (hsafe : MarksCovered e (.gc maxPages))
    (h : e.step (.gc maxPages) = some e') :
    EntriesInv e' := by
  obtain rfl := Option.some.inj h
  refine he.collected (collected_runGc e.sys.tm maxPages e.table) fun pageId hm => ?_
  unfold runGc at hm
  by_cases h0 : e.table.heap.numDataPages = 0
  · simp only [h0, if_true] at hm
    refine ⟨he.marked pageId hm, fun i t ht => ?_⟩
    simp [isGarbage, (hv pageId hm i t ht).1]
  simp only [h0, if_false] at hm
  refine he.covered_of_walk hv false (nodup_gcPages e.table maxPages) (fun pageId hq _ hall => ?_) hm
  refine hsafe pageId hq fun i t ht => ?_
  rcases hall i t ht with ⟨h, -⟩ | h
  · cases h
  · exact h

lemma EntriesInv.vacuum (hsafe : MarksCovered e .vacuum) (h : e.step .vacuum = some e') : EntriesInv e' := by
  obtain rfl := Option.some.inj h
  refine he.collected (collected_runVacuum e.sys.tm e.table) fun pageId hm => ?_
  unfold runVacuum at hm
  by_cases h0 : e.table.heap.numDataPages = 0
  · simp only [h0, if_true] at hm
    refine ⟨he.marked pageId hm, fun i t ht => ?_⟩
    simp [isGarbage, (hv pageId hm i t ht).1]
  simp only [h0, if_false] at hm
  refine he.covered_of_walk hv true (nodup_vacuumPages _) (fun pageId hq hskip hall => ?_) hm
  refine hsafe pageId (mem_vacuumPages hq) (by simpa using hskip) fun i t ht => ?_
  rcases hall i t ht with ⟨-, h⟩ | h
  · exact h
  · exact isFreezable_of_isAllVisibleTuple h

/-- **Every step other than a collection spares the marked pages.** -/
lemma spares_step (hi : EngineInv e) {a : Action β} (ha : a.isCollector = false) (hsafe : BitsSafe e a)
    (h : e.step a = some e') : Spares e e' := by
  cases a with
  | txn a =>
    obtain ⟨-, sys, hs, rfl⟩ := txnStep_eq_some h
    have htable : (e.afterTxn sys a).table = e.table := by cases a <;> rfl
    refine ⟨?_, ?_, fun t rid hmem => .inl (unsettled_of_txnStep hi hs hmem)⟩
    · rw [afterTxn_heap]
      exact .refl _
    · rw [htable]
      exact indexSpared_refl _ _
  | install t row length lsn hot => exact spares_install hi hsafe h
  | commitOld t => exact spares_commitOld hi he hsafe h
  | insert t row length lsn => exact spares_insert hi h
  | indexRow t => exact spares_indexRow he h
  | delete t lsn => exact spares_delete hi h
  | undo t lsn => exact spares_undo hi he h
  | prune t lsn => exact spares_prune hv h
  | gc | vacuum => cases ha
  | _ => exact spares_of_controlled (controlled_of_step h rfl)

/-- **A step keeps the entries of marked pages sound.** -/
theorem EntriesInv.step (hi : EngineInv e) {a : Action β} (hsafe : BitsSafe e a) (hmarks : MarksCovered e a)
    (h : e.step a = some e') : EntriesInv e' := by
  cases a with
  | gc maxPages => exact he.gc hv hmarks h
  | vacuum => exact he.vacuum hv hmarks h
  | _ => exact he.spared (spares_step he hv hi rfl hsafe h)

end

lemma EntriesInv.init {slotCount next : ℕ} {log : Option TxnStatusLog} (keys : List (β → κ)) :
    EntriesInv (Engine.init (TxnSystem.init slotCount next log) keys) := by
  refine ⟨fun pageId hm => ?_, fun ix hix entry hmem => ?_, fun t rid hmem => ?_⟩
  · exact hm.elim nofun nofun
  · obtain ⟨k, -, rfl⟩ := mem_map.1 hix
    cases hmem
  · cases hmem

/-! ## The shortcuts -/

/-- For every running reader, index and range the shortcuts agree with the scan, in whatever order the tree has the
entries. -/
def ShortcutsSound [DecidableEq κ] (e : Engine β κ) : Prop :=
  ∀ r txn, e.running r = some txn → ∀ ix ∈ e.table.indexes, ∀ wanted, ∀ listing : RangeListing ix wanted,
    ShortcutsAgree e.sys.tm txn e.heap listing

/-- If all pages are shown as all-visible, then the page of every address of the heap is. -/
lemma visible_of_allPagesVisible {h : HeapFile β} (hall : h.allPagesVisible = true) (hr : h.InRange rid) :
    (h.vm rid.pageId).visible = true := by
  simp only [allPagesVisible, Bool.and_eq_true, decide_eq_true_eq] at hall
  have hfull : (range h.numDataPages).countP (fun n => (h.vm (n + 1)).visible) = (range h.numDataPages).length :=
    le_antisymm countP_le_length (by rw [length_range]; exact hall.2)
  have hmem : rid.pageId - 1 ∈ range h.numDataPages := by
    have := hr.1
    have := hr.2
    rw [mem_range]
    omega
  have hvis := countP_eq_length.1 hfull _ hmem
  rwa [Nat.sub_add_cancel hr.1] at hvis

/-- Entries that are all different on every page are all different. -/
lemma nodup_of_onPage {ix : TableIndex β κ} (h : ∀ entry ∈ ix.entries, (ix.onPage entry.2.pageId).Nodup) :
    ix.entries.Nodup := by
  classical
  rw [nodup_iff_count_le_one]
  intro entry
  by_cases hmem : entry ∈ ix.entries
  · have hcount := nodup_iff_count_le_one.1 (h entry hmem) entry
    rwa [TableIndex.onPage, count_filter (by simp)] at hcount
  · rw [count_eq_zero_of_not_mem hmem]
    exact Nat.zero_le 1

lemma EntriesInv.shortcutsSound [DecidableEq κ] (he : EntriesInv e) (hi : EngineInv e) (hv : VmInv e) :
    ShortcutsSound e := by
  intro r txn hr ix hix wanted listing
  -- an entry of a marked page leads to a row with its key that everybody sees
  have hcov : ∀ entry ∈ ix.entries, (e.heap.vm entry.2.pageId).visible = true →
      ix.Covered e.heap entry.2.pageId ∧ entry ∈ ix.onPage entry.2.pageId := fun entry hmem hvis =>
    ⟨(he.marked _ (.inl hvis)).indexes ix hix, mem_filter.2 ⟨hmem, decide_eq_true rfl⟩⟩
  refine shortcutsAgree_of_leads listing (fun entry hmem hvis => ?_) fun hall => ?_
  · obtain ⟨hc, hon⟩ := hcov entry hmem hvis
    obtain ⟨t, ht, hkey⟩ := hc.leads entry hon
    have hmarked : e.heap.Marked (e.heap.visibleSlot entry.2).pageId := by
      rw [visibleSlot_pageId]
      exact .inl hvis
    have hsees := isVisible_of_allVisible hi.txn (hv _ hmarked _ t ht) (running_eq_some.1 hr)
    exact ⟨_, [e.heap.visibleSlot entry.2], t, .found ht hsees, rfl, rfl, Nat.le_add_left 1 _, hkey⟩
  · have hvis : ∀ entry ∈ ix.entries, (e.heap.vm entry.2.pageId).visible = true := fun entry hmem =>
      visible_of_allPagesVisible hall (he.entries ix hix entry hmem)
    refine ⟨hvis, ?_⟩
    have hnodup : ix.entries.Nodup := nodup_of_onPage fun entry hmem => (hcov entry hmem (hvis entry hmem)).1.nodup
    have hsub : ∀ entry ∈ listing.entries, entry ∈ ix.entries := fun entry hmem =>
      (mem_filter.1 (listing.perm.subset hmem)).1
    -- entries with one address lead to one row, so they have one key
    refine (listing.perm.nodup_iff.2 (hnodup.filter _)).map_on fun x hx y hy heq => Prod.ext ?_ heq
    obtain ⟨hcx, honx⟩ := hcov x (hsub x hx) (hvis x (hsub x hx))
    obtain ⟨hcy, hony⟩ := hcov y (hsub y hy) (hvis y (hsub y hy))
    obtain ⟨t, ht, hkx⟩ := hcx.leads x honx
    obtain ⟨t', ht', hky⟩ := hcy.leads y hony
    rw [← heq, ht] at ht'
    cases ht'
    rw [← hkx, hky]

end

/-- **When the shortcuts agree with the scan.**  In every run whose steps leave the visibility map sound and whose
collectors mark no page with a stale entry, they agree in every state that the run passes through. -/
theorem shortcutsSound_of_marksCovered [DecidableEq κ] {slotCount next : ℕ} {log : Option TxnStatusLog}
    (hnext : 0 < next) (hlog : ∀ l ∈ log, ∀ c, next ≤ c → l.states c = none)
    (keys : List (β → κ)) {acts : List (Action β)}
    (hsafe : StepsMeet Engine.step (fun e a => BitsSafe e a ∧ MarksCovered e a)
      (Engine.init (TxnSystem.init slotCount next log) keys) acts) :
    Always Engine.step ShortcutsSound (Engine.init (TxnSystem.init slotCount next log) keys) acts := by
  refine always_of_invariant (I := fun e => EngineInv e ∧ VmInv e ∧ EntriesInv e) ?_ ?_
    ⟨EngineInv.init hnext hlog keys, ?_, ?_⟩ hsafe
  · rintro e a e' ⟨hi, hv, he⟩ ⟨hbits, hmarks⟩ h
    exact ⟨hi.step h, hv.step hi hbits h, he.step hv hi hbits hmarks h⟩
  · rintro e ⟨hi, hv, he⟩
    exact he.shortcutsSound hi hv
  · intro pageId hm i tup htup
    cases htup
  · exact .init keys

/-- Nothing is marked before the first collection, so every step up to it meets the conditions. -/
lemma stepsMeet_uncollected [DecidableEq κ] {slotCount next : ℕ} {log : Option TxnStatusLog}
    (hnext : 0 < next) (hlog : ∀ l ∈ log, ∀ c, next ≤ c → l.states c = none)
    (keys : List (β → κ)) {acts : List (Action β)} (hacts : ∀ a ∈ acts, a.isCollector = false) :
    StepsMeet Engine.step (fun e a => BitsSafe e a ∧ MarksCovered e a)
      (Engine.init (TxnSystem.init slotCount next log) keys) acts := by
  have hsafe : ∀ (e : Engine β κ) (a : Action β), (∀ pageId, ¬ e.heap.Marked pageId) → a.isCollector = false →
      BitsSafe e a := by
    intro e a hnone ha
    cases a with
    | install => exact fun _ _ old _ _ _ => hnone old.pageId
    | commitOld => exact fun _ old _ _ _ _ _ _ _ => hnone old.pageId
    | gc | vacuum => cases ha
    | _ => trivial
  refine StepsMeet.of_invariant (P := fun _ a => a.isCollector = false)
    (I := fun e => (EngineInv e ∧ VmInv e ∧ EntriesInv e) ∧ ∀ pageId, ¬ e.heap.Marked pageId)
    ?_ ?_ ⟨⟨EngineInv.init hnext hlog keys, ?_, .init keys⟩, ?_⟩ (.of_forall fun a ha _ => hacts a ha)
  · rintro e a e' ⟨⟨hi, hv, he⟩, hnone⟩ ha h
    have hbits := hsafe e a hnone ha
    have hspares := spares_step he hv hi ha hbits h
    exact ⟨⟨hi.step h, hv.step hi hbits h, he.spared hspares⟩, fun pageId hm => hnone pageId (hspares.heap.marked _ hm)⟩
  · rintro e a ⟨-, hnone⟩ ha
    refine ⟨hsafe e a hnone ha, ?_⟩
    cases a with
    | gc | vacuum => cases ha
    | _ => trivial
  · intro pageId hm i tup htup
    cases htup
  · exact fun pageId hm => hm.elim nofun nofun

/-- Transaction 1 inserts rows with keys 5 and 6 and commits.  Transaction 3 updates the first, HOT, and commits, which
leaves a redirect in its slot. -/
def updatedAndPruned : List (Action (ℕ × ℕ)) :=
  [.txn .begin] ++ insertStmt 1 (5, 7) 40 1 ++ insertStmt 1 (6, 7) 40 2 ++
    commitTxn 1 ++ [.txn (.finish 1), .txn .begin] ++ updateStmt 3 ⟨1, 0⟩ (5, 8) 40 3 true ++
    commitTxn 3 ++ [.prune 3 4, .txn (.finish 3)]

/-- `run_gc` then marks the page, whose entries are not stale, and the shortcuts of transaction 5 agree with its
scans. -/
theorem shortcutsSound_redirect :
    Always Engine.step ShortcutsSound
        (Engine.init (TxnSystem.init 4 1 (some TxnStatusLog.empty)) [Prod.fst])
        (updatedAndPruned ++ [.gc 10] ++ [.txn .begin]) ∧
      ∃ e, runs Engine.step (Engine.init (TxnSystem.init 4 1 (some TxnStatusLog.empty)) [Prod.fst])
        (updatedAndPruned ++ [.gc 10] ++ [.txn .begin]) = some e ∧ (e.running 5).isSome ∧
          e.heap.allPagesVisible = true ∧ e.heap.look ⟨1, 0⟩ = .redirect 2 := by
  refine ⟨shortcutsSound_of_marksCovered (by decide) TxnStatusLog.empty_unused [Prod.fst]
    (.concat (.concat ?_ fun m hm => ?_) fun _ _ => ⟨trivial, trivial⟩), exists_run (by decide +kernel)⟩
  · exact stepsMeet_uncollected (by decide) TxnStatusLog.empty_unused [Prod.fst] (by decide)
  have hi := (EngineInv.init (by decide) TxnStatusLog.empty_unused [Prod.fst]).runs hm
  have hidle : ∀ t, .began t ∈ m.sys.hist → m.sys.sessions t = none := by
    have hall := runs_eval (f := fun m => m.sys.hist.all fun ev => (m.sys.sessions ev.txn).isNone) (v := true)
      (by decide +kernel) hm
    exact fun t hb => Option.isNone_iff_eq_none.1 (List.all_eq_true.1 hall _ hb)
  have hstopped : ∀ t, m.running t = none := by
    intro t
    cases hr : m.running t with
    | none => rfl
    | some txn => cases (running_eq_some.1 hr).symm.trans (hidle t (hi.began hr))
  refine ⟨fun pageId _ _ i tup _ _ r txn hr => ?_, fun pageId hq _ => ⟨fun t rid hmem => ?_, fun ix hix => ?_⟩⟩
  · cases hr.symm.trans (hstopped r)
  · -- no session is left
    rcases mem_append.1 hmem with hmem | hmem
    · obtain ⟨en, hen, -⟩ := mem_map.1 hmem
      rw [ledger, hidle t (began_of_mem_ledger hi.txn hen)] at hen
      cases hen
    · obtain ⟨st, hst, -⟩ := bind_eq_some_iff.1 (Option.mem_toList.1 hmem)
      obtain ⟨txn, hr⟩ := hi.stmt_running t st hst
      cases hr.symm.trans (hstopped t)
  · have hentries := runs_eval (f := fun m => m.table.indexes.all fun ix => decide (ix.entries.Nodup) &&
      ix.entries.all fun entry => ((m.heap.tupleAt (m.heap.visibleSlot entry.2)).map fun t => ix.key t.row) ==
        some entry.1) (v := true) (by decide +kernel) hm
    have hix' := List.all_eq_true.1 hentries ix hix
    rw [Bool.and_eq_true] at hix'
    refine ⟨(of_decide_eq_true hix'.1).filter _, fun entry hmem => ?_⟩
    have hlead := List.all_eq_true.1 hix'.2 entry (mem_filter.1 hmem).1
    exact map_eq_some_iff.1 (beq_iff_eq.1 hlead)

/-- Transaction 1 inserts rows with keys 5 and 6 and commits; transaction 3 deletes the first and
commits, which prunes its slot; `run_gc` finds only visible rows on the page; transaction 5
begins. -/
def deletedAndCollected : List (Action (ℕ × ℕ)) :=
  [.txn .begin] ++ insertStmt 1 (5, 7) 40 1 ++ insertStmt 1 (6, 7) 40 2 ++
    commitTxn 1 ++ [.txn (.finish 1), .txn .begin] ++ deleteStmt 3 ⟨1, 0⟩ 3 ++
    commitTxn 3 ++ [.prune 3 4, .txn (.finish 3), .gc 10, .txn .begin]

/-- The entry of the deleted row is still in the index and points to an all-visible page: the
index-only scan returns its key, and `fast_count` counts it. -/
theorem deleted_key_returned :
    ¬ Always Engine.step ShortcutsSound
      (Engine.init (TxnSystem.init 4 1 (some TxnStatusLog.empty)) [Prod.fst]) deletedAndCollected := by
  intro hsound
  obtain ⟨e, hscans, hsound⟩ := hsound.eval (R := fun e => ((e.running 5).bind fun txn => e.table.indexes.head?.map
    fun ix => (indexOnlyScan ix e.sys.tm (some txn) e.heap (ix.entries.filter fun _ => true),
      (indexScanRows ix e.sys.tm (some txn) e.heap (ix.entries.filter fun _ => true)).length)) = some ([5, 6], 1))
    (by decide +kernel)
  obtain ⟨txn, hr, hscans⟩ := bind_eq_some_iff.1 hscans
  obtain ⟨ix, hix, hscans⟩ := map_eq_some_iff.1 hscans
  obtain ⟨honly, hlen⟩ := Prod.mk.inj hscans
  have hagree := hsound 5 txn hr ix (mem_of_mem_head? hix) (fun _ => true) (.inOrder ix _)
  have hkeys := hagree.keys.length_eq
  rw [length_map] at hkeys
  cases (congrArg length honly).symm.trans (hkeys.trans hlen)

end MiniDb
