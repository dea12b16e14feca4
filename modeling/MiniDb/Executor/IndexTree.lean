import MiniDb.Index.BPlusTree.RangeScan

/-!
# An index and its tree

The engine keeps the entries of an index as a list, and takes a scan of a range to be handed those in the range in some
order (`RangeListing`).  Here is why it may: as long as the operations on the tree are in order (`OpOk`), the tree holds
the entries of the list (`stored_of_runs`), and the batches drained from it are those that a listing of the range is
handed over in (`exists_rangeListing`).  So what is proved of a scan for every listing holds of the scan of the tree.
-/

namespace MiniDb

open List BPlusTree

variable {β : Type*}

/-- A change to the entries of an index. -/
inductive EntryOp (β : Type*) where
  | insert (row : β) (rid : RecordId)
  | delete (row : β) (rid : RecordId)

/-- The addresses of rows are on data pages, which have numbers from 1 on. -/
def EntryOp.OnDataPage : EntryOp β → Prop
  | .insert _ rid | .delete _ rid => rid.pageId ≠ 0

namespace TableIndex

def apply (ix : TableIndex β SlotKey) : EntryOp β → TableIndex β SlotKey
  | .insert row rid => ix.insertEntry row rid
  | .delete row rid => ix.deleteEntry row rid

/-- The operation on the tree. -/
def treeOp (ix : TableIndex β SlotKey) : EntryOp β → TreeOp SlotKey
  | .insert row rid => .insert (ix.key row) rid
  | .delete row rid => .remove (ix.key row) rid

variable {ix : TableIndex β SlotKey} {t t' : BPlusTree SlotKey}

/-- **The tree follows the list**, one operation at a time. -/
lemma stored_apply (h : Holds t ix.entries) {op : EntryOp β} (hpage : op.OnDataPage)
    (hok : OpOk t (ix.treeOp op)) (hs : t.step (ix.treeOp op) = some t') : Holds t' (ix.apply op).entries := by
  cases op with
  | insert row rid =>
    have hok := hok (fits_of_insert hs)
    exact (h.insert hok.1 hok.2 hs).perm (perm_append_singleton _ _).symm
  | delete row rid =>
    obtain ⟨e, S, hkey, hrid, hperm, h'⟩ := h.remove hok.1 hok.2 hs
    -- the entry removed is the one that the list drops
    have he : (ix.key row, rid) = e := by
      simp only [ridMatches, Bool.or_eq_true, decide_eq_true_eq] at hrid
      exact Prod.ext hkey.symm (hrid.resolve_left hpage).symm
    refine h'.perm ?_
    have herase := hperm.erase e
    rw [erase_cons_head] at herase
    show S.Perm (ix.entries.erase (ix.key row, rid))
    rw [he]
    exact herase.symm

lemma treeOp_apply (ix : TableIndex β SlotKey) (op op' : EntryOp β) :
    (ix.apply op).treeOp op' = ix.treeOp op' := by
  cases op <;> rfl

/-- **The tree holds the entries of the index** after every run of operations in order. -/
theorem stored_of_runs {ops : List (EntryOp β)} (h : Holds t ix.entries) (hpage : ∀ op ∈ ops, op.OnDataPage)
    (hm : StepsMeet BPlusTree.step OpOk t (ops.map ix.treeOp))
    (hr : runs BPlusTree.step t (ops.map ix.treeOp) = some t') : Holds t' (ops.foldl apply ix).entries := by
  induction ops generalizing ix t with
  | nil =>
    cases hr
    exact h
  | cons op ops ih =>
    obtain ⟨m, hs, hr⟩ := runs_cons_eq_some.1 hr
    have hsame : ops.map (ix.apply op).treeOp = ops.map ix.treeOp := map_congr_left fun op' _ => treeOp_apply ix op op'
    refine ih (stored_apply h (hpage op mem_cons_self) hm.1 hs)
      (fun op' hop' => hpage op' (mem_cons_of_mem op hop')) ?_ ?_
    · rw [hsame]
      exact hm.2 m hs
    · rw [hsame]
      exact hr

end TableIndex

/-- Batches up to the first empty one are batches up to any number. -/
lemma batchesOf_eq_batches {κ : Type*} (calls : ℕ) (skip : Option RecordId) (listing : List (κ × RecordId)) :
    batchesOf kBatchSize calls skip listing = batches calls skip listing := by
  induction calls generalizing skip listing with
  | zero => rfl
  | succ calls ih =>
    rw [batchesOf, batches]
    rw [ih]
    split
    · next rest heq =>
      rw [heq, BPlusTree.rangeScanBatch_nil (n := 31) heq]
      exact sublist_nil.1 batches_sublist
    · next heq => rw [heq]

/-- **A scan of the tree is a scan of a listing**: for bounds with all columns of the index, the batches drained from the
tree are those of a listing of the range, and `range_count` counts it. -/
theorem exists_rangeListing {ix : TableIndex β SlotKey} {t : BPlusTree SlotKey} (h : Holds t ix.entries)
    (hw : t.WalksEnd) {low : SlotKey} (hwide : ∀ e ∈ ix.entries, e.1.width ≤ low.width) (high : SlotKey) :
    ∃ listing : RangeListing ix fun k => decide (low ≤ k ∧ k ≤ high),
      t.drain low high kBatchSize listing.entries.length ⟨0, 0⟩ none = handed listing.entries ∧
        t.rangeCount low high false = listing.entries.length := by
  refine ⟨⟨t.inRange low high, (h.startsAt hw low).1.filter _⟩, ?_, h.rangeCount_eq hw hwide high⟩
  rw [h.drain_eq hw hwide (by decide), batchesOf_eq_batches]
  rfl

end MiniDb
