import MiniDb.Recovery.Wal

/-!
# The undo pass and committed work

The undo pass takes back the data records of transactions that have no commit record.  A record names a slot, which may
by then hold what later transactions have made of it:

* undoing an insert looks whether the version in the slot is still one of the loser;
* undoing a delete, or the old half of an update, clears `xmax` whoever has set it.

`undoView` is what a record makes of a slot, and the undo pass is a fold of it.
-/

namespace MiniDb

open Function List HeapFile SlotView

variable {β : Type*}

/-! ## What the undo pass makes of a slot -/

/-- A version as it was before anyone deleted or updated it. -/
def Tuple.undelete (t : Tuple β) : Tuple β :=
  { t with xmax := kInvalidTxnId, nextPage := kNullPageId, nextSlot := 0 }

/-- The record marks the version at this address as deleted. -/
def WalOp.Marks (table : ℕ) (rid : RecordId) : WalOp β → Prop
  | .delete tb r => tb = table ∧ r = rid
  | .update tb old _ _ _ => tb = table ∧ old = rid
  | _ => False

/-- The record puts a new version at this address. -/
def WalOp.Writes (table : ℕ) (rid : RecordId) : WalOp β → Prop
  | .insert tb r _ _ => tb = table ∧ r = rid
  | .update tb _ new _ _ => tb = table ∧ new = rid
  | _ => False

instance (table : ℕ) (rid : RecordId) (op : WalOp β) : Decidable (op.Marks table rid) := by
  cases op <;> unfold WalOp.Marks <;> infer_instance

instance (table : ℕ) (rid : RecordId) (op : WalOp β) : Decidable (op.Writes table rid) := by
  cases op <;> unfold WalOp.Writes <;> infer_instance

/-- Remove the version if the transaction has created it. -/
def SlotView.dropIf (txnId : ℕ) : SlotView β → SlotView β
  | .tuple t => if t.xmin = txnId then .empty else .tuple t
  | v => v

/-- What undoing a record makes of a slot. -/
def undoView (table : ℕ) (rid : RecordId) (v : SlotView β) (r : WalRecord β) : SlotView β :=
  let v := if r.op.Marks table rid then v.mapTuple Tuple.undelete else v
  if r.op.Writes table rid then v.dropIf r.txnId else v

lemma HeapFile.look_rollbackInsertIfXmin {h : HeapFile β} (hl : ∀ q, (h.pages q).LengthsOk)
    (rid : RecordId) (txnId lsn : ℕ) (r : RecordId) :
    (h.rollbackInsertIfXmin rid txnId lsn).look r = if r = rid then (h.look rid).dropIf txnId else h.look r := by
  unfold rollbackInsertIfXmin
  simp only
  split
  · next ht =>
    -- nothing to free
    split
    · next hr =>
      subst hr
      have hnone : (h.look r).tuple? = none := ht
      cases hv : h.look r with
      | tuple t => rw [hv] at hnone; cases hnone
      | redirect n => rfl
      | empty => rfl
    · rfl
  · next t ht =>
    obtain ⟨-, hlen, hoff⟩ := (hl rid.pageId).header_fits ht
    have hlook : h.look rid = .tuple t := tupleAt_eq_some_iff.1 ht
    rw [if_neg (by simp only [kTupleHeaderSize] at hlen hoff; omega), hlook]
    simp only [dropIf]
    by_cases hx : t.xmin = txnId
    · rw [if_neg (not_not.2 hx), if_pos hx, look_rollbackInsert]
    · rw [if_pos hx, if_neg hx]
      split
      · next hr => rw [hr, hlook]
      · rfl

variable {hs : Heaps β}

lemma Heaps.look_modify {tb : ℕ} {i : RecordId} {f : HeapFile β → HeapFile β}
    {g : SlotView β → SlotView β} (hempty : g .empty = .empty)
    (hf : ∀ h, hs tb = some h → ∀ r, (f h).look r = if r = i then g (h.look i) else h.look r)
    (table : ℕ) (rid : RecordId) :
    (hs.modify tb f).look table rid = if tb = table ∧ i = rid then g (hs.look table rid) else hs.look table rid := by
  unfold Heaps.modify Heaps.look
  by_cases ht : tb = table
  · subst ht
    cases hh : hs tb with
    | none => simp [hh, hempty]
    | some h =>
      simp only [update_self, true_and]
      rw [hf h hh rid]
      by_cases hr : i = rid
      · rw [if_pos hr, if_pos hr.symm, hr]
      · rw [if_neg hr, if_neg (Ne.symm hr)]
  · rw [if_neg fun h => ht h.1]
    cases hs tb with
    | none => rfl
    | some h => simp [update_of_ne (Ne.symm ht)]

lemma Heaps.modify_comp (hs : Heaps β) (tb : ℕ) (f g : HeapFile β → HeapFile β) :
    (hs.modify tb fun h => g (f h)) = (hs.modify tb f).modify tb g := by
  cases hh : hs tb with
  | none => simp [Heaps.modify, hh]
  | some h => simp [Heaps.modify, hh]

/-- **What undoing one record does to the slots.** -/
lemma look_undoRecord (hok : hs.Ok) (r : WalRecord β) (table : ℕ) (rid : RecordId) :
    (undoRecord hs r).look table rid = undoView table rid (hs.look table rid) r := by
  have hdelete : ∀ tb i, (hs.modify tb fun h => (h.rollbackDelete i r.lsn).getD h).look table rid =
      if tb = table ∧ i = rid then (hs.look table rid).mapTuple Tuple.undelete
      else hs.look table rid := fun tb i =>
    Heaps.look_modify rfl (fun h hh => look_rollbackDelete (hok tb h hh) i r.lsn) table rid
  have hinsert : ∀ (hs : Heaps β) tb i, hs.Ok →
      (hs.modify tb fun h => h.rollbackInsertIfXmin i r.txnId r.lsn).look table rid =
        if tb = table ∧ i = rid then (hs.look table rid).dropIf r.txnId
        else hs.look table rid := fun hs tb i hok =>
    Heaps.look_modify rfl (fun h hh => look_rollbackInsertIfXmin (hok tb h hh) i r.txnId r.lsn) table rid
  unfold undoRecord undoView
  cases hop : r.op with
  | insert tb i data length => exact hinsert hs tb i hok
  | delete tb i => exact hdelete tb i
  | update tb old new data length =>
    have hok' : (hs.modify tb fun h => (h.rollbackDelete old r.lsn).getD h).Ok :=
      hok.modify fun h hl => lengthsOk_updateTuple hl old r.lsn
    show (hs.modify tb fun h =>
      ((h.rollbackDelete old r.lsn).getD h).rollbackInsertIfXmin new r.txnId r.lsn).look table rid = _
    rw [Heaps.modify_comp hs tb (fun h => (h.rollbackDelete old r.lsn).getD h)
      fun h => h.rollbackInsertIfXmin new r.txnId r.lsn, hinsert _ tb new hok', hdelete tb old]
    rfl
  | _ => rfl

lemma ok_undoRecord (hok : hs.Ok) (r : WalRecord β) : (undoRecord hs r).Ok := by
  unfold undoRecord
  cases r.op with
  | insert tb i data length => exact hok.modify fun h hl => lengthsOk_rollbackInsertIfXmin hl i r.txnId r.lsn
  | delete tb i => exact hok.modify fun h hl => lengthsOk_updateTuple hl i r.lsn
  | update tb old new data length =>
    exact hok.modify fun h hl => lengthsOk_rollbackInsertIfXmin
      (lengthsOk_updateTuple hl old r.lsn) new r.txnId r.lsn
  | _ => exact hok

lemma look_undoPass (hok : hs.Ok) (refs : List (WalRecord β)) (table : ℕ) (rid : RecordId) :
    (undoPass refs hs).look table rid = refs.reverse.foldl (undoView table rid) (hs.look table rid) := by
  unfold undoPass
  generalize refs.reverse = l
  induction l generalizing hs with
  | nil => rfl
  | cons r l ih => rw [foldl_cons, ih (ok_undoRecord hok r), look_undoRecord hok, foldl_cons]

/-! ## Committed work -/

/-- Every version that a committed transaction has created or deleted is as that transaction left
it: nothing has changed, or a mark was cleared that no committed transaction has set. -/
def Undamaged (committed : ℕ → Bool) (before after : Heaps β) : Prop :=
  ∀ table rid tup, before.look table rid = .tuple tup →
    committed tup.xmin = true ∨ committed tup.xmax = true →
      after.look table rid = .tuple tup ∨
        committed tup.xmax = false ∧ after.look table rid = .tuple tup.undelete

/-- No record of a loser marks, or has written, a version that a committed transaction has since
deleted. -/
def UndoSafe (committed : ℕ → Bool) (log : List (WalRecord β)) (hs : Heaps β) : Prop :=
  ∀ r ∈ log, isCommitted log r.txnId = false → ∀ table rid tup, hs.look table rid = .tuple tup →
    r.op.Marks table rid ∨ r.op.Writes table rid ∧ tup.xmin = r.txnId →
      committed tup.xmax = false

section

variable {committed : ℕ → Bool} {table : ℕ} {rid : RecordId} {tup : Tuple β}

/-- A slot that the undo pass has touched: no version, or one without a mark. -/
def Cleared (v : SlotView β) : Prop := ∀ t, v = .tuple t → t.xmax = kInvalidTxnId

lemma Cleared.undoView {v : SlotView β} (h : Cleared v) (r : WalRecord β) :
    Cleared (undoView table rid v r) := by
  have hmark : Cleared (v.mapTuple Tuple.undelete) := by
    cases v <;> rintro t ⟨⟩
    rfl
  have hdrop : ∀ v : SlotView β, Cleared v → Cleared (v.dropIf r.txnId) := by
    intro v hv
    cases v with
    | tuple t =>
      simp only [dropIf]
      split
      · rintro t ⟨⟩
      · exact hv
    | redirect n => exact hv
    | empty => exact hv
  unfold MiniDb.undoView
  simp only
  split_ifs
  · exact hdrop _ hmark
  · exact hdrop _ h
  · exact hmark
  · exact h

/-- Undoing a record keeps a version, or clears the slot; and it clears the slot if it marks the
version or is about one of its transaction. -/
lemma undoView_tuple (table : ℕ) (rid : RecordId) (tup : Tuple β) (r : WalRecord β) :
    (undoView table rid (.tuple tup) r = .tuple tup ∧
        ¬ (r.op.Marks table rid ∨ r.op.Writes table rid ∧ tup.xmin = r.txnId)) ∨
      Cleared (undoView table rid (.tuple tup) r) ∧
        (r.op.Marks table rid ∨ r.op.Writes table rid ∧ tup.xmin = r.txnId) := by
  by_cases hm : r.op.Marks table rid
  · refine Or.inr ⟨?_, Or.inl hm⟩
    have hcleared : Cleared (.tuple tup.undelete : SlotView β) := by rintro t ⟨⟩; rfl
    have hview : undoView table rid (.tuple tup) r = if r.op.Writes table rid then (tuple tup.undelete).dropIf r.txnId
        else .tuple tup.undelete := by
      unfold undoView
      simp only [hm, if_true]
      rfl
    rw [hview]
    simp only [dropIf]
    split_ifs
    · rintro t ⟨⟩
    · exact hcleared
    · exact hcleared
  · by_cases hw : r.op.Writes table rid
    · by_cases hx : tup.xmin = r.txnId
      · refine Or.inr ⟨?_, Or.inr ⟨hw, hx⟩⟩
        simp only [undoView, hm, hw, hx, if_false, if_true, dropIf]
        rintro t ⟨⟩
      · refine Or.inl ⟨?_, fun h => h.elim hm fun h => hx h.2⟩
        simp [undoView, hm, hx, dropIf]
    · refine Or.inl ⟨?_, fun h => h.elim hm fun h => hw h.1⟩
      simp [undoView, hm, hw]

/-- A version that is not one of the loser stays, at most without its mark. -/
lemma undoView_of_not_writes {r : WalRecord β} (hx : ¬ (r.op.Writes table rid ∧ tup.xmin = r.txnId)) :
    undoView table rid (.tuple tup) r = .tuple (if r.op.Marks table rid then tup.undelete else tup) := by
  unfold undoView
  by_cases hm : r.op.Marks table rid <;> by_cases hw : r.op.Writes table rid
  · have hne : tup.undelete.xmin ≠ r.txnId := fun h => hx ⟨hw, h⟩
    simp [hm, mapTuple, dropIf, hne]
  · simp [hm, hw, mapTuple]
  · have hne : tup.xmin ≠ r.txnId := fun h => hx ⟨hw, h⟩
    simp [hm, dropIf, hne]
  · simp [hm, hw]

/-- The undo pass keeps a version that no record clears wrongly. -/
lemma foldl_undoView_keep (refs : List (WalRecord β))
    (hcom : committed tup.xmin = true ∨ committed tup.xmax = true)
    (hrefs : ∀ r ∈ refs, committed r.txnId = false)
    (hsafe : ∀ r ∈ refs, r.op.Marks table rid ∨ r.op.Writes table rid ∧ tup.xmin = r.txnId →
      committed tup.xmax = false) :
    refs.foldl (undoView table rid) (.tuple tup) = .tuple tup ∨ committed tup.xmax = false ∧
        refs.foldl (undoView table rid) (.tuple tup) = .tuple tup.undelete := by
  -- none of these records has written the version
  have hnot : ∀ r ∈ refs, ∀ t : Tuple β, t.xmin = tup.xmin → ¬ (r.op.Writes table rid ∧ t.xmin = r.txnId) := by
    rintro r hr t ht ⟨hw, hx⟩
    rw [ht] at hx
    have hmax := hsafe r hr (Or.inr ⟨hw, hx⟩)
    have hmin := hrefs r hr
    rw [← hx] at hmin
    rw [hmin, hmax] at hcom
    simp at hcom
  -- the pass can be cut at any point
  suffices h : ∀ l : List (WalRecord β), (∀ r ∈ l, r ∈ refs) → ∀ v : SlotView β,
      (v = .tuple tup ∨ committed tup.xmax = false ∧ v = .tuple tup.undelete) →
      l.foldl (undoView table rid) v = .tuple tup ∨
        committed tup.xmax = false ∧ l.foldl (undoView table rid) v = .tuple tup.undelete from
    h refs (fun r hr => hr) _ (Or.inl rfl)
  intro l
  induction l with
  | nil => exact fun _ v hv => hv
  | cons r l ih =>
    intro hl v hv
    have hr := hl r mem_cons_self
    refine ih (fun x hx => hl x (mem_cons_of_mem r hx)) _ ?_
    rcases hv with rfl | ⟨hmax, rfl⟩
    · rw [undoView_of_not_writes (hnot r hr tup rfl)]
      by_cases hm : r.op.Marks table rid
      · rw [if_pos hm]
        exact Or.inr ⟨hsafe r hr (Or.inl hm), rfl⟩
      · rw [if_neg hm]
        exact Or.inl rfl
    · rw [undoView_of_not_writes (hnot r hr tup.undelete rfl)]
      refine Or.inr ⟨hmax, ?_⟩
      split <;> rfl

/-- The undo pass clears a slot that one of the records is about. -/
lemma cleared_foldl_undoView {refs : List (WalRecord β)} {r : WalRecord β} (hr : r ∈ refs)
    (hhit : r.op.Marks table rid ∨ r.op.Writes table rid ∧ tup.xmin = r.txnId) :
    Cleared (refs.foldl (undoView table rid) (.tuple tup)) := by
  have hstay : ∀ (l : List (WalRecord β)) (v : SlotView β), Cleared v → Cleared (l.foldl (undoView table rid) v) := by
    intro l
    induction l with
    | nil => exact fun v hv => hv
    | cons r l ih => exact fun v hv => ih _ (hv.undoView r)
  induction refs with
  | nil => cases hr
  | cons r' refs ih =>
    rw [foldl_cons]
    rcases undoView_tuple table rid tup r' with ⟨heq, hnot⟩ | ⟨hcl, -⟩
    · rw [heq]
      refine ih ((mem_cons.1 hr).resolve_left ?_)
      rintro rfl
      exact hnot hhit
    · exact hstay refs _ hcl

end

/-- **The undo pass leaves committed work alone exactly when no record of a loser is about a version
that a committed transaction has deleted since.** -/
theorem undamaged_recover_iff {committed : ℕ → Bool} {log : List (WalRecord β)} {hs : Heaps β}
    (hok : hs.Ok) (hlog : ∀ r ∈ log, r.op.LengthsOk)
    (hlosers : ∀ r ∈ log, isCommitted log r.txnId = false → committed r.txnId = false)
    (hzero : committed kInvalidTxnId = false) :
    Undamaged committed (redoPass log hs).heaps (recover log hs) ↔
      UndoSafe committed log (redoPass log hs).heaps := by
  have hok' := ok_redoPass hok hlog
  have hrefs : ∀ r, r ∈ (redoPass log hs).undoRefs.reverse ↔
      r ∈ log ∧ r.op.isData = true ∧ isCommitted log r.txnId = false := by
    intro r
    rw [mem_reverse, undoRefs_redoPass, mem_filter]
    simp
  unfold recover
  constructor
  · intro hund r hr hloser table rid tup htup hhit
    by_contra hmax
    rw [Bool.not_eq_false] at hmax
    have hdata : r.op.isData = true := by
      cases hop : r.op <;> rw [hop] at hhit <;> simp [WalOp.Marks, WalOp.Writes] at hhit <;> rfl
    have hcl := cleared_foldl_undoView ((hrefs r).2 ⟨hr, hdata, hloser⟩) hhit
    rcases hund table rid tup htup (Or.inr hmax) with h | ⟨h, -⟩
    · rw [look_undoPass hok', htup] at h
      rw [hcl tup h, hzero] at hmax
      cases hmax
    · rw [hmax] at h
      cases h
  · intro hsafe table rid tup htup hcom
    rw [look_undoPass hok', htup]
    refine foldl_undoView_keep _ hcom (fun r hr => ?_) fun r hr => ?_
    · obtain ⟨hmem, -, hloser⟩ := (hrefs r).1 hr
      exact hlosers r hmem hloser
    · obtain ⟨hmem, -, hloser⟩ := (hrefs r).1 hr
      exact hsafe r hmem hloser table rid tup htup

def freshTable : Heaps ℕ := fun table => if table = 1 then some HeapFile.create else none

/-- Transaction 1 inserts a row and commits; transaction 3 deletes it and is lost in the crash. -/
def loserDelete : List (WalRecord ℕ) :=
  [⟨1, 1, .insert 1 ⟨1, 0⟩ ⟨1, 0, 0, 0, 7⟩ 40⟩, ⟨2, 1, .txnCommit⟩, ⟨3, 3, .delete 1 ⟨1, 0⟩⟩]

lemma ok_freshTable : freshTable.Ok := by
  intro table h hh q
  unfold freshTable at hh
  split at hh
  · cases hh
    exact Page.lengthsOk_empty
  · cases hh

/-- The undo pass leaves the row as transaction 1 left it. -/
theorem undamaged_loser_delete :
    Undamaged (isCommitted loserDelete) (redoPass loserDelete freshTable).heaps
      (recover loserDelete freshTable) := by
  refine (undamaged_recover_iff ok_freshTable ?_ (fun r _ h => h) (by decide)).2 ?_
  · simp [loserDelete, WalOp.LengthsOk, LengthOk, kTupleHeaderSize, kPageSize]
  · intro r hr hloser table rid tup htup hhit
    simp only [loserDelete, mem_cons, not_mem_nil, or_false] at hr
    rcases hr with rfl | rfl | rfl
    · exact absurd hloser (by decide)
    · exact absurd hloser (by decide)
    · obtain ⟨rfl, rfl⟩ : 1 = table ∧ (⟨1, 0⟩ : RecordId) = rid := by
        simpa [WalOp.Marks, WalOp.Writes] using hhit
      have hlook : (redoPass loserDelete freshTable).heaps.look 1 ⟨1, 0⟩ =
          .tuple ⟨1, 0, 0, 0, 7⟩ := by decide +kernel
      cases hlook.symm.trans htup
      decide

/-- Transaction 1 inserts a row and commits.  Transaction 3 deletes it and aborts.  Transaction 5
deletes it and commits. -/
def abortThenDelete : List (WalRecord ℕ) :=
  [⟨1, 1, .insert 1 ⟨1, 0⟩ ⟨1, 0, 0, 0, 7⟩ 40⟩, ⟨2, 1, .txnCommit⟩, ⟨3, 3, .delete 1 ⟨1, 0⟩⟩,
    ⟨4, 3, .txnAbort⟩, ⟨5, 5, .delete 1 ⟨1, 0⟩⟩, ⟨6, 5, .txnCommit⟩]

/-- The undo pass takes the deletion of transaction 3 back once more, and with it the committed
one. -/
theorem committed_delete_undone :
    ¬ Undamaged (isCommitted abortThenDelete) (redoPass abortThenDelete freshTable).heaps
      (recover abortThenDelete freshTable) := by
  intro h
  have hbefore : (redoPass abortThenDelete freshTable).heaps.look 1 ⟨1, 0⟩ =
      .tuple ⟨1, 5, 0, 0, 7⟩ := by decide +kernel
  have hafter : (recover abortThenDelete freshTable).look 1 ⟨1, 0⟩ = .tuple ⟨1, 0, 0, 0, 7⟩ := by
    decide +kernel
  rcases h 1 ⟨1, 0⟩ _ hbefore (Or.inl (by decide)) with h | ⟨h, -⟩
  · rw [hafter] at h
    cases h
  · exact absurd h (by decide)

end MiniDb
