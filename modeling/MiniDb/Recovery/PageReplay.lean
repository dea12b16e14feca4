import MiniDb.Core.MixedReplay
import MiniDb.Recovery.UndoPass

/-!
# Recovery page by page

Recovery is a list of operations: the records of the log are redone, then the data records of the transactions without
a commit record are undone, the last one first.  This module says what an operation does to one page.

* A redo leaves a page alone that is stamped at or past the record.  Otherwise it changes the page and stamps it, or it
  fails and changes nothing (`stamps_redoOnPage`).
* An undo looks at no stamp.  It frees slots and clears deletion marks, and does nothing else (`Trims`).

`Settled`: an operation has nothing left to do on a page.  It holds once the operation is done, and later operations
keep it.  What stands in the way is a redo that finds no place for its tuple, or no old version (`Goes`).
-/

namespace MiniDb

open Function List Option Heaps HeapFile

variable {β : Type*}

/-! ## The operations -/

inductive RecoveryOp (β : Type*) where
  | redo (r : WalRecord β)
  | undoDelete (table : ℕ) (rid : RecordId) (lsn : ℕ)
  | undoInsert (table : ℕ) (rid : RecordId) (txnId lsn : ℕ)

open RecoveryOp

/-- What the undo pass does for a record. -/
def WalRecord.undoOps (r : WalRecord β) : List (RecoveryOp β) :=
  match r.op with
  | .insert table rid _ _ => [.undoInsert table rid r.txnId r.lsn]
  | .delete table rid => [.undoDelete table rid r.lsn]
  | .update table old new _ _ =>
    [.undoDelete table old r.lsn, .undoInsert table new r.txnId r.lsn]
  | _ => []

open WalRecord

section

variable (log : List (WalRecord β))

/-- The data records of transactions without a commit record. -/
def losers : List (WalRecord β) :=
  log.filter fun r => r.op.isData && !isCommitted log r.txnId

/-- Everything that recovery does to the heap files, in order. -/
def recoveryOps : List (RecoveryOp β) :=
  log.map .redo ++ (losers log).reverse.flatMap undoOps

section

variable (committed : ℕ → Bool)

def RecoveryOp.apply (hs : Heaps β) : RecoveryOp β → Heaps β
  | .redo r => (redoRecord committed ⟨hs, []⟩ r).heaps
  | .undoDelete table rid lsn => hs.modify table fun h => (h.rollbackDelete rid lsn).getD h
  | .undoInsert table rid txnId lsn =>
    hs.modify table fun h => h.rollbackInsertIfXmin rid txnId lsn

lemma heaps_redoRecord (s : Replay β) (r : WalRecord β) :
    (redoRecord committed s r).heaps = (redo r).apply committed s.heaps := by
  show _ = (redoRecord committed ⟨s.heaps, []⟩ r).heaps
  unfold redoRecord
  cases r.op <;> cases committed r.txnId <;> rfl

lemma undoRecord_eq_foldl (hs : Heaps β) (r : WalRecord β) :
    undoRecord hs r = r.undoOps.foldl (apply committed) hs := by
  unfold undoRecord undoOps
  cases r.op with
  | update table old new data length =>
    exact modify_comp hs table (fun h => (h.rollbackDelete old r.lsn).getD h)
      fun h => h.rollbackInsertIfXmin new r.txnId r.lsn
  | _ => rfl

end

/-- **Recovery is the list of its operations.** -/
lemma recover_eq_foldl (hs : Heaps β) : recover log hs = (recoveryOps log).foldl (apply (isCommitted log)) hs := by
  have hredo : (redoPass log hs).heaps = (log.map redo).foldl (apply (isCommitted log)) hs := by
    unfold redoPass
    generalize isCommitted log = committed
    suffices h : ∀ s : Replay β, (log.foldl (redoRecord committed) s).heaps =
        (log.map redo).foldl (apply committed) s.heaps from h ⟨hs, []⟩
    induction log with
    | nil => exact fun _ => rfl
    | cons r log ih =>
      intro s
      rw [foldl_cons, ih, heaps_redoRecord]
      rfl
  have hundo : ∀ (refs : List (WalRecord β)) (hs : Heaps β), refs.foldl undoRecord hs =
      (refs.flatMap undoOps).foldl (apply (isCommitted log)) hs := by
    intro refs
    induction refs with
    | nil => exact fun _ => rfl
    | cons r refs ih =>
      intro hs
      rw [foldl_cons, ih, undoRecord_eq_foldl (isCommitted log), flatMap_cons, foldl_append]
  unfold recover undoPass recoveryOps losers
  rw [foldl_append, ← hredo, ← hundo, undoRefs_redoPass]

end

/-! ## Pages -/

namespace Page

variable {p p' : Page β} {slot n lsn : ℕ}

lemma ext_slots (hlsn : p.lsn = p'.lsn) (hslots : p.slots = p'.slots) : p = p' := by
  cases p
  cases hlsn
  cases hslots
  rfl

section

variable (p : Page β)

/-- The slot is valid and its tuple has a header of `n` bytes. -/
def fits (slot n : ℕ) : Bool :=
  (p.linePointer slot).isValid && (p.linePointer slot).offset + n ≤ kPageSize &&
    n ≤ (p.linePointer slot).length

/-- Overwrite header fields where there is a header. -/
def rewrite (slot n : ℕ) (f : Tuple β → Tuple β) (lsn : ℕ) : Page β :=
  if p.fits slot n then stampLsn lsn (p.modifyTuple slot f) else p

def free (slot lsn : ℕ) : Page β :=
  ((p.reclaimSlot slot).map (stampLsn lsn)).getD p

/-- The slot holds a version that the transaction has created. -/
def owned (slot txnId : ℕ) : Bool :=
  match p.tupleAt slot with
  | none => false
  | some t => decide ((p.linePointer slot).offset + 8 ≤ kPageSize) && t.xmin == txnId

def freeOwned (slot txnId lsn : ℕ) : Page β :=
  if p.owned slot txnId then p.free slot lsn else p

/-- Put a tuple into a slot, unless the slot is in use or there is no room. -/
def place (slot : ℕ) (data : Tuple β) (length lsn : ℕ) : Page β :=
  if (p.linePointer slot).isValid then stampLsn lsn p
  else ((p.insertTupleAt data length slot).map (stampLsn lsn)).getD p

end

end Page

def Heaps.page (hs : Heaps β) (a : ℕ × ℕ) : Option (Page β) := (hs a.1).map fun h => h.pages a.2

section OnPage

variable (committed : ℕ → Bool) (r : WalRecord β) (a : ℕ × ℕ)

/-- The first step of the redo of an update: the new version is placed. -/
def placeNew (lsn table : ℕ) (new : RecordId) (data : Tuple β) (length : ℕ) (a : ℕ × ℕ) (p : Page β) : Page β :=
  if a = (table, new.pageId) ∧ p.lsn < lsn then p.place new.slotIdx data length lsn else p

/-- The second step: the old version is marked. -/
def markOld (txnId lsn table : ℕ) (old : RecordId) (a : ℕ × ℕ) (p : Page β) : Page β :=
  if a = (table, old.pageId) then
    p.rewrite old.slotIdx 16 (fun t => { t with xmax := txnId }) lsn
  else p

/-- The third step: the old version is linked to the new one. -/
def linkOld (lsn table : ℕ) (old new : RecordId) (a : ℕ × ℕ) (p : Page β) : Page β :=
  if a = (table, old.pageId) then
    p.rewrite old.slotIdx 26
      (fun t => { t with nextPage := new.pageId, nextSlot := new.slotIdx }) lsn
  else p

/-- What the redo of a record does to a page that is not past the record. -/
def WalRecord.redoOnPage (p : Page β) : Page β :=
  match r.op with
  | .savepointUndoInsert table rid =>
    if a = (table, rid.pageId) then p.free rid.slotIdx r.lsn else p
  | .savepointUndoDelete table rid =>
    if a = (table, rid.pageId) then p.rewrite rid.slotIdx 26 Tuple.undelete r.lsn else p
  | .insert table rid data length =>
    if committed r.txnId ∧ a = (table, rid.pageId) then p.place rid.slotIdx data length r.lsn
    else p
  | .delete table rid =>
    if committed r.txnId then markOld r.txnId r.lsn table rid a p else p
  | .update table old new data length =>
    if committed r.txnId then
      linkOld r.lsn table old new a
        (markOld r.txnId r.lsn table old a (placeNew r.lsn table new data length a p))
    else p
  | _ => p

/-- What an operation does to a page. -/
def RecoveryOp.onPage (p : Page β) : RecoveryOp β → Page β
  | .redo r => if r.lsn ≤ p.lsn then p else r.redoOnPage committed a p
  | .undoDelete table rid lsn =>
    if a = (table, rid.pageId) then p.rewrite rid.slotIdx 26 Tuple.undelete lsn else p
  | .undoInsert table rid txnId lsn =>
    if a = (table, rid.pageId) then p.freeOwned rid.slotIdx txnId lsn else p

end OnPage

/-! ## Stamps -/

/-- The page is as it was, or it was changed and stamped. -/
def Stamps (lsn : ℕ) (p p' : Page β) : Prop := p' = p ∨ p'.lsn = max p.lsn lsn

variable {c : Prop} {o : Option (Page β)}

section Stamps

variable {p p' p'' : Page β} {lsn : ℕ}

lemma Stamps.refl (lsn : ℕ) (p : Page β) : Stamps lsn p p := .inl rfl

lemma Stamps.trans (h : Stamps lsn p p') (h' : Stamps lsn p' p'') : Stamps lsn p p'' := by
  rcases h with rfl | h
  · exact h'
  · rcases h' with rfl | h'
    · exact .inr h
    · exact .inr (by rw [h', h, Nat.max_assoc, Nat.max_self])

lemma Stamps.le (h : Stamps lsn p p') : p.lsn ≤ p'.lsn := by
  rcases h with rfl | h
  · exact le_rfl
  · rw [h]
    exact Nat.le_max_left ..

lemma Stamps.ite [Decidable c] (h : c → Stamps lsn p p') : Stamps lsn p (if c then p' else p) := by
  split
  · next hc => exact h hc
  · exact .refl lsn p

/-- A change that may fail stamps the page when it does not. -/
lemma lsn_getD (h : ∀ p' ∈ o, p'.lsn = p.lsn) (hsome : o.isSome = true) :
    ((o.map (stampLsn lsn)).getD p).lsn = max p.lsn lsn := by
  obtain ⟨p', rfl⟩ := isSome_iff_exists.1 hsome
  rw [map_some, getD_some, lsn_stampLsn, h p' rfl]

lemma Stamps.getD (h : ∀ p' ∈ o, p'.lsn = p.lsn) : Stamps lsn p ((o.map (stampLsn lsn)).getD p) := by
  cases o with
  | none => exact .refl lsn p
  | some p' => exact .inr (lsn_getD h rfl)

lemma stamps_rewrite (p : Page β) (slot n : ℕ) (f : Tuple β → Tuple β) (lsn : ℕ) :
    Stamps lsn p (p.rewrite slot n f lsn) :=
  .ite fun _ => .inr (by rw [lsn_stampLsn, Page.lsn_modifyTuple])

lemma stamps_free (p : Page β) (slot lsn : ℕ) : Stamps lsn p (p.free slot lsn) :=
  .getD fun _ hr => (Page.reclaimSlot_eq_some hr).2.1

lemma stamps_place (p : Page β) (slot : ℕ) (data : Tuple β) (length lsn : ℕ) :
    Stamps lsn p (p.place slot data length lsn) := by
  unfold Page.place
  split
  · exact .inr (lsn_stampLsn lsn p)
  · exact .getD fun _ hi => (Page.slots_insertTupleAt hi).2.2.1

lemma stamps_placeNew (lsn table : ℕ) (new : RecordId) (data : Tuple β) (length : ℕ) (a : ℕ × ℕ)
    (p : Page β) : Stamps lsn p (placeNew lsn table new data length a p) :=
  .ite fun _ => stamps_place ..

lemma stamps_markOld (txnId lsn table : ℕ) (old : RecordId) (a : ℕ × ℕ) (p : Page β) :
    Stamps lsn p (markOld txnId lsn table old a p) :=
  .ite fun _ => stamps_rewrite ..

lemma stamps_linkOld (lsn table : ℕ) (old new : RecordId) (a : ℕ × ℕ) (p : Page β) :
    Stamps lsn p (linkOld lsn table old new a p) :=
  .ite fun _ => stamps_rewrite ..

/-- **A redo changes and stamps a page, or it changes nothing.** -/
lemma stamps_redoOnPage (committed : ℕ → Bool) (r : WalRecord β) (a : ℕ × ℕ) (p : Page β) :
    Stamps r.lsn p (r.redoOnPage committed a p) := by
  unfold redoOnPage
  cases r.op with
  | insert table rid data length => exact .ite fun _ => stamps_place ..
  | delete table rid => exact .ite fun _ => stamps_markOld ..
  | update table old new data length =>
    exact .ite fun _ => ((stamps_placeNew ..).trans (stamps_markOld ..)).trans (stamps_linkOld ..)
  | savepointUndoInsert table rid => exact .ite fun _ => stamps_free ..
  | savepointUndoDelete table rid => exact .ite fun _ => stamps_rewrite ..
  | txnCommit | txnAbort | other => exact .refl _ p

end Stamps

/-! ## What an undo leaves of a page -/

/-- Slots may have been freed and deletion marks cleared. -/
structure Trims (p p' : Page β) : Prop where
  lsn : p.lsn ≤ p'.lsn
  length : p'.slots.length = p.slots.length
  slot : ∀ (i : ℕ) (s' : Slot β), p'.slots[i]? = some s' → ∃ s : Slot β, p.slots[i]? = some s ∧
    (s'.lp = s.lp ∨ s'.lp = .markUnused) ∧ (s'.tuple = s.tuple ∨ s'.tuple = s.tuple.undelete)

lemma slots_stampLsn (lsn : ℕ) (p : Page β) : (stampLsn lsn p).slots = p.slots := by
  unfold stampLsn
  split <;> rfl

section Trims

variable {p p' : Page β} {slot n : ℕ}

lemma Trims.refl (p : Page β) : Trims p p where
  lsn := le_rfl
  length := rfl
  slot _ s hs := ⟨s, hs, .inl rfl, .inl rfl⟩

lemma Trims.ite [Decidable c] (h : c → Trims p p') : Trims p (if c then p' else p) := by
  split
  · next hc => exact h hc
  · exact .refl p

lemma Trims.of_modify {f : Slot β → Slot β} (hlsn : p.lsn ≤ p'.lsn) (hslots : p'.slots = p.slots.modify slot f)
    (hf : ∀ s ∈ p.slots[slot]?, ((f s).lp = s.lp ∨ (f s).lp = .markUnused) ∧
      ((f s).tuple = s.tuple ∨ (f s).tuple = s.tuple.undelete)) : Trims p p' where
  lsn := hlsn
  length := by rw [hslots, length_modify]
  slot i s' hs' := by
    rw [hslots, getElem?_modify, Option.map_eq_map, map_eq_some_iff] at hs'
    obtain ⟨s, hs, rfl⟩ := hs'
    refine ⟨s, hs, ?_⟩
    split
    · next hi => exact hf s (hi ▸ hs)
    · exact ⟨.inl rfl, .inl rfl⟩

lemma trims_rewrite (p : Page β) (slot n lsn : ℕ) : Trims p (p.rewrite slot n Tuple.undelete lsn) := by
  refine .ite fun _ => .of_modify ?_ (slots_stampLsn ..) fun _ _ => ⟨.inl rfl, .inr rfl⟩
  rw [lsn_stampLsn, Page.lsn_modifyTuple]
  exact Nat.le_max_left ..

lemma trims_free (p : Page β) (slot lsn : ℕ) : Trims p (p.free slot lsn) := by
  have hlsn := (stamps_free p slot lsn).le
  unfold Page.free at hlsn ⊢
  cases hr : p.reclaimSlot slot with
  | none => exact .refl p
  | some p' =>
    rw [hr] at hlsn
    obtain ⟨s, hs, -, hslots⟩ := Page.slots_reclaimSlot hr
    refine .of_modify hlsn ((slots_stampLsn ..).trans (hslots.trans (set_eq_modify ..))) fun s' hs' => ?_
    cases hs.symm.trans hs'
    exact ⟨.inr rfl, .inl rfl⟩

/-- The line pointer of a slot is kept, or the slot is freed. -/
lemma Trims.linePointer (h : Trims p p') (i : ℕ) :
    p'.linePointer i = p.linePointer i ∨ p'.linePointer i = .markUnused := by
  unfold Page.linePointer
  cases hs' : p'.slots[i]? with
  | none => exact .inr rfl
  | some s' =>
    obtain ⟨s, hs, hlp, -⟩ := h.slot i s' hs'
    rw [hs]
    exact hlp

lemma Trims.fits (h : Trims p p') (hfits : p'.fits slot n = true) :
    p'.linePointer slot = p.linePointer slot ∧ p.fits slot n = true := by
  rcases h.linePointer slot with hlp | hlp
  · unfold Page.fits at hfits ⊢
    rw [hlp] at hfits
    exact ⟨hlp, hfits⟩
  · unfold Page.fits at hfits
    rw [hlp] at hfits
    cases hfits

lemma Trims.fits_eq_false (h : Trims p p') (hfits : p.fits slot n = false) : p'.fits slot n = false := by
  rw [← Bool.not_eq_true] at hfits ⊢
  exact fun hf => hfits (h.fits hf).2

end Trims

/-! ## Operations that have nothing left to do -/

section

variable (committed : ℕ → Bool)

/-- The redo of the record fails on the page, or does not concern it. -/
def WalRecord.Idle (r : WalRecord β) (a : ℕ × ℕ) (p : Page β) : Prop :=
  match r.op with
  | .savepointUndoInsert table rid => a = (table, rid.pageId) → p.numTuples ≤ rid.slotIdx
  | .savepointUndoDelete table rid => a = (table, rid.pageId) → p.fits rid.slotIdx 26 = false
  | .insert table rid _ _ => committed r.txnId = true → a ≠ (table, rid.pageId)
  | .delete table rid =>
    committed r.txnId = true → a = (table, rid.pageId) → p.fits rid.slotIdx 16 = false
  | .update table old new _ _ =>
    committed r.txnId = true → a ≠ (table, old.pageId) ∧ a ≠ (table, new.pageId)
  | _ => True

/-- The operation has nothing left to do on the page. -/
def RecoveryOp.Settled (a : ℕ × ℕ) (p : Page β) : RecoveryOp β → Prop
  | .redo r => r.lsn ≤ p.lsn ∨ r.Idle committed a p
  | .undoDelete table rid lsn => a = (table, rid.pageId) → p.fits rid.slotIdx 26 = true →
    lsn ≤ p.lsn ∧ ∀ s ∈ p.slots[rid.slotIdx]?, s.tuple.undelete = s.tuple
  | .undoInsert table rid txnId _ => a = (table, rid.pageId) → p.owned rid.slotIdx txnId = false

/-- There is room for the tuple of an insert, or the slot is in use. -/
def Page.hasPlace (p : Page β) (slot : ℕ) (data : Tuple β) (length : ℕ) : Bool :=
  (p.linePointer slot).isValid || (p.insertTupleAt data length slot).isSome

/-- The redo of an insert or update finds a place for its tuple and the old version, on pages that are not past
the record. -/
def WalOp.Goes (hs : Heaps β) (lsn : ℕ) : WalOp β → Prop
  | .insert table rid data length =>
    ∀ p ∈ hs.page (table, rid.pageId), lsn ≤ p.lsn ∨ p.hasPlace rid.slotIdx data length = true
  | .update table old new data length =>
    (∀ p ∈ hs.page (table, new.pageId), lsn ≤ p.lsn ∨ p.hasPlace new.slotIdx data length = true) ∧
    ∀ p ∈ hs.page (table, old.pageId), lsn ≤ p.lsn ∨ p.fits old.slotIdx 26 = true
  | _ => True

def RecoveryOp.Goes (hs : Heaps β) : RecoveryOp β → Prop
  | .redo r => committed r.txnId = true → r.op.Goes hs r.lsn
  | _ => True

end

instance (hs : Heaps β) (lsn : ℕ) : DecidablePred (WalOp.Goes hs lsn)
  | .insert .. => inferInstanceAs (Decidable (∀ p ∈ _, _ ∨ _))
  | .update .. => inferInstanceAs (Decidable ((∀ p ∈ _, _ ∨ _) ∧ ∀ p ∈ _, _ ∨ _))
  | .delete .. => isTrue trivial
  | .savepointUndoInsert .. => isTrue trivial
  | .savepointUndoDelete .. => isTrue trivial
  | .txnCommit => isTrue trivial
  | .txnAbort => isTrue trivial
  | .other => isTrue trivial

instance (committed : ℕ → Bool) (hs : Heaps β) : DecidablePred (RecoveryOp.Goes committed hs)
  | .redo r => inferInstanceAs (Decidable (_ → r.op.Goes hs r.lsn))
  | .undoDelete .. => isTrue trivial
  | .undoInsert .. => isTrue trivial

section Settled

variable {committed : ℕ → Bool} {p p' : Page β} {a : ℕ × ℕ} {slot n lsn : ℕ}

lemma stampLsn_eq_self (h : lsn ≤ p.lsn) : stampLsn lsn p = p :=
  if_neg fun hlt => absurd hlt.2 (not_lt.2 h)

variable {f : Tuple β → Tuple β} {op : RecoveryOp β} {i length m : ℕ} {r : WalRecord β} {data : Tuple β}

lemma modifyTuple_eq_self (h : ∀ s ∈ p.slots[slot]?, f s.tuple = s.tuple) : p.modifyTuple slot f = p := by
  refine Page.ext_slots rfl (ext_getElem? fun i => ?_)
  show (p.slots.modify slot _)[i]? = _
  rw [getElem?_modify]
  cases hs : p.slots[i]? with
  | none => rfl
  | some s =>
    by_cases hi : slot = i
    · subst hi
      simp [h s hs]
    · simp [hi]

lemma rewrite_of_not_fits (h : p.fits slot n = false) : p.rewrite slot n f lsn = p := by
  unfold Page.rewrite
  rw [if_neg (by rw [h]; exact Bool.false_ne_true)]

/-- **A settled operation changes nothing.** -/
lemma RecoveryOp.Settled.onPage (h : op.Settled committed a p) : op.onPage committed a p = p := by
  cases op with
  | undoDelete table rid lsn =>
    refine ite_eq_right_iff.2 fun ha => ?_
    cases hf : p.fits rid.slotIdx 26 with
    | false => exact rewrite_of_not_fits hf
    | true =>
      obtain ⟨hlsn, htuple⟩ := h ha hf
      unfold Page.rewrite
      rw [if_pos hf, modifyTuple_eq_self htuple, stampLsn_eq_self hlsn]
  | undoInsert table rid txnId lsn =>
    refine ite_eq_right_iff.2 fun ha => ?_
    unfold Page.freeOwned
    rw [h ha]
    rfl
  | redo r =>
    show (if r.lsn ≤ p.lsn then p else r.redoOnPage committed a p) = p
    split
    · rfl
    next hlsn =>
    have hidle := h.resolve_left hlsn
    obtain ⟨lsn, txnId, op⟩ := r
    cases op with
    | txnCommit | txnAbort | other => rfl
    | insert table rid data length => exact if_neg fun hc => hidle hc.1 hc.2
    | delete table rid =>
      exact ite_eq_right_iff.2 fun hc => ite_eq_right_iff.2 fun ha => rewrite_of_not_fits (hidle hc ha)
    | update table old new data length =>
      refine ite_eq_right_iff.2 fun hc => ?_
      obtain ⟨hold, hnew⟩ := hidle hc
      rw [linkOld, if_neg hold, markOld, if_neg hold, placeNew, if_neg fun hn => hnew hn.1]
    | savepointUndoInsert table rid =>
      refine ite_eq_right_iff.2 fun ha => ?_
      have hnone : p.slots[rid.slotIdx]? = none := getElem?_eq_none (hidle ha)
      unfold Page.free Page.reclaimSlot
      rw [hnone]
      rfl
    | savepointUndoDelete table rid => exact ite_eq_right_iff.2 fun ha => rewrite_of_not_fits (hidle ha)

lemma tupleAt_eq_some_slot {t : Tuple β} :
    p.tupleAt i = some t ↔ ∃ s, p.slots[i]? = some s ∧ s.lp.isValid = true ∧ s.tuple = t := by
  rw [Page.tupleAt_eq_some_iff, Page.look]
  cases hs : p.slots[i]? with
  | none => simp
  | some s =>
    simp only [map_some, getD_some, Slot.view, some.injEq]
    constructor
    · intro hv
      split_ifs at hv with hvalid
      cases hv
      exact ⟨s, rfl, hvalid, rfl⟩
    · rintro ⟨s', rfl, hvalid, rfl⟩
      rw [if_pos hvalid]

lemma Trims.owned (h : Trims p p') {txnId : ℕ} (howned : p.owned slot txnId = false) :
    p'.owned slot txnId = false := by
  rw [← Bool.not_eq_true] at howned ⊢
  refine fun ho => howned ?_
  unfold Page.owned at ho ⊢
  cases ht' : p'.tupleAt slot with
  | none =>
    rw [ht'] at ho
    cases ho
  | some t' =>
    rw [ht'] at ho
    obtain ⟨s', hs', hvalid, rfl⟩ := tupleAt_eq_some_slot.1 ht'
    obtain ⟨s, hs, hlp, htuple⟩ := h.slot slot s' hs'
    have hlp : s'.lp = s.lp := hlp.resolve_right fun hu => by
      rw [hu] at hvalid
      cases hvalid
    have ht : p.tupleAt slot = some s.tuple :=
      tupleAt_eq_some_slot.2 ⟨s, hs, hlp ▸ hvalid, rfl⟩
    have hxmin : s'.tuple.xmin = s.tuple.xmin := by
      rcases htuple with htuple | htuple <;> rw [htuple]
      rfl
    have hpointer : p'.linePointer slot = p.linePointer slot := by
      unfold Page.linePointer
      rw [hs, hs']
      exact hlp
    rw [ht]
    rw [hpointer] at ho
    simpa [hxmin] using ho

/-- An undo keeps operations settled. -/
lemma RecoveryOp.Settled.trims (h : op.Settled committed a p) (ht : Trims p p') :
    op.Settled committed a p' := by
  cases op with
  | undoInsert table rid txnId lsn => exact fun ha => ht.owned (h ha)
  | undoDelete table rid lsn =>
    intro ha hfits
    obtain ⟨hlsn, htuple⟩ := h ha (ht.fits hfits).2
    refine ⟨hlsn.trans ht.lsn, fun s' hs' => ?_⟩
    obtain ⟨s, hs, -, hs'tuple⟩ := ht.slot _ s' hs'
    rcases hs'tuple with heq | heq <;> rw [heq]
    · exact htuple s hs
    · rfl
  | redo r =>
    rcases h with h | h
    · exact .inl (h.trans ht.lsn)
    · refine .inr ?_
      obtain ⟨lsn, txnId, op⟩ := r
      cases op with
      | txnCommit | txnAbort | other => trivial
      | insert | update => exact h
      | delete table rid => exact fun hc ha => ht.fits_eq_false (h hc ha)
      | savepointUndoInsert table rid => exact fun ha => ht.length.le.trans (h ha)
      | savepointUndoDelete table rid => exact fun ha => ht.fits_eq_false (h ha)

section

variable (table : ℕ)

section

variable (rid : RecordId)

/-- The redo of a later record keeps a redo settled: it stamps the page, or leaves it as it is. -/
lemma settled_redo_later {r' : WalRecord β} (hlt : r.lsn < r'.lsn) (h : (redo r).Settled committed a p) :
    (redo r).Settled committed a ((redo r').onPage committed a p) := by
  show (redo r).Settled committed a (if r'.lsn ≤ p.lsn then p else r'.redoOnPage committed a p)
  split
  · exact h
  · rcases stamps_redoOnPage committed r' a p with heq | hlsn
    · rw [heq]
      exact h
    · refine .inl (hlt.le.trans ?_)
      rw [hlsn]
      exact Nat.le_max_right ..

lemma lsn_rewrite (h : p.fits slot n = true) : (p.rewrite slot n f lsn).lsn = max p.lsn lsn := by
  unfold Page.rewrite
  rw [if_pos h, lsn_stampLsn, Page.lsn_modifyTuple]

lemma lsn_place (h : p.hasPlace slot data length = true) :
    (p.place slot data length lsn).lsn = max p.lsn lsn := by
  unfold Page.hasPlace at h
  unfold Page.place
  by_cases hv : (p.linePointer slot).isValid = true
  · rw [if_pos hv, lsn_stampLsn]
  · rw [if_neg hv]
    rw [Bool.not_eq_true] at hv
    rw [hv, Bool.false_or] at h
    exact lsn_getD (fun _ hi => (Page.slots_insertTupleAt hi).2.2.1) h

lemma fits_of_linePointer (h : p'.linePointer slot = p.linePointer slot) : p'.fits slot n = p.fits slot n := by
  unfold Page.fits
  rw [h]

lemma fits_le (hm : m ≤ n) (h : p.fits slot n = true) : p.fits slot m = true := by
  unfold Page.fits at h ⊢
  simp only [Bool.and_eq_true, decide_eq_true_eq] at h ⊢
  exact ⟨⟨h.1.1, by omega⟩, hm.trans h.2⟩

lemma linePointer_stampLsn (i : ℕ) : (stampLsn lsn p).linePointer i = p.linePointer i := by
  unfold Page.linePointer
  rw [slots_stampLsn]

lemma linePointer_modifyTuple (f : Tuple β → Tuple β) (i : ℕ) :
    (p.modifyTuple slot f).linePointer i = p.linePointer i := by
  simp only [Page.linePointer, Page.modifyTuple, getElem?_modify]
  cases p.slots[i]? with
  | none => rfl
  | some s => by_cases hi : slot = i <;> simp [hi]

@[simp] lemma fits_rewrite (f : Tuple β → Tuple β) : (p.rewrite slot n f lsn).fits i m = p.fits i m := by
  unfold Page.rewrite
  split
  · refine fits_of_linePointer ?_
    rw [linePointer_stampLsn, linePointer_modifyTuple]
  · rfl

lemma fits_place (h : p.fits i n = true) : (p.place slot data length lsn).fits i n = true := by
  unfold Page.place
  split
  · rwa [fits_of_linePointer (linePointer_stampLsn i)]
  · next hv =>
    cases hp' : p.insertTupleAt data length slot with
    | none => exact h
    | some p' =>
      show (stampLsn lsn p').fits i n = true
      rw [fits_of_linePointer (linePointer_stampLsn i)]
      have hi : i ≠ slot := by
        rintro rfl
        unfold Page.fits at h
        rw [Bool.not_eq_true] at hv
        rw [hv] at h
        cases h
      obtain ⟨hle, -, -, -, hslots⟩ := Page.slots_insertTupleAt hp'
      have hpointer : p'.linePointer i = p.linePointer i := by
        unfold Page.linePointer
        rw [hslots, getElem?_placeAt _ hle, if_neg hi]
      rwa [fits_of_linePointer hpointer]

lemma fits_placeNew {table : ℕ} {new : RecordId} (h : p.fits i n = true) :
    (placeNew lsn table new data length a p).fits i n = true := by
  unfold placeNew
  split
  · exact fits_place h
  · exact h

/-- **After its redo a record is settled on a page**, if the redo finds what it needs. -/
lemma settled_redo {hs : Heaps β} (hgoes : (redo r).Goes committed hs) (hp : hs.page a = some p) :
    (redo r).Settled committed a ((redo r).onPage committed a p) := by
  show (redo r).Settled committed a (if r.lsn ≤ p.lsn then p else r.redoOnPage committed a p)
  split
  · next hle => exact .inl hle
  next hlt =>
  -- a page that got the stamp of the record is settled
  have hstamped : ∀ {p' : Page β}, max p.lsn r.lsn ≤ p'.lsn → (redo r).Settled committed a p' := fun hlsn =>
    .inl ((Nat.le_max_right ..).trans hlsn)
  obtain ⟨lsn, txnId, op⟩ := r
  cases op with
  | txnCommit | txnAbort | other => exact .inr trivial
  | insert table rid data length =>
    simp only [redoOnPage]
    split
    · next hc =>
      obtain ⟨hc, rfl⟩ := hc
      exact hstamped (lsn_place ((hgoes hc p hp).resolve_left hlt)).ge
    · next hc => exact .inr fun hcom ha => hc ⟨hcom, ha⟩
  | delete table rid =>
    simp only [redoOnPage, markOld]
    split_ifs with hc ha
    · cases hf : p.fits rid.slotIdx 16 with
      | true => exact hstamped (lsn_rewrite hf).ge
      | false =>
        rw [rewrite_of_not_fits hf]
        exact .inr fun _ _ => hf
    · exact .inr fun _ ha' => absurd ha' ha
    · exact .inr fun hcom => absurd hcom hc
  | update table old new data length =>
    simp only [redoOnPage]
    split
    · next hc =>
      obtain ⟨hnew, hold⟩ := hgoes hc
      by_cases ha : a = (table, old.pageId)
      · -- the old version is still there when the new one is placed
        subst ha
        have hfits : (placeNew lsn table new data length (table, old.pageId) p).fits old.slotIdx 26 = true :=
          fits_placeNew ((hold p hp).resolve_left hlt)
        refine hstamped (le_trans ?_ (stamps_linkOld ..).le)
        rw [markOld, if_pos rfl, lsn_rewrite (fits_le (by decide) hfits)]
        exact max_le_max_right lsn (stamps_placeNew ..).le
      · by_cases hn : a = (table, new.pageId)
        · subst hn
          refine hstamped (le_trans ?_ ((stamps_markOld ..).trans (stamps_linkOld ..)).le)
          rw [placeNew, if_pos ⟨rfl, not_le.1 hlt⟩, lsn_place ((hnew p hp).resolve_left hlt)]
        · exact .inr fun _ => ⟨ha, hn⟩
    · next hc => exact .inr fun hcom => absurd hcom hc
  | savepointUndoInsert table rid =>
    simp only [redoOnPage]
    split
    · rcases Nat.lt_or_ge rid.slotIdx p.numTuples with hs | hs
      · refine hstamped (lsn_getD (fun _ hr => (Page.reclaimSlot_eq_some hr).2.1) ?_).ge
        rw [Page.reclaimSlot, getElem?_eq_getElem hs]
        rfl
      · rw [Page.free, Page.reclaimSlot, getElem?_eq_none hs]
        exact .inr fun _ => hs
    · next ha => exact .inr fun ha' => absurd ha' ha
  | savepointUndoDelete table rid =>
    simp only [redoOnPage]
    split
    · cases hf : p.fits rid.slotIdx 26 with
      | true => exact hstamped (lsn_rewrite hf).ge
      | false =>
        rw [rewrite_of_not_fits hf]
        exact .inr fun _ => hf
    · next ha => exact .inr fun ha' => absurd ha' ha

lemma settled_undoDelete (lsn : ℕ) (p : Page β) : (undoDelete table rid lsn).Settled committed a
      ((undoDelete table rid lsn).onPage committed a p) := by
  rintro rfl
  have hpage : (undoDelete table rid lsn).onPage committed (table, rid.pageId) p = p.rewrite _ 26 _ lsn := if_pos rfl
  rw [hpage, fits_rewrite]
  intro hfits
  refine ⟨?_, fun s hs => ?_⟩
  · rw [lsn_rewrite hfits]
    exact Nat.le_max_right ..
  · rw [Page.rewrite, if_pos hfits, slots_stampLsn] at hs
    change (p.slots.modify _ _)[_]? = some s at hs
    rw [getElem?_modify, Option.map_eq_map, map_eq_some_iff] at hs
    obtain ⟨s, -, rfl⟩ := hs
    rw [if_pos rfl]
    rfl

lemma settled_undoInsert (txnId lsn : ℕ) (p : Page β) :
    (undoInsert table rid txnId lsn).Settled committed a ((undoInsert table rid txnId lsn).onPage committed a p) := by
  rintro rfl
  show (if _ then _ else p : Page β).owned _ _ = false
  rw [if_pos rfl, Page.freeOwned]
  cases ho : p.owned rid.slotIdx txnId with
  | false => exact ho
  | true =>
    rw [if_pos rfl, Page.free]
    cases hr : p.reclaimSlot rid.slotIdx with
    | none =>
      -- there is no such slot, so that it holds no version either
      unfold Page.reclaimSlot at hr
      split at hr
      · next hs =>
        have hnone : p.tupleAt rid.slotIdx = none := by
          simp [Page.tupleAt, Page.look, hs, SlotView.tuple?]
        unfold Page.owned at ho
        rw [hnone] at ho
        cases ho
      · cases hr
    | some p' =>
      show (stampLsn lsn p').owned _ _ = false
      have hnone : (stampLsn lsn p').tupleAt rid.slotIdx = none := by
        unfold Page.tupleAt
        rw [look_stampLsn, (Page.reclaimSlot_eq_some hr).2.2.2, if_pos rfl]
        rfl
      unfold Page.owned
      rw [hnone]

end

end

end Settled

/-! ## From heap files to pages -/

variable {hs : Heaps β} {table : ℕ} {f : HeapFile β → HeapFile β} {committed : ℕ → Bool} {op : RecoveryOp β}

lemma Heaps.page_modify {g : ℕ × ℕ → Page β → Page β}
    (hf : ∀ h, hs table = some h → ∀ q, (f h).pages q = g (table, q) (h.pages q))
    (hg : ∀ a p, a.1 ≠ table → g a p = p) (a : ℕ × ℕ) : (hs.modify table f).page a = (hs.page a).map (g a) := by
  obtain ⟨t, q⟩ := a
  unfold page modify
  by_cases ht : t = table
  · subst ht
    cases hh : hs t with
    | none => simp [hh]
    | some h => simp [hf h hh q]
  · have hid : ∀ o : Option (HeapFile β), (o.map fun h => h.pages q).map (g (t, q)) = o.map fun h => h.pages q := by
      intro o
      cases o with
      | none => rfl
      | some h => simp [hg (t, q) _ ht]
    cases hh : hs table with
    | none => exact (hid _).symm
    | some h =>
      simp only [update_of_ne ht]
      exact (hid _).symm

lemma Heaps.page_modify_onPage
    (hf : ∀ h, hs table = some h → ∀ q, (f h).pages q = op.onPage committed (table, q) (h.pages q))
    (hg : ∀ a p, a.1 ≠ table → op.onPage committed a p = p) (a : ℕ × ℕ) :
    (hs.modify table f).page a = (hs.page a).map fun p => op.onPage committed a p :=
  page_modify (g := fun a p => op.onPage committed a p) hf hg a

namespace HeapFile

variable {h : HeapFile β} {rid : RecordId} {lsn : ℕ} {h' : HeapFile β} {data : Tuple β} {length : ℕ}

lemma pages_eq_ite {pageId : ℕ} (g : Page β → Page β)
    (hpages : h'.pages = update h.pages pageId (g (h.pages pageId))) (q : ℕ) :
    h'.pages q = if q = pageId then g (h.pages q) else h.pages q := by
  rw [hpages, update_apply]
  split
  · next hq => rw [hq]
  · rfl

lemma isSome_updateTuple {n : ℕ} {f : Tuple β → Tuple β} :
    (h.updateTuple rid n f lsn).isSome = (h.pages rid.pageId).fits rid.slotIdx n := by
  show (if (h.pages rid.pageId).fits rid.slotIdx n = true then _ else none).isSome = _
  split
  · next hf => exact hf.symm
  · next hf => exact (Bool.not_eq_true _ ▸ hf : _ = false).symm

lemma pages_updateTuple (n : ℕ) (f : Tuple β → Tuple β) : ((h.updateTuple rid n f lsn).getD h).pages =
      update h.pages rid.pageId ((h.pages rid.pageId).rewrite rid.slotIdx n f lsn) := by
  unfold updateTuple Page.rewrite
  show ((if (h.pages rid.pageId).fits rid.slotIdx n = true then _ else none).getD h).pages = _
  split
  · rfl
  · exact (update_eq_self ..).symm

lemma pages_markDeleted (xmax : ℕ) : ((h.markDeleted rid xmax lsn).getD h).pages = update h.pages rid.pageId
      ((h.pages rid.pageId).rewrite rid.slotIdx 16 (fun t => { t with xmax := xmax }) lsn) := by
  rw [← pages_updateTuple]
  unfold markDeleted
  cases h.updateTuple rid 16 (fun t => { t with xmax := xmax }) lsn <;> rfl

lemma isSome_markDeleted {xmax : ℕ} :
    (h.markDeleted rid xmax lsn).isSome = (h.pages rid.pageId).fits rid.slotIdx 16 := by
  unfold markDeleted
  rw [isSome_map, isSome_updateTuple]

lemma pages_rollbackInsert : ((h.rollbackInsert rid lsn).getD h).pages =
    update h.pages rid.pageId ((h.pages rid.pageId).free rid.slotIdx lsn) := by
  unfold rollbackInsert Page.free
  cases (h.pages rid.pageId).reclaimSlot rid.slotIdx with
  | none => exact (update_eq_self ..).symm
  | some p => rfl

lemma pages_rollbackInsertIfXmin (txnId : ℕ) : (h.rollbackInsertIfXmin rid txnId lsn).pages =
    update h.pages rid.pageId ((h.pages rid.pageId).freeOwned rid.slotIdx txnId lsn) := by
  have hcases : h.rollbackInsertIfXmin rid txnId lsn =
      if (h.pages rid.pageId).owned rid.slotIdx txnId then (h.rollbackInsert rid lsn).getD h
      else h := by
    unfold rollbackInsertIfXmin Page.owned
    simp only
    cases (h.pages rid.pageId).tupleAt rid.slotIdx with
    | none => rfl
    | some t =>
      simp only [Bool.and_eq_true, decide_eq_true_eq, beq_iff_eq]
      split_ifs <;> first | rfl | omega
  rw [hcases]
  unfold Page.freeOwned
  split
  · exact pages_rollbackInsert
  · exact (update_eq_self ..).symm

lemma pageDone_eq (hpage : rid.pageId ≠ kNullPageId) :
    h.pageDone rid.pageId lsn = decide (lsn ≤ (h.pages rid.pageId).lsn) := by
  unfold pageDone
  rw [bne_iff_ne.2 hpage, Bool.true_and]

lemma isSome_recoverInsertAt (hgoes : lsn ≤ (h.pages rid.pageId).lsn ∨
      (h.pages rid.pageId).hasPlace rid.slotIdx data length = true) (hlsn : lsn ≠ 0) :
    (h.recoverInsertAt rid data length lsn).isSome = true := by
  unfold recoverInsertAt
  simp only
  split_ifs with hpast hv
  · rfl
  · rfl
  · rw [isSome_map]
    have hplace := hgoes.resolve_left fun hle => hpast ⟨hlsn, hle⟩
    unfold Page.hasPlace at hplace
    rw [Bool.not_eq_true] at hv
    rwa [hv, Bool.false_or] at hplace

lemma pages_recoverInsertAt (hlsn : lsn ≠ 0) (table q : ℕ) :
    (((h.recoverInsertAt rid data length lsn).map Prod.fst).getD h).pages q =
      placeNew lsn table rid data length (table, q) (h.pages q) := by
  have hpages : (((h.recoverInsertAt rid data length lsn).map Prod.fst).getD h).pages =
      update h.pages rid.pageId (placeNew lsn table rid data length (table, rid.pageId) (h.pages rid.pageId)) := by
    unfold recoverInsertAt placeNew
    by_cases hpast : lsn ≤ (h.pages rid.pageId).lsn
    · rw [if_pos ⟨hlsn, hpast⟩, if_neg fun hc => absurd hc.2 (not_lt.2 hpast)]
      exact (update_eq_self ..).symm
    · rw [if_neg fun hc => hpast hc.2, if_pos (And.intro rfl (not_le.1 hpast)), Page.place]
      by_cases hv : ((h.pages rid.pageId).linePointer rid.slotIdx).isValid = true
      · rw [if_pos hv, if_pos hv]
        rfl
      · rw [if_neg hv, if_neg hv]
        cases (h.pages rid.pageId).insertTupleAt data length rid.slotIdx with
        | none => exact (update_eq_self ..).symm
        | some p => rfl
  by_cases hq : q = rid.pageId
  · rw [hpages, hq, update_self]
  · rw [hpages, update_of_ne hq, placeNew, if_neg fun hc => hq (congrArg Prod.snd hc.1)]

/-- The first step of the redo of an update.  The flag is there if the old version is still to be marked, and
says whether a tuple was written. -/
def beginUpdate (h : HeapFile β) (lsn : ℕ) (old new : RecordId) (data : Tuple β) (length : ℕ) :
    HeapFile β × Option Bool :=
  let oldDone := h.pageDone old.pageId lsn
  let newDone := h.pageDone new.pageId lsn
  if oldDone && newDone then (h, none)
  else
    match if newDone then some (h, false) else h.recoverInsertAt new data length lsn with
    | none => (h, none)
    | some (h₁, inserted) => (h₁, if oldDone then none else some inserted)

/-- The rest of the redo of an update. -/
def finishUpdate (h : HeapFile β) (txnId lsn : ℕ) (old new : RecordId) (inserted : Bool) : HeapFile β :=
  let h₂ := (h.markDeleted old txnId lsn).getD h
  let h₃ := (h₂.setNextVersion old new lsn).getD h₂
  if (h.markDeleted old txnId lsn).isSome && (h₂.setNextVersion old new lsn).isSome then h₃
  else if inserted then (h₃.rollbackInsert new lsn).getD h₃
  else h₃

lemma redoUpdate_eq (h : HeapFile β) (txnId lsn : ℕ) (old new : RecordId) (data : Tuple β) (length : ℕ) :
    h.redoUpdate txnId lsn old new data length = match h.beginUpdate lsn old new data length with
      | (h₁, none) => h₁
      | (h₁, some inserted) => h₁.finishUpdate txnId lsn old new inserted := by
  unfold redoUpdate beginUpdate finishUpdate
  simp only
  split
  · rfl
  · cases (if h.pageDone new.pageId lsn = true then some (h, false) else h.recoverInsertAt new data length lsn) with
    | none => rfl
    | some res => cases h.pageDone old.pageId lsn <;> rfl

section Update

variable {old new : RecordId} {data : Tuple β} {length txnId : ℕ}

lemma pages_beginUpdate (hold : old.pageId ≠ kNullPageId) (hnew : new.pageId ≠ kNullPageId) (hlsn : lsn ≠ 0)
    (table q : ℕ) :
    (h.beginUpdate lsn old new data length).1.pages q = placeNew lsn table new data length (table, q) (h.pages q) := by
  have hskip : lsn ≤ (h.pages new.pageId).lsn →
      h.pages q = placeNew lsn table new data length (table, q) (h.pages q) := by
    intro hle
    rw [placeNew, if_neg]
    rintro ⟨hq, hlt⟩
    cases hq
    omega
  rw [beginUpdate, pageDone_eq hold, pageDone_eq hnew]
  simp only [Bool.and_eq_true, decide_eq_true_eq]
  by_cases hdone : lsn ≤ (h.pages new.pageId).lsn
  · split <;> exact hskip hdone
  · rw [if_neg fun hboth => hdone hboth.2, if_neg hdone, ← pages_recoverInsertAt hlsn]
    cases h.recoverInsertAt new data length lsn <;> rfl

lemma isSome_beginUpdate (hold : old.pageId ≠ kNullPageId) (hnew : new.pageId ≠ kNullPageId) (hlsn : lsn ≠ 0)
    (hgoes : lsn ≤ (h.pages new.pageId).lsn ∨ (h.pages new.pageId).hasPlace new.slotIdx data length = true) :
    (h.beginUpdate lsn old new data length).2.isSome = decide ((h.pages old.pageId).lsn < lsn) := by
  have hplaced := isSome_recoverInsertAt hgoes hlsn
  rw [beginUpdate, pageDone_eq hold, pageDone_eq hnew]
  obtain ⟨⟨h₁, inserted⟩, hres⟩ := isSome_iff_exists.1 hplaced
  by_cases hle : lsn ≤ (h.pages old.pageId).lsn
  · by_cases hdone : lsn ≤ (h.pages new.pageId).lsn <;> simp [hle, hdone, hres]
  · by_cases hdone : lsn ≤ (h.pages new.pageId).lsn <;> simp [hle, hdone, hres, not_le.1 hle]

/-- When the old version is there, the rest of the redo marks and links it. -/
lemma finishUpdate_eq (hfits : (h.pages old.pageId).fits old.slotIdx 26 = true) (inserted : Bool) :
    h.finishUpdate txnId lsn old new inserted =
      let h₂ := (h.markDeleted old txnId lsn).getD h
      (h₂.setNextVersion old new lsn).getD h₂ := by
  have hmark : (h.markDeleted old txnId lsn).isSome = true := by
    rw [isSome_markDeleted]
    exact fits_le (by decide) hfits
  have hlink : (((h.markDeleted old txnId lsn).getD h).setNextVersion old new lsn).isSome = true := by
    unfold setNextVersion
    rw [isSome_updateTuple, pages_markDeleted, update_self, fits_rewrite, hfits]
  unfold finishUpdate
  simp [hmark, hlink]

lemma pages_markDeleted_onPage (table q : ℕ) : ((h.markDeleted old txnId lsn).getD h).pages q =
      markOld txnId lsn table old (table, q) (h.pages q) := by
  rw [pages_eq_ite (fun p => p.rewrite ..) (pages_markDeleted txnId), markOld]
  simp

lemma pages_setNextVersion_onPage (table q : ℕ) : ((h.setNextVersion old new lsn).getD h).pages q =
      linkOld lsn table old new (table, q) (h.pages q) := by
  rw [setNextVersion, pages_eq_ite (fun p => p.rewrite ..) (pages_updateTuple 26 _), linkOld]
  simp

/-- The redo of an update, page by page. -/
lemma pages_redoUpdate (hold : old.pageId ≠ kNullPageId) (hnew : new.pageId ≠ kNullPageId) (hlsn : lsn ≠ 0)
    (hplace : lsn ≤ (h.pages new.pageId).lsn ∨ (h.pages new.pageId).hasPlace new.slotIdx data length = true)
    (hfits : lsn ≤ (h.pages old.pageId).lsn ∨ (h.pages old.pageId).fits old.slotIdx 26 = true) (table q : ℕ) :
    (h.redoUpdate txnId lsn old new data length).pages q = if lsn ≤ (h.pages q).lsn then h.pages q
      else linkOld lsn table old new (table, q) (markOld txnId lsn table old (table, q)
        (placeNew lsn table new data length (table, q) (h.pages q))) := by
  have hpages : ∀ q, (h.beginUpdate lsn old new data length).1.pages q = _ :=
    pages_beginUpdate hold hnew hlsn table
  have hsome := isSome_beginUpdate hold hnew hlsn hplace
  -- a page that is past the record gets no new version
  have hpast : lsn ≤ (h.pages q).lsn →
      placeNew lsn table new data length (table, q) (h.pages q) = h.pages q := fun hle =>
    if_neg fun hc => absurd hc.2 (not_lt.2 hle)
  rw [redoUpdate_eq]
  generalize h.beginUpdate lsn old new data length = begun at hpages hsome
  obtain ⟨h₁, _ | inserted⟩ := begun
  · -- the page of the old version is past the record
    have hdone : lsn ≤ (h.pages old.pageId).lsn := by simpa using hsome
    rw [show h₁.pages q = _ from hpages q]
    split
    · next hle => exact hpast hle
    · next hlt =>
      have hq : (table, q) ≠ (table, old.pageId) := by
        rintro heq
        cases heq
        exact hlt hdone
      rw [linkOld, if_neg hq, markOld, if_neg hq]
  · have hdue : (h.pages old.pageId).lsn < lsn := by simpa using hsome
    have hthere : (h₁.pages old.pageId).fits old.slotIdx 26 = true := by
      rw [show h₁.pages old.pageId = _ from hpages old.pageId]
      exact fits_placeNew (hfits.resolve_left (not_le.2 hdue))
    show (h₁.finishUpdate txnId lsn old new inserted).pages q = _
    rw [finishUpdate_eq hthere, pages_setNextVersion_onPage table, pages_markDeleted_onPage table,
      show h₁.pages q = _ from hpages q]
    split
    · next hle =>
      have hq : (table, q) ≠ (table, old.pageId) := by
        rintro heq
        cases heq
        omega
      rw [linkOld, if_neg hq, markOld, if_neg hq, hpast hle]
    · rfl

end Update

/-- A change to one page that is not made when the page is past the record. -/
lemma pages_guarded (g : Page β → Page β) (hpage : rid.pageId ≠ kNullPageId)
    (hg : h'.pages = update h.pages rid.pageId (g (h.pages rid.pageId))) (q : ℕ) :
    (if h.pageDone rid.pageId lsn = true then h else h').pages q = if lsn ≤ (h.pages q).lsn then h.pages q
      else if q = rid.pageId then g (h.pages q) else h.pages q := by
  simp only [pageDone_eq hpage, decide_eq_true_eq]
  by_cases hq : q = rid.pageId
  · subst hq
    split
    · rfl
    · rw [hg, update_self, if_pos rfl]
  · rw [if_neg hq, ite_self]
    split
    · rfl
    · rw [hg, update_of_ne hq]

end HeapFile

/-- The addresses in the record are on data pages. -/
def WalOp.OnDataPages : WalOp β → Prop
  | .insert _ rid _ _ => rid.pageId ≠ kNullPageId
  | .delete _ rid => rid.pageId ≠ kNullPageId
  | .update _ old new _ _ => old.pageId ≠ kNullPageId ∧ new.pageId ≠ kNullPageId
  | .savepointUndoInsert _ rid => rid.pageId ≠ kNullPageId
  | .savepointUndoDelete _ rid => rid.pageId ≠ kNullPageId
  | _ => True

def RecoveryOp.Proper : RecoveryOp β → Prop
  | .redo r => r.lsn ≠ 0 ∧ r.op.OnDataPages
  | _ => True

/-- **What an operation does, page by page.** -/
lemma page_apply (hop : op.Proper) (hgoes : op.Goes committed hs) (a : ℕ × ℕ) :
    (op.apply committed hs).page a = (hs.page a).map (fun p => op.onPage committed a p) := by
  -- an address of the table in question is given by the page
  have haddr : ∀ {table q q' : ℕ}, ((table, q) = (table, q')) = (q = q') := by
    intro table q q'
    simp
  have hother : ∀ {table q : ℕ} {a : ℕ × ℕ}, a.1 ≠ table → a ≠ (table, q) := by
    rintro table q a ha rfl
    exact ha rfl
  have hsame : ∀ g : Page β → Page β, (∀ p, g p = p) → hs.page a = (hs.page a).map g := by
    intro g hg
    rw [funext hg]
    exact map_id'.symm
  cases op with
  | undoDelete table rid lsn =>
    refine page_modify_onPage (fun h _ q => ?_) (fun a p ha => by exact if_neg (hother ha)) a
    simp only [onPage, haddr]
    exact pages_eq_ite (fun p => p.rewrite rid.slotIdx 26 Tuple.undelete lsn)
      (pages_updateTuple 26 Tuple.undelete) q
  | undoInsert table rid txnId lsn =>
    refine page_modify_onPage (fun h _ q => ?_) (fun a p ha => by exact if_neg (hother ha)) a
    simp only [onPage, haddr]
    exact pages_eq_ite (fun p => p.freeOwned rid.slotIdx txnId lsn)
      (pages_rollbackInsertIfXmin txnId) q
  | redo r =>
    obtain ⟨lsn, txnId, op⟩ := r
    obtain ⟨hlsn, hpage⟩ := hop
    cases op with
    | txnCommit | txnAbort | other => exact hsame _ fun p => ite_self p
    | savepointUndoInsert table rid =>
      refine page_modify_onPage (fun h _ q => ?_) (fun a p ha => ?_) a
      · simp only [onPage, redoOnPage, haddr]
        exact pages_guarded (fun p => p.free rid.slotIdx lsn) hpage pages_rollbackInsert q
      · simp [onPage, redoOnPage, if_neg (hother ha)]
    | savepointUndoDelete table rid =>
      refine page_modify_onPage (fun h _ q => ?_) (fun a p ha => ?_) a
      · simp only [onPage, redoOnPage, haddr]
        exact pages_guarded (fun p => p.rewrite rid.slotIdx 26 Tuple.undelete lsn) hpage
          (pages_updateTuple 26 Tuple.undelete) q
      · simp [onPage, redoOnPage, if_neg (hother ha)]
    | insert table rid data length =>
      cases hc : committed txnId with
      | false =>
        simp only [apply, redoRecord, hc, onPage, redoOnPage]
        exact hsame _ fun p => by simp
      | true =>
        simp only [apply, redoRecord, hc, if_true]
        refine page_modify_onPage (fun h _ q => ?_) (fun a p ha => ?_) a
        · rw [pages_recoverInsertAt hlsn table]
          simp only [onPage, redoOnPage, placeNew, hc, true_and, haddr]
          split_ifs <;> first | rfl | omega
        · simp [onPage, redoOnPage, if_neg fun hx => hother ha (And.right hx)]
    | delete table rid =>
      cases hc : committed txnId with
      | false =>
        simp only [apply, redoRecord, hc, onPage, redoOnPage]
        exact hsame _ fun p => by simp
      | true =>
        simp only [apply, redoRecord, hc, if_true]
        refine page_modify_onPage (fun h _ q => ?_) (fun a p ha => ?_) a
        · simp only [onPage, redoOnPage, markOld, hc, if_true, haddr]
          exact pages_guarded (fun p => p.rewrite rid.slotIdx 16 (fun t => { t with xmax := txnId }) lsn) hpage
            (pages_markDeleted txnId) q
        · simp [onPage, redoOnPage, markOld, if_neg (hother ha)]
    | update table old new data length =>
      cases hc : committed txnId with
      | false =>
        simp only [apply, redoRecord, hc, onPage, redoOnPage]
        exact hsame _ fun p => by simp
      | true =>
        obtain ⟨hplace, hfits⟩ := hgoes hc
        simp only [apply, redoRecord, hc, if_true]
        refine page_modify_onPage (fun h hh q => ?_) (fun a p ha => ?_) a
        · have hthere : ∀ q', h.pages q' ∈ hs.page (table, q') := by
            intro q'
            show (hs table).map _ = _
            rw [hh]
            rfl
          simp only [onPage, redoOnPage, hc, if_true]
          exact pages_redoUpdate hpage.1 hpage.2 hlsn (hplace _ (hthere _)) (hfits _ (hthere _)) table q
        · simp [onPage, redoOnPage, linkOld, markOld, placeNew, if_neg (hother ha),
            if_neg fun hx => hother ha (And.left hx)]

end MiniDb
