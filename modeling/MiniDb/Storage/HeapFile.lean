import MiniDb.Storage.Page

/-!
# Heap files

A heap file is the sequence of data pages of one table with its free space map and its visibility map.  Data pages are
numbered from one, and zero is the null page id.

The functions that stamp a tuple header (`commit_old_tuple`, `mark_deleted`, `set_next_version`, `rollback_delete`, …)
are one definition, `updateTuple`, applied to the header length they check and the fields they overwrite.  Only some of
them clear the page's visibility bits.
-/

namespace MiniDb

open Option Function Page

/-- The two bits of the visibility map for one page. -/
structure VmFlags where
  visible : Bool := false
  frozen : Bool := false
  deriving DecidableEq, Repr

def fsmEncode (freeBytes : ℕ) : ℕ := min (freeBytes / 32) 255

def fsmNeededCategory (tupleSize : ℕ) : ℕ := min ((tupleSize + 6 + 31) / 32) 255

structure HeapFile (β : Type*) where
  pages : ℕ → Page β
  numDataPages : ℕ
  /-- Zero when there is no data page yet. -/
  lastDataPage : ℕ
  /-- Entries of the free space map: page and category. -/
  fsm : List (ℕ × ℕ)
  vm : ℕ → VmFlags

variable {β : Type*}

namespace HeapFile

def create : HeapFile β := ⟨fun _ => Page.empty, 0, kNullPageId, [], fun _ => {}⟩

section

variable (h : HeapFile β)

section

variable (rid : RecordId)

def look : SlotView β := (h.pages rid.pageId).look rid.slotIdx

/-- The row version at an address, if the slot there is valid. -/
def tupleAt : Option (Tuple β) :=
  (h.pages rid.pageId).tupleAt rid.slotIdx

section

variable (pageId : ℕ)

def setPage (p : Page β) : HeapFile β :=
  { h with pages := Function.update h.pages pageId p }

/-! ## The two maps -/

/-- `FreeSpaceMap::update`. -/
def fsmUpdate (pageId freeBytes : ℕ) : HeapFile β :=
  { h with
    fsm :=
      if h.fsm.any fun e => e.1 == pageId then
        h.fsm.map fun e => if e.1 = pageId then (pageId, fsmEncode freeBytes) else e
      else h.fsm ++ [(pageId, fsmEncode freeBytes)] }

/-- `FreeSpaceMap::find_page`. -/
def fsmFindPage (needed : ℕ) : ℕ :=
  match h.fsm.find? fun e => fsmNeededCategory needed ≤ e.2 with
  | some e => e.1
  | none => kNullPageId

/-- `VisibilityMap::set_visible`. -/
def vmSetVisible : HeapFile β :=
  { h with vm := Function.update h.vm pageId { h.vm pageId with visible := true } }

/-- `VisibilityMap::set_frozen`. -/
def vmSetFrozen : HeapFile β :=
  { h with vm := Function.update h.vm pageId { visible := true, frozen := true } }

/-- `VisibilityMap::clear_page`. -/
def vmClearPage : HeapFile β :=
  { h with vm := Function.update h.vm pageId {} }

end

/-! ## Stamping tuple headers -/

/-- `BufferPool::set_page_lsn`, as the functions below call it: not without a log sequence number,
and it only moves the page's one forward. -/
def stampLsn (lsn : ℕ) (p : Page β) : Page β :=
  if lsn ≠ 0 ∧ p.lsn < lsn then p.setLsn lsn else p

/-- Overwrite header fields of the tuple at `rid`.  Fails when the slot is not valid or its tuple
is too short for a header of `headerLen` bytes. -/
def updateTuple (headerLen : ℕ) (f : Tuple β → Tuple β) (lsn : ℕ) : Option (HeapFile β) :=
  let p := h.pages rid.pageId
  let lp := p.linePointer rid.slotIdx
  if lp.isValid && lp.offset + headerLen ≤ kPageSize && headerLen ≤ lp.length then
    some (h.setPage rid.pageId (stampLsn lsn (p.modifyTuple rid.slotIdx f)))
  else none

/-- `commit_old_tuple`: link the old version to the new one and set its `xmax`, whatever it was.
The visibility bits stay as they are. -/
def commitOldTuple (rid next : RecordId) (xmax lsn : ℕ) : Option (HeapFile β) :=
  h.updateTuple rid 26
    (fun t => { t with xmax := xmax, nextPage := next.pageId, nextSlot := next.slotIdx }) lsn

def markDeleted (xmax lsn : ℕ) : Option (HeapFile β) :=
  (h.updateTuple rid 16 (fun t => { t with xmax := xmax }) lsn).map
    fun h' => h'.vmClearPage rid.pageId

/-- `mark_deleted_if_current`: refuses a version that another transaction has marked. -/
def markDeletedIfCurrent (xmax lsn : ℕ) : Option (HeapFile β) :=
  match h.tupleAt rid with
  | none => none
  | some t =>
    if t.xmax ≠ kInvalidTxnId ∧ t.xmax ≠ xmax then none
    else h.markDeleted rid xmax lsn

def setNextVersion (rid next : RecordId) (lsn : ℕ) : Option (HeapFile β) :=
  h.updateTuple rid 26 (fun t => { t with nextPage := next.pageId, nextSlot := next.slotIdx }) lsn

/-- `rollback_delete`: clear `xmax` and the link, whoever set them. -/
def rollbackDelete (lsn : ℕ) : Option (HeapFile β) :=
  h.updateTuple rid 26
    (fun t => { t with xmax := kInvalidTxnId, nextPage := kNullPageId, nextSlot := 0 }) lsn

/-- `rollback_insert`: free the slot, whatever it holds. -/
def rollbackInsert (lsn : ℕ) : Option (HeapFile β) :=
  ((h.pages rid.pageId).reclaimSlot rid.slotIdx).map fun p =>
    h.setPage rid.pageId (stampLsn lsn p)

/-- `prune_obsolete_version`, called by a commit for each version it deleted: if the deleter is
below the horizon, the slot becomes a redirect to the next version on the same page, or is freed. -/
def pruneObsoleteVersion (oldestActiveTxn committedXmax lsn : ℕ) : Option (HeapFile β) :=
  if committedXmax = kInvalidTxnId ∨ oldestActiveTxn ≤ committedXmax then none
  else
    let p := h.pages rid.pageId
    let lp := p.linePointer rid.slotIdx
    match p.tupleAt rid.slotIdx with
    | none => none
    | some t =>
      if lp.length < 26 ∨ kPageSize < lp.offset + 26 then none
      else if t.xmax ≠ committedXmax then none
      else
        let pruned :=
          if t.nextPage = rid.pageId ∧ t.nextSlot ≠ kNullSlot then
            p.redirectSlot rid.slotIdx t.nextSlot
          else p.markDead rid.slotIdx
        pruned.map fun p' =>
          let p' := if t.nextPage ≠ rid.pageId then p'.prune.1 else p'
          h.setPage rid.pageId (stampLsn lsn p')

end

/-! ## Insertion -/

/-- What `prepare_insert` hands out.  The heap latch is held until it is committed, so the two
calls are one step of the heap. -/
structure Reservation where
  pageId : ℕ
  isNewPage : Bool
  predictedSlot : ℕ
  deriving DecidableEq, Repr

/-- Prune a page, as both `prepare_insert` functions do before they look for space. -/
def prunePage (pageId : ℕ) : HeapFile β :=
  h.setPage pageId (h.pages pageId).prune.1

/-- `prepare_insert`: the last page if it has room, else a page from the free space map, else a
new page. -/
def prepareInsert (length : ℕ) : HeapFile β × Reservation :=
  if h.lastDataPage = kNullPageId then (h, ⟨h.numDataPages + 1, true, 0⟩)
  else
    let h := h.prunePage h.lastDataPage
    if (h.pages h.lastDataPage).hasEnoughSpace length then
      (h, ⟨h.lastDataPage, false, (h.pages h.lastDataPage).predictSlot length⟩)
    else
      let fsmPid := h.fsmFindPage length
      if fsmPid ≠ kNullPageId ∧ fsmPid ≠ h.lastDataPage then
        let h := h.prunePage fsmPid
        if (h.pages fsmPid).hasEnoughSpace length then
          (h, ⟨fsmPid, false, (h.pages fsmPid).predictSlot length⟩)
        else
          (h.fsmUpdate fsmPid (h.pages fsmPid).getFreeSpace, ⟨h.numDataPages + 1, true, 0⟩)
      else (h, ⟨h.numDataPages + 1, true, 0⟩)

/-- `InsertReservation::commit` on a new page: the page that was last so far is stamped too, since
it gets a link to the new one. -/
def commitNewPage (pageId : ℕ) (t : Tuple β) (length lsn : ℕ) : Option (HeapFile β × RecordId) :=
  match (stampLsn lsn (Page.empty : Page β)).insertTuple t length with
  | none => none
  | some (p, slot) =>
    let h₁ := h.setPage pageId p
    let h₂ :=
      if h.lastDataPage ≠ kNullPageId then
        h₁.setPage h.lastDataPage (stampLsn lsn (h₁.pages h.lastDataPage))
      else h₁
    let h₃ := { h₂ with lastDataPage := pageId, numDataPages := h.numDataPages + 1 }
    some ((h₃.fsmUpdate pageId (h₃.pages pageId).getFreeSpace).vmClearPage pageId, ⟨pageId, slot⟩)

/-- `InsertReservation::commit`. -/
def commitReservation (r : Reservation) (t : Tuple β) (length lsn : ℕ) : Option (HeapFile β × RecordId) :=
  if r.isNewPage then h.commitNewPage r.pageId t length lsn
  else
    match (h.pages r.pageId).insertTupleAt t length r.predictedSlot with
    | none => none
    | some p =>
      let h₁ := h.setPage r.pageId (stampLsn lsn p)
      some ((h₁.fsmUpdate r.pageId p.getFreeSpace).vmClearPage r.pageId, ⟨r.pageId, r.predictedSlot⟩)

/-- An insertion from reservation to commit. -/
def insertVersion (t : Tuple β) (length lsn : ℕ) : Option (HeapFile β × RecordId) :=
  (h.prepareInsert length).1.commitReservation (h.prepareInsert length).2 t length lsn

/-- `prepare_insert_in_page` and `InPageReservation::commit`: the new version of a HOT update goes
on the page of the old one.  The visibility bits and the free space map stay as they are. -/
def insertVersionInPage (pageId : ℕ) (t : Tuple β) (length lsn : ℕ) : Option (HeapFile β × RecordId) :=
  let p := (h.pages pageId).prune.1
  if p.hasEnoughSpace length then
    match p.insertTupleAt t length (p.predictSlot length) with
    | none => none
    | some p' => some (h.setPage pageId (stampLsn lsn p'), ⟨pageId, p.predictSlot length⟩)
  else none

/-- `prepare_insert_in_page`, which fails when the page has no room after pruning. -/
def prepareInsertInPage (pageId length : ℕ) : HeapFile β × Option Reservation :=
  let h := h.prunePage pageId
  if (h.pages pageId).hasEnoughSpace length then
    (h, some ⟨pageId, false, (h.pages pageId).predictSlot length⟩)
  else (h, none)

/-- `InPageReservation::commit`. -/
def commitInPage (r : Reservation) (t : Tuple β) (length lsn : ℕ) : Option (HeapFile β × RecordId) :=
  ((h.pages r.pageId).insertTupleAt t length r.predictedSlot).map fun p =>
    (h.setPage r.pageId (stampLsn lsn p), ⟨r.pageId, r.predictedSlot⟩)

end

/-! ## What the functions do to the tuples of the file -/

/-- `h'` is `h` with the slot `rid` overwritten; pages and maps of free space are the same. -/
structure SlotWrite (h h' : HeapFile β) (rid : RecordId) (v : SlotView β) : Prop where
  look : ∀ r, h'.look r = if r = rid then v else h.look r
  numDataPages : h'.numDataPages = h.numDataPages
  lastDataPage : h'.lastDataPage = h.lastDataPage
  fsm : h'.fsm = h.fsm
  lengths : (∀ q, (h.pages q).LengthsOk) → ∀ q, (h'.pages q).LengthsOk

section

variable {h h' : HeapFile β} {rid r : RecordId}

lemma tupleAt_eq_look : h.tupleAt r = (h.look r).tuple? := rfl

variable {length lsn n pageId xmax : ℕ} {t : Tuple β} {p : Page β} {v : SlotView β}

lemma tupleAt_eq_some_iff : h.tupleAt r = some t ↔ h.look r = .tuple t :=
  Page.tupleAt_eq_some_iff

lemma SlotWrite.tupleAt (hw : SlotWrite h h' rid v) (r : RecordId) :
    h'.tupleAt r = if r = rid then v.tuple? else h.tupleAt r := by
  rw [tupleAt_eq_look, hw.look r]
  split <;> rfl

@[simp] lemma lsn_stampLsn (lsn : ℕ) (p : Page β) : (stampLsn lsn p).lsn = max p.lsn lsn := by
  rw [stampLsn]
  split_ifs with hif
  · simp [hif.2.le]
  · omega

@[simp] lemma look_stampLsn (lsn : ℕ) (p : Page β) (i : ℕ) : (stampLsn lsn p).look i = p.look i := by
  unfold stampLsn; split <;> rfl

@[simp] lemma numTuples_stampLsn (lsn : ℕ) (p : Page β) : (stampLsn lsn p).numTuples = p.numTuples := by
  unfold stampLsn; split <;> rfl

lemma look_setPage (pageId : ℕ) (p : Page β) :
    (h.setPage pageId p).look r = if r.pageId = pageId then p.look r.slotIdx else h.look r := by
  unfold look setPage
  by_cases hp : r.pageId = pageId
  · simp [hp]
  · simp [hp, update_of_ne]

lemma lengthsOk_stampLsn (lsn : ℕ) (hp : p.LengthsOk) : (stampLsn lsn p).LengthsOk := by
  unfold stampLsn; split <;> exact hp

lemma lengthsOk_setPage (hl : ∀ q, (h.pages q).LengthsOk)
    (hp : p.LengthsOk) (q : ℕ) : ((h.setPage pageId p).pages q).LengthsOk := by
  unfold setPage
  by_cases hq : q = pageId
  · simpa [hq] using hp
  · simpa [hq] using hl q

/-- Overwriting a page whose slots changed in one place overwrites that slot of the file. -/
lemma SlotWrite.setPage (rid : RecordId) (hlen : (h.pages rid.pageId).LengthsOk → p.LengthsOk)
    (hp : ∀ j, p.look j = if j = rid.slotIdx then v else (h.pages rid.pageId).look j) :
    SlotWrite h (h.setPage rid.pageId p) rid v := by
  refine ⟨fun r => ?_, rfl, rfl, rfl, fun hl => lengthsOk_setPage hl (hlen (hl _))⟩
  rw [look_setPage]
  by_cases hpid : r.pageId = rid.pageId
  · rw [if_pos hpid, hp]
    by_cases hslot : r.slotIdx = rid.slotIdx
    · have hr : r = rid := by cases r; simp_all
      rw [if_pos hslot, if_pos hr]
    · rw [if_neg hslot, if_neg fun hr => hslot (congrArg _ hr), HeapFile.look, hpid]
  · rw [if_neg hpid, if_neg fun hr => hpid (congrArg _ hr)]

variable {f : Tuple β → Tuple β} {next : RecordId} {oldest free : ℕ}

lemma updateTuple_eq_some (hu : h.updateTuple rid n f lsn = some h') :
    ∃ t, h.tupleAt rid = some t ∧ SlotWrite h h' rid (.tuple (f t)) ∧ h'.vm = h.vm := by
  unfold updateTuple at hu
  simp only at hu
  split at hu
  · next hc =>
    cases hu
    simp only [Bool.and_eq_true] at hc
    rw [isValid_linePointer, isSome_iff_exists] at hc
    obtain ⟨⟨⟨t, ht⟩, -⟩, -⟩ := hc
    refine ⟨t, ht, SlotWrite.setPage rid (fun hl => lengthsOk_stampLsn lsn (hl.modifyTuple _ _)) fun j => ?_, rfl⟩
    rw [look_stampLsn, look_modifyTuple]
    split
    · next hj => rw [hj, Page.tupleAt_eq_some_iff.1 ht]; rfl
    · rfl
  · cases hu

lemma commitOldTuple_eq_some (hu : h.commitOldTuple rid next xmax lsn = some h') :
    ∃ t, h.tupleAt rid = some t ∧ SlotWrite h h' rid (.tuple
        { t with xmax := xmax, nextPage := next.pageId, nextSlot := next.slotIdx }) ∧
      h'.vm = h.vm :=
  updateTuple_eq_some hu

lemma markDeleted_eq_some (hu : h.markDeleted rid xmax lsn = some h') :
    ∃ t, h.tupleAt rid = some t ∧ SlotWrite h h' rid (.tuple { t with xmax := xmax }) ∧
      h'.vm = update h.vm rid.pageId {} := by
  unfold markDeleted at hu
  rw [map_eq_some_iff] at hu
  obtain ⟨h₁, hu, rfl⟩ := hu
  obtain ⟨t, ht, hw, hvm⟩ := updateTuple_eq_some hu
  exact ⟨t, ht, ⟨hw.look, hw.numDataPages, hw.lastDataPage, hw.fsm, hw.lengths⟩, by rw [← hvm]; rfl⟩

lemma markDeletedIfCurrent_eq_some (hu : h.markDeletedIfCurrent rid xmax lsn = some h') :
    ∃ t, h.tupleAt rid = some t ∧ (t.xmax = kInvalidTxnId ∨ t.xmax = xmax) ∧
      SlotWrite h h' rid (.tuple { t with xmax := xmax }) ∧
      h'.vm = update h.vm rid.pageId {} := by
  unfold markDeletedIfCurrent at hu
  split at hu
  · cases hu
  next t ht =>
  split at hu
  · cases hu
  · next hx =>
    obtain ⟨t', ht', hw, hvm⟩ := markDeleted_eq_some hu
    obtain rfl : t = t' := some.inj (ht.symm.trans ht')
    exact ⟨t, ht, by tauto, hw, hvm⟩

lemma rollbackDelete_eq_some (hu : h.rollbackDelete rid lsn = some h') : ∃ t, h.tupleAt rid = some t ∧
      SlotWrite h h' rid (.tuple { t with xmax := kInvalidTxnId, nextPage := kNullPageId, nextSlot := 0 }) ∧
      h'.vm = h.vm :=
  updateTuple_eq_some hu

lemma rollbackInsert_eq_some (hu : h.rollbackInsert rid lsn = some h') :
    SlotWrite h h' rid .empty ∧ h'.vm = h.vm := by
  unfold rollbackInsert at hu
  rw [map_eq_some_iff] at hu
  obtain ⟨p, hp, rfl⟩ := hu
  obtain ⟨-, -, -, hlook⟩ := reclaimSlot_eq_some hp
  exact ⟨SlotWrite.setPage rid (fun hl => lengthsOk_stampLsn lsn (hl.reclaimSlot hp))
    fun j => (look_stampLsn lsn p j).trans (hlook j), rfl⟩

/-- A version pruned at commit was deleted by the committing transaction, and the horizon had
passed that transaction. -/
lemma pruneObsoleteVersion_eq_some (hu : h.pruneObsoleteVersion rid oldest xmax lsn = some h') :
    xmax ≠ kInvalidTxnId ∧ xmax < oldest ∧ ∃ t, h.tupleAt rid = some t ∧ t.xmax = xmax ∧ SlotWrite h h' rid
        (if t.nextPage = rid.pageId ∧ t.nextSlot ≠ kNullSlot then .redirect t.nextSlot else .empty) ∧ h'.vm = h.vm ∧
      (t.nextPage = rid.pageId ∧ t.nextSlot ≠ kNullSlot → t.nextSlot < (h.pages rid.pageId).numTuples) ∧
      ∃ p, h' = h.setPage rid.pageId p ∧ p.numTuples = (h.pages rid.pageId).numTuples := by
  unfold pruneObsoleteVersion at hu
  simp only at hu
  split at hu
  · cases hu
  next hx =>
  split at hu
  · cases hu
  next t ht =>
  split at hu
  · cases hu
  split at hu
  · cases hu
  next hxm =>
  rw [map_eq_some_iff] at hu
  obtain ⟨p, hp, rfl⟩ := hu
  have htarget : t.nextPage = rid.pageId ∧ t.nextSlot ≠ kNullSlot → t.nextSlot < (h.pages rid.pageId).numTuples := by
    intro hn
    rw [if_pos hn] at hp
    exact (redirectSlot_eq_some hp).2.1
  obtain ⟨hlen, hnum, hlook⟩ : ((h.pages rid.pageId).LengthsOk → p.LengthsOk) ∧
      p.numTuples = (h.pages rid.pageId).numTuples ∧ ∀ j, p.look j = if j = rid.slotIdx then
        (if t.nextPage = rid.pageId ∧ t.nextSlot ≠ kNullSlot then .redirect t.nextSlot else .empty)
        else (h.pages rid.pageId).look j := by
    split_ifs at hp ⊢ with hn
    · exact ⟨fun hl => hl.redirectSlot hp, (redirectSlot_eq_some hp).2.2.2⟩
    · exact ⟨fun hl => hl.markDead hp, (markDead_eq_some hp).2.2⟩
  refine ⟨by tauto, by omega, t, ht, not_not.1 hxm,
    SlotWrite.setPage rid (fun hl => lengthsOk_stampLsn lsn ?_) fun j => ?_, rfl, htarget, _, rfl, ?_⟩
  · split
    · exact (hlen hl).prune
    · exact hlen hl
  · rw [look_stampLsn]
    split
    · rw [look_prune, hlook]
    · exact hlook j
  · rw [numTuples_stampLsn]
    split
    · rw [numTuples_prune, hnum]
    · exact hnum

/-- Only data pages hold tuples, the two hints point to data pages, and every tuple has room for
its header. -/
structure HeapOk (h : HeapFile β) : Prop where
  range : ∀ r, h.look r ≠ .empty → 1 ≤ r.pageId ∧ r.pageId ≤ h.numDataPages
  last : h.lastDataPage ≤ h.numDataPages
  fsm : ∀ e ∈ h.fsm, e.1 ≤ h.numDataPages
  lengths : ∀ q, (h.pages q).LengthsOk

lemma heapOk_create : HeapOk (create : HeapFile β) :=
  ⟨fun _ hr => absurd rfl hr, le_rfl, fun _ he => (by cases he), fun _ => lengthsOk_empty⟩

lemma SlotWrite.heapOk (hw : SlotWrite h h' rid v) (hok : HeapOk h)
    (hrid : v ≠ .empty → 1 ≤ rid.pageId ∧ rid.pageId ≤ h.numDataPages) : HeapOk h' := by
  refine ⟨fun r hr => ?_, ?_, ?_, hw.lengths hok.lengths⟩
  · rw [hw.numDataPages]
    rw [hw.look r] at hr
    split at hr
    · next heq => exact heq ▸ hrid hr
    · exact hok.range r hr
  · rw [hw.lastDataPage, hw.numDataPages]
    exact hok.last
  · rw [hw.fsm, hw.numDataPages]
    exact hok.fsm

lemma HeapOk.range_of_tupleAt (hok : HeapOk h) (ht : h.tupleAt rid = some t) :
    1 ≤ rid.pageId ∧ rid.pageId ≤ h.numDataPages := by
  refine hok.range rid ?_
  rw [tupleAt_eq_some_iff.1 ht]
  simp

@[simp] lemma look_prunePage (pageId : ℕ) : (h.prunePage pageId).look r = h.look r := by
  unfold prunePage
  rw [look_setPage]
  split
  · next hp => rw [look_prune, look, hp]
  · rfl

/-- `h'` differs from `h` at most in free space: same tuples, same bits, same number of pages. -/
structure SameTuples (h h' : HeapFile β) : Prop where
  look : ∀ r, h'.look r = h.look r
  numDataPages : h'.numDataPages = h.numDataPages
  lastDataPage : h'.lastDataPage = h.lastDataPage
  vm : h'.vm = h.vm
  heapOk : HeapOk h → HeapOk h'

lemma SameTuples.refl (h : HeapFile β) : SameTuples h h := ⟨fun _ => rfl, rfl, rfl, rfl, id⟩

lemma SameTuples.trans {h₁ h₂ h₃ : HeapFile β} (h12 : SameTuples h₁ h₂)
    (h23 : SameTuples h₂ h₃) : SameTuples h₁ h₃ where
  look r := (h23.look r).trans (h12.look r)
  numDataPages := h23.numDataPages.trans h12.numDataPages
  lastDataPage := h23.lastDataPage.trans h12.lastDataPage
  vm := h23.vm.trans h12.vm
  heapOk hok := h23.heapOk (h12.heapOk hok)

lemma sameTuples_prunePage (pageId : ℕ) : SameTuples h (h.prunePage pageId) where
  look _ := look_prunePage pageId
  numDataPages := rfl
  lastDataPage := rfl
  vm := rfl
  heapOk hok := ⟨fun r hr => hok.range r (look_prunePage (h := h) pageId ▸ hr), hok.last, hok.fsm,
    lengthsOk_setPage hok.lengths (hok.lengths pageId).prune⟩

lemma mem_fsmUpdate {e : ℕ × ℕ} (he : e ∈ (h.fsmUpdate pageId free).fsm) : e.1 = pageId ∨ e ∈ h.fsm := by
  simp only [fsmUpdate] at he
  split at he
  · rw [List.mem_map] at he
    obtain ⟨a, ha, rfl⟩ := he
    split
    · exact Or.inl rfl
    · exact Or.inr ha
  · rw [List.mem_append, List.mem_singleton] at he
    rcases he with he | rfl
    · exact Or.inr he
    · exact Or.inl rfl

lemma HeapOk.fsmFindPage_le (hok : HeapOk h) (needed : ℕ) : h.fsmFindPage needed ≤ h.numDataPages := by
  unfold fsmFindPage
  split
  · next e he => exact hok.fsm e (List.mem_of_find?_eq_some he)
  · exact Nat.zero_le _

lemma sameTuples_fsmUpdate (hp : pageId ≤ h.numDataPages) : SameTuples h (h.fsmUpdate pageId free) where
  look _ := rfl
  numDataPages := rfl
  lastDataPage := rfl
  vm := rfl
  heapOk hok := by
    refine ⟨hok.range, hok.last, fun e he => ?_, hok.lengths⟩
    rcases mem_fsmUpdate he with he | he
    · rw [he]; exact hp
    · exact hok.fsm e he

/-- What `prepare_insert` promises: an unused slot of a data page, or the next new page. -/
def ReservationOk (h : HeapFile β) (r : Reservation) : Prop :=
  if r.isNewPage then r.pageId = h.numDataPages + 1
  else (1 ≤ r.pageId ∧ r.pageId ≤ h.numDataPages) ∧ h.look ⟨r.pageId, r.predictedSlot⟩ = .empty

lemma prepareInsert_spec (hok : HeapOk h) (length : ℕ) : SameTuples h (h.prepareInsert length).1 ∧
      ReservationOk (h.prepareInsert length).1 (h.prepareInsert length).2 := by
  unfold prepareInsert
  by_cases hlast : h.lastDataPage = kNullPageId
  · rw [if_pos hlast]
    exact ⟨SameTuples.refl h, rfl⟩
  rw [if_neg hlast]
  have hs1 := sameTuples_prunePage (h := h) h.lastDataPage
  set h₁ := h.prunePage h.lastDataPage with hh1
  have hok1 := hs1.heapOk hok
  simp only
  split
  · refine ⟨hs1, ⟨?_, ?_⟩, look_predictSlot length⟩
    · exact Nat.one_le_iff_ne_zero.2 (hs1.lastDataPage ▸ hlast)
    · exact hok1.last
  split
  · next hpid =>
    have hs2 := hs1.trans (sameTuples_prunePage (h := h₁) (h₁.fsmFindPage length))
    have hle : h₁.fsmFindPage length ≤ h₁.numDataPages := hok1.fsmFindPage_le length
    split
    · exact ⟨hs2, ⟨Nat.one_le_iff_ne_zero.2 hpid.1, hle⟩, look_predictSlot length⟩
    · exact ⟨hs2.trans (sameTuples_fsmUpdate hle), rfl⟩
  · exact ⟨hs1, rfl⟩

/-- What an insertion does: an empty slot gets the new version. -/
structure Inserted (h h' : HeapFile β) (rid : RecordId) (t : Tuple β) : Prop where
  empty : h.look rid = .empty
  look : ∀ r, h'.look r = if r = rid then .tuple t else h.look r
  le_numDataPages : h.numDataPages ≤ h'.numDataPages
  heapOk : HeapOk h'

section

variable (hlen : LengthOk length)
include hlen

section

variable (hok : HeapOk h)
include hok

lemma commitNewPage_eq_some (hc : h.commitNewPage (h.numDataPages + 1) t length lsn = some (h', rid)) :
    Inserted h h' rid t ∧ h'.vm = update h.vm rid.pageId {} := by
  unfold commitNewPage at hc
  split at hc
  · cases hc
  next p slot hp =>
  have hempty : (stampLsn lsn (empty : Page β)).slots = [] := by
    unfold stampLsn; split <;> rfl
  obtain ⟨rfl, hlook⟩ := insertTuple_empty hlen.pos hempty hp
  have hbeyond : ∀ i, h.look ⟨h.numDataPages + 1, i⟩ = .empty := by
    intro i
    by_contra hne
    have hle : h.numDataPages + 1 ≤ h.numDataPages := (hok.range _ hne).2
    omega
  obtain ⟨rfl, rfl⟩ := hc
  -- the page that was last is stamped, which changes none of its slots
  have hall : ∀ r, (if h.lastDataPage ≠ kNullPageId then
      (h.setPage (h.numDataPages + 1) p).setPage h.lastDataPage
        (stampLsn lsn ((h.setPage (h.numDataPages + 1) p).pages h.lastDataPage))
      else h.setPage (h.numDataPages + 1) p).look r =
      if r = ⟨h.numDataPages + 1, 0⟩ then .tuple t else h.look r := by
    intro r
    have hbase : (h.setPage (h.numDataPages + 1) p).look r =
        if r = ⟨h.numDataPages + 1, 0⟩ then .tuple t else h.look r := by
      rw [look_setPage]
      by_cases hr : r.pageId = h.numDataPages + 1
      · rw [if_pos hr, hlook]
        obtain ⟨pid, i⟩ := r
        subst hr
        by_cases hi : i = 0
        · simp [hi]
        · simp [hi, hbeyond]
      · rw [if_neg hr, if_neg fun h => hr (congrArg _ h)]
    split
    · rw [look_setPage]
      split
      · next hr => rw [look_stampLsn, ← hbase, look, hr]
      · exact hbase
    · exact hbase
  refine ⟨⟨hbeyond 0, hall, Nat.le_succ _, ?_, le_rfl, fun e he => ?_, ?_⟩, ?_⟩
  · intro r hr
    have hr : _ ≠ SlotView.empty := hall r ▸ hr
    show 1 ≤ r.pageId ∧ r.pageId ≤ h.numDataPages + 1
    split at hr
    · next heq => subst heq; exact ⟨Nat.le_add_left _ _, le_rfl⟩
    · have := hok.range r hr
      omega
  · show e.1 ≤ h.numDataPages + 1
    rcases mem_fsmUpdate he with he | he
    · omega
    · have hfsm : e ∈ h.fsm := by
        split at he <;> exact he
      have := hok.fsm e hfsm
      omega
  · have hlp : p.LengthsOk := lengthsOk_insertTuple_empty hlen hempty hp
    have hl : ∀ q, ((h.setPage (h.numDataPages + 1) p).pages q).LengthsOk :=
      lengthsOk_setPage hok.lengths hlp
    by_cases hlast : h.lastDataPage ≠ kNullPageId
    · simp only [if_pos hlast]
      exact lengthsOk_setPage hl (lengthsOk_stampLsn lsn (hl _))
    · simp only [if_neg hlast]
      exact hl
  · split <;> rfl

lemma commitReservation_eq_some {res : Reservation} (hres : ReservationOk h res)
    (hc : h.commitReservation res t length lsn = some (h', rid)) :
    Inserted h h' rid t ∧ h'.vm = update h.vm rid.pageId {} := by
  unfold commitReservation at hc
  unfold ReservationOk at hres
  split at hc
  · next hnew =>
    rw [if_pos hnew] at hres
    rw [hres] at hc
    exact commitNewPage_eq_some hlen hok hc
  · next hnew =>
    rw [if_neg hnew] at hres
    obtain ⟨hrange, hempty⟩ := hres
    split at hc
    · cases hc
    next p hp =>
    cases hc
    obtain ⟨-, -, -, -, hlook⟩ := insertTupleAt_eq_some hlen.pos hp
    have hw : SlotWrite h (h.setPage res.pageId (stampLsn lsn p)) ⟨res.pageId, res.predictedSlot⟩ (.tuple t) :=
      SlotWrite.setPage ⟨res.pageId, res.predictedSlot⟩ (fun hl => lengthsOk_stampLsn lsn (hl.insertTupleAt hlen hp))
        fun j => (look_stampLsn lsn p j).trans (hlook j)
    have hs : SameTuples (h.setPage res.pageId (stampLsn lsn p))
        ((h.setPage res.pageId (stampLsn lsn p)).fsmUpdate res.pageId p.getFreeSpace) :=
      sameTuples_fsmUpdate hrange.2
    have hok' := hs.heapOk (hw.heapOk hok fun _ => hrange)
    exact ⟨⟨hempty, hw.look, le_rfl, hok'.range, hok'.last, hok'.fsm, hok'.lengths⟩, rfl⟩

/-- **An insertion fills an empty slot and clears the visibility bits of its page.** -/
theorem insertVersion_eq_some (hc : h.insertVersion t length lsn = some (h', rid)) :
    Inserted h h' rid t ∧ h'.vm = update h.vm rid.pageId {} := by
  obtain ⟨hs, hres⟩ := prepareInsert_spec hok length
  obtain ⟨hins, hvm⟩ := commitReservation_eq_some hlen (hs.heapOk hok) hres hc
  refine ⟨⟨(hs.look rid).symm.trans hins.empty, fun r => ?_,
    hs.numDataPages ▸ hins.le_numDataPages, hins.heapOk⟩, hs.vm ▸ hvm⟩
  rw [hins.look r, hs.look r]

/-- **A HOT insertion fills an empty slot of the given page; the visibility bits stay.** -/
theorem insertVersionInPage_eq_some (hrange : 1 ≤ pageId ∧ pageId ≤ h.numDataPages)
    (hc : h.insertVersionInPage pageId t length lsn = some (h', rid)) :
    Inserted h h' rid t ∧ h'.vm = h.vm ∧ rid.pageId = pageId := by
  unfold insertVersionInPage at hc
  simp only at hc
  split at hc
  · split at hc
    · cases hc
    next p hp =>
    cases hc
    obtain ⟨-, -, -, -, hlook⟩ := insertTupleAt_eq_some hlen.pos hp
    set slot := (h.pages pageId).prune.1.predictSlot length with hslot
    have hempty : (h.pages pageId).look slot = .empty := by
      rw [← look_prune]
      exact look_predictSlot length
    have hw : SlotWrite h (h.setPage pageId (stampLsn lsn p)) ⟨pageId, slot⟩ (.tuple t) := by
      refine SlotWrite.setPage ⟨pageId, slot⟩
        (fun hl => lengthsOk_stampLsn lsn (hl.prune.insertTupleAt hlen hp)) fun j => ?_
      rw [look_stampLsn, hlook j, look_prune]
    exact ⟨⟨hempty, hw.look, le_rfl, hw.heapOk hok fun _ => hrange⟩, rfl, rfl⟩
  · cases hc

end

end

/-! ## The same, as total functions

Undo and pruning ignore failures.  On a well-formed file the only failures are those of slots that
hold no tuple, or not the right one. -/

section

variable (hl : ∀ q, (h.pages q).LengthsOk)
include hl

lemma updateTuple_isSome (ht : h.tupleAt rid = some t) (hn : n ≤ kTupleHeaderSize)
    (f : Tuple β → Tuple β) (lsn : ℕ) :
    ∃ h', h.updateTuple rid n f lsn = some h' := by
  obtain ⟨hv, hlen, hoff⟩ := (hl rid.pageId).header_fits ht
  refine ⟨_, if_pos ?_⟩
  simp only [hv, Bool.true_and, Bool.and_eq_true, decide_eq_true_eq]
  omega

/-- `mark_deleted_if_current` refuses exactly the versions that another transaction has marked. -/
lemma markDeletedIfCurrent_isSome
    (ht : h.tupleAt rid = some t) (hx : t.xmax = kInvalidTxnId ∨ t.xmax = xmax) (lsn : ℕ) :
    ∃ h', h.markDeletedIfCurrent rid xmax lsn = some h' := by
  obtain ⟨h', hu⟩ := updateTuple_isSome hl ht (n := 16) (by decide)
    (fun t => { t with xmax := xmax }) lsn
  unfold markDeletedIfCurrent
  rw [ht]
  simp only
  rw [if_neg (by tauto), markDeleted, hu]
  exact ⟨_, rfl⟩

omit hl in
lemma look_rollbackInsert (rid : RecordId) (lsn : ℕ) (r : RecordId) :
    ((h.rollbackInsert rid lsn).getD h).look r = if r = rid then .empty else h.look r := by
  cases hr : h.rollbackInsert rid lsn with
  | some h' => exact (rollbackInsert_eq_some hr).1.look r
  | none =>
    split
    · next heq =>
      -- only a slot beyond the array cannot be reclaimed, and there is nothing in it
      subst heq
      unfold rollbackInsert reclaimSlot at hr
      cases hs : (h.pages r.pageId).slots[r.slotIdx]? with
      | none => simp [look, Page.look, hs]
      | some s => simp [hs] at hr
    · rfl

lemma look_rollbackDelete (rid : RecordId) (lsn : ℕ) (r : RecordId) :
    ((h.rollbackDelete rid lsn).getD h).look r = if r = rid then (h.look rid).mapTuple fun t =>
        { t with xmax := kInvalidTxnId, nextPage := kNullPageId, nextSlot := 0 }
      else h.look r := by
  cases hr : h.rollbackDelete rid lsn with
  | some h' =>
    obtain ⟨t, ht, hw, -⟩ := rollbackDelete_eq_some hr
    rw [getD_some, hw.look r, tupleAt_eq_some_iff.1 ht]
    rfl
  | none =>
    rw [getD_none]
    split
    · next heq =>
      subst heq
      cases hv : h.look r with
      | tuple t =>
        obtain ⟨h', hu⟩ := updateTuple_isSome hl (tupleAt_eq_some_iff.2 hv) (n := 26) (by decide)
          (fun t => { t with xmax := kInvalidTxnId, nextPage := kNullPageId, nextSlot := 0 })
          lsn
        exact absurd (hr.symm.trans hu) (by simp)
      | redirect n => rfl
      | empty => rfl
    · rfl

/-- What pruning makes of a slot of a page with `num` slots. -/
def pruneView (pageId num oldestActiveTxn committedXmax : ℕ) : SlotView β → SlotView β
  | .tuple t =>
    if committedXmax ≠ kInvalidTxnId ∧ committedXmax < oldestActiveTxn ∧ t.xmax = committedXmax then
      if t.nextPage = pageId ∧ t.nextSlot ≠ kNullSlot then
        if t.nextSlot < num then .redirect t.nextSlot else .tuple t
      else .empty
    else .tuple t
  | v => v

/-- A version that the horizon has passed is pruned, unless it links beyond its page. -/
lemma pruneObsoleteVersion_isSome
    (ht : h.tupleAt rid = some t) (h0 : xmax ≠ kInvalidTxnId) (hlt : xmax < oldest) (hx : t.xmax = xmax)
    (hn : t.nextPage = rid.pageId ∧ t.nextSlot ≠ kNullSlot → t.nextSlot < (h.pages rid.pageId).numTuples) (lsn : ℕ) :
    ∃ h', h.pruneObsoleteVersion rid oldest xmax lsn = some h' := by
  obtain ⟨hv, hlen, hoff⟩ := (hl rid.pageId).header_fits ht
  have ht' : (h.pages rid.pageId).tupleAt rid.slotIdx = some t := ht
  have hpruned : ∃ p, (if t.nextPage = rid.pageId ∧ t.nextSlot ≠ kNullSlot then
      (h.pages rid.pageId).redirectSlot rid.slotIdx t.nextSlot
      else (h.pages rid.pageId).markDead rid.slotIdx) = some p := by
    split
    · next hc => exact redirectSlot_isSome (lt_numTuples_of_tupleAt ht) (hn hc)
    · exact markDead_isSome ht
  obtain ⟨p, hp⟩ := hpruned
  unfold pruneObsoleteVersion
  rw [if_neg (by omega)]
  simp only [ht']
  rw [if_neg (by simp only [kTupleHeaderSize] at *; omega), if_neg (by simp [hx]), hp]
  exact ⟨_, rfl⟩

lemma look_pruneObsoleteVersion (rid : RecordId) (oldest xmax lsn : ℕ) (r : RecordId) :
    ((h.pruneObsoleteVersion rid oldest xmax lsn).getD h).look r =
      if r = rid then pruneView rid.pageId (h.pages rid.pageId).numTuples oldest xmax (h.look rid) else h.look r := by
  cases hp : h.pruneObsoleteVersion rid oldest xmax lsn with
  | some h' =>
    obtain ⟨h0, hlt, t, ht, hx, hw, -, hn, -⟩ := pruneObsoleteVersion_eq_some hp
    rw [getD_some, hw.look r]
    by_cases heq : r = rid
    · subst heq
      have hcond : xmax ≠ kInvalidTxnId ∧ xmax < oldest ∧ t.xmax = xmax := ⟨h0, hlt, hx⟩
      rw [if_pos rfl, if_pos rfl, tupleAt_eq_some_iff.1 ht]
      by_cases hnext : t.nextPage = r.pageId ∧ t.nextSlot ≠ kNullSlot
      · simp [pruneView, if_pos hcond, if_pos (hn hnext)]
      · simp [pruneView, if_pos hcond, if_neg hnext]
    · rw [if_neg heq, if_neg heq]
  | none =>
    rw [getD_none]
    split
    · next heq =>
      subst heq
      cases hv : h.look r with
      | tuple t =>
        -- a version that was not pruned does not fit the bill, or links beyond the page
        have hfail : ¬ (xmax ≠ kInvalidTxnId ∧ xmax < oldest ∧ t.xmax = xmax ∧
            (t.nextPage = r.pageId ∧ t.nextSlot ≠ kNullSlot → t.nextSlot < (h.pages r.pageId).numTuples)) := by
          rintro ⟨h0, hlt, hx, hn⟩
          obtain ⟨h', hp'⟩ :=
            pruneObsoleteVersion_isSome hl (tupleAt_eq_some_iff.2 hv) h0 hlt hx hn lsn
          exact absurd (hp.symm.trans hp') (by simp)
        simp only [pruneView]
        split_ifs <;> first | rfl | tauto
      | redirect n => rfl
      | empty => rfl
    · rfl

end

/-! ## None of this changes the number of slots -/

lemma numTuples_setPage (hp : p.numTuples = (h.pages pageId).numTuples) (q : ℕ) :
    ((h.setPage pageId p).pages q).numTuples = (h.pages q).numTuples := by
  unfold setPage
  by_cases hq : q = pageId
  · simpa [hq] using hp
  · simp [hq]

lemma numTuples_updateTuple (hu : h.updateTuple rid n f lsn = some h') (q : ℕ) :
    (h'.pages q).numTuples = (h.pages q).numTuples := by
  unfold updateTuple at hu
  simp only at hu
  split at hu
  · cases hu
    exact numTuples_setPage ((numTuples_stampLsn lsn _).trans (numTuples_modifyTuple _)) q
  · cases hu

lemma numTuples_markDeletedIfCurrent (hu : h.markDeletedIfCurrent rid xmax lsn = some h') (q : ℕ) :
    (h'.pages q).numTuples = (h.pages q).numTuples := by
  unfold markDeletedIfCurrent markDeleted at hu
  split at hu
  · cases hu
  split at hu
  · cases hu
  obtain ⟨h₁, hu1, rfl⟩ := map_eq_some_iff.1 hu
  exact numTuples_updateTuple hu1 q

lemma numTuples_rollbackInsert (rid : RecordId) (lsn q : ℕ) :
    (((h.rollbackInsert rid lsn).getD h).pages q).numTuples = (h.pages q).numTuples := by
  cases hr : h.rollbackInsert rid lsn with
  | none => rfl
  | some h' =>
    obtain ⟨p, hp, rfl⟩ := map_eq_some_iff.1 hr
    refine numTuples_setPage ?_ q
    rw [numTuples_stampLsn, (reclaimSlot_eq_some hp).2.2.1]

lemma numTuples_rollbackDelete (rid : RecordId) (lsn q : ℕ) :
    (((h.rollbackDelete rid lsn).getD h).pages q).numTuples = (h.pages q).numTuples := by
  cases hr : h.rollbackDelete rid lsn with
  | none => rfl
  | some h' => exact numTuples_updateTuple hr q

lemma numTuples_pruneObsoleteVersion (rid : RecordId) (oldest xmax lsn q : ℕ) :
    (((h.pruneObsoleteVersion rid oldest xmax lsn).getD h).pages q).numTuples = (h.pages q).numTuples := by
  cases hp : h.pruneObsoleteVersion rid oldest xmax lsn with
  | none => rfl
  | some h' =>
    obtain ⟨-, -, t, -, -, -, -, -, p, rfl, hnum⟩ := pruneObsoleteVersion_eq_some hp
    exact numTuples_setPage hnum q

end

end HeapFile

end MiniDb
