import MiniDb.Recovery.Wal

/-!
# Page LSNs and the records before them

Recovery skips a record for a page whose LSN is not below the record's.  That is right if the page then contains what
this record and all records before it did to it.

A statement appends its record and changes the page in two steps.  INSERT and UPDATE hold the heap latch in between,
but UPDATE then marks the old version in a call of its own, and DELETE and the undo of a statement take the latch only
for the change.  So another transaction can stamp a later LSN on the page while an earlier change is still to come.

`prefix_covered`: the pages are right as long as no heap call stamps an LSN on a page for which an earlier record, or
the other half of the same one, is outstanding.
-/

namespace MiniDb

open List HeapFile

variable {β : Type*}

namespace HeapFile

/-- The LSNs of the pages are as they were, but for some pages that may have got this one. -/
def StampedBy (h h' : HeapFile β) (lsn : ℕ) (pages : List ℕ) : Prop :=
  ∀ p, (h'.pages p).lsn = (h.pages p).lsn ∨ p ∈ pages ∧ (h'.pages p).lsn ≤ max (h.pages p).lsn lsn

section

variable {h h' h'' : HeapFile β} {lsn length : ℕ} {pages : List ℕ} {rid : RecordId}

lemma StampedBy.refl (h : HeapFile β) (lsn : ℕ) (pages : List ℕ) : h.StampedBy h lsn pages :=
  fun _ => .inl rfl

lemma StampedBy.trans (h1 : h.StampedBy h' lsn pages) (h2 : h'.StampedBy h'' lsn pages) :
    h.StampedBy h'' lsn pages := by
  intro p
  rcases h1 p with h1 | ⟨hp, h1⟩ <;> rcases h2 p with h2 | ⟨hp, h2⟩
  · exact .inl (h2.trans h1)
  · exact .inr ⟨hp, by rwa [h1] at h2⟩
  · exact .inr ⟨hp, by rwa [h2]⟩
  · exact .inr ⟨hp, by omega⟩

lemma StampedBy.lt (h1 : h.StampedBy h' lsn pages) {p bound : ℕ} (hlt : (h.pages p).lsn < bound)
    (hlsn : p ∈ pages → lsn < bound) : (h'.pages p).lsn < bound := by
  rcases h1 p with h1 | ⟨hp, h1⟩
  · omega
  · have := hlsn hp
    omega

variable {pageId : ℕ} {r : Reservation} {data : Tuple β} {new : RecordId}

lemma stampedBy_setPage {p : Page β} (hp : p.lsn ≤ max (h.pages pageId).lsn lsn)
    (hmem : pageId ∈ pages) : h.StampedBy (h.setPage pageId p) lsn pages := by
  intro q
  by_cases hq : q = pageId
  · subst hq
    exact .inr ⟨hmem, by simpa [setPage] using hp⟩
  · simp [setPage, hq]

lemma stampedBy_updateTuple {headerLen : ℕ} {f : Tuple β → Tuple β}
    (hu : h.updateTuple rid headerLen f lsn = some h') : h.StampedBy h' lsn [rid.pageId] := by
  simp only [updateTuple] at hu
  split_ifs at hu
  cases hu
  exact stampedBy_setPage (by simp) (by simp)

lemma stampedBy_markDeletedIfCurrent {xmax : ℕ} (hm : h.markDeletedIfCurrent rid xmax lsn = some h') :
    h.StampedBy h' lsn [rid.pageId] := by
  simp only [markDeletedIfCurrent] at hm
  split at hm
  · cases hm
  · split_ifs at hm
    obtain ⟨h1, hu, rfl⟩ := Option.map_eq_some_iff.1 hm
    exact fun p => stampedBy_updateTuple hu p

lemma stampedBy_rollbackInsert (hr : h.rollbackInsert rid lsn = some h') : h.StampedBy h' lsn [rid.pageId] := by
  obtain ⟨p, hp, rfl⟩ := Option.map_eq_some_iff.1 hr
  refine stampedBy_setPage ?_ (by simp)
  rw [lsn_stampLsn, (Page.reclaimSlot_eq_some hp).2.1]

lemma stampedBy_prunePage (h : HeapFile β) (pageId : ℕ) : h.StampedBy (h.prunePage pageId) lsn pages := by
  intro q
  by_cases hq : q = pageId
  · subst hq
    exact .inl (by simp [prunePage, setPage])
  · exact .inl (by simp [prunePage, setPage, hq])

lemma stampedBy_prepareInsert (h : HeapFile β) (length : ℕ) :
    h.StampedBy (h.prepareInsert length).1 lsn pages := by
  simp only [prepareInsert]
  split_ifs
  · exact .refl h lsn pages
  · exact stampedBy_prunePage h _
  · exact (stampedBy_prunePage h _).trans (stampedBy_prunePage _ _)
  · exact (stampedBy_prunePage h _).trans (stampedBy_prunePage _ _)
  · exact stampedBy_prunePage h _

lemma stampedBy_prepareInsertInPage (h : HeapFile β) (pageId length : ℕ) :
    h.StampedBy (h.prepareInsertInPage pageId length).1 lsn pages := by
  simp only [prepareInsertInPage]
  split_ifs
  · exact stampedBy_prunePage h _
  · exact stampedBy_prunePage h _

lemma stampedBy_commitInPage (hc : h.commitInPage r data length lsn = some (h', new)) :
    h.StampedBy h' lsn [r.pageId] := by
  obtain ⟨p, hp, heq⟩ := Option.map_eq_some_iff.1 hc
  cases heq
  refine stampedBy_setPage ?_ (by simp)
  rw [lsn_stampLsn, (Page.slots_insertTupleAt hp).2.2.1]

lemma stampedBy_commitNewPage (hc : h.commitNewPage pageId data length lsn = some (h', new)) :
    h.StampedBy h' lsn [pageId, h.lastDataPage] := by
  simp only [commitNewPage] at hc
  split at hc
  · cases hc
  · rename_i p slot hp
    cases hc
    have hlsn : p.lsn = lsn := by
      rw [Page.lsn_insertTuple hp]
      simp [Page.empty]
    have hnew : h.StampedBy (h.setPage pageId p) lsn [pageId, h.lastDataPage] :=
      stampedBy_setPage (by omega) (by simp)
    split_ifs
    · have hlast : (h.setPage pageId p).StampedBy ((h.setPage pageId p).setPage h.lastDataPage
          (stampLsn lsn ((h.setPage pageId p).pages h.lastDataPage))) lsn [pageId, h.lastDataPage] :=
        stampedBy_setPage (by simp) (by simp)
      exact fun q => hnew.trans hlast q
    · exact fun q => hnew q

lemma stampedBy_commitReservation (hc : h.commitReservation r data length lsn = some (h', new)) :
    h.StampedBy h' lsn (if r.isNewPage then [r.pageId, h.lastDataPage] else [r.pageId]) := by
  simp only [commitReservation] at hc
  split_ifs at hc ⊢
  · exact stampedBy_commitNewPage hc
  · split at hc
    · cases hc
    · rename_i p hp
      cases hc
      refine fun q => stampedBy_setPage (p := stampLsn lsn p) ?_ (by simp) q
      rw [lsn_stampLsn, (Page.slots_insertTupleAt hp).2.2.1]

end

end HeapFile

/-- What a transaction is about to do with the heap. -/
inductive HeapPc (β : Type*) where
  | idle
  /-- it has a reservation and the heap latch; `old` is the version that an UPDATE replaces -/
  | prepared (r : HeapFile.Reservation) (inPage : Bool) (data : Tuple β) (length : ℕ) (old : Option RecordId)
  | logged (r : HeapFile.Reservation) (inPage : Bool) (data : Tuple β) (length : ℕ) (old : Option RecordId)
      (lsn : ℕ)
  /-- the new version is in the heap and the old one is not yet marked -/
  | installed (old new : RecordId) (lsn : ℕ)
  /-- the old version could not be marked, so that the new one is to be removed -/
  | orphan (old new : RecordId) (lsn : ℕ)
  | deleteLogged (rid : RecordId) (lsn : ℕ)
  | undoInsertLogged (rid : RecordId) (lsn : ℕ)
  | undoDeleteLogged (rid : RecordId) (lsn : ℕ)
  /-- a heap call has failed, and these records are to compensate its own -/
  | failed (ops : List (WalOp β))

namespace HeapPc

/-- The pages that a record is still to change, with its LSN. -/
def outstanding : HeapPc β → List (ℕ × ℕ)
  | .logged r _ _ _ old lsn => (lsn, r.pageId) :: old.toList.map fun o => (lsn, o.pageId)
  | .installed old _ lsn => [(lsn, old.pageId)]
  | .deleteLogged rid lsn => [(lsn, rid.pageId)]
  | .undoInsertLogged rid lsn => [(lsn, rid.pageId)]
  | .undoDeleteLogged rid lsn => [(lsn, rid.pageId)]
  | _ => []

def remaining : HeapPc β → List (ℕ × ℕ)
  | .logged _ _ _ _ old lsn => old.toList.map fun o => (lsn, o.pageId)
  | _ => []

/-- The LSN that the next heap call stamps on pages; the undo of a statement stamps none. -/
def callLsn : HeapPc β → ℕ
  | .logged _ _ _ _ _ lsn => lsn
  | .installed _ _ lsn => lsn
  | .orphan _ _ lsn => lsn
  | .deleteLogged _ lsn => lsn
  | _ => 0

/-- The pages on which it stamps it; a new page is linked from the last one. -/
def stamped (lastDataPage : ℕ) : HeapPc β → List ℕ
  | .logged r inPage _ _ _ _ => if r.isNewPage && !inPage then [r.pageId, lastDataPage] else [r.pageId]
  | .installed old _ _ => [old.pageId]
  | .orphan _ new _ => [new.pageId]
  | .deleteLogged rid _ => [rid.pageId]
  | .undoInsertLogged rid _ => [rid.pageId]
  | .undoDeleteLogged rid _ => [rid.pageId]
  | _ => []

end HeapPc

def WalOp.pages : WalOp β → List ℕ
  | .insert _ rid _ _ => [rid.pageId]
  | .delete _ rid => [rid.pageId]
  | .update _ old new _ _ => [new.pageId, old.pageId]
  | .savepointUndoInsert _ rid => [rid.pageId]
  | .savepointUndoDelete _ rid => [rid.pageId]
  | _ => []

/-- The log and the heap of a table, and where the transactions are. -/
structure LoggedHeap (β : Type*) where
  table : ℕ
  heap : HeapFile β
  nextLsn : ℕ
  log : List (WalRecord β)
  latch : Option ℕ
  pc : ℕ → HeapPc β

inductive LoggedHeapAction (β : Type*) where
  | prepare (t : ℕ) (data : Tuple β) (length : ℕ) (old : Option RecordId)
  | prepareInPage (t : ℕ) (data : Tuple β) (length : ℕ) (old : RecordId)
  | log (t : ℕ)
  | logFails (t : ℕ)
  | logDelete (t : ℕ) (rid : RecordId)
  | logUndoInsert (t : ℕ) (rid : RecordId)
  | logUndoDelete (t : ℕ) (rid : RecordId)
  | logOther (t : ℕ)
  | call (t : ℕ)
  | compensate (t : ℕ)

namespace LoggedHeap

def create (table firstLsn : ℕ) : LoggedHeap β where
  table := table
  heap := .create
  nextLsn := firstLsn + 1
  log := []
  latch := none
  pc := fun _ => .idle

section

variable (s : LoggedHeap β)

section

variable (t : ℕ)

def setPc (pc : HeapPc β) : LoggedHeap β :=
  { s with pc := Function.update s.pc t pc }

def append (op : WalOp β) : LoggedHeap β :=
  { s with nextLsn := s.nextLsn + 1, log := s.log ++ [⟨s.nextLsn, t, op⟩] }

/-- The record of an INSERT, or of an UPDATE of `old`. -/
def writeOp (new : RecordId) (data : Tuple β) (length : ℕ) : Option RecordId → WalOp β
  | none => .insert s.table new data length
  | some old => .update s.table old new data length

def compensation (new : RecordId) : Option RecordId → List (WalOp β)
  | none => [.savepointUndoInsert s.table new]
  | some old => [.savepointUndoInsert s.table new, .savepointUndoDelete s.table old]

/-- A statement that is not in a heap call appends a record, and goes on from there. -/
def logThen (op : WalOp β) (next : ℕ → HeapPc β) : Option (LoggedHeap β) :=
  match s.pc t with
  | .idle => some ((s.append t op).setPc t (next s.nextLsn))
  | _ => none

/-- `commit` of the reservation, which gives the latch back. -/
def commit (r : HeapFile.Reservation) (inPage : Bool) (data : Tuple β) (length : ℕ)
    (old : Option RecordId) (lsn : ℕ) : LoggedHeap β :=
  let result :=
    if inPage then s.heap.commitInPage r data length lsn else s.heap.commitReservation r data length lsn
  let s := { s with latch := none }
  match result with
  | none => s.setPc t (.failed (s.compensation ⟨r.pageId, r.predictedSlot⟩ old))
  | some (heap, new) =>
    { s with heap := heap }.setPc t (match old with
      | none => .idle
      | some old => .installed old new lsn)

/-- A heap call that takes the latch for itself: the heap after it, or `none` if it fails. -/
def callThen (result : Option (HeapFile β)) (done failed : HeapPc β) : Option (LoggedHeap β) :=
  if s.latch = none then
    some (match result with
      | none => s.setPc t failed
      | some heap => { s with heap := heap }.setPc t done)
  else none

end

def step : LoggedHeapAction β → Option (LoggedHeap β)
  | .prepare t data length old =>
    match s.latch, s.pc t with
    | none, .idle =>
      let (heap, r) := s.heap.prepareInsert length
      some ({ s with heap := heap, latch := some t }.setPc t (.prepared r false data length old))
    | _, _ => none
  | .prepareInPage t data length old =>
    match s.latch, s.pc t with
    | none, .idle =>
      match s.heap.prepareInsertInPage old.pageId length with
      | (heap, some r) =>
        some ({ s with heap := heap, latch := some t }.setPc t (.prepared r true data length (some old)))
      | (heap, none) => some { s with heap := heap }
    | _, _ => none
  | .log t =>
    match s.pc t with
    | .prepared r inPage data length old =>
      some ((s.append t (s.writeOp ⟨r.pageId, r.predictedSlot⟩ data length old)).setPc t
        (.logged r inPage data length old s.nextLsn))
    | _ => none
  | .logFails t =>
    match s.pc t with
    | .prepared .. => some ({ s with latch := none }.setPc t .idle)
    | _ => none
  | .logDelete t rid => s.logThen t (.delete s.table rid) (.deleteLogged rid)
  | .logUndoInsert t rid => s.logThen t (.savepointUndoInsert s.table rid) (.undoInsertLogged rid)
  | .logUndoDelete t rid => s.logThen t (.savepointUndoDelete s.table rid) (.undoDeleteLogged rid)
  | .logOther t => some (s.append t .other)
  | .call t =>
    match s.pc t with
    | .logged r inPage data length old lsn => some (s.commit t r inPage data length old lsn)
    | .installed old new lsn =>
      s.callThen t (s.heap.commitOldTuple old new t lsn) .idle (.orphan old new lsn)
    | .orphan old new lsn =>
      let failed := .failed (s.compensation new (some old))
      s.callThen t (s.heap.rollbackInsert new lsn) failed failed
    | .deleteLogged rid lsn =>
      s.callThen t (s.heap.markDeletedIfCurrent rid t lsn) .idle (.failed [.savepointUndoDelete s.table rid])
    | .undoInsertLogged rid _ => s.callThen t (s.heap.rollbackInsert rid 0) .idle .idle
    | .undoDeleteLogged rid _ => s.callThen t (s.heap.rollbackDelete rid 0) .idle .idle
    | _ => none
  | .compensate t =>
    match s.pc t with
    | .failed [] => some (s.setPc t .idle)
    | .failed (op :: ops) => some ((s.append t op).setPc t (.failed ops))
    | _ => none

/-- The page contains what the record did to it: no heap call for it is still to come. -/
def Contains (r : WalRecord β) (page : ℕ) : Prop :=
  ∀ t, (r.lsn, page) ∉ (s.pc t).outstanding

/-- A page contains what was done to it by the records up to its LSN. -/
def PrefixCovered : Prop :=
  ∀ r ∈ s.log, ∀ page ∈ r.op.pages, r.lsn ≤ (s.heap.pages page).lsn → s.Contains r page

/-- The changes that are outstanding for `t'` once `t` has made its next call. -/
def outstandingAfter (t t' : ℕ) : List (ℕ × ℕ) :=
  if t' = t then (s.pc t).remaining else (s.pc t').outstanding

/-- The condition on a heap call: on the pages that it stamps, no change with this LSN or a smaller one is
outstanding then. -/
def StampOk : LoggedHeapAction β → Prop
  | .call t => ∀ r ∈ s.log, ∀ x ∈ s.outstandingAfter t r.txnId,
      x.2 ∈ (s.pc t).stamped s.heap.lastDataPage → (s.pc t).callLsn < x.1
  | _ => True

end

/-- What holds at all times: LSNs of pages are LSNs of records, and those of pages with outstanding changes
are smaller than theirs. -/
structure Inv (s : LoggedHeap β) : Prop where
  pages : ∀ p, (s.heap.pages p).lsn < s.nextLsn
  callLsn : ∀ t, (s.pc t).callLsn < s.nextLsn
  logged : ∀ t, ∀ x ∈ (s.pc t).outstanding, ∃ r ∈ s.log, r.txnId = t
  ahead : ∀ t, ∀ x ∈ (s.pc t).outstanding, (s.heap.pages x.2).lsn < x.1

section

variable {s s' : LoggedHeap β} {t : ℕ} {pc : HeapPc β} {heap : HeapFile β}

@[simp] lemma pc_setPc_self : (s.setPc t pc).pc t = pc := by simp [setPc]

lemma pc_setPc_of_ne {t' : ℕ} (ht : t' ≠ t) : (s.setPc t pc).pc t' = s.pc t' := by simp [setPc, ht]

lemma inv_create (table firstLsn : ℕ) : (create table firstLsn : LoggedHeap β).Inv where
  pages := fun _ => Nat.succ_pos _
  callLsn := fun _ => Nat.succ_pos _
  logged := fun _ _ hx => absurd hx not_mem_nil
  ahead := fun _ _ hx => absurd hx not_mem_nil

section

variable (h : s.Inv)
include h

lemma Inv.prefixCovered : s.PrefixCovered := by
  intro r _ page _ hle t hx
  have hlt := h.ahead t _ hx
  dsimp only at hlt
  omega

lemma Inv.append (t : ℕ) (op : WalOp β) : (s.append t op).Inv where
  pages := fun p => (h.pages p).trans (Nat.lt_succ_self _)
  callLsn := fun t' => (h.callLsn t').trans (Nat.lt_succ_self _)
  logged := by
    intro t' x hx
    obtain ⟨r, hr, ht⟩ := h.logged t' x hx
    exact ⟨r, mem_append_left _ hr, ht⟩
  ahead := h.ahead

/-- The heap gets new LSNs on some pages, and the program counter of `t` goes on. -/
lemma Inv.moved {lsn : ℕ} {stamped : List ℕ} (hheap : s.heap.StampedBy heap lsn stamped)
    (hlsn : lsn < s.nextLsn) (hcall : pc.callLsn < s.nextLsn) (hpc : pc.outstanding ⊆ (s.pc t).outstanding)
    (hother : ∀ t' ≠ t, ∀ x ∈ (s.pc t').outstanding, x.2 ∈ stamped → lsn < x.1)
    (hown : ∀ x ∈ pc.outstanding, x.2 ∈ stamped → lsn < x.1) (latch : Option ℕ) :
    ({ s with heap := heap, latch := latch }.setPc t pc).Inv where
  pages := fun p => hheap.lt (h.pages p) fun _ => hlsn
  callLsn := by
    intro t'
    by_cases ht : t' = t
    · subst ht
      rw [pc_setPc_self]
      exact hcall
    · rw [pc_setPc_of_ne ht]
      exact h.callLsn t'
  logged := by
    intro t' x hx
    by_cases ht : t' = t
    · subst ht
      rw [pc_setPc_self] at hx
      exact h.logged t' x (hpc hx)
    · rw [pc_setPc_of_ne ht] at hx
      exact h.logged t' x hx
  ahead := by
    intro t' x hx
    by_cases ht : t' = t
    · subst ht
      rw [pc_setPc_self] at hx
      exact hheap.lt (h.ahead t' x (hpc hx)) (hown x hx)
    · rw [pc_setPc_of_ne ht] at hx
      exact hheap.lt (h.ahead t' x hx) (hother t' ht x hx)

lemma Inv.unstamped (hheap : s.heap.StampedBy heap 0 []) (hcall : pc.callLsn < s.nextLsn)
    (hpc : pc.outstanding ⊆ (s.pc t).outstanding) (latch : Option ℕ) :
    ({ s with heap := heap, latch := latch }.setPc t pc).Inv :=
  h.moved hheap ((Nat.zero_le _).trans_lt (h.pages 0)) hcall hpc
    (fun _ _ _ _ hx => absurd hx not_mem_nil) (fun _ _ hx => absurd hx not_mem_nil) latch

/-- A record is appended, and its changes are outstanding: the pages have smaller LSNs. -/
lemma Inv.logThen {op : WalOp β} (hcall : pc.callLsn ≤ s.nextLsn)
    (hpc : ∀ x ∈ pc.outstanding, x.1 = s.nextLsn) : ((s.append t op).setPc t pc).Inv where
  pages := fun p => (h.pages p).trans (Nat.lt_succ_self _)
  callLsn := by
    intro t'
    by_cases ht : t' = t
    · subst ht
      rw [pc_setPc_self]
      exact Nat.lt_succ_of_le hcall
    · rw [pc_setPc_of_ne ht]
      exact (h.append t op).callLsn t'
  logged := by
    intro t' x hx
    by_cases ht : t' = t
    · subst ht
      exact ⟨_, mem_append_right _ (mem_singleton_self _), rfl⟩
    · rw [pc_setPc_of_ne ht] at hx
      exact (h.append t op).logged t' x hx
  ahead := by
    intro t' x hx
    by_cases ht : t' = t
    · subst ht
      rw [pc_setPc_self] at hx
      rw [hpc x hx]
      exact h.pages x.2
    · rw [pc_setPc_of_ne ht] at hx
      exact h.ahead t' x hx

omit h in
lemma remaining_subset (pc : HeapPc β) : pc.remaining ⊆ pc.outstanding := by
  cases pc with
  | logged => exact subset_cons_self _ _
  | _ => exact nil_subset _

section

variable (hok : s.StampOk (.call t))
include hok

/-- The next heap call of a transaction, when it meets the condition. -/
lemma Inv.called (hheap : s.heap.StampedBy heap (s.pc t).callLsn ((s.pc t).stamped s.heap.lastDataPage))
    (hcall : pc.callLsn ≤ (s.pc t).callLsn) (hpc : pc.outstanding ⊆ (s.pc t).remaining) (latch : Option ℕ) :
    ({ s with heap := heap, latch := latch }.setPc t pc).Inv := by
  have hsub := List.Subset.trans hpc (remaining_subset (s.pc t))
  refine h.moved hheap (h.callLsn t) (hcall.trans_lt (h.callLsn t)) hsub ?_ ?_ latch
  · intro t' ht x hx
    obtain ⟨r, hr, rfl⟩ := h.logged t' x hx
    exact hok r hr x (by rwa [outstandingAfter, if_neg ht])
  · intro x hx
    obtain ⟨r, hr, rfl⟩ := h.logged t x (hsub hx)
    exact hok r hr x (by rw [outstandingAfter, if_pos rfl]; exact hpc hx)

lemma Inv.callThen {result : Option (HeapFile β)} {done failed : HeapPc β}
    (hresult : ∀ heap, result = some heap →
      s.heap.StampedBy heap (s.pc t).callLsn ((s.pc t).stamped s.heap.lastDataPage))
    (hdone : done.callLsn ≤ (s.pc t).callLsn ∧ done.outstanding ⊆ (s.pc t).remaining)
    (hfailed : failed.callLsn ≤ (s.pc t).callLsn ∧ failed.outstanding ⊆ (s.pc t).remaining)
    (hs : s.callThen t result done failed = some s') : s'.Inv := by
  simp only [LoggedHeap.callThen] at hs
  split_ifs at hs with hlatch
  cases hs
  cases result with
  | none => exact h.called hok (.refl _ _ _) hfailed.1 hfailed.2 s.latch
  | some heap => exact h.called hok (hresult heap rfl) hdone.1 hdone.2 s.latch

lemma Inv.commit {r : HeapFile.Reservation} {inPage : Bool} {data : Tuple β} {length lsn : ℕ}
    {old : Option RecordId}
    (hpc : s.pc t = .logged r inPage data length old lsn) : (s.commit t r inPage data length old lsn).Inv := by
  have hlsn : (s.pc t).callLsn = lsn := by rw [hpc]; rfl
  have hremaining : (s.pc t).remaining = old.toList.map fun o => (lsn, o.pageId) := by rw [hpc]; rfl
  simp only [LoggedHeap.commit]
  split
  · exact h.called hok (.refl _ _ _) (Nat.zero_le _) (nil_subset _) none
  · rename_i heap new hresult
    refine h.called hok ?_ ?_ ?_ none
    · rw [hlsn, hpc]
      cases inPage with
      | true => simpa [HeapPc.stamped] using stampedBy_commitInPage (by simpa using hresult)
      | false => simpa [HeapPc.stamped] using stampedBy_commitReservation (by simpa using hresult)
    · cases old with
      | none => exact Nat.zero_le _
      | some old => exact hlsn.ge
    · rw [hremaining]
      cases old with
      | none => exact nil_subset _
      | some old => exact List.Subset.refl _

lemma Inv.call (hs : s.step (.call t) = some s') : s'.Inv := by
  simp only [LoggedHeap.step] at hs
  have hidle : ∀ pc : HeapPc β, HeapPc.callLsn (.idle : HeapPc β) ≤ pc.callLsn ∧
      HeapPc.outstanding (.idle : HeapPc β) ⊆ pc.remaining := fun _ => ⟨Nat.zero_le _, nil_subset _⟩
  have hfail : ∀ (pc : HeapPc β) (ops : List (WalOp β)), (HeapPc.failed ops).callLsn ≤ pc.callLsn ∧
      (HeapPc.failed ops).outstanding ⊆ pc.remaining := fun _ _ => ⟨Nat.zero_le _, nil_subset _⟩
  split at hs
  · rename_i hpc
    cases hs
    exact h.commit hok hpc
  · rename_i old new lsn hpc
    refine h.callThen hok (fun heap hr => ?_) (hidle _) ⟨?_, nil_subset _⟩ hs
    · rw [hpc]
      exact stampedBy_updateTuple hr
    · rw [hpc]
      exact le_rfl
  · rename_i old new lsn hpc
    refine h.callThen hok (fun heap hr => ?_) (hfail _ _) (hfail _ _) hs
    rw [hpc]
    exact stampedBy_rollbackInsert hr
  · rename_i rid lsn hpc
    refine h.callThen hok (fun heap hr => ?_) (hidle _) (hfail _ _) hs
    rw [hpc]
    exact stampedBy_markDeletedIfCurrent hr
  · rename_i rid lsn hpc
    refine h.callThen hok (fun heap hr => ?_) (hidle _) (hidle _) hs
    rw [hpc]
    exact stampedBy_rollbackInsert hr
  · rename_i rid lsn hpc
    refine h.callThen hok (fun heap hr => ?_) (hidle _) (hidle _) hs
    rw [hpc]
    exact stampedBy_updateTuple hr
  · cases hs

end

lemma Inv.step {a : LoggedHeapAction β} (hok : s.StampOk a) (hs : LoggedHeap.step s a = some s') : s'.Inv := by
  have hlog : ∀ {t : ℕ} {op : WalOp β} {next : ℕ → HeapPc β}, (next s.nextLsn).callLsn ≤ s.nextLsn →
      (∀ x ∈ (next s.nextLsn).outstanding, x.1 = s.nextLsn) → s.logThen t op next = some s' → s'.Inv := by
    intro t op next hcall hpc hs
    simp only [LoggedHeap.logThen] at hs
    split at hs
    · cases hs
      exact h.logThen hcall hpc
    · cases hs
  have hpos : 0 < s.nextLsn := (Nat.zero_le _).trans_lt (h.pages 0)
  cases a <;> simp only [LoggedHeap.step] at hs
  case prepare t data length old =>
    split at hs
    · cases hs
      exact h.unstamped (stampedBy_prepareInsert _ _) (by exact hpos) (nil_subset _) (some t)
    · cases hs
  case prepareInPage t data length old =>
    have hheap : s.heap.StampedBy (s.heap.prepareInsertInPage old.pageId length).1 0 [] :=
      stampedBy_prepareInsertInPage s.heap old.pageId length
    split at hs
    · split at hs
      · rename_i heap r hprep
        cases hs
        rw [hprep] at hheap
        exact h.unstamped hheap (by exact hpos) (nil_subset _) (some t)
      · rename_i hlatch hpc _ heap hprep
        cases hs
        rw [hprep] at hheap
        have hsame := h.unstamped hheap (h.callLsn t) (List.Subset.refl _) s.latch
        rwa [setPc, Function.update_eq_self] at hsame
    · cases hs
  case log t =>
    split at hs
    · cases hs
      refine h.logThen le_rfl fun x hx => ?_
      rcases mem_cons.1 hx with rfl | hx
      · rfl
      · obtain ⟨o, -, rfl⟩ := mem_map.1 hx
        rfl
    · cases hs
  case logFails t =>
    split at hs
    · cases hs
      exact h.unstamped (.refl _ _ _) (by exact hpos) (nil_subset _) none
    · cases hs
  case logDelete t rid => exact hlog le_rfl (by simp [HeapPc.outstanding]) hs
  case logUndoInsert t rid | logUndoDelete t rid => exact hlog (Nat.zero_le _) (by simp [HeapPc.outstanding]) hs
  case logOther t =>
    cases hs
    exact h.append t .other
  case call t => exact h.call hok hs
  case compensate t =>
    split at hs
    · cases hs
      exact h.unstamped (.refl _ _ _) (by exact hpos) (nil_subset _) s.latch
    · cases hs
      exact h.logThen (Nat.zero_le _) fun x hx => absurd hx not_mem_nil
    · cases hs

end

end

/-- **Page LSNs.**  In every run whose heap calls meet the condition, in every state, each page contains what was
done to it by the records up to its LSN. -/
theorem prefix_covered (table firstLsn : ℕ) (actions : List (LoggedHeapAction β))
    (hok : StepsMeet step StampOk (create table firstLsn) actions) :
    Always step PrefixCovered (create table firstLsn) actions :=
  always_of_invariant (I := Inv) (fun _ _ _ h hok hs => h.step hok hs) (fun _ h => h.prefixCovered)
    (inv_create table firstLsn) hok

instance (s : LoggedHeap β) : (a : LoggedHeapAction β) → Decidable (s.StampOk a)
  | .call t => inferInstanceAs (Decidable (∀ r ∈ s.log, ∀ x ∈ s.outstandingAfter t r.txnId, _ → _))
  | .prepare .. | .prepareInPage .. | .log _ | .logFails _ | .logDelete .. | .logUndoInsert ..
  | .logUndoDelete .. | .logOther _ | .compensate _ => isTrue trivial

def sampleRow (t : ℕ) : Tuple Unit := ⟨t, 0, 0, 0, ()⟩

def sampleInsert (t : ℕ) : List (LoggedHeapAction Unit) := [.prepare t (sampleRow t) 40 none, .log t, .call t]

/-- Two transactions have both appended the record of a deletion on the page before either marks its row; the rows are
marked in the order of the records, and one deletion is undone. -/
theorem prefix_covered_undo :
    Always step PrefixCovered (create 10 0 : LoggedHeap Unit)
      (sampleInsert 1 ++ sampleInsert 2 ++ [.logDelete 1 ⟨1, 0⟩, .logDelete 2 ⟨1, 1⟩, .call 1, .call 2,
        .logUndoDelete 2 ⟨1, 1⟩, .call 2]) :=
  prefix_covered 10 0 _ (by decide +kernel)

/-- A DELETE has appended its record, and before it marks the row, an INSERT of another transaction appends its
own and stamps it on the page. -/
theorem insert_overtakes_delete :
    ¬ Always step PrefixCovered (create 10 0 : LoggedHeap Unit)
      (sampleInsert 1 ++ [.logDelete 1 ⟨1, 0⟩] ++ sampleInsert 2) := by
  intro h
  obtain ⟨s, ⟨hout, hlog, hlsn⟩, hcovered⟩ := h.eval (R := fun s => (s.pc 1).outstanding = [(2, 1)] ∧
    ⟨2, 1, .delete 10 ⟨1, 0⟩⟩ ∈ s.log ∧ (s.heap.pages 1).lsn = 3) (by decide +kernel)
  refine hcovered _ hlog 1 (mem_singleton_self _) ?_ 1 ?_
  · rw [hlsn]
    decide
  · rw [hout]
    exact mem_singleton_self _

end LoggedHeap

end MiniDb
