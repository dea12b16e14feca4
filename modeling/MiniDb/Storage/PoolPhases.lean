import MiniDb.Storage.BufferPool

/-!
# The buffer pool phase by phase

`fetch_page` and `new_page` give up the partition latch while they write the old page of their victim and read the new
one.  A step is one phase: what a call does under the latch, or one write or read without it.  Between phases a call is
known by its frame, since a frame in which I/O is in progress belongs to one call.

Writes and reads can fail, and a failed write can leave anything in the store.  The callers write to pages that they
have pinned, mark them dirty afterwards, and unpin what they have pinned, once.

A victim is unmapped before it is written.  If somebody loads the page again in the meantime and then the write fails,
`restore_evicted_frame` maps the page to the old frame as well.  `tableOk_iff_unmapped`: this is the only way in which
the frame table goes wrong.
-/

namespace MiniDb

open Function List Option BufferPool

variable {γ : Type*}

inductive FetchKind (γ : Type*) where
  | fetch (sequentialHint : Bool)
  /-- `new_page`, with what `Page::init` leaves in the page -/
  | new (page : PageData γ)

/-- What a call that has taken a victim has done last. -/
inductive CallStage where
  | reserved
  | writeFailed
  | written
  | readFailed
  | loaded
  deriving DecidableEq

structure PoolCall (γ : Type*) where
  pageId : ℕ
  evictPageId : ℕ
  kind : FetchKind γ
  stage : CallStage

/-- A pin that a caller has on a frame; `edited` if it has written to the page and not yet marked it dirty. -/
structure HeldPage where
  pageId : ℕ
  frame : ℕ
  edited : Bool
  deriving DecidableEq

open HeldPage

/-- The pool and the store, the call that a frame belongs to, the pins of the callers, and what was last written to each
page. -/
structure PhasedPool (γ : Type*) where
  pool : BufferPool γ
  store : ℕ → PageData γ
  calls : ℕ → Option (PoolCall γ)
  held : List HeldPage
  content : ℕ → PageData γ

open PhasedPool

/-- How a write or a read ends; if it fails, it leaves something behind. -/
inductive IoResult (γ : Type*) where
  | ok
  | failed (left : PageData γ)

inductive PhaseAction (γ : Type*) where
  /-- the phase under the read latch of `fetch_page`, if it finds the page -/
  | hit (pageId : ℕ)
  /-- the phase under the write latch of `fetch_page` or `new_page` -/
  | reserve (pageId : ℕ) (kind : FetchKind γ)
  /-- the old page of a victim is written -/
  | writeBack (i : ℕ) (result : IoResult γ)
  /-- the end of a call whose write failed -/
  | restore (i : ℕ)
  | read (i : ℕ) (result : IoResult γ)
  /-- the end of a call whose read failed -/
  | drop (i : ℕ)
  /-- the last phase of a call that succeeds -/
  | finish (i : ℕ)
  | unpin (h : HeldPage)
  | edit (h : HeldPage) (page : PageData γ)
  | markDirty (h : HeldPage)
  | setPageLsn (h : HeldPage) (lsn : ℕ)
  | flushPage (pageId : ℕ) (result : IoResult γ)
  /-- `flush_all` comes to a frame -/
  | flushFrame (i : ℕ) (result : IoResult γ)

namespace PhasedPool

def create (page : PageData γ) (poolSize partitions flushBatchSize : ℕ) (store : ℕ → PageData γ) :
    PhasedPool γ where
  pool := .create page poolSize partitions flushBatchSize
  store := store
  calls := fun _ => none
  held := []
  content := store

section

variable (s : PhasedPool γ)

section

variable (i : ℕ)

section

variable (c : PoolCall γ)

def setStage (stage : CallStage) : PhasedPool γ :=
  { s with calls := update s.calls i (some { c with stage := stage }) }

def endCall : PhasedPool γ := { s with calls := update s.calls i none }

def hold (pageId i : ℕ) : PhasedPool γ := { s with held := ⟨pageId, i, false⟩ :: s.held }

/-- `write_page`. -/
def storeAfter (pageId : ℕ) (page : PageData γ) : IoResult γ → ℕ → PageData γ
  | .ok => update s.store pageId page
  | .failed left => update s.store pageId left

/-- The write without the latch.  The dirty flag is looked at here. -/
def writeBack (result : IoResult γ) : PhasedPool γ :=
  let f := s.pool.frames i
  if c.evictPageId != kNullPageId && f.isDirty then
    let s := { s with store := s.storeAfter c.evictPageId f.page result }
    match result with
    | .ok => s.setStage i c .written
    | .failed _ => s.setStage i c .writeFailed
  else s.setStage i c .written

/-- The read without the latch, into the frame. -/
def read : IoResult γ → PhasedPool γ
  | .ok =>
    { s with pool := s.pool.setFrame i { s.pool.frames i with page := s.store c.pageId } }.setStage i c .loaded
  | .failed left =>
    { s with pool := s.pool.setFrame i { s.pool.frames i with page := left } }.setStage i c .readFailed

/-- The last phase. -/
def finish : Option (PhasedPool γ) :=
  match c.kind, c.stage with
  | .fetch sequentialHint, .loaded =>
    let pool := s.pool.install c.pageId i (s.pool.frames i).page false
    let pool := if sequentialHint then pool.moveToLruTail c.pageId i else pool.moveToLruHead c.pageId i
    some (({ s with pool := pool }.endCall i).hold c.pageId i)
  | .new page, .written =>
    let pool := (s.pool.install c.pageId i page true).moveToLruHead c.pageId i
    some (({ s with pool := pool, content := update s.content c.pageId page }.endCall i).hold c.pageId i)
  | _, _ => none

end

/-- A frame is written to the store if it is dirty, under the page id that it has. -/
def flushFrame (result : IoResult γ) : PhasedPool γ :=
  let f := s.pool.frames i
  if f.isDirty then
    let s := { s with store := s.storeAfter f.pageId f.page result }
    match result with
    | .ok => { s with pool := s.pool.clearDirty i }
    | .failed _ => s
  else s

end

def step : PhaseAction γ → Option (PhasedPool γ)
  | .hit pageId => (s.pool.resident pageId).map fun i => { s with pool := s.pool.pin i }.hold pageId i
  | .reserve pageId kind =>
    if pageId = kNullPageId then some s
    else
      match s.pool.reserve 0 pageId with
      | (pool, .hit i) => some ({ s with pool := pool }.hold pageId i)
      | (pool, .wait) => some { s with pool := pool }
      | (pool, .victim i evictPageId _) =>
        some { s with pool := pool, calls := update s.calls i (some ⟨pageId, evictPageId, kind, .reserved⟩) }
  | .writeBack i result =>
    match s.calls i with
    | some c => if c.stage = .reserved then some (s.writeBack i c result) else none
    | none => none
  | .restore i =>
    match s.calls i with
    | some c =>
      if c.stage = .writeFailed then
        some ({ s with pool := s.pool.restoreEvictedFrame c.pageId i c.evictPageId }.endCall i)
      else none
    | none => none
  | .read i result =>
    match s.calls i with
    | some c =>
      match c.kind, c.stage with
      | .fetch _, .written => some (s.read i c result)
      | _, _ => none
    | none => none
  | .drop i =>
    match s.calls i with
    | some c =>
      if c.stage = .readFailed then
        some ({ s with pool := s.pool.dropFrame c.pageId i (s.pool.frames i).page }.endCall i)
      else none
    | none => none
  | .finish i =>
    match s.calls i with
    | some c => s.finish i c
    | none => none
  | .unpin h =>
    if h ∈ s.held ∧ h.edited = false then
      some { s with pool := s.pool.unpinPage h.pageId, held := s.held.erase h }
    else none
  | .edit h page =>
    if h ∈ s.held then
      some { s with
        pool := s.pool.setFrame h.frame { s.pool.frames h.frame with page := page }
        content := update s.content h.pageId page
        held := { h with edited := true } :: s.held.erase h }
    else none
  | .markDirty h =>
    if h ∈ s.held then
      some { s with pool := s.pool.markDirty h.pageId, held := { h with edited := false } :: s.held.erase h }
    else none
  | .setPageLsn h lsn =>
    if h ∈ s.held then
      let page := s.content h.pageId
      some { s with
        pool := s.pool.setPageLsn h.pageId lsn
        content := update s.content h.pageId (if page.lsn < lsn then { page with lsn := lsn } else page)
        held := { h with edited := false } :: s.held.erase h }
    else none
  | .flushPage pageId result =>
    match s.pool.findPageMapping pageId with
    | some i => some (s.flushFrame i result)
    | none => some s
  | .flushFrame i result => if (s.pool.frames i).pageId ≠ kNullPageId then some (s.flushFrame i result) else some s

/-- The frame table is in order: a page is mapped to one frame, which has its page id, no two frames have the same page,
and a frame that a caller has pinned has the caller's page. -/
structure TableOk (s : PhasedPool γ) : Prop where
  one : ∀ q q' p i j, (s.pool.partitions q).pageTable p = some i → (s.pool.partitions q').pageTable p = some j → i = j
  mapped : ∀ q p i, (s.pool.partitions q).pageTable p = some i → (s.pool.frames i).pageId = p
  unique : ∀ i j, (s.pool.frames i).pageId ≠ kNullPageId → (s.pool.frames i).pageId = (s.pool.frames j).pageId → i = j
  pinned : ∀ h ∈ s.held, 0 < (s.pool.frames h.frame).pinCount → (s.pool.frames h.frame).pageId = h.pageId

/-- The condition on a step: a page whose write has failed is put back only if it is not mapped. -/
def Unmapped : PhaseAction γ → Prop
  | .restore i => ∀ c ∈ s.calls i, c.stage = .writeFailed → s.pool.findPageMapping c.evictPageId = none
  | _ => True

end

instance (s : PhasedPool γ) : DecidablePred s.Unmapped := fun a => by
  cases a with
  | restore i => exact inferInstanceAs (Decidable (∀ c ∈ s.calls i, _))
  | _ => exact isTrue trivial

end PhasedPool

namespace BufferPool

/-- What the frames and the page tables have to do with each other. -/
structure Tidy (b : BufferPool γ) : Prop where
  placed : ∀ q p i, (b.partitions q).pageTable p = some i →
    q = b.partitionFor p ∧ p ≠ kNullPageId ∧ (b.frames i).pageId = p
  mapped : ∀ i, (b.frames i).pageId ≠ kNullPageId → b.findPageMapping (b.frames i).pageId = some i
  home : ∀ i, (b.frames i).pageId ≠ kNullPageId → b.partitionFor (b.frames i).pageId = (b.frames i).partitionIdx
  lru : ∀ q, ∀ i ∈ (b.partitions q).lruList, (b.frames i).partitionIdx = q ∧ i < b.poolSize
  bound : ∀ i, (b.frames i).pageId ≠ kNullPageId → i < b.poolSize

section

variable {b b' : BufferPool γ}

variable {i owner pageId : ℕ}

lemma Tidy.of_findPageMapping (h : b.Tidy) {p : ℕ} (hp : b.findPageMapping p = some i) :
    p ≠ kNullPageId ∧ (b.frames i).pageId = p ∧ (b.frames i).partitionIdx = b.partitionFor p := by
  obtain ⟨-, hnull, hpage⟩ := h.placed _ _ _ hp
  refine ⟨hnull, hpage, ?_⟩
  rw [← h.home i (by rwa [hpage]), hpage]

lemma setFrame_frames (b : BufferPool γ) (i : ℕ) : b.setFrame i (b.frames i) = b := by
  rw [setFrame, update_eq_self]

variable {f : Frame γ}

lemma field_update {δ : Type*} {F : ℕ → Frame γ} (g : Frame γ → δ) (h : g f = g (F i))
    (j : ℕ) : g (update F i f j) = g (F j) := by
  rw [update_apply]
  split_ifs with hj
  · rw [hj, h]
  · rfl

section

variable (h : b.Tidy)
include h

/-- **A frame gets another page**, or none. -/
lemma Tidy.retarget (hcount : b'.partitionCount = b.partitionCount)
    (hsize : b'.poolSize = b.poolSize) (hframes : b'.frames = update b.frames i f)
    (hf : f.partitionIdx = (b.frames i).partitionIdx) {new : ℕ} (hfnew : f.pageId = new)
    (htable : ∀ q x, (b'.partitions q).pageTable x =
      if q = (b.frames i).partitionIdx ∧ x = new ∧ new ≠ kNullPageId then some i
      else if q = (b.frames i).partitionIdx ∧ x = (b.frames i).pageId ∧ (b.frames i).pageId ≠ kNullPageId then none
      else (b.partitions q).pageTable x) (hlru : ∀ q, (b'.partitions q).lruList = (b.partitions q).lruList)
    (hnew : new ≠ kNullPageId →
      b.partitionFor new = (b.frames i).partitionIdx ∧ b.findPageMapping new = none ∧ i < b.poolSize) : b'.Tidy := by
  have hfor : ∀ p, b'.partitionFor p = b.partitionFor p := by
    intro p
    rw [partitionFor, partitionFor, hcount]
  have hidx : ∀ j, (b'.frames j).partitionIdx = (b.frames j).partitionIdx := by
    rw [hframes]
    exact field_update Frame.partitionIdx hf
  have hpage : ∀ j, (b'.frames j).pageId = if j = i then new else (b.frames j).pageId := by
    intro j
    rw [hframes, update_apply]
    split_ifs
    · exact hfnew
    · rfl
  refine ⟨fun q p j hp => ?_, fun j hj => ?_, fun j hj => ?_, fun q j hj => ?_, fun j hj => ?_⟩
  · rw [htable] at hp
    rw [hfor, hpage]
    split_ifs at hp with h1 h2
    · obtain ⟨rfl, rfl, hnull⟩ := h1
      cases hp
      exact ⟨(hnew hnull).1.symm, hnull, if_pos rfl⟩
    · obtain ⟨hq, hnull, hpj⟩ := h.placed q p j hp
      refine ⟨hq, hnull, ?_⟩
      rw [if_neg, hpj]
      rintro rfl
      -- the page that the frame had is not mapped any more
      refine h2 ⟨?_, hpj.symm, by rwa [hpj]⟩
      rw [hq, ← h.home j (by rwa [hpj]), hpj]
  · rw [hpage] at hj ⊢
    rw [findPageMapping, hfor, htable]
    split_ifs at hj ⊢ with hji h1 h2 h1 h2
    · rw [hji]
    · exact absurd ⟨(hnew hj).1, rfl, hj⟩ h1
    · exact absurd ⟨(hnew hj).1, rfl, hj⟩ h1
    · have hmap := h.mapped j hj
      rw [h1.2.1, (hnew h1.2.2).2.1] at hmap
      cases hmap
    · have hmap := h.mapped j hj
      rw [h2.2.1, h.mapped i h2.2.2] at hmap
      exact absurd (some.inj hmap).symm hji
    · exact h.mapped j hj
  · rw [hfor, hidx]
    rw [hpage] at hj ⊢
    split_ifs at hj ⊢ with hji
    · rw [hji]
      exact (hnew hj).1
    · exact h.home j hj
  · rw [hidx, hsize]
    rw [hlru] at hj
    exact h.lru q j hj
  · rw [hpage] at hj
    rw [hsize]
    split_ifs at hj with hji
    · rw [hji]
      exact (hnew hj).2.2
    · exact h.bound j hj

omit h in
lemma partitions_updatePartition (b : BufferPool γ) (owner : ℕ)
    (f : BufferPoolPartition → BufferPoolPartition) (q : ℕ) :
    (b.updatePartition owner f).partitions q =
      if q = b.partitionFor owner then f (b.partitions (b.partitionFor owner)) else b.partitions q :=
  update_apply ..

lemma Tidy.congr (hcount : b'.partitionCount = b.partitionCount) (hsize : b'.poolSize = b.poolSize)
    (hpage : ∀ j, (b'.frames j).pageId = (b.frames j).pageId)
    (hidx : ∀ j, (b'.frames j).partitionIdx = (b.frames j).partitionIdx)
    (htable : ∀ q, (b'.partitions q).pageTable = (b.partitions q).pageTable)
    (hlru : ∀ q, ∀ j ∈ (b'.partitions q).lruList, (b.frames j).partitionIdx = q ∧ j < b.poolSize) : b'.Tidy := by
  have hfor : ∀ p, b'.partitionFor p = b.partitionFor p := by
    intro p
    rw [partitionFor, partitionFor, hcount]
  refine ⟨fun q p j hp => ?_, fun j hj => ?_, fun j hj => ?_, fun q j hj => ?_, fun j hj => ?_⟩
  · rw [hfor, hpage]
    exact h.placed q p j (by rwa [htable] at hp)
  · rw [hpage] at hj ⊢
    rw [findPageMapping, hfor, htable]
    exact h.mapped j hj
  · rw [hpage] at hj ⊢
    rw [hfor, hidx]
    exact h.home j hj
  · rw [hidx, hsize]
    exact hlru q j hj
  · rw [hpage] at hj
    rw [hsize]
    exact h.bound j hj

lemma Tidy.setFrame (hpage : f.pageId = (b.frames i).pageId)
    (hidx : f.partitionIdx = (b.frames i).partitionIdx) : (b.setFrame i f).Tidy :=
  h.congr rfl rfl (field_update Frame.pageId hpage) (field_update Frame.partitionIdx hidx) (fun _ => rfl) h.lru

lemma Tidy.reorder {lruList : List ℕ}
    (hlru : ∀ j ∈ lruList, (b.frames j).partitionIdx = b.partitionFor owner ∧ j < b.poolSize) :
    (b.updatePartition owner fun p => { p with lruList := lruList }).Tidy := by
  refine h.congr rfl rfl (fun _ => rfl) (fun _ => rfl) (fun q => ?_) fun q j hj => ?_
  · rw [partitions_updatePartition]
    split_ifs with hq
    · rw [hq]
    · rfl
  · rw [partitions_updatePartition] at hj
    split_ifs at hj with hq
    · rw [hq]
      exact hlru j hj
    · exact h.lru q j hj

section

variable (hi : (b.frames i).partitionIdx = b.partitionFor owner ∧ i < b.poolSize)
include hi

lemma Tidy.moveToLruHead : (b.moveToLruHead owner i).Tidy :=
  h.reorder (forall_mem_cons.2 ⟨hi, fun j hj => h.lru _ j (mem_of_mem_erase hj)⟩)

lemma Tidy.moveToLruTail : (b.moveToLruTail owner i).Tidy := by
  refine h.reorder fun j hj => ?_
  rcases mem_append.1 hj with hj | hj
  · exact h.lru _ j (mem_of_mem_erase hj)
  · rw [mem_singleton.1 hj]
    exact hi

end

end

section

variable (b : BufferPool γ)

lemma frames_takeVictim (pageId i : ℕ) : (b.takeVictim pageId i).frames =
    update b.frames i { b.frames i with pinCount := 1, isIoInProgress := true, pageId := pageId } := by
  simp only [takeVictim, insertPageMapping, erasePageMapping]
  split_ifs <;> simp [setFrame, updatePartition]

lemma frames_restoreEvictedFrame (owner i oldPageId : ℕ) : (b.restoreEvictedFrame owner i oldPageId).frames =
      update b.frames i { b.frames i with pageId := oldPageId, pinCount := 0, isIoInProgress := false } := by
  simp only [restoreEvictedFrame, insertPageMapping, erasePageMapping]
  split_ifs <;> simp [setFrame, updatePartition]

lemma frames_dropFrame (owner i : ℕ) (page : PageData γ) : (b.dropFrame owner i page).frames =
    update b.frames i { b.frames i with
      page := page, pageId := kNullPageId, pinCount := 0, isDirty := false, isIoInProgress := false } := rfl

lemma frames_install (pageId i : ℕ) (page : PageData γ) (isDirty : Bool) :
    (b.install pageId i page isDirty).frames = update b.frames i { b.frames i with
      page := page, pageId := pageId, pinCount := 1, isDirty := isDirty, isIoInProgress := false } := rfl

/-- An update of the page table leaves the order of the frames alone. -/
lemma lruList_updatePartition (owner q : ℕ) (g : BufferPoolPartition → ℕ → Option ℕ) :
    ((b.updatePartition owner fun p => { p with pageTable := g p }).partitions q).lruList =
      (b.partitions q).lruList := by
  rw [partitions_updatePartition]
  split_ifs with hq
  · rw [hq]
  · rfl

lemma pageTable_insertPageMapping (owner pageId i q x : ℕ) :
    ((b.insertPageMapping owner pageId i).partitions q).pageTable x =
      if q = b.partitionFor owner ∧ x = pageId then some i else (b.partitions q).pageTable x := by
  rw [insertPageMapping, partitions_updatePartition]
  by_cases hq : q = b.partitionFor owner
  · simp [hq, update_apply]
  · simp [hq]

lemma pageTable_erasePageMapping (owner pageId q x : ℕ) :
    ((b.erasePageMapping owner pageId).partitions q).pageTable x =
      if q = b.partitionFor owner ∧ x = pageId then none else (b.partitions q).pageTable x := by
  rw [erasePageMapping, partitions_updatePartition]
  by_cases hq : q = b.partitionFor owner
  · simp [hq, update_apply]
  · simp [hq]

@[simp] lemma lruList_insertPageMapping (owner pageId i q : ℕ) :
    ((b.insertPageMapping owner pageId i).partitions q).lruList = (b.partitions q).lruList :=
  b.lruList_updatePartition ..

@[simp] lemma lruList_erasePageMapping (owner pageId q : ℕ) :
    ((b.erasePageMapping owner pageId).partitions q).lruList = (b.partitions q).lruList :=
  b.lruList_updatePartition ..

@[simp] lemma partitions_setFrame (i : ℕ) (f : Frame γ) : (b.setFrame i f).partitions = b.partitions := rfl

@[simp] lemma partitionFor_setFrame (i : ℕ) (f : Frame γ) : (b.setFrame i f).partitionFor = b.partitionFor := rfl

@[simp] lemma partitionFor_erasePageMapping (owner pageId : ℕ) :
    (b.erasePageMapping owner pageId).partitionFor = b.partitionFor := rfl

lemma pageTable_takeVictim (pageId i q x : ℕ) : ((b.takeVictim pageId i).partitions q).pageTable x =
      if q = b.partitionFor pageId ∧ x = pageId then some i
      else if q = b.partitionFor pageId ∧ x = (b.frames i).pageId ∧ (b.frames i).pageId ≠ kNullPageId then none
      else (b.partitions q).pageTable x := by
  rw [takeVictim, pageTable_insertPageMapping]
  by_cases hold : (b.frames i).pageId = kNullPageId
  · simp [hold]
  · simp only [hold, pageTable_erasePageMapping, partitions_setFrame, partitionFor_setFrame, ne_eq, not_false_eq_true,
      if_true, and_true, partitionFor_erasePageMapping]
    rfl

end

section

variable (h : b.Tidy)
include h

lemma Tidy.takeVictim (hnull : pageId ≠ kNullPageId)
    (hi : (b.frames i).partitionIdx = b.partitionFor pageId) (hbound : i < b.poolSize)
    (hnone : b.findPageMapping pageId = none) : (b.takeVictim pageId i).Tidy := by
  refine h.retarget ?_ ?_ (frames_takeVictim ..) rfl rfl (fun q x => ?_) (fun q => ?_) fun _ => ⟨hi.symm, hnone, hbound⟩
  · simp only [BufferPool.takeVictim]
    split_ifs <;> rfl
  · simp only [BufferPool.takeVictim]
    split_ifs <;> rfl
  · simp [pageTable_takeVictim, hi, hnull]
  · simp only [BufferPool.takeVictim]
    split_ifs <;> simp

section

variable (hi : (b.frames i).pageId ≠ kNullPageId)
include hi

lemma Tidy.restoreEvictedFrame {oldPageId : ℕ} (hold : oldPageId ≠ kNullPageId)
    (hhome : b.partitionFor oldPageId = (b.frames i).partitionIdx) (hnone : b.findPageMapping oldPageId = none) :
    (b.restoreEvictedFrame (b.frames i).pageId i oldPageId).Tidy := by
  have hidx := h.home i hi
  refine h.retarget ?_ ?_ (frames_restoreEvictedFrame ..) rfl rfl (fun q x => ?_) (fun q => ?_)
    fun _ => ⟨hhome, hnone, h.bound i hi⟩
  · simp only [BufferPool.restoreEvictedFrame, if_pos hold]
    rfl
  · simp only [BufferPool.restoreEvictedFrame, if_pos hold]
    rfl
  · simp [BufferPool.restoreEvictedFrame, hold, pageTable_insertPageMapping, pageTable_erasePageMapping, hidx, hi]
  · simp [BufferPool.restoreEvictedFrame, hold]

lemma Tidy.dropFrame (page : PageData γ) : (b.dropFrame (b.frames i).pageId i page).Tidy := by
  have hidx := h.home i hi
  refine h.retarget rfl rfl (frames_dropFrame ..) rfl rfl (fun q x => ?_) (fun q => ?_) fun hne => absurd rfl hne
  · simp [BufferPool.dropFrame, pageTable_erasePageMapping, hidx, hi]
  · simp [BufferPool.dropFrame]

lemma Tidy.install (page : PageData γ) (isDirty : Bool) :
    (b.install (b.frames i).pageId i page isDirty).Tidy := by
  refine h.congr rfl rfl (field_update Frame.pageId rfl) (field_update Frame.partitionIdx rfl)
    (fun q => ?_) fun q j hj => ?_
  · funext x
    rw [BufferPool.install, pageTable_insertPageMapping]
    split_ifs with hx
    · obtain ⟨rfl, rfl⟩ := hx
      exact (h.mapped i hi).symm
    · rfl
  · exact h.lru q j (by simpa [BufferPool.install] using hj)

end

omit h in
/-- `find_victim_frame` gives a frame of the partition in which no I/O is in progress and that is empty or not pinned. -/
lemma victimLoop_spec {frames : ℕ → Frame γ} {l : List ℕ} {evictable : Option ℕ}
    (h : victimLoop frames evictable l = some i) : evictable = some i ∨ i ∈ l ∧ (frames i).isIoInProgress = false ∧
      ((frames i).pageId = kNullPageId ∨ (frames i).pinCount = 0) := by
  induction l generalizing evictable with
  | nil => exact .inl h
  | cons j l ih =>
    have hlater : ∀ evictable, victimLoop frames evictable l = some i → evictable = some i ∨ i ∈ j :: l ∧
        (frames i).isIoInProgress = false ∧ ((frames i).pageId = kNullPageId ∨ (frames i).pinCount = 0) :=
      fun evictable h => (ih h).imp_right (And.imp_left (mem_cons_of_mem j))
    rw [victimLoop] at h
    split_ifs at h with hio hnull hpin
    · exact hlater _ h
    · cases h
      exact .inr ⟨mem_cons_self, by simpa using hio, .inl hnull⟩
    · rcases hlater _ h with hj | hi
      · cases hj
        exact .inr ⟨mem_cons_self, by simpa using hio, .inr hpin.2⟩
      · exact .inr hi
    · exact hlater _ h

lemma Tidy.findVictimFrame (hi : b.findVictimFrame pageId = some i) :
    (b.frames i).partitionIdx = b.partitionFor pageId ∧ i < b.poolSize ∧ (b.frames i).isIoInProgress = false ∧
      ((b.frames i).pageId = kNullPageId ∨ (b.frames i).pinCount = 0) := by
  rcases victimLoop_spec hi with hnone | ⟨hmem, hio, hfree⟩
  · cases hnone
  · obtain ⟨hidx, hbound⟩ := h.lru _ i (mem_reverse.1 hmem)
    exact ⟨hidx, hbound, hio, hfree⟩

/-- What the phase under the write latch can do. -/
lemma Tidy.reserve_cases (hnull : pageId ≠ kNullPageId) (durableLsn : ℕ) :
    b.reserve durableLsn pageId = (b, .wait) ∨
    (∃ i, b.findPageMapping pageId = some i ∧ (b.frames i).isIoInProgress = false ∧
      b.reserve durableLsn pageId = ((b.pin i).moveToLruHead pageId i, .hit i)) ∨
    ∃ i needWalFlush, b.findPageMapping pageId = none ∧ (b.frames i).partitionIdx = b.partitionFor pageId ∧
      (b.frames i).isIoInProgress = false ∧ ((b.frames i).pageId = kNullPageId ∨ (b.frames i).pinCount = 0) ∧
      b.reserve durableLsn pageId = (b.takeVictim pageId i, .victim i (b.frames i).pageId needWalFlush) ∧
      (b.takeVictim pageId i).Tidy := by
  rw [reserve]
  cases hmap : b.findPageMapping pageId with
  | some i =>
    dsimp only
    split_ifs with hio
    · exact .inl rfl
    · exact .inr (.inl ⟨i, rfl, by simpa using hio, rfl⟩)
  | none =>
    cases hvictim : b.findVictimFrame pageId with
    | none => exact .inl rfl
    | some i =>
      obtain ⟨hidx, hbound, hio, hfree⟩ := h.findVictimFrame hvictim
      exact .inr (.inr ⟨i, _, rfl, hidx, hio, hfree, rfl, h.takeVictim hnull hidx hbound hmap⟩)

end

lemma tidy_create (page : PageData γ) (poolSize partitions flushBatchSize : ℕ) :
    (create page poolSize partitions flushBatchSize).Tidy where
  placed := fun _ _ _ h => nomatch h
  mapped := fun _ h => absurd rfl h
  home := fun _ h => absurd rfl h
  lru := by
    intro q i hi
    obtain ⟨hrange, hpart⟩ := mem_filter.1 hi
    exact ⟨beq_iff_eq.1 hpart, mem_range.1 hrange⟩
  bound := fun _ h => absurd rfl h

end

end BufferPool

namespace PhasedPool

/-- What is known of a call that has taken the frame. -/
structure CallOk (s : PhasedPool γ) (i : ℕ) (c : PoolCall γ) : Prop where
  io : (s.pool.frames i).isIoInProgress = true
  page : (s.pool.frames i).pageId = c.pageId
  notNull : c.pageId ≠ kNullPageId
  failed : c.stage = .writeFailed → c.evictPageId ≠ kNullPageId
  evicted : c.evictPageId ≠ kNullPageId →
    s.pool.partitionFor c.evictPageId = (s.pool.frames i).partitionIdx ∧ c.evictPageId ≠ c.pageId

structure Inv (s : PhasedPool γ) : Prop where
  tidy : s.pool.Tidy
  call : ∀ i, ∀ c ∈ s.calls i, s.CallOk i c
  held : ∀ h ∈ s.held, (s.pool.frames h.frame).pageId = h.pageId ∧ h.pageId ≠ kNullPageId ∧
    (s.pool.frames h.frame).isIoInProgress = false
  pins : ∀ i, (s.pool.frames i).isIoInProgress = false →
    (s.pool.frames i).pinCount = (s.held.map frame).count i

section

variable {s s' : PhasedPool γ}

lemma Inv.tableOk (h : s.Inv) : s.TableOk where
  one := by
    intro q q' p i j hi hj
    obtain ⟨rfl, -, -⟩ := h.tidy.placed q p i hi
    obtain ⟨rfl, -, -⟩ := h.tidy.placed q' p j hj
    exact some.inj (hi.symm.trans hj)
  mapped := fun q p i hi => (h.tidy.placed q p i hi).2.2
  unique := by
    intro i j hi heq
    have hj := h.tidy.mapped j (heq ▸ hi)
    rw [← heq, h.tidy.mapped i hi] at hj
    exact some.inj hj
  pinned := fun x hx _ => (h.held x hx).1

lemma Inv.not_held (h : s.Inv) {i : ℕ} (hfree : (s.pool.frames i).isIoInProgress = true ∨
    (s.pool.frames i).pageId = kNullPageId ∨ (s.pool.frames i).pinCount = 0) : ∀ x ∈ s.held, x.frame ≠ i := by
  rintro x hx rfl
  obtain ⟨hpage, hnull, hio⟩ := h.held x hx
  rcases hfree with hio' | hpage' | hpin
  · rw [hio] at hio'
    cases hio'
  · exact hnull (hpage.symm.trans hpage')
  · rw [h.pins _ hio, count_eq_zero] at hpin
    exact hpin (mem_map_of_mem hx)

/-- A pin of before the step, on a frame that still has its page. -/
lemma Inv.held_same (h : s.Inv) {x : HeldPage} (hx : x ∈ s.held) (i : ℕ) :
    if x.frame = i then (s.pool.frames i).pageId = x.pageId ∧ x.pageId ≠ kNullPageId ∧
        (s.pool.frames i).isIoInProgress = false else ∃ y ∈ s.held, y.frame = x.frame ∧ y.pageId = x.pageId := by
  split_ifs with hxi
  · exact hxi ▸ h.held x hx
  · exact ⟨x, hx, rfl, rfl⟩

lemma count_held_eq_zero {i : ℕ} (hfree : ∀ x ∈ s.held, x.frame ≠ i) :
    (s.held.map HeldPage.frame).count i = 0 := by
  rw [count_eq_zero, List.mem_map]
  rintro ⟨x, hx, hxi⟩
  exact hfree x hx hxi

variable {c : PoolCall γ} {f : Frame γ} {x : HeldPage}

section

variable (h : s.Inv)
include h

variable {i pageId : ℕ} {pool : BufferPool γ} {a : PhaseAction γ}

lemma Inv.calls_eq_none (hio : (s.pool.frames i).isIoInProgress = false) : s.calls i = none := by
  cases hc : s.calls i with
  | none => rfl
  | some c =>
    have hbusy := (h.call i c hc).io
    rw [hio] at hbusy
    cases hbusy

/-- **One frame changes**, with its call and its pins; the other frames are as they were. -/
lemma Inv.update (hframes : s'.pool.frames = update s.pool.frames i f)
    (hcount : s'.pool.partitionCount = s.pool.partitionCount) (htidy : s'.pool.Tidy)
    (hcalls : ∀ j, j ≠ i → s'.calls j = s.calls j) (hcall : ∀ c ∈ s'.calls i, s'.CallOk i c)
    (hheld : ∀ x ∈ s'.held, if x.frame = i then f.pageId = x.pageId ∧ x.pageId ≠ kNullPageId ∧ f.isIoInProgress = false
      else ∃ y ∈ s.held, y.frame = x.frame ∧ y.pageId = x.pageId)
    (hpins : ∀ j, j ≠ i → (s'.held.map frame).count j = (s.held.map frame).count j)
    (hpin : f.isIoInProgress = false → f.pinCount = (s'.held.map frame).count i) : s'.Inv := by
  have hself : s'.pool.frames i = f := by rw [hframes, update_self]
  have hother : ∀ j, j ≠ i → s'.pool.frames j = s.pool.frames j := by
    intro j hj
    rw [hframes, update_of_ne hj]
  refine ⟨htidy, fun j c hc => ?_, fun x hx => ?_, fun j hj => ?_⟩
  · by_cases hji : j = i
    · subst hji
      exact hcall c hc
    · rw [hcalls j hji] at hc
      obtain ⟨hio, hpage, hnull, hfailed, hevicted⟩ := h.call j c hc
      refine ⟨by rwa [hother j hji], by rwa [hother j hji], hnull, hfailed, fun hne => ?_⟩
      rw [hother j hji, partitionFor, hcount]
      exact hevicted hne
  · have hx' := hheld x hx
    split_ifs at hx' with hxi
    · rwa [hxi, hself]
    · obtain ⟨y, hy, hframe, hpage⟩ := hx'
      rw [hother _ hxi, ← hframe, ← hpage]
      exact h.held y hy
  · by_cases hji : j = i
    · subst hji
      rw [hself] at hj ⊢
      exact hpin hj
    · rw [hother j hji] at hj ⊢
      rw [hpins j hji]
      exact h.pins j hj

section

variable (hc : s.calls i = some c)
include hc

lemma Inv.setStage (page : PageData γ) (stage : CallStage)
    (hstage : stage = .writeFailed → c.evictPageId ≠ kNullPageId) (store : ℕ → PageData γ) : Inv ({ s with
      pool := s.pool.setFrame i { s.pool.frames i with page := page }, store := store }.setStage i c stage) := by
  have hok := h.call i c hc
  have hfree := h.not_held (.inl hok.io)
  refine h.update (i := i) rfl rfl (h.tidy.setFrame rfl rfl) (fun j hj => update_of_ne hj ..) ?_ ?_ (fun _ _ => rfl) ?_
  · intro c' hc'
    simp only [PhasedPool.setStage, update_self, mem_some_iff] at hc'
    subst hc'
    refine ⟨?_, ?_, hok.notNull, hstage, fun hne => ?_⟩
    · simpa [PhasedPool.setStage] using hok.io
    · simpa [PhasedPool.setStage] using hok.page
    · simpa [PhasedPool.setStage] using hok.evicted hne
  · intro x hx
    rw [if_neg (hfree x hx)]
    exact ⟨x, hx, rfl, rfl⟩
  · intro hio
    rw [hok.io] at hio
    cases hio

omit hc in
lemma Inv.pin (hmap : s.pool.findPageMapping pageId = some i)
    (hio : (s.pool.frames i).isIoInProgress = false) (hframes : pool.frames = (s.pool.pin i).frames)
    (hcount : pool.partitionCount = s.pool.partitionCount) (htidy : pool.Tidy) :
    Inv ({ s with pool := pool }.hold pageId i) := by
  obtain ⟨hnull, hpage, -⟩ := h.tidy.of_findPageMapping hmap
  refine h.update (i := i) hframes hcount htidy (fun _ _ => rfl) ?_ ?_ (fun j hj => ?_) fun _ => ?_
  · intro c hc
    exact nomatch (h.calls_eq_none hio).symm.trans hc
  · intro x hx
    rcases mem_cons.1 hx with rfl | hx
    · rw [if_pos rfl]
      exact ⟨hpage, hnull, hio⟩
    · exact h.held_same hx i
  · simp [hold, Ne.symm hj]
  · simp [hold, h.pins i hio]

lemma Inv.release
    (hframes : pool.frames = Function.update s.pool.frames i f) (hcount : pool.partitionCount = s.pool.partitionCount)
    (htidy : pool.Tidy) (hpin : f.pinCount = 0) : Inv ({ s with pool := pool }.endCall i) := by
  have hfree := h.not_held (.inl (h.call i c hc).io)
  refine h.update (i := i) hframes hcount htidy (fun j hj => update_of_ne hj ..) ?_ ?_ (fun _ _ => rfl) ?_
  · intro c' hc'
    simp [endCall] at hc'
  · intro x hx
    rw [if_neg (hfree x hx)]
    exact ⟨x, hx, rfl, rfl⟩
  · intro _
    exact hpin.trans (count_held_eq_zero hfree).symm

lemma Inv.install (pool : BufferPool γ)
    (hframes : pool.frames = Function.update s.pool.frames i f) (hcount : pool.partitionCount = s.pool.partitionCount)
    (htidy : pool.Tidy) (hpage : f.pageId = c.pageId) (hio : f.isIoInProgress = false) (hpin : f.pinCount = 1)
    (content : ℕ → PageData γ) : Inv (({ s with pool := pool, content := content }.endCall i).hold c.pageId i) := by
  have hok := h.call i c hc
  have hfree := h.not_held (.inl hok.io)
  refine h.update (i := i) hframes hcount htidy (fun j hj => update_of_ne hj ..) ?_ ?_ (fun j hj => ?_) ?_
  · intro c' hc'
    simp [endCall, hold] at hc'
  · intro x hx
    rcases mem_cons.1 hx with rfl | hx
    · rw [if_pos rfl]
      exact ⟨hpage, hok.notNull, hio⟩
    · rw [if_neg (hfree x hx)]
      exact ⟨x, hx, rfl, rfl⟩
  · simp [hold, endCall, Ne.symm hj]
  · simp [hold, endCall, hpin, count_held_eq_zero hfree]

omit hc in
lemma Inv.touch (hx : x ∈ s.held) (f : Frame γ)
    (hpage : f.pageId = (s.pool.frames x.frame).pageId) (hidx : f.partitionIdx = (s.pool.frames x.frame).partitionIdx)
    (hpin : f.pinCount = (s.pool.frames x.frame).pinCount)
    (hio : f.isIoInProgress = (s.pool.frames x.frame).isIoInProgress) (edited : Bool) (content : ℕ → PageData γ) :
    Inv { s with
      pool := s.pool.setFrame x.frame f, content := content, held := { x with edited := edited } :: s.held.erase x } := by
  obtain ⟨hxpage, hxnull, hxio⟩ := h.held x hx
  have hcount : ∀ j, ((({ x with edited := edited } : HeldPage) :: s.held.erase x).map frame).count j =
      (s.held.map frame).count j := by
    intro j
    exact (((perm_cons_erase hx).map frame).count_eq j).symm
  refine h.update (i := x.frame) rfl rfl (h.tidy.setFrame hpage hidx) (fun _ _ => rfl) ?_ ?_ (fun j _ => hcount j) ?_
  · intro c hc
    exact nomatch (h.calls_eq_none hxio).symm.trans hc
  · intro y hy
    rcases mem_cons.1 hy with rfl | hy
    · rw [if_pos rfl]
      exact ⟨hpage.trans hxpage, hxnull, hio.trans hxio⟩
    · have hsame := h.held_same (mem_of_mem_erase hy) x.frame
      rwa [← hpage, ← hio] at hsame
  · intro _
    rw [hcount, hpin]
    exact h.pins _ hxio

omit hc in
/-- A frame changes in its dirty flag, and the store in what it has. -/
lemma Inv.flushFrame (i : ℕ) (result : IoResult γ) : (s.flushFrame i result).Inv := by
  have hstore : ∀ store, Inv { s with store := store } := fun store => ⟨h.tidy, fun i c hc =>
    let ok := h.call i c hc; ⟨ok.io, ok.page, ok.notNull, ok.failed, ok.evicted⟩, h.held, h.pins⟩
  rw [PhasedPool.flushFrame]
  split_ifs
  · cases result with
    | ok =>
      refine (hstore _).update (i := i) rfl rfl (h.tidy.setFrame rfl rfl) (fun _ _ => rfl) ?_ ?_ (fun _ _ => rfl) ?_
      · intro c hc
        obtain ⟨hio, hpage, hnull, hfailed, hevicted⟩ := h.call i c hc
        refine ⟨?_, ?_, hnull, hfailed, fun hne => ?_⟩
        · simpa [clearDirty] using hio
        · simpa [clearDirty] using hpage
        · simpa [clearDirty] using hevicted hne
      · exact fun x hx => h.held_same hx i
      · exact h.pins i
    | failed left => exact hstore _
  · exact h

omit hc in
lemma Inv.findPageMapping_held (hx : x ∈ s.held) : s.pool.findPageMapping x.pageId = some x.frame := by
  obtain ⟨hpage, hnull, -⟩ := h.held x hx
  rw [← hpage]
  exact h.tidy.mapped x.frame (by rwa [hpage])

omit hc in
lemma Inv.unpin (hx : x ∈ s.held) : Inv { s with pool := s.pool.unpinPage x.pageId, held := s.held.erase x } := by
  have hcount : ∀ j, (s.held.map frame).count j =
      ((s.held.erase x).map frame).count j + if x.frame = j then 1 else 0 := by
    intro j
    rw [((perm_cons_erase hx).map frame).count_eq j, map_cons, count_cons]
    simp
  rw [unpinPage, h.findPageMapping_held hx]
  refine h.update (i := x.frame) rfl rfl (h.tidy.setFrame rfl rfl) (fun _ _ => rfl) ?_ ?_ (fun j hj => ?_) ?_
  · intro c hc
    exact nomatch (h.calls_eq_none (h.held x hx).2.2).symm.trans hc
  · exact fun y hy => h.held_same (mem_of_mem_erase hy) x.frame
  · have hj' := hcount j
    rw [if_neg (Ne.symm hj)] at hj'
    exact hj'.symm
  · intro hio
    have hself := hcount x.frame
    rw [if_pos rfl] at hself
    have hpins := h.pins x.frame hio
    dsimp only at hpins ⊢
    omega

omit hc in
lemma Inv.reserve {kind : FetchKind γ} (hs : s.step (.reserve pageId kind) = some s') : s'.Inv := by
  simp only [step] at hs
  split_ifs at hs with hnull
  · cases hs
    exact h
  · rcases h.tidy.reserve_cases hnull 0 with hwait | ⟨i, hmap, hio, hhit⟩ |
      ⟨i, flush, hnone, hidx, hio, hfree, htake, htidy⟩
    · rw [hwait] at hs
      cases hs
      exact h
    · rw [hhit] at hs
      cases hs
      obtain ⟨hnull, hpage, hidx⟩ := h.tidy.of_findPageMapping hmap
      refine h.pin hmap hio rfl rfl (BufferPool.Tidy.moveToLruHead (h.tidy.setFrame rfl rfl) ⟨?_, ?_⟩)
      · simpa [BufferPool.pin] using hidx
      · exact h.tidy.bound i (hpage ▸ hnull)
    · rw [htake] at hs
      cases hs
      have hnobody := h.not_held (.inr hfree)
      have hcount : (s.pool.takeVictim pageId i).partitionCount = s.pool.partitionCount := by
        simp only [takeVictim]
        split_ifs <;> rfl
      refine h.update (i := i) (frames_takeVictim ..) hcount htidy
        (fun j hj => update_of_ne hj ..) ?_ ?_ (fun _ _ => rfl) (by simp)
      · intro c hc
        simp only [update_self, mem_some_iff] at hc
        subst hc
        refine ⟨?_, ?_, hnull, by simp, fun hne => ⟨?_, ?_⟩⟩
        · rw [frames_takeVictim, update_self]
        · rw [frames_takeVictim, update_self]
        · rw [frames_takeVictim, update_self, partitionFor, hcount]
          exact h.tidy.home i hne
        · intro heq
          have hmap := h.tidy.mapped i hne
          rw [show (s.pool.frames i).pageId = pageId from heq, hnone] at hmap
          cases hmap
      · intro x hx
        rw [if_neg (hnobody x hx)]
        exact ⟨x, hx, rfl, rfl⟩

lemma Inv.writeBack (result : IoResult γ) : (s.writeBack i c result).Inv := by
  have hself := s.pool.setFrame_frames i
  have hnext : ∀ stage store, (stage = .writeFailed → c.evictPageId ≠ kNullPageId) →
      Inv ({ s with store := store }.setStage i c stage) := by
    intro stage store hstage
    have hset := h.setStage hc (s.pool.frames i).page stage hstage store
    rwa [hself] at hset
  rw [PhasedPool.writeBack]
  split_ifs with hdirty
  · cases result with
    | ok => exact hnext .written _ fun hstage => nomatch hstage
    | failed left =>
      refine hnext .writeFailed _ fun _ => ?_
      simp only [Bool.and_eq_true, bne_iff_ne] at hdirty
      exact hdirty.1
  · exact hnext .written s.store fun hstage => nomatch hstage

lemma Inv.finish (hs : s.finish i c = some s') : s'.Inv := by
  have hok := h.call i c hc
  have hnull : (s.pool.frames i).pageId ≠ kNullPageId := by
    rw [hok.page]
    exact hok.notNull
  have hinstall : ∀ page isDirty, (s.pool.install c.pageId i page isDirty).Tidy := by
    intro page isDirty
    rw [← hok.page]
    exact h.tidy.install hnull page isDirty
  have hhome : ∀ page isDirty, ((s.pool.install c.pageId i page isDirty).frames i).partitionIdx =
      (s.pool.install c.pageId i page isDirty).partitionFor c.pageId ∧
        i < (s.pool.install c.pageId i page isDirty).poolSize := by
    intro page isDirty
    rw [frames_install, update_self]
    have := h.tidy.home i hnull
    rw [hok.page] at this
    exact ⟨this.symm, h.tidy.bound i hnull⟩
  rw [PhasedPool.finish] at hs
  split at hs
  · cases hs
    have hclean := hinstall (s.pool.frames i).page false
    split_ifs
    · exact h.install hc ((s.pool.install c.pageId i _ false).moveToLruTail c.pageId i) (frames_install ..)
        rfl (hclean.moveToLruTail (hhome ..)) rfl rfl rfl s.content
    · exact h.install hc ((s.pool.install c.pageId i _ false).moveToLruHead c.pageId i) (frames_install ..)
        rfl (hclean.moveToLruHead (hhome ..)) rfl rfl rfl s.content
  · next page _ _ =>
    cases hs
    exact h.install hc ((s.pool.install c.pageId i page true).moveToLruHead c.pageId i)
      (frames_install ..) rfl ((hinstall page true).moveToLruHead (hhome ..)) rfl rfl rfl _
  · cases hs

lemma Inv.restore (hstage : c.stage = .writeFailed) (hnone : s.pool.findPageMapping c.evictPageId = none) :
    Inv ({ s with pool := s.pool.restoreEvictedFrame c.pageId i c.evictPageId }.endCall i) := by
  have hok := h.call i c hc
  have hevict := hok.failed hstage
  refine h.release hc (frames_restoreEvictedFrame ..) ?_ ?_ rfl
  · simp only [restoreEvictedFrame, if_pos hevict]
    rfl
  · rw [← hok.page]
    refine h.tidy.restoreEvictedFrame ?_ hevict (hok.evicted hevict).1 hnone
    rw [hok.page]
    exact hok.notNull

end

lemma Inv.step (hun : s.Unmapped a) (hs : s.step a = some s') : s'.Inv := by
  cases a <;> simp only [step] at hs
  case hit pageId =>
    obtain ⟨i, hres, rfl⟩ := map_eq_some_iff.1 hs
    obtain ⟨hmap, hio⟩ := filter_eq_some_iff.1 hres
    exact h.pin hmap (by simpa using hio) rfl rfl (h.tidy.setFrame rfl rfl)
  case reserve pageId kind => exact h.reserve hs
  case writeBack i result =>
    split at hs
    · next c hc =>
      split_ifs at hs
      cases hs
      exact h.writeBack hc result
    · cases hs
  case restore i =>
    split at hs
    · next c hc =>
      split_ifs at hs with hstage
      cases hs
      exact h.restore hc hstage (hun c hc hstage)
    · cases hs
  case read i result =>
    split at hs
    · next c hc =>
      split at hs
      · cases hs
        cases result with
        | ok => exact h.setStage hc (s.store c.pageId) .loaded (fun hstage => nomatch hstage) s.store
        | failed left => exact h.setStage hc left .readFailed (fun hstage => nomatch hstage) s.store
      · cases hs
    · cases hs
  case drop i =>
    split at hs
    · next c hc =>
      split_ifs at hs
      cases hs
      have hok := h.call i c hc
      refine h.release hc (frames_dropFrame ..) rfl ?_ rfl
      rw [← hok.page]
      refine h.tidy.dropFrame ?_ _
      rw [hok.page]
      exact hok.notNull
    · cases hs
  case finish i =>
    split at hs
    · next c hc => exact h.finish hc hs
    · cases hs
  case unpin x =>
    split_ifs at hs with hx
    cases hs
    exact h.unpin hx.1
  case edit x page =>
    split_ifs at hs with hx
    cases hs
    exact h.touch hx { s.pool.frames x.frame with page := page } rfl rfl rfl rfl true _
  case markDirty x =>
    simp only [markDirty] at hs
    split_ifs at hs with hx
    cases hs
    rw [h.findPageMapping_held hx]
    exact h.touch hx { s.pool.frames x.frame with isDirty := true } rfl rfl rfl rfl false s.content
  case setPageLsn x lsn =>
    simp only [setPageLsn] at hs
    split_ifs at hs with hx
    all_goals
      cases hs
      rw [h.findPageMapping_held hx]
      exact h.touch hx { s.pool.frames x.frame with page := _, isDirty := true } rfl rfl rfl rfl false _
  case flushPage pageId result =>
    split at hs
    · cases hs
      exact h.flushFrame _ result
    · cases hs
      exact h
  case flushFrame i result =>
    split_ifs at hs
    · cases hs
      exact h.flushFrame i result
    · cases hs
      exact h

/-- A page that is put back while it is mapped to another frame is in two frames. -/
lemma Inv.not_tableOk (hun : ¬ s.Unmapped a) (hs : s.step a = some s') : ¬ s'.TableOk := by
  intro htable
  cases a with
  | restore i =>
    simp only [Unmapped, not_forall] at hun
    obtain ⟨c, hc, hstage, hmap⟩ := hun
    obtain ⟨j, hj⟩ := ne_none_iff_exists'.1 hmap
    simp only [PhasedPool.step, mem_def.1 hc, hstage, if_true] at hs
    cases hs
    have hok := h.call i c hc
    obtain ⟨hnull, hpage, -⟩ := h.tidy.of_findPageMapping hj
    have hji : j ≠ i := by
      rintro rfl
      exact (hok.evicted hnull).2 (hpage.symm.trans hok.page)
    have hframes : ({ s with pool := s.pool.restoreEvictedFrame c.pageId i c.evictPageId }.endCall i).pool.frames =
        Function.update s.pool.frames i
          { s.pool.frames i with pageId := c.evictPageId, pinCount := 0, isIoInProgress := false } :=
      BufferPool.frames_restoreEvictedFrame ..
    refine hji (htable.unique j i ?_ ?_)
    · rw [hframes, update_of_ne hji, hpage]
      exact hnull
    · rw [hframes, update_of_ne hji, update_self, hpage]
  | _ => exact hun trivial

end

lemma inv_create (page : PageData γ) (poolSize partitions flushBatchSize : ℕ) (store : ℕ → PageData γ) :
    (create page poolSize partitions flushBatchSize store).Inv where
  tidy := tidy_create page poolSize partitions flushBatchSize
  call := fun _ _ hc => nomatch hc
  held := fun _ hx => nomatch hx
  pins := fun _ _ => rfl

end

/-- **The frame table stays in order exactly as long as no page is put back that is mapped again.** -/
theorem tableOk_iff_unmapped (page : PageData γ) (poolSize partitions flushBatchSize : ℕ)
    (store : ℕ → PageData γ)
    {acts : List (PhaseAction γ)} {s : PhasedPool γ}
    (hr : runs step (create page poolSize partitions flushBatchSize store) acts = some s) :
    Always step TableOk (create page poolSize partitions flushBatchSize store) acts ↔
      StepsMeet step Unmapped (create page poolSize partitions flushBatchSize store) acts :=
  always_iff_stepsMeet (fun _ _ _ h hu hs => h.step hu hs) (fun _ h => h.tableOk)
    (fun _ _ _ h hu hs => h.not_tableOk hu hs) (inv_create ..) hr

/-- Two frames; page 1 is loaded into frame 1 and written to, page 2 is loaded into frame 0, and a call for page 3 takes
frame 1. -/
def evictingRun : List (PhaseAction ℕ) :=
  [.reserve 1 (.fetch false), .writeBack 1 .ok, .read 1 .ok, .finish 1, .edit ⟨1, 1, false⟩ ⟨0, 77⟩,
    .markDirty ⟨1, 1, true⟩, .unpin ⟨1, 1, false⟩, .reserve 2 (.fetch false), .writeBack 0 .ok, .read 0 .ok, .finish 0,
    .unpin ⟨2, 0, false⟩, .reserve 3 (.fetch false)]

/-- Page 1 cannot be written and is put back. -/
theorem tableOk_after_restore :
    Always step TableOk (create ⟨0, 0⟩ 2 1 1 fun p => ⟨0, p⟩)
      (evictingRun ++ [.writeBack 1 (.failed ⟨0, 5⟩), .restore 1]) := by
  obtain ⟨s, hs⟩ : ∃ s, runs step (create ⟨0, 0⟩ 2 1 1 fun p => ⟨0, p⟩)
      (evictingRun ++ [.writeBack 1 (.failed ⟨0, 5⟩), .restore 1]) = some s :=
    ⟨_, (some_get (by decide +kernel)).symm⟩
  exact (tableOk_iff_unmapped _ _ _ _ _ hs).2 (by decide +kernel)

/-- Page 1 is loaded again, into frame 0, before its write fails. -/
theorem page_in_two_frames :
    ¬ Always step TableOk (create ⟨0, 0⟩ 2 1 1 fun p => ⟨0, p⟩)
      (evictingRun ++ [.reserve 1 (.fetch false), .writeBack 0 .ok, .read 0 .ok, .finish 0,
        .writeBack 1 (.failed ⟨0, 5⟩), .restore 1]) := by
  intro h
  obtain ⟨s, ⟨hzero, hone⟩, htable⟩ := h.eval
    (R := fun s => (s.pool.frames 0).pageId = 1 ∧ (s.pool.frames 1).pageId = 1) (by decide +kernel)
  have hsame := htable.unique 0 1 (by rw [hzero]; decide) (by rw [hzero, hone])
  cases hsame

end PhasedPool

end MiniDb
