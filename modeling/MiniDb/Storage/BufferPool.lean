import MiniDb.Recovery.Watermark

/-!
# The buffer pool

A page leaves the pool as the victim of `fetch_page` or of `new_page`, in `flush_page`, and in a batch of `flush_all`.
The functions are written by their phases, with what happens under the partition latch apart from the reads and writes
without it; a call is all its phases in a row.

The page store is a parameter; of a page the pool reads only the LSN in its header.  `handed` notes every page image
that the store is given, with the durable LSN of the log at that moment: by `write_ahead`, no image has an LSN past the
watermark.
-/

namespace MiniDb

open List

variable {β γ τ : Type*}

inductive PageType where
  | heapData
  | heapMeta
  | indexData
  | indexMeta
  | freeList
  | walPage
  | catalogData
  deriving DecidableEq, Repr

/-- The bytes of a page: the LSN of the header, and the rest. -/
structure PageData (γ : Type*) where
  lsn : ℕ
  rest : γ

/-- `PageWriteRequest`; the LSN that goes with it is the one of the header. -/
structure PageWriteRequest (γ : Type*) where
  pageId : ℕ
  data : PageData γ

/-- A storage backend with state `τ`.  A read leaves something in the buffer even if it fails. -/
structure PageStore (τ γ : Type*) where
  readPage : τ → ℕ → PageData γ × Bool
  writePage : τ → PageWriteRequest γ → τ × Bool
  writePages : τ → List (PageWriteRequest γ) → τ × List Bool
  setDurableLsn : τ → ℕ → τ

structure Frame (γ : Type*) where
  page : PageData γ
  pageId : ℕ
  pinCount : ℕ
  isDirty : Bool
  isIoInProgress : Bool
  partitionIdx : ℕ

structure BufferPoolPartition where
  pageTable : ℕ → Option ℕ
  /-- the frames of the partition, the head first -/
  lruList : List ℕ

structure BufferPool (γ : Type*) where
  poolSize : ℕ
  partitionCount : ℕ
  flushBatchSize : ℕ
  /-- `set_wal_manager` has been called -/
  hasWal : Bool
  frames : ℕ → Frame γ
  partitions : ℕ → BufferPoolPartition

inductive PoolError where
  | nullPageId
  | busy
  | walFlush
  | store
  deriving DecidableEq, Repr

namespace BufferPool

/-- The number of partitions that the constructor settles on. -/
def settlePartitions (poolSize partitions : ℕ) : ℕ :=
  let count := if partitions = 0 then 1 else partitions
  if poolSize < count then (if poolSize = 0 then 1 else poolSize) else count

/-- `BufferPool(page_store, pool_size, .., partitions, flush_batch_size)`. -/
def create (page : PageData γ) (poolSize partitions flushBatchSize : ℕ) : BufferPool γ where
  poolSize := poolSize
  partitionCount := settlePartitions poolSize partitions
  flushBatchSize := if flushBatchSize = 0 then 1 else flushBatchSize
  hasWal := false
  frames := fun i => ⟨page, kNullPageId, 0, false, false, i % settlePartitions poolSize partitions⟩
  partitions := fun p =>
    ⟨fun _ => none, (List.range poolSize).filter fun i => i % settlePartitions poolSize partitions == p⟩

section

variable (b : BufferPool γ)

def setFrame (i : ℕ) (f : Frame γ) : BufferPool γ :=
  { b with frames := Function.update b.frames i f }

section

variable (pageId : ℕ)

def partitionFor : ℕ :=
  if b.partitionCount = 0 then 0 else pageId % b.partitionCount

def updatePartition (f : BufferPoolPartition → BufferPoolPartition) : BufferPool γ :=
  { b with
    partitions := Function.update b.partitions (b.partitionFor pageId) (f (b.partitions (b.partitionFor pageId))) }

def findPageMapping : Option ℕ :=
  (b.partitions (b.partitionFor pageId)).pageTable pageId

/-- `insert_page_mapping` into the partition of `owner`. -/
def insertPageMapping (owner pageId i : ℕ) : BufferPool γ :=
  b.updatePartition owner fun p => { p with pageTable := Function.update p.pageTable pageId (some i) }

/-- `erase_page_mapping` from the partition of `owner`. -/
def erasePageMapping (owner pageId : ℕ) : BufferPool γ :=
  b.updatePartition owner fun p => { p with pageTable := Function.update p.pageTable pageId none }

def moveToLruHead (owner i : ℕ) : BufferPool γ :=
  b.updatePartition owner fun p => { p with lruList := i :: p.lruList.erase i }

def moveToLruTail (owner i : ℕ) : BufferPool γ :=
  b.updatePartition owner fun p => { p with lruList := p.lruList.erase i ++ [i] }

/-- The loop of `find_victim_frame`, with the frame that it remembers. -/
def victimLoop (frames : ℕ → Frame γ) : Option ℕ → List ℕ → Option ℕ
  | evictable, [] => evictable
  | evictable, i :: rest =>
    if (frames i).isIoInProgress then victimLoop frames evictable rest
    else if (frames i).pageId = kNullPageId then some i
    else if evictable = none ∧ (frames i).pinCount = 0 then victimLoop frames (some i) rest
    else victimLoop frames evictable rest

/-- `find_victim_frame`, from the tail of the list. -/
def findVictimFrame : Option ℕ :=
  victimLoop b.frames none (b.partitions (b.partitionFor pageId)).lruList.reverse

def pin (i : ℕ) : BufferPool γ :=
  b.setFrame i { b.frames i with pinCount := (b.frames i).pinCount + 1 }

/-- The frame that holds the page, unless it is still being loaded. -/
def resident : Option ℕ :=
  (b.findPageMapping pageId).filter fun i => !(b.frames i).isIoInProgress

/-- What the phase under the write latch of `fetch_page` and `new_page` comes to. -/
inductive Reservation where
  | hit (i : ℕ)
  | wait
  | victim (i evictPageId : ℕ) (needWalFlush : Bool)

/-- The victim is taken: the page that it will hold is mapped to it, the old one no longer is. -/
def takeVictim (pageId i : ℕ) : BufferPool γ :=
  let evictPageId := (b.frames i).pageId
  let b := b.setFrame i { b.frames i with pinCount := 1, isIoInProgress := true }
  let b := if evictPageId ≠ kNullPageId then b.erasePageMapping pageId evictPageId else b
  let b := b.setFrame i { b.frames i with pageId := pageId }
  b.insertPageMapping pageId pageId i

/-- The phase under the write latch. -/
def reserve (durableLsn pageId : ℕ) : BufferPool γ × Reservation :=
  match b.findPageMapping pageId with
  | some i =>
    if (b.frames i).isIoInProgress then (b, .wait)
    else ((b.pin i).moveToLruHead pageId i, .hit i)
  | none =>
    match b.findVictimFrame pageId with
    | none => (b, .wait)
    | some i =>
      let f := b.frames i
      let needWalFlush := f.isDirty && f.pageId != kNullPageId && b.hasWal && decide (durableLsn < f.page.lsn)
      (b.takeVictim pageId i, .victim i f.pageId needWalFlush)

def restoreEvictedFrame (owner i oldPageId : ℕ) : BufferPool γ :=
  let b := b.erasePageMapping owner (b.frames i).pageId
  let b := b.setFrame i { b.frames i with pageId := oldPageId, pinCount := 0, isIoInProgress := false }
  if oldPageId ≠ kNullPageId then b.insertPageMapping owner oldPageId i else b

/-- The end of `fetch_page` after a read that failed. -/
def dropFrame (owner i : ℕ) (page : PageData γ) : BufferPool γ :=
  let b := b.erasePageMapping owner owner
  b.setFrame i { b.frames i with
    page := page, pageId := kNullPageId, pinCount := 0, isDirty := false, isIoInProgress := false }

/-- The last phase of `fetch_page` (the page is clean) and `new_page` (it is dirty). -/
def install (pageId i : ℕ) (page : PageData γ) (isDirty : Bool) : BufferPool γ :=
  let b := b.setFrame i { b.frames i with
    page := page, pageId := pageId, pinCount := 1, isDirty := isDirty, isIoInProgress := false }
  b.insertPageMapping pageId pageId i

def unpinPage : BufferPool γ :=
  match b.findPageMapping pageId with
  | none => b
  | some i => b.setFrame i { b.frames i with pinCount := (b.frames i).pinCount - 1 }

def markDirty : BufferPool γ :=
  match b.findPageMapping pageId with
  | none => b
  | some i => b.setFrame i { b.frames i with isDirty := true }

end

def setPageLsn (pageId lsn : ℕ) : BufferPool γ :=
  match b.findPageMapping pageId with
  | none => b
  | some i =>
    let f := b.frames i
    let page := if f.page.lsn < lsn then { f.page with lsn := lsn } else f.page
    b.setFrame i { f with page := page, isDirty := true }

/-- Somebody who has pinned the frame writes to the page, below its LSN. -/
def edit (i : ℕ) (rest : γ) : BufferPool γ :=
  b.setFrame i { b.frames i with page := { (b.frames i).page with rest := rest } }

def clearDirty (i : ℕ) : BufferPool γ :=
  b.setFrame i { b.frames i with isDirty := false }

end

end BufferPool

/-- A page image that the store was given, and the durable LSN of the log then, if there was one. -/
structure Handed (γ : Type*) where
  request : PageWriteRequest γ
  durableLsn : Option ℕ

/-- The pool, the log that it flushes, and the store. -/
structure PoolSystem (β γ τ : Type*) where
  pool : BufferPool γ
  log : LogSystem β
  store : τ
  handed : List (Handed γ)

/-- The parts of the environment. -/
structure PoolEnv (τ γ : Type*) where
  cfg : LogConfig
  io : LogIo
  store : PageStore τ γ
  /-- `Page::init`, but for the LSN, which it clears -/
  init : ℕ → PageType → γ

namespace PoolSystem

variable (env : PoolEnv τ γ)

/-- The pool is built over a log that was opened with what an earlier life left in the file. -/
def create (page : PageData γ) (poolSize partitions flushBatchSize : ℕ) (file : List (LogByte β)) (maxLsn : ℕ)
    (store : τ) : PoolSystem β γ τ :=
  ⟨.create page poolSize partitions flushBatchSize,
    { LogSystem.create with log := .reopened file (maxLsn + 1) 0 }, store, []⟩

section

variable (s : PoolSystem β γ τ)

/-- The durable LSN, if a log manager is attached. -/
def durableLsn : Option ℕ :=
  if s.pool.hasWal then some s.log.log.durableLsn else none

def note (requests : List (PageWriteRequest γ)) : List (Handed γ) :=
  s.handed ++ requests.map fun r => ⟨r, s.durableLsn⟩

/-- The store is told the durable LSN, and the LSN of the page is compared with it. -/
def announce (lsn : ℕ) : PoolSystem β γ τ × Bool :=
  ({ s with store := env.store.setDurableLsn s.store s.log.log.durableLsn },
    decide (lsn ≤ s.log.log.durableLsn))

def flushFrameWalFirst (f : Frame γ) : PoolSystem β γ τ × Bool :=
  if !s.pool.hasWal then (s, true)
  else if s.log.log.durableLsn < f.page.lsn then
    let (log, ok) := s.log.log.flushUntil env.cfg env.io f.page.lsn
    let s := { s with log := { s.log with log := log } }
    if ok then s.announce env f.page.lsn else (s, false)
  else s.announce env f.page.lsn

/-- `page_store_->write_page`. -/
def writePage (r : PageWriteRequest γ) : PoolSystem β γ τ × Bool :=
  let (store, ok) := env.store.writePage s.store r
  ({ s with store := store, handed := s.note [r] }, ok)

/-- The second phase of `fetch_page` and `new_page`: the old page of the victim goes to the store. -/
def writeVictim (pageId i evictPageId : ℕ) (needWalFlush : Bool) : PoolSystem β γ τ × Option PoolError :=
  let f := s.pool.frames i
  if evictPageId != kNullPageId && f.isDirty then
    let (s, ok) := if needWalFlush then s.flushFrameWalFirst env f else (s, true)
    if ok then
      let (s, ok) := s.writePage env ⟨evictPageId, f.page⟩
      if ok then (s, none)
      else ({ s with pool := s.pool.restoreEvictedFrame pageId i evictPageId }, some .store)
    else ({ s with pool := s.pool.restoreEvictedFrame pageId i evictPageId }, some .walFlush)
  else (s, none)

/-- The rest of `fetch_page`: the page is read and installed. -/
def load (pageId i : ℕ) (sequentialHint : Bool) : PoolSystem β γ τ × Except PoolError ℕ :=
  let (page, ok) := env.store.readPage s.store pageId
  if ok then
    let pool := s.pool.install pageId i page false
    ({ s with pool := if sequentialHint then pool.moveToLruTail pageId i else pool.moveToLruHead pageId i }, .ok i)
  else ({ s with pool := s.pool.dropFrame pageId i page }, .error .store)

section

variable (pageId : ℕ)

/-- The phases from the write latch on; nobody frees a frame while the call waits. -/
def reserveThen (finish : PoolSystem β γ τ → ℕ → PoolSystem β γ τ × Except PoolError ℕ) :
    PoolSystem β γ τ × Except PoolError ℕ :=
  let (pool, reservation) := s.pool.reserve s.log.log.durableLsn pageId
  let s := { s with pool := pool }
  match reservation with
  | .hit i => (s, .ok i)
  | .wait => (s, .error .busy)
  | .victim i evictPageId needWalFlush =>
    match s.writeVictim env pageId i evictPageId needWalFlush with
    | (s, some e) => (s, .error e)
    | (s, none) => finish s i

def fetchPage (sequentialHint : Bool) : PoolSystem β γ τ × Except PoolError ℕ :=
  if pageId = kNullPageId then (s, .error .nullPageId)
  else match s.pool.resident pageId with
    | some i => ({ s with pool := s.pool.pin i }, .ok i)
    | none => s.reserveThen env pageId fun s i => s.load env pageId i sequentialHint

def newPage (type : PageType) : PoolSystem β γ τ × Except PoolError ℕ :=
  if pageId = kNullPageId then (s, .error .nullPageId)
  else s.reserveThen env pageId fun s i =>
    let pool := s.pool.install pageId i ⟨0, env.init pageId type⟩ true
    ({ s with pool := pool.moveToLruHead pageId i }, .ok i)

def flushPage : PoolSystem β γ τ :=
  match s.pool.findPageMapping pageId with
  | none => s
  | some i =>
    let f := s.pool.frames i
    if f.isDirty then
      let (s, ok) := s.flushFrameWalFirst env f
      if ok then
        let (s, ok) := s.writePage env ⟨f.pageId, f.page⟩
        if ok then { s with pool := s.pool.clearDirty i } else s
      else s
    else s

end

/-- A batch of `flush_all`, given by its frames: those whose write succeeded are clean. -/
def writeBatch (batch : List ℕ) : PoolSystem β γ τ :=
  let requests := batch.map fun i => (⟨(s.pool.frames i).pageId, (s.pool.frames i).page⟩ : PageWriteRequest γ)
  let (store, results) := env.store.writePages s.store requests
  { s with
    store := store, handed := s.note requests
    pool := (batch.zip results).foldl (fun b r => if r.2 then b.clearDirty r.1 else b) s.pool }

/-- The inner loop of `flush_all`, for one frame. -/
def flushFrame (partition : ℕ) (b : PoolSystem β γ τ × List ℕ) (i : ℕ) : PoolSystem β γ τ × List ℕ :=
  let f := b.1.pool.frames i
  if f.partitionIdx = partition && f.isDirty && f.pageId != kNullPageId then
    let (s, ok) := b.1.flushFrameWalFirst env f
    if !ok then (s, b.2)
    else if s.pool.flushBatchSize ≤ (b.2 ++ [i]).length then (s.writeBatch env (b.2 ++ [i]), [])
    else (s, b.2 ++ [i])
  else b

def flushPartition (partition : ℕ) : PoolSystem β γ τ :=
  let (s, batch) := (List.range s.pool.poolSize).foldl (flushFrame env partition) (s, [])
  if batch = [] then s else s.writeBatch env batch

def flushAll : PoolSystem β γ τ :=
  (List.range s.pool.partitionCount).foldl (flushPartition env) s

end

end PoolSystem

/-- The calls.  `checkpoint` of the log flushes the pages between its marker and the truncation of the
file; it is given by `checkpoint` without truncation, `flushAll` and `truncate`. -/
inductive PoolAction (β γ : Type*) where
  | setWalManager
  | fetchPage (pageId : ℕ) (sequentialHint : Bool)
  | newPage (pageId : ℕ) (type : PageType)
  | unpinPage (pageId : ℕ)
  | markDirty (pageId : ℕ)
  | setPageLsn (pageId lsn : ℕ)
  | edit (i : ℕ) (rest : γ)
  | flushPage (pageId : ℕ)
  | flushAll
  | log (a : LogAction β)
  | truncate

variable {i evictPageId : ℕ} {needWalFlush : Bool}

namespace PoolSystem

variable (env : PoolEnv τ γ)

section

variable (s : PoolSystem β γ τ)

def step : PoolAction β γ → Option (PoolSystem β γ τ)
  | .setWalManager => some { s with pool := { s.pool with hasWal := true } }
  | .fetchPage pageId sequentialHint => some (s.fetchPage env pageId sequentialHint).1
  | .newPage pageId type => some (s.newPage env pageId type).1
  | .unpinPage pageId => some { s with pool := s.pool.unpinPage pageId }
  | .markDirty pageId => some { s with pool := s.pool.markDirty pageId }
  | .setPageLsn pageId lsn => some { s with pool := s.pool.setPageLsn pageId lsn }
  | .edit i rest =>
    if 0 < (s.pool.frames i).pinCount then some { s with pool := s.pool.edit i rest } else none
  | .flushPage pageId => some (s.flushPage env pageId)
  | .flushAll => some (s.flushAll env)
  | .log a => (s.log.step env.cfg env.io a).map fun log => { s with log := log }
  | .truncate =>
    -- The marker has made the whole log durable, and the latch is held since.
    if s.log.log.durableLsn = s.log.log.lastWrittenLsn then
      some { s with log := { s.log with log := s.log.log.truncateFile env.io } }
    else none

/-- Every image that the store was given has an LSN up to the durable LSN of that moment. -/
def WriteAhead : Prop :=
  ∀ w ∈ s.handed, ∀ durable ∈ w.durableLsn, w.request.data.lsn ≤ durable

/-- The page may be written now. -/
def Covered (page : PageData γ) : Prop :=
  s.pool.hasWal = true → page.lsn ≤ s.log.log.durableLsn

end

/-- What holds at all times. -/
structure PoolOk (s : PoolSystem β γ τ) : Prop where
  log : s.log.SysOk env.cfg
  handed : s.WriteAhead

/-- The log may have been flushed and its durable LSN told to the store; the pool is as it was. -/
structure FlushedTo (s s' : PoolSystem β γ τ) : Prop where
  ok : s'.PoolOk env
  pool : s'.pool = s.pool
  durable : s.log.log.durableLsn ≤ s'.log.log.durableLsn

section

variable {env} {s s' : PoolSystem β γ τ} {page : PageData γ}

lemma poolOk_create (page : PageData γ) (poolSize partitions flushBatchSize : ℕ) (file : List (LogByte β))
    (maxLsn : ℕ) (store : τ) :
    (create page poolSize partitions flushBatchSize file maxLsn store : PoolSystem β γ τ).PoolOk env :=
  ⟨⟨LogManager.logOk_reopened file maxLsn 0, fun _ h => absurd h not_mem_nil,
    fun _ h => absurd h not_mem_nil⟩, fun _ h => absurd h not_mem_nil⟩

lemma PoolOk.withPool (h : s.PoolOk env) (pool : BufferPool γ) : { s with pool := pool }.PoolOk env :=
  ⟨h.log, h.handed⟩

lemma FlushedTo.refl (h : s.PoolOk env) : s.FlushedTo env s := ⟨h, rfl, le_rfl⟩

lemma FlushedTo.covered (h : s.FlushedTo env s') (hc : s.Covered page) : s'.Covered page := by
  intro hwal
  rw [h.pool] at hwal
  exact (hc hwal).trans h.durable

section

variable (h : s.PoolOk env)
include h

/-- The requests of pages that may be written can be noted. -/
lemma PoolOk.note {requests : List (PageWriteRequest γ)} (hc : ∀ r ∈ requests, s.Covered r.data) (store : τ) :
    { s with store := store, handed := s.note requests }.PoolOk env := by
  refine ⟨h.log, fun w hw durable hd => ?_⟩
  rcases mem_append.1 hw with hw | hw
  · exact h.handed w hw durable hd
  · obtain ⟨r, hr, rfl⟩ := mem_map.1 hw
    simp only [durableLsn, Option.mem_def, Option.ite_none_right_eq_some, Option.some.injEq] at hd
    obtain ⟨hwal, rfl⟩ := hd
    exact hc r hr hwal

lemma PoolOk.writePage (r : PageWriteRequest γ) (hc : s.Covered r.data) : (s.writePage env r).1.PoolOk env :=
  h.note (by simpa using hc) _

lemma PoolOk.announce (lsn : ℕ) : s.FlushedTo env (s.announce env lsn).1 :=
  ⟨⟨h.log, h.handed⟩, rfl, le_rfl⟩

/-- `flush_frame_wal_first`: the watermark does not go back, and if the answer is yes it covers the page. -/
lemma PoolOk.flushFrameWalFirst (f : Frame γ) : s.FlushedTo env (s.flushFrameWalFirst env f).1 ∧
      ((s.flushFrameWalFirst env f).2 = true → (s.flushFrameWalFirst env f).1.Covered f.page) := by
  have hadv := h.log.log.advances_flushed env.io (LogManager.flushed_flushUntil env.cfg env.io _ f.page.lsn)
    (Nat.zero_le _)
  have hflushed : s.FlushedTo env
      { s with log := { s.log with log := (s.log.log.flushUntil env.cfg env.io f.page.lsn).1 } } :=
    ⟨⟨h.log.advances hadv (List.Subset.refl _) (List.Subset.refl _), h.handed⟩, rfl, hadv.durable⟩
  simp only [PoolSystem.flushFrameWalFirst]
  split_ifs with hwal hlt hok
  · have hnone : s.pool.hasWal = false := by simpa using hwal
    exact ⟨.refl h, fun _ hw => absurd (hnone.symm.trans hw) Bool.false_ne_true⟩
  · have hann := hflushed.ok.announce f.page.lsn
    refine ⟨⟨hann.ok, rfl, hadv.durable⟩, fun hle _ => ?_⟩
    simpa [PoolSystem.announce] using hle
  · exact ⟨hflushed, fun hno => hno.elim⟩
  · exact ⟨h.announce f.page.lsn, fun hle _ => by simpa [PoolSystem.announce] using hle⟩

/-- The victim's old page: if the early test asks for no flush, the page is covered. -/
lemma PoolOk.writeVictim (pageId : ℕ)
    (hneed : evictPageId ≠ kNullPageId → (s.pool.frames i).isDirty = true → needWalFlush = false →
      s.Covered (s.pool.frames i).page) : (s.writeVictim env pageId i evictPageId needWalFlush).1.PoolOk env := by
  obtain ⟨hfirst, hcovered⟩ := h.flushFrameWalFirst (s.pool.frames i)
  simp only [PoolSystem.writeVictim]
  split_ifs with hdirty hneedFlush hok hwritten hwritten
  · exact hfirst.ok.writePage _ (hcovered hok)
  · exact (hfirst.ok.writePage _ (hcovered hok)).withPool _
  · exact hfirst.ok.withPool _
  · simp only [Bool.and_eq_true, bne_iff_ne] at hdirty
    exact h.writePage _ (hneed hdirty.1 hdirty.2 (by simpa using hneedFlush))
  · simp only [Bool.and_eq_true, bne_iff_ne] at hdirty
    exact (h.writePage _ (hneed hdirty.1 hdirty.2 (by simpa using hneedFlush))).withPool _
  · exact h.withPool _
  · exact h

end

end

end PoolSystem

namespace BufferPool

variable (b : BufferPool γ)

@[simp] lemma hasWal_updatePartition (pageId : ℕ) (f : BufferPoolPartition → BufferPoolPartition) :
    (b.updatePartition pageId f).hasWal = b.hasWal := rfl

@[simp] lemma frames_updatePartition (pageId : ℕ) (f : BufferPoolPartition → BufferPoolPartition) :
    (b.updatePartition pageId f).frames = b.frames := rfl

@[simp] lemma hasWal_setFrame (i : ℕ) (f : Frame γ) : (b.setFrame i f).hasWal = b.hasWal := rfl

@[simp] lemma frames_setFrame_self (i : ℕ) (f : Frame γ) : (b.setFrame i f).frames i = f := by
  simp [setFrame]

/-- What becomes of the victim: its page is as it was. -/
lemma takeVictim_spec (pageId i : ℕ) : (b.takeVictim pageId i).hasWal = b.hasWal ∧
      ((b.takeVictim pageId i).frames i).page = (b.frames i).page ∧
      ((b.takeVictim pageId i).frames i).isDirty = (b.frames i).isDirty := by
  simp only [takeVictim, insertPageMapping, erasePageMapping]
  split_ifs <;> simp

/-- A dirty victim whose test asks for no flush has an LSN that is durable. -/
lemma reserve_victim {b' : BufferPool γ} {durableLsn pageId : ℕ}
    (h : b.reserve durableLsn pageId = (b', .victim i evictPageId needWalFlush)) :
    evictPageId ≠ kNullPageId → (b'.frames i).isDirty = true → needWalFlush = false → b'.hasWal = true →
      (b'.frames i).page.lsn ≤ durableLsn := by
  rw [reserve] at h
  split at h
  · split_ifs at h <;> cases h
  · split at h
    · cases h
    · cases h
      obtain ⟨hwal, hpage, hdirty⟩ := b.takeVictim_spec pageId i
      intro hevict hd hneed hw
      rw [hwal] at hw
      rw [hdirty] at hd
      rw [hpage]
      simpa [hd, hw, hevict] using hneed

end BufferPool

namespace PoolSystem

variable {env : PoolEnv τ γ} {s : PoolSystem β γ τ}

section

variable (h : s.PoolOk env)
include h

section

variable (pageId : ℕ)

/-- Both `fetch_page` and `new_page`, whatever they do with the frame in the end. -/
lemma PoolOk.reserveThen {finish : PoolSystem β γ τ → ℕ → PoolSystem β γ τ × Except PoolError ℕ}
    (hfinish : ∀ s' i, PoolOk env s' → (finish s' i).1.PoolOk env) :
    (s.reserveThen env pageId finish).1.PoolOk env := by
  obtain ⟨pool, reservation, hreserve⟩ : ∃ pool reservation,
      s.pool.reserve s.log.log.durableLsn pageId = (pool, reservation) := ⟨_, _, rfl⟩
  simp only [PoolSystem.reserveThen, hreserve]
  cases reservation with
  | hit i | wait => exact h.withPool pool
  | victim i evictPageId needWalFlush =>
    have hwrite := (h.withPool pool).writeVictim pageId (s.pool.reserve_victim hreserve)
    dsimp only
    split <;> rename_i heq
    · rw [heq] at hwrite
      exact hwrite
    · rw [heq] at hwrite
      exact hfinish _ i hwrite

lemma PoolOk.load (pageId i : ℕ) (sequentialHint : Bool) :
    (s.load env pageId i sequentialHint).1.PoolOk env := by
  simp only [PoolSystem.load]
  split_ifs
  · exact h.withPool _
  · exact h.withPool _
  · exact h.withPool _

lemma PoolOk.fetchPage (sequentialHint : Bool) : (s.fetchPage env pageId sequentialHint).1.PoolOk env := by
  rw [PoolSystem.fetchPage]
  split_ifs
  · exact h
  · split
    · exact h.withPool _
    · exact h.reserveThen pageId fun s' i h' => h'.load pageId i sequentialHint

lemma PoolOk.newPage (type : PageType) : (s.newPage env pageId type).1.PoolOk env := by
  rw [PoolSystem.newPage]
  split_ifs
  · exact h
  · exact h.reserveThen pageId fun s' i h' => h'.withPool _

lemma PoolOk.flushPage : (s.flushPage env pageId).PoolOk env := by
  rw [PoolSystem.flushPage]
  split
  · exact h
  · rename_i i _
    obtain ⟨hfirst, hcovered⟩ := h.flushFrameWalFirst (s.pool.frames i)
    dsimp only
    split_ifs with hdirty hok hwritten
    · exact (hfirst.ok.writePage _ (hcovered hok)).withPool _
    · exact hfirst.ok.writePage _ (hcovered hok)
    · exact hfirst.ok
    · exact h

end

end

/-- The frames of a batch wait with pages that may be written. -/
structure BatchOk (env : PoolEnv τ γ) (b : PoolSystem β γ τ × List ℕ) : Prop where
  ok : b.1.PoolOk env
  covered : ∀ i ∈ b.2, b.1.Covered (b.1.pool.frames i).page

lemma BatchOk.writeBatch {batch : List ℕ} (h : BatchOk env (s, batch)) :
    (s.writeBatch env batch).PoolOk env := by
  refine (h.ok.note ?_ _).withPool _
  intro r hr
  obtain ⟨i, hi, rfl⟩ := mem_map.1 hr
  exact h.covered i hi

/-- A frame joins the batch with its own page covered; those that wait already stay covered, since the
flush for this frame does not put the watermark back. -/
lemma BatchOk.flushFrame {b : PoolSystem β γ τ × List ℕ} (h : BatchOk env b) (partition i : ℕ) :
    BatchOk env (PoolSystem.flushFrame env partition b i) := by
  obtain ⟨hfirst, hcovered⟩ := h.ok.flushFrameWalFirst (b.1.pool.frames i)
  have hkept : ∀ j ∈ b.2, (b.1.flushFrameWalFirst env (b.1.pool.frames i)).1.Covered
      ((b.1.flushFrameWalFirst env (b.1.pool.frames i)).1.pool.frames j).page := by
    intro j hj
    rw [hfirst.pool]
    exact hfirst.covered (h.covered j hj)
  have hjoined : (b.1.flushFrameWalFirst env (b.1.pool.frames i)).2 = true →
      BatchOk env ((b.1.flushFrameWalFirst env (b.1.pool.frames i)).1, b.2 ++ [i]) := by
    refine fun hok => ⟨hfirst.ok, fun j hj => ?_⟩
    rcases mem_append.1 hj with hj | hj
    · exact hkept j hj
    · rw [mem_singleton.1 hj]
      rw [hfirst.pool]
      exact hcovered hok
  simp only [PoolSystem.flushFrame]
  split_ifs with hdirty hfail hfull
  · exact ⟨hfirst.ok, hkept⟩
  · exact ⟨(hjoined (by simpa using hfail)).writeBatch, fun _ hj => absurd hj not_mem_nil⟩
  · exact hjoined (by simpa using hfail)
  · exact h

lemma PoolOk.flushPartition (h : s.PoolOk env) (partition : ℕ) :
    (s.flushPartition env partition).PoolOk env := by
  have hloop : BatchOk env ((range s.pool.poolSize).foldl (PoolSystem.flushFrame env partition) (s, [])) :=
    foldlRecOn _ _ ⟨h, fun _ hi => absurd hi not_mem_nil⟩ fun b hb i _ => hb.flushFrame partition i
  simp only [PoolSystem.flushPartition]
  split_ifs
  · exact hloop.ok
  · exact hloop.writeBatch

lemma PoolOk.flushAll (h : s.PoolOk env) : (s.flushAll env).PoolOk env :=
  foldlRecOn _ _ h fun _ hb partition _ => hb.flushPartition partition

lemma PoolOk.step {s' : PoolSystem β γ τ} {a : PoolAction β γ} (h : s.PoolOk env)
    (hs : PoolSystem.step env s a = some s') : s'.PoolOk env := by
  cases a with
  | fetchPage pageId sequentialHint =>
    cases hs
    exact h.fetchPage pageId sequentialHint
  | newPage pageId type =>
    cases hs
    exact h.newPage pageId type
  | flushPage pageId =>
    cases hs
    exact h.flushPage pageId
  | flushAll =>
    cases hs
    exact h.flushAll
  | log a =>
    obtain ⟨log, hlog, rfl⟩ := Option.map_eq_some_iff.1 hs
    exact ⟨(h.log.step env.io hlog).1, h.handed⟩
  | truncate =>
    simp only [PoolSystem.step] at hs
    split_ifs at hs with hall
    cases hs
    exact ⟨h.log.truncateFile env.io hall, h.handed⟩
  | edit i rest =>
    simp only [PoolSystem.step] at hs
    split_ifs at hs
    cases hs
    exact h.withPool _
  | setWalManager | unpinPage | markDirty | setPageLsn =>
    cases hs
    exact h.withPool _

/-- **The write-ahead rule.**  Along any sequence of calls of the pool and of the log, with any failures of
the log's system calls and any page store, every image that the store is given has an LSN up to the
durable LSN of the log at that moment. -/
theorem write_ahead (env : PoolEnv τ γ) (page : PageData γ) (poolSize partitions flushBatchSize : ℕ)
    (file : List (LogByte β)) (maxLsn : ℕ) (store : τ) (actions : List (PoolAction β γ)) :
    Always (PoolSystem.step env) WriteAhead
      (create page poolSize partitions flushBatchSize file maxLsn store) actions :=
  always_of_invariant (P := fun _ _ => True) (I := PoolOk env) (fun _ _ _ h _ hs => h.step hs)
    (fun _ h => h.handed) (poolOk_create page poolSize partitions flushBatchSize file maxLsn store)
    (StepsMeet.of_forall fun _ _ _ => trivial)

end PoolSystem

end MiniDb
