import MiniDb.Core.Run
import MiniDb.Core.Volatile
import MiniDb.Storage.Page

/-!
# The disk manager

A page id is a file number and a page number.  The disk manager keeps a cache of open file descriptors and empties it
when it is full.  `flush` calls `fsync` for the descriptors in the cache at that time, so that a file whose descriptor
was closed in between is passed over: `flushBarrier_iff` says when that happens.

Every page is a piece of volatile storage, and `fsync` syncs all pages of a file, whichever descriptor it is called
with.  Opening, reading and writing do not fail.  The double-write file is in `MiniDb.Storage.DoubleWrite`.
-/

namespace MiniDb

/-- `make_page_id`, of two 32-bit numbers. -/
def makePageId (fileId pageNum : ℕ) : ℕ := fileId * 2 ^ 32 + pageNum

def fileIdFromPage (pid : ℕ) : ℕ := pid / 2 ^ 32 % 2 ^ 32

lemma fileIdFromPage_makePageId {fileId pageNum : ℕ} (hf : fileId < 2 ^ 32) (hp : pageNum < 2 ^ 32) :
    fileIdFromPage (makePageId fileId pageNum) = fileId := by
  rw [fileIdFromPage, makePageId]
  omega

/-- The files that hold pages: `catalog/1.cat`, `tables/N.heap` and `indexes/N.btree`. -/
inductive DataFile where
  | catalog
  | heap (tableId : ℕ)
  | btree (indexId : ℕ)
  deriving DecidableEq, Repr

/-- The file of a file number. -/
def DataFile.ofFileId (fileId : ℕ) : DataFile :=
  if fileId = 1 then .catalog else if fileId < 1000 then .heap fileId else .btree fileId

def pageToPath (pid : ℕ) : DataFile := .ofFileId (fileIdFromPage pid)

/-- The bytes of a page. -/
abbrev Image := Fin kPageSize → UInt8

/-- The files as the disk manager sees them. -/
structure DiskManager where
  fdCacheLimit : ℕ
  fdCache : List DataFile
  pages : ℕ → Volatile (Fin kPageSize) UInt8

namespace DiskManager

/-- A disk manager over files without content. -/
def create (fdCacheLimit : ℕ) : DiskManager where
  fdCacheLimit := if fdCacheLimit = 0 then 1 else fdCacheLimit
  fdCache := []
  pages := fun _ => .ofDurable fun _ => 0

section

variable (dm : DiskManager)

/-- `get_fd`: a full cache is emptied for a new descriptor, without `fsync`. -/
def getFd (file : DataFile) : DiskManager :=
  if file ∈ dm.fdCache then dm
  else if dm.fdCacheLimit ≤ dm.fdCache.length then { dm with fdCache := [file] }
  else { dm with fdCache := file :: dm.fdCache }

def readPageDirect (pid : ℕ) : DiskManager × Image :=
  (dm.getFd (pageToPath pid), (dm.pages pid).current)

/-- `write_page_direct`, without its `fsync`. -/
def writePageDirect (pid : ℕ) (image : Image) : DiskManager :=
  { dm.getFd (pageToPath pid) with
    pages := Function.update dm.pages pid ((dm.pages pid).write fun i => some (image i)) }

/-- `fsync`, with a descriptor of the file. -/
def fsyncFile (file : DataFile) : DiskManager :=
  { dm with pages := fun pid => if pageToPath pid = file then (dm.pages pid).sync else dm.pages pid }

def flush : DiskManager := dm.fdCache.foldl fsyncFile dm

/-- What the callers do. -/
inductive Access where
  | read (pid : ℕ)
  | write (pid : ℕ) (image : Image)
  | flush

def access : Access → DiskManager
  | .read pid => (dm.readPageDirect pid).1
  | .write pid image => dm.writePageDirect pid image
  | .flush => dm.flush

/-- The page has images that were written and not synced. -/
def Unsynced (pid : ℕ) : Prop := (dm.pages pid).pending ≠ []

/-- Were `flush` called now, it would leave no image unsynced. -/
def FlushIsBarrier : Prop := ∀ pid, ¬ dm.flush.Unsynced pid

/-- The access to a page does not close the descriptor of a file with unsynced images. -/
def KeepsUnsyncedOpen (pid : ℕ) : Prop :=
  pageToPath pid ∈ dm.fdCache ∨ dm.fdCache.length < dm.fdCacheLimit ∨
    ∀ pid', dm.Unsynced pid' → pageToPath pid' ∉ dm.fdCache

/-- The condition on an access. -/
def AccessSafe : Access → Prop
  | .read pid => dm.KeepsUnsyncedOpen pid
  | .write pid _ => dm.KeepsUnsyncedOpen pid
  | .flush => True

end

section

variable {dm : DiskManager} {pid : ℕ} {file : DataFile}

/-- After `fsync` of some files, a page is as it was, or it is synced and its file is one of them. -/
lemma pages_foldl_fsyncFile (files : List DataFile) (pid : ℕ) : ((files.foldl fsyncFile dm).pages pid).pending =
      if pageToPath pid ∈ files then [] else (dm.pages pid).pending := by
  induction files generalizing dm with
  | nil => rfl
  | cons file files ih =>
    rw [List.foldl_cons, ih]
    by_cases hmem : pageToPath pid ∈ files
    · simp [hmem]
    · by_cases hfile : pageToPath pid = file
      · simp [hfile, fsyncFile]
      · simp [hmem, hfile, fsyncFile]

lemma unsynced_flush : dm.flush.Unsynced pid ↔ dm.Unsynced pid ∧ pageToPath pid ∉ dm.fdCache := by
  rw [Unsynced, flush, pages_foldl_fsyncFile]
  by_cases hmem : pageToPath pid ∈ dm.fdCache
  · simp [hmem]
  · simp [hmem, Unsynced]

/-- A flush is a barrier if the files with unsynced images are all in the cache. -/
lemma flushIsBarrier_iff : dm.FlushIsBarrier ↔ ∀ pid, dm.Unsynced pid → pageToPath pid ∈ dm.fdCache := by
  refine forall_congr' fun pid => ?_
  rw [unsynced_flush]
  tauto

@[simp] lemma pages_getFd : (dm.getFd file).pages = dm.pages := by
  unfold getFd
  split_ifs <;> rfl

lemma mem_getFd : file ∈ (dm.getFd file).fdCache := by
  unfold getFd
  split_ifs with hmem hfull
  · exact hmem
  · simp
  · simp

lemma mem_getFd_of_ne {other : DataFile} (h : other ≠ file) : other ∈ (dm.getFd file).fdCache ↔
      other ∈ dm.fdCache ∧ (file ∈ dm.fdCache ∨ dm.fdCache.length < dm.fdCacheLimit) := by
  unfold getFd
  split_ifs with hmem hfull
  · simp [hmem]
  · simp [h, hmem, Nat.not_lt.2 hfull]
  · simp [h, hmem, Nat.not_le.1 hfull]

lemma unsynced_read : (dm.access (.read pid)).Unsynced = dm.Unsynced := by
  funext pid'
  simp [access, readPageDirect, Unsynced]

variable {pid' : ℕ} {a : Access}

lemma unsynced_write {image : Image} :
    (dm.access (.write pid image)).Unsynced pid' ↔ pid' = pid ∨ dm.Unsynced pid' := by
  by_cases h : pid' = pid
  · subst h
    simp [access, writePageDirect, Unsynced]
  · simp [access, writePageDirect, Unsynced, h]

lemma FlushIsBarrier.getFd (hb : dm.FlushIsBarrier) (hk : dm.KeepsUnsyncedOpen pid)
    (hu : dm.Unsynced pid') : pageToPath pid' ∈ (dm.getFd (pageToPath pid)).fdCache := by
  have hmem := flushIsBarrier_iff.1 hb pid' hu
  by_cases heq : pageToPath pid' = pageToPath pid
  · rw [heq]
    exact mem_getFd
  · rw [mem_getFd_of_ne heq]
    rcases hk with hk | hk | hk
    · exact ⟨hmem, .inl hk⟩
    · exact ⟨hmem, .inr hk⟩
    · exact absurd hmem (hk pid' hu)

lemma FlushIsBarrier.access (hb : dm.FlushIsBarrier) (ha : dm.AccessSafe a) : (dm.access a).FlushIsBarrier := by
  rw [flushIsBarrier_iff]
  intro pid' hu
  cases a with
  | read pid =>
    rw [unsynced_read] at hu
    exact hb.getFd ha hu
  | write pid image =>
    rcases unsynced_write.1 hu with rfl | hu
    · exact mem_getFd
    · exact hb.getFd ha hu
  | flush => exact absurd hu (hb pid')

/-- An access that closes the descriptor of a file with unsynced images leaves them behind. -/
lemma not_flushIsBarrier_of_unsafe (ha : ¬ dm.AccessSafe a) : ¬ (dm.access a).FlushIsBarrier := by
  have hlost : ∀ pid, ¬ dm.KeepsUnsyncedOpen pid → ∃ pid', dm.Unsynced pid' ∧
      pageToPath pid' ∉ (dm.getFd (pageToPath pid)).fdCache := by
    intro pid hk
    simp only [KeepsUnsyncedOpen, not_or, not_forall, not_not] at hk
    obtain ⟨hmiss, hfull, pid', hu, hmem⟩ := hk
    have hne : pageToPath pid' ≠ pageToPath pid := fun heq => hmiss (heq ▸ hmem)
    refine ⟨pid', hu, fun h => ?_⟩
    rcases ((mem_getFd_of_ne hne).1 h).2 with h | h
    · exact hmiss h
    · exact hfull h
  rw [flushIsBarrier_iff]
  intro hb
  cases a with
  | read pid =>
    obtain ⟨pid', hu, hmem⟩ := hlost pid ha
    exact hmem (hb pid' (by rwa [unsynced_read]))
  | write pid image =>
    obtain ⟨pid', hu, hmem⟩ := hlost pid ha
    exact hmem (hb pid' (unsynced_write.2 (.inr hu)))
  | flush => exact ha trivial

end

/-- **When `flush` is a barrier.**  At every point of a sequence of accesses a flush syncs all images written
before, if and only if no access empties the descriptor cache while a file in it has unsynced images. -/
theorem flushBarrier_iff (fdCacheLimit : ℕ) (accesses : List Access) :
    Always (total access) FlushIsBarrier (create fdCacheLimit) accesses ↔
      StepsMeet (total access) AccessSafe (create fdCacheLimit) accesses := by
  refine always_iff_stepsMeet (I := FlushIsBarrier) ?_ (fun _ h => h) ?_ ?_ (runs_total _ _ _)
  · rintro dm a dm' hb ha hs
    cases hs
    exact hb.access ha
  · rintro dm a dm' - ha hs
    cases hs
    exact not_flushIsBarrier_of_unsafe ha
  · exact fun pid hu => absurd rfl hu

/-- With room for one descriptor: a page of table 10 is written, a page of table 11 is read, and a flush then
passes over the file of table 10. -/
theorem closed_file_not_synced : ¬ Always (total access) FlushIsBarrier (create 1)
    [.write (makePageId 10 1) fun _ => 1, .read (makePageId 11 1)] := by
  intro h
  have hlast : FlushIsBarrier _ := h.last (runs_total _ _ _)
  refine absurd (flushIsBarrier_iff.1 hlast (makePageId 10 1) ?_) (by decide)
  simp [access, readPageDirect, writePageDirect, Unsynced]

end DiskManager

end MiniDb
