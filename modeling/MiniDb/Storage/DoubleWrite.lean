import MiniDb.Storage.DiskManager

/-!
# The double-write file

`write_page` first writes a copy of the page to the double-write file, with a header that names the page, and calls
`fsync`; then it writes the page itself, and clears the header again.  At restart `recover_double_write` puts a copy
with a good header and checksum back in its place.

The page itself is not synced before the header is cleared, so that it stays without a copy, though it can still be
torn, until its file is synced by a `flush`.  `pagesWhole_iff` says exactly which states can be left by a crash.

A crash in the middle of a step is one after it, since any part of an unsynced write may be lost.
-/

namespace MiniDb

open Volatile Function

/-- `"MDBWRITE"`. -/
def kDoubleWriteMagic : ℕ := 0x4D44425752495445

def kChecksumSeed : ℕ := 0xA5A5

/-- One byte of the checksum: added, and the sum rotated by one bit. -/
def checksumStep (sum : ℕ) (b : UInt8) : ℕ :=
  let sum := (sum + b.toNat) % 2 ^ 16
  (sum <<< 1 ||| sum >>> 15) % 2 ^ 16

section

variable (image : Image)

/-- `page_checksum`: all bytes but those of `PageHeader::reserved`, which stores it. -/
def pageChecksum : ℕ :=
  let sum := (List.finRange kPageSize).foldl
    (fun sum i => if i.val = 22 ∨ i.val = 23 then sum else checksumStep sum (image i)) kChecksumSeed
  if sum = 0 then 1 else sum

def Image.pageType : ℕ := leNat [image ⟨16, by decide⟩, image ⟨17, by decide⟩]

/-- The image with another `PageHeader::reserved`. -/
def Image.setReserved (n : ℕ) : Image := fun i =>
  if i.val = 22 then leByte n 0 else if i.val = 23 then leByte n 1 else image i

/-- The copy of the page that `write_page` writes. -/
def Image.stamp : Image :=
  if image.pageType ≠ 0 then image.setReserved (pageChecksum (image.setReserved 0)) else image

end

structure DoubleWriteHeader where
  magic : ℕ
  pageId : ℕ
  checksum : ℕ
  reserved : ℕ
  pageSize : ℕ
  deriving DecidableEq, Repr

open DoubleWriteHeader

variable {file : ℕ → UInt8} {h : DoubleWriteHeader}

namespace DoubleWriteHeader

/-- The size of the packed header. -/
def size : ℕ := 24

/-- The bytes of the packed header. -/
def bytes (h : DoubleWriteHeader) (i : ℕ) : UInt8 :=
  if i < 8 then leByte h.magic i
  else if i < 16 then leByte h.pageId (i - 8)
  else if i < 18 then leByte h.checksum (i - 16)
  else if i < 20 then leByte h.reserved (i - 18)
  else leByte h.pageSize (i - 20)

/-- A number of some bytes at an offset. -/
def field (file : ℕ → UInt8) (offset width : ℕ) : ℕ := leNat ((List.range width).map fun k => file (offset + k))

/-- The header at the beginning of a file. -/
def ofBytes (file : ℕ → UInt8) : DoubleWriteHeader where
  magic := field file 0 8
  pageId := field file 8 8
  checksum := field file 16 2
  reserved := field file 18 2
  pageSize := field file 20 4

/-- The fields fit into their types. -/
structure Fits (h : DoubleWriteHeader) : Prop where
  magic : h.magic < 2 ^ 64
  pageId : h.pageId < 2 ^ 64
  checksum : h.checksum < 2 ^ 16
  reserved : h.reserved < 2 ^ 16
  pageSize : h.pageSize < 2 ^ 32

lemma field_eq {offset width n : ℕ} (hn : n < 256 ^ width)
    (hfile : ∀ k < width, file (offset + k) = leByte n k) : field file offset width = n := by
  rw [field, ← leNat_leByte hn]
  refine congrArg leNat (List.map_congr_left fun k hk => ?_)
  exact hfile k (List.mem_range.1 hk)

lemma ofBytes_eq (hfits : h.Fits) (hfile : ∀ i < size, file i = h.bytes i) : ofBytes file = h := by
  have hmagic : field file 0 8 = h.magic := field_eq hfits.magic fun k hk => by
    rw [hfile _ (by rw [size]; omega), bytes, if_pos (by omega), Nat.zero_add]
  have hpage : field file 8 8 = h.pageId := field_eq hfits.pageId fun k hk => by
    rw [hfile _ (by rw [size]; omega), bytes, if_neg (by omega), if_pos (by omega), Nat.add_sub_cancel_left]
  have hsum : field file 16 2 = h.checksum := field_eq hfits.checksum fun k hk => by
    rw [hfile _ (by rw [size]; omega), bytes, if_neg (by omega), if_neg (by omega), if_pos (by omega),
      Nat.add_sub_cancel_left]
  have hres : field file 18 2 = h.reserved := field_eq hfits.reserved fun k hk => by
    rw [hfile _ (by rw [size]; omega), bytes, if_neg (by omega), if_neg (by omega), if_neg (by omega),
      if_pos (by omega), Nat.add_sub_cancel_left]
  have hsize : field file 20 4 = h.pageSize := field_eq hfits.pageSize fun k hk => by
    rw [hfile _ (by rw [size]; omega), bytes, if_neg (by omega), if_neg (by omega), if_neg (by omega),
      if_neg (by omega), Nat.add_sub_cancel_left]
  rw [ofBytes, hmagic, hpage, hsum, hres, hsize]

/-- The header of a copy. -/
def ofPage (pid : ℕ) (image : Image) : DoubleWriteHeader where
  magic := kDoubleWriteMagic
  pageId := pid
  checksum := pageChecksum image
  reserved := 0
  pageSize := kPageSize

/-- The header that clears the slot. -/
def clear : DoubleWriteHeader := ⟨0, 0, 0, 0, 0⟩

end DoubleWriteHeader

lemma checksumStep_lt (sum : ℕ) (b : UInt8) : checksumStep sum b < 2 ^ 16 := Nat.mod_lt _ (by decide)

lemma pageChecksum_lt (image : Image) : pageChecksum image < 2 ^ 16 := by
  have hsum : ∀ (is : List (Fin kPageSize)) (sum : ℕ), sum < 2 ^ 16 → is.foldl
      (fun sum i => if i.val = 22 ∨ i.val = 23 then sum else checksumStep sum (image i)) sum < 2 ^ 16 := by
    intro is
    induction is with
    | nil => exact fun sum h => h
    | cons i is ih =>
      intro sum h
      refine ih _ ?_
      dsimp only
      split_ifs
      · exact h
      · exact checksumStep_lt sum _
  rw [pageChecksum]
  split_ifs
  · decide
  · exact hsum _ _ (by decide)

lemma DoubleWriteHeader.fits_ofPage {pid : ℕ} (hpid : pid < 2 ^ 64) (image : Image) :
    (ofPage pid image).Fits := by
  have hsum := pageChecksum_lt image
  rw [ofPage]
  generalize pageChecksum image = checksum at hsum
  exact ⟨by norm_num [kDoubleWriteMagic], hpid, hsum, by norm_num, by norm_num [kPageSize]⟩

lemma DoubleWriteHeader.fits_clear : clear.Fits := by
  constructor <;> norm_num [clear]

/-! ## Writing a page -/

/-- The disk manager and the double-write file. -/
structure DoubleWriteDisk where
  disk : DiskManager
  slot : Volatile ℕ UInt8

namespace DoubleWriteDisk

def create (fdCacheLimit : ℕ) : DoubleWriteDisk := ⟨.create fdCacheLimit, .ofDurable fun _ => 0⟩

/-- The steps of the calls. -/
inductive DiskStep where
  /-- `pwrite` of the header of the double-write file -/
  | slotHeader (h : DoubleWriteHeader)
  /-- `pwrite` of the copy behind it -/
  | slotImage (image : Image)
  /-- `fsync` of the double-write file -/
  | slotFsync
  /-- `write_page_direct` -/
  | page (pid : ℕ) (image : Image)

/-- What a write of the header changes in the double-write file. -/
def headerWrite (h : DoubleWriteHeader) (i : ℕ) : Option UInt8 :=
  if i < size then some (h.bytes i) else none

/-- What a write of the copy changes in the double-write file. -/
def imageWrite (image : Image) (i : ℕ) : Option UInt8 :=
  if h : size ≤ i ∧ i < size + kPageSize then
    some (image ⟨i - size, by omega⟩)
  else none

section

variable (d : DoubleWriteDisk)

def doStep : DiskStep → DoubleWriteDisk
  | .slotHeader h => { d with slot := d.slot.write (headerWrite h) }
  | .slotImage image => { d with slot := d.slot.write (imageWrite image) }
  | .slotFsync => { d with slot := d.slot.sync }
  | .page pid image => { d with disk := d.disk.writePageDirect pid image }

/-- `write_page`, of the stamped image. -/
def writeSteps (pid : ℕ) (image : Image) : List DiskStep :=
  [.slotHeader (.ofPage pid image), .slotImage image, .slotFsync, .page pid image, .slotHeader .clear, .slotFsync]

/-- The first steps of a call. -/
def partialWrite (pid : ℕ) (image : Image) (done : ℕ) : DoubleWriteDisk :=
  ((writeSteps pid image.stamp).take done).foldl doStep d

def writePage (pid : ℕ) (image : Image) : DoubleWriteDisk :=
  (writeSteps pid image.stamp).foldl doStep d

/-- What the callers do; `write` is `write_page`. -/
def access : DiskManager.Access → DoubleWriteDisk
  | .read pid => { d with disk := (d.disk.readPageDirect pid).1 }
  | .write pid image => d.writePage pid image
  | .flush => { d with disk := d.disk.flush }

/-- The images that a page can have: the one before the first write, and those that were written. -/
def images (pid : ℕ) (accesses : List DiskManager.Access) : List Image :=
  (fun _ => 0) :: accesses.filterMap fun
    | .write pid' image => if pid' = pid then some image.stamp else none
    | _ => none

/-! ## Restart -/

/-- What is on disk after a crash. -/
structure CrashDisk where
  pages : ℕ → Image
  slot : ℕ → UInt8

/-- A crash may leave these files. -/
structure CrashOf (d : DoubleWriteDisk) (c : CrashDisk) : Prop where
  pages : ∀ pid, (d.disk.pages pid).CrashOf (c.pages pid)
  slot : d.slot.CrashOf c.slot

/-- The copy in the double-write file. -/
def slotImage (slot : ℕ → UInt8) : Image := fun i => slot (size + i)

/-- The page that `recover_double_write` writes, if the double-write file passes its checks. -/
def checkSlot (slot : ℕ → UInt8) : Option (ℕ × Image) :=
  let dw := ofBytes slot
  if dw.magic = kDoubleWriteMagic ∧ dw.pageSize = kPageSize ∧ pageChecksum (slotImage slot) = dw.checksum then
    some (dw.pageId, slotImage slot)
  else none

/-- `recover_double_write`: the pages afterwards. -/
def recoverDoubleWrite (c : CrashDisk) : ℕ → Image :=
  match checkSlot c.slot with
  | some (pid, image) => update c.pages pid image
  | none => c.pages

section

variable (images : ℕ → List Image)

/-- Whatever a crash leaves, after restart every page is one of its images. -/
def PagesWhole : Prop :=
  ∀ c, d.CrashOf c → ∀ pid, recoverDoubleWrite c pid ∈ images pid

/-- A crash may leave a mixture of images in the page. -/
def Tearable (pid : ℕ) : Prop :=
  ∃ content, (d.disk.pages pid).CrashOf content ∧ content ∉ images pid

/-- A crash may leave something in the double-write file that passes the checks and is no image of the page it
names: parts of two headers, or of two copies, that make the 16-bit checksum. -/
def SlotForgeable : Prop :=
  ∃ slot, d.slot.CrashOf slot ∧ ∃ pid image, checkSlot slot = some (pid, image) ∧ image ∉ images pid

end

end

/-! ## The slot in the course of a call -/

/-- The header is cleared, and nothing of the slot is unsynced. -/
structure SlotClear (d : DoubleWriteDisk) : Prop where
  synced : d.slot.pending = []
  header : ∀ i < size, d.slot.durable i = clear.bytes i

section

variable {d : DoubleWriteDisk} {slot : ℕ → UInt8} {pid : ℕ} {image : Image}

lemma checkSlot_clear (h : ∀ i < size, slot i = clear.bytes i) : checkSlot slot = none := by
  rw [checkSlot, ofBytes_eq fits_clear h, if_neg]
  rintro ⟨hmagic, -⟩
  exact absurd hmagic (by decide)

lemma checkSlot_complete (hpid : pid < 2 ^ 64) (hheader : ∀ i < size, slot i = (ofPage pid image).bytes i)
    (himage : slotImage slot = image) : checkSlot slot = some (pid, image) := by
  rw [checkSlot, ofBytes_eq (fits_ofPage hpid image) hheader, himage]
  simp [ofPage]

variable {i done : ℕ} {c : CrashDisk} {images : ℕ → List Image}

lemma headerWrite_of_lt (hi : i < size) : headerWrite h i = some (h.bytes i) := if_pos hi

lemma imageWrite_of_lt (hi : i < size) : imageWrite image i = none :=
  dif_neg (by omega)

lemma imageWrite_add (i : Fin kPageSize) : imageWrite image (size + i) = some (image i) := by
  rw [imageWrite, dif_pos ⟨by omega, by omega⟩]
  simp

/-- With header and copy written, the slot reads as a complete copy. -/
lemma checkSlot_current_copy (hpid : pid < 2 ^ 64) (v : Volatile ℕ UInt8) :
    checkSlot ((v.write (headerWrite (.ofPage pid image))).write (imageWrite image)).current = some (pid, image) := by
  refine checkSlot_complete hpid (fun i hi => ?_) (funext fun i => ?_)
  · rw [current_write_of_none (imageWrite_of_lt hi), current_write (headerWrite_of_lt hi)]
  · exact current_write (imageWrite_add i)

lemma current_clear (v : Volatile ℕ UInt8) (hi : i < size) :
    (v.write (headerWrite .clear)).current i = clear.bytes i :=
  current_write (headerWrite_of_lt hi)

lemma SlotClear.writePage (d : DoubleWriteDisk) (pid : ℕ) (image : Image) : (d.writePage pid image).SlotClear :=
  ⟨rfl, fun _ hi => current_clear _ hi⟩

lemma SlotClear.access (hd : d.SlotClear) (a : DiskManager.Access) : (d.access a).SlotClear := by
  cases a with
  | read pid | flush => exact ⟨hd.synced, hd.header⟩
  | write pid image => exact SlotClear.writePage d pid image

lemma SlotClear.foldl (hd : d.SlotClear) (accesses : List DiskManager.Access) :
    (accesses.foldl DoubleWriteDisk.access d).SlotClear :=
  List.foldlRecOn accesses _ hd fun _ hd a _ => hd.access a

lemma slotClear_create (fdCacheLimit : ℕ) : (create fdCacheLimit).SlotClear := by
  refine ⟨rfl, fun i hi => ?_⟩
  simp [create, ofDurable, bytes, clear, leByte]

/-- Between the `fsync` of the copy and the clearing of the header, every crash leaves the copy. -/
lemma checkSlot_of_protected (hpid : pid < 2 ^ 64) (hdone : done = 3 ∨ done = 4)
    (hc : (d.partialWrite pid image done).slot.CrashOf slot) : checkSlot slot = some (pid, image.stamp) := by
  have hslot : (d.partialWrite pid image done).slot =
      ((d.slot.write (headerWrite (.ofPage pid image.stamp))).write (imageWrite image.stamp)).sync := by
    rcases hdone with rfl | rfl <;> rfl
  rw [hslot, crashOf_iff_of_synced rfl] at hc
  rw [hc]
  exact checkSlot_current_copy hpid d.slot

/-- At any other time a crash may leave the slot cleared. -/
lemma exists_crashOf_clear (pid : ℕ) (image : Image) (hd : d.SlotClear) (hdone : ¬ (done = 3 ∨ done = 4)) :
    ∃ slot, (d.partialWrite pid image done).slot.CrashOf slot ∧ checkSlot slot = none := by
  match done, hdone with
  | 0, _ => exact ⟨d.slot.durable, fun _ => .inl rfl, checkSlot_clear hd.header⟩
  | 1, _ => exact ⟨d.slot.durable, fun _ => .inl rfl, checkSlot_clear hd.header⟩
  | 2, _ => exact ⟨d.slot.durable, fun _ => .inl rfl, checkSlot_clear hd.header⟩
  | 3, h => exact absurd (.inl rfl) h
  | 4, h => exact absurd (.inr rfl) h
  | 5, _ =>
    refine ⟨_, crashOf_current _, checkSlot_clear fun i hi => ?_⟩
    exact current_clear _ hi
  | done + 6, _ =>
    have hcomplete : d.partialWrite pid image (done + 6) = d.writePage pid image := by
      rw [partialWrite, List.take_of_length_le (by simp [writeSteps]), writePage]
    have hclear := SlotClear.writePage d pid image
    rw [hcomplete]
    exact ⟨_, fun _ => .inl rfl, checkSlot_clear hclear.header⟩

/-- A page that the slot does not name is after restart what the crash left. -/
lemma recoverDoubleWrite_of_ne (h : ∀ image, checkSlot c.slot ≠ some (pid, image)) :
    recoverDoubleWrite c pid = c.pages pid := by
  rw [recoverDoubleWrite]
  rcases hcheck : checkSlot c.slot with _ | ⟨pid', image⟩
  · rfl
  · have hne : pid ≠ pid' := by
      rintro rfl
      exact h image hcheck
    exact update_of_ne hne image c.pages

lemma recoverDoubleWrite_of_eq (h : checkSlot c.slot = some (pid, image)) :
    recoverDoubleWrite c pid = image := by
  simp [recoverDoubleWrite, h]

lemma crashOf_single {content : Image} (hcontent : (d.disk.pages pid).CrashOf content)
    (hslot : d.slot.CrashOf slot) :
    d.CrashOf ⟨update (fun pid => (d.disk.pages pid).durable) pid content, slot⟩ := by
  refine ⟨fun pid' => ?_, hslot⟩
  by_cases h : pid' = pid
  · subst h
    simpa using hcontent
  · simp only [update_of_ne h]
    exact fun _ => .inl rfl

/-- If nothing can be forged, a page that no crash can tear is whole after restart. -/
lemma mem_images_of_not_tearable (hforge : ¬ d.SlotForgeable images)
    (hc : d.CrashOf c) (htear : ¬ d.Tearable images pid) : recoverDoubleWrite c pid ∈ images pid := by
  by_cases hnamed : ∃ image, checkSlot c.slot = some (pid, image)
  · obtain ⟨image, hcheck⟩ := hnamed
    rw [recoverDoubleWrite_of_eq hcheck]
    by_contra hout
    exact hforge ⟨c.slot, hc.slot, pid, image, hcheck, hout⟩
  · rw [recoverDoubleWrite_of_ne fun image h => hnamed ⟨image, h⟩]
    by_contra hout
    exact htear ⟨c.pages pid, hc.pages pid, hout⟩

/-- A page torn by a crash stays so, if the crash may leave a slot that does not name it. -/
lemma not_tearable_of_pagesWhole (hwhole : d.PagesWhole images) (pid : ℕ)
    (hslot : d.slot.CrashOf slot) (hcheck : ∀ image, checkSlot slot ≠ some (pid, image)) : ¬ d.Tearable images pid := by
  rintro ⟨content, hcontent, hout⟩
  let c : CrashDisk := ⟨update (fun pid => (d.disk.pages pid).durable) pid content, slot⟩
  have hkept : recoverDoubleWrite c pid = content := by
    rw [recoverDoubleWrite_of_ne (c := c) hcheck]
    simp [c]
  exact hout (hkept ▸ hwhole c (crashOf_single hcontent hslot) pid)

lemma not_slotForgeable_of_pagesWhole (hwhole : d.PagesWhole images) : ¬ d.SlotForgeable images := by
  rintro ⟨slot, hslot, pid, image, hcheck, hout⟩
  let c : CrashDisk := ⟨fun pid => (d.disk.pages pid).durable, slot⟩
  have hput : recoverDoubleWrite c pid = image := recoverDoubleWrite_of_eq (c := c) hcheck
  exact hout (hput ▸ hwhole c ⟨fun _ _ => .inl rfl, hslot⟩ pid)

end

/-- The state in which a call of `write_page` is after `done` steps, if it follows the given calls. -/
def crashPoint (fdCacheLimit : ℕ) (accesses : List DiskManager.Access) (pid : ℕ) (image : Image) (done : ℕ) :
    DoubleWriteDisk :=
  (accesses.foldl access (create fdCacheLimit)).partialWrite pid image done

/-- **When torn pages are repaired.**  A crash comes after `done` steps of a call of `write_page`, which follows
any calls before it.  Whatever it leaves of the unsynced writes, every page is whole after restart, if and only
if the only page that can be torn is the one of that call, between the `fsync` of its copy and the clearing of
the header, and nothing can be left in the slot that passes for a copy and is none. -/
theorem pagesWhole_iff (fdCacheLimit : ℕ) (accesses : List DiskManager.Access) (pid : ℕ) (image : Image)
    (done : ℕ) (hpid : pid < 2 ^ 64) :
    (crashPoint fdCacheLimit accesses pid image done).PagesWhole
        (fun pid' => images pid' (accesses ++ [.write pid image])) ↔
      (∀ pid', (crashPoint fdCacheLimit accesses pid image done).Tearable
          (fun pid' => images pid' (accesses ++ [.write pid image])) pid' →
        pid' = pid ∧ (done = 3 ∨ done = 4)) ∧
      ¬ (crashPoint fdCacheLimit accesses pid image done).SlotForgeable
          (fun pid' => images pid' (accesses ++ [.write pid image])) := by
  have hclear := (slotClear_create fdCacheLimit).foldl accesses
  have hwritten : image.stamp ∈ images pid (accesses ++ [.write pid image]) := by simp [images]
  generalize accesses ++ [.write pid image] = all at hwritten
  rw [crashPoint]
  generalize accesses.foldl access (create fdCacheLimit) = d at hclear
  constructor
  · refine fun hwhole => ⟨fun pid' htear => ?_, not_slotForgeable_of_pagesWhole hwhole⟩
    by_contra hnot
    by_cases hdone : done = 3 ∨ done = 4
    · refine not_tearable_of_pagesWhole hwhole pid' (fun _ => .inl rfl) (fun image' h => ?_) htear
      rw [checkSlot_of_protected hpid hdone fun _ => .inl rfl] at h
      cases h
      exact hnot ⟨rfl, hdone⟩
    · obtain ⟨slot, hslot, hnone⟩ := exists_crashOf_clear pid image hclear hdone
      refine not_tearable_of_pagesWhole hwhole pid' hslot (fun image' h => ?_) htear
      rw [hnone] at h
      cases h
  · rintro ⟨htear, hforge⟩ c hc pid'
    by_cases hcan : (d.partialWrite pid image done).Tearable (fun pid' => images pid' all) pid'
    · obtain ⟨rfl, hdone⟩ := htear pid' hcan
      rw [recoverDoubleWrite_of_eq (checkSlot_of_protected hpid hdone hc.slot)]
      exact hwritten
    · exact mem_images_of_not_tearable hforge hc hcan

/-- The first write to a page, with the crash right after the page itself was written. -/
theorem pagesWhole_first_write :
    (crashPoint 1 [] (makePageId 10 1) (fun _ => 1) 4).PagesWhole
      fun pid => images pid [.write (makePageId 10 1) fun _ => 1] := by
  have hpid : makePageId 10 1 < 2 ^ 64 := by norm_num [makePageId]
  refine (pagesWhole_iff 1 [] (makePageId 10 1) (fun _ => 1) 4 hpid).2 ⟨?_, ?_⟩
  · rintro pid' ⟨content, hcontent, hout⟩
    refine ⟨?_, .inr rfl⟩
    by_contra hne
    have hpage : (crashPoint 1 [] (makePageId 10 1) (fun _ => 1) 4).disk.pages pid' = .ofDurable fun _ => 0 :=
      update_of_ne hne _ _
    rw [hpage, crashOf_iff_of_synced rfl] at hcontent
    exact hout (hcontent ▸ List.mem_cons_self)
  · rintro ⟨slot, hslot, pid', image', hcheck, hout⟩
    rw [checkSlot_of_protected hpid (.inr rfl) hslot] at hcheck
    cases hcheck
    exact hout (by simp [images])

/-- One complete call of `write_page`: the copy is gone, and a crash may leave the first byte of the new image
in front of the old rest. -/
theorem torn_after_write : ¬ (((create 1).access (.write (makePageId 10 1) fun _ => 1)).PagesWhole
    fun pid => images pid [.write (makePageId 10 1) fun _ => 1]) := by
  intro hwhole
  refine not_tearable_of_pagesWhole hwhole (makePageId 10 1) (fun _ => .inl rfl) (fun image h => ?_) ?_
  · cases h
  have hbyte : ∀ i : Fin kPageSize, i.val < 2 → Image.stamp (fun _ => 1) i = 1 := by
    intro i hi
    rw [Image.stamp]
    split_ifs
    · rw [Image.setReserved, if_neg (by omega), if_neg (by omega)]
    · rfl
  refine ⟨fun i => if i.val = 0 then 1 else 0, fun i => ?_, fun hmem => ?_⟩
  · by_cases hi : i.val = 0
    · refine .inr ⟨fun i => some (Image.stamp (fun _ => 1) i), ?_, ?_⟩
      · simp [access, writePage, writeSteps, doStep, DiskManager.writePageDirect]
      · simp [hbyte i (by omega), hi]
    · simp [access, writePage, writeSteps, doStep, DiskManager.writePageDirect, create, DiskManager.create,
        ofDurable, hi]
  · rcases List.mem_cons.1 hmem with heq | hmem
    · exact absurd (congrFun heq ⟨0, by decide⟩) (by decide)
    · have heq : (fun i : Fin kPageSize => if i.val = 0 then 1 else 0) = Image.stamp fun _ => 1 := by
        simpa [images] using hmem
      have hone := congrFun heq ⟨1, by decide⟩
      exact absurd hone (by decide)

end DoubleWriteDisk

end MiniDb
