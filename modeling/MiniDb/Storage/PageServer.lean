import MiniDb.Core.Run
import MiniDb.Core.VersionIndex
import MiniDb.Storage.DoubleWrite

/-!
# The page server

A page server keeps for each page a primary copy, and appends every image it accepts to a file, so that a page can also
be read as of an older LSN.

`write_page` has three parts: under the server's latch it checks the LSN and appends the image; under the shard's latch
it records the image, unless one with the same LSN is recorded already, and decides whether it is the newest; after
that it writes the primary copy if it is.

`newestWins_iff`: the primary copy is the last image accepted among those with the highest LSN, except that an image
whose LSN is the page's highest one so far, and not zero, is accepted and dropped.

The cache of versions, the replicas and the counters are never read by `read_page` and are left out.
-/

namespace MiniDb

open Function List

structure PageFormat (τ : Type*) where
  /-- the image of a page that was never written -/
  zero : τ
  /-- `page_lsn_from_bytes` -/
  headerLsn : τ → ℕ
  /-- what `DiskManager::write_page` stores: the image with its checksum -/
  stamp : τ → τ
  headerLsn_zero : headerLsn zero = 0
  headerLsn_stamp : ∀ x, headerLsn (stamp x) = headerLsn x

/-- `PageHeader::lsn`, after the page id. -/
def Image.lsn (image : Image) : ℕ :=
  leNat ((finRange 8).map fun k : Fin 8 => image ⟨8 + k, (Nat.add_lt_add_left k.isLt 8).trans (by decide)⟩)

/-- The checksum does not lie in the LSN. -/
lemma Image.lsn_stamp (image : Image) : image.stamp.lsn = image.lsn := by
  rw [Image.stamp]
  split_ifs
  · refine congrArg leNat (map_congr_left fun k _ => ?_)
    rw [Image.setReserved, if_neg (by dsimp only; omega), if_neg (by dsimp only; omega)]
  · rfl

/-- The format of the pages on the disk. -/
def diskFormat : PageFormat Image where
  zero := fun _ => UInt8.ofNat 0
  headerLsn := Image.lsn
  stamp := Image.stamp
  headerLsn_zero := rfl
  headerLsn_stamp := Image.lsn_stamp

structure PageLogIndexEntry where
  lsn : ℕ
  walOffset : ℕ
  deriving DecidableEq, Repr

/-- What an append leaves in the file of images. -/
inductive WalChunk (τ : Type*) where
  | image (pageId lsn : ℕ) (data : τ)
  /-- the header and the image, and nothing of the trailer -/
  | noTrailer (pageId lsn : ℕ) (data : τ)
  /-- any other proper part of a record -/
  | torn
  deriving DecidableEq, Repr

/-- Offsets in the file of images count the appends. -/
structure PageServer (τ : Type*) where
  durableLsn : ℕ
  walImages : List (WalChunk τ)
  logIndex : ℕ → List PageLogIndexEntry
  /-- `PageMetadata::latest_lsn` -/
  latestLsn : ℕ → Option ℕ
  primary : ℕ → τ

open PageServer

namespace PageServer

variable {τ : Type*} (fmt : PageFormat τ)

def init : PageServer τ := ⟨0, [], fun _ => [], fun _ => none, fun _ => fmt.zero⟩

section

variable (s : PageServer τ)

def setDurableLsn (lsn : ℕ) : PageServer τ :=
  if s.durableLsn < lsn then { s with durableLsn := lsn } else s

/-- The LSN under which `write_page` takes an image. -/
def writeLsn (data : τ) (pageLsn : ℕ) : ℕ := if pageLsn = 0 then fmt.headerLsn data else pageLsn

/-- The check of `write_page`: nothing beyond the durable LSN, once there is one. -/
def accepts (lsn : ℕ) : Bool := s.durableLsn == 0 || decide (lsn ≤ s.durableLsn)

section

variable (pageId : ℕ)

/-- `append_wal_image_locked`, which returns the offset. -/
def appendWalImage (data : τ) (lsn : ℕ) : PageServer τ × ℕ :=
  ({ s with walImages := s.walImages ++ [.image pageId lsn data] }, s.walImages.length)

/-- `insert_log_entry_locked`, and the page metadata, as `remember_version_locked` and `load_wal_index` both have
it. -/
def rememberVersion (pageId lsn walOffset : ℕ) : PageServer τ :=
  { s with
    logIndex := Function.update s.logIndex pageId
      (addVersion PageLogIndexEntry.lsn (s.logIndex pageId) ⟨lsn, walOffset⟩)
    latestLsn := Function.update s.latestLsn pageId
      (if (s.latestLsn pageId).all fun latest => decide (latest ≤ lsn) then some lsn else s.latestLsn pageId) }

/-- The part of `write_page` under the shard's latch; the flag says whether the primary copy is to be written. -/
def recordImage (pageId lsn walOffset : ℕ) : PageServer τ × Bool :=
  if lsn ≠ 0 ∧ (s.logIndex pageId).any fun e => e.lsn == lsn then (s, false)
  else
    (s.rememberVersion pageId lsn walOffset, (s.latestLsn pageId).all fun latest => decide (latest ≤ lsn))

def writePrimary (data : τ) : PageServer τ :=
  { s with primary := Function.update s.primary pageId (fmt.stamp data) }

/-- `write_page` from the append on. -/
def writeAccepted (data : τ) (lsn : ℕ) : PageServer τ :=
  let (s, walOffset) := s.appendWalImage pageId data lsn
  let (s, isNewest) := s.recordImage pageId lsn walOffset
  if isNewest then s.writePrimary fmt pageId data else s

def writePage (data : τ) (pageLsn : ℕ) : PageServer τ × Bool :=
  let lsn := writeLsn fmt data pageLsn
  if s.accepts lsn then (s.writeAccepted fmt pageId data lsn, true) else (s, false)

/-- `read_page` without an LSN. -/
def readPage : τ := s.primary pageId

end

end

end PageServer

/-- A `write_page` call that has returned true. -/
structure AcceptedWrite (τ : Type*) where
  pageId : ℕ
  lsn : ℕ
  data : τ

/-- Among the accepted writes, the last one first, `w` is the last one of those with the highest LSN of its page. -/
def NewestWrite {τ : Type*} (accepted : List (AcceptedWrite τ)) (w : AcceptedWrite τ) : Prop :=
  ∃ later earlier, accepted = later ++ w :: earlier ∧ (∀ x ∈ earlier, x.pageId = w.pageId → x.lsn ≤ w.lsn) ∧
    ∀ x ∈ later, x.pageId = w.pageId → x.lsn < w.lsn

variable {τ : Type*} {accepted : List (AcceptedWrite τ)} {w : AcceptedWrite τ}

/-- One more write: it is the newest one of its page, or does not matter. -/
lemma newestWrite_cons {a : AcceptedWrite τ} :
    NewestWrite (a :: accepted) w ↔ (w = a ∧ ∀ x ∈ accepted, x.pageId = a.pageId → x.lsn ≤ a.lsn) ∨
        NewestWrite accepted w ∧ (a.pageId = w.pageId → a.lsn < w.lsn) := by
  constructor
  · rintro ⟨later, earlier, heq, hearlier, hlater⟩
    cases later with
    | nil =>
      cases heq
      exact .inl ⟨rfl, hearlier⟩
    | cons b later =>
      cases heq
      exact .inr ⟨⟨later, earlier, rfl, hearlier, fun x hx => hlater x (mem_cons_of_mem a hx)⟩, hlater a mem_cons_self⟩
  · rintro (⟨rfl, hmax⟩ | ⟨⟨later, earlier, rfl, hearlier, hlater⟩, hlt⟩)
    · exact ⟨[], accepted, rfl, hmax, fun x hx => nomatch hx⟩
    · refine ⟨a :: later, earlier, rfl, hearlier, fun x hx => ?_⟩
      rcases mem_cons.1 hx with rfl | hx
      · exact hlt
      · exact hlater x hx

lemma NewestWrite.mem (h : NewestWrite accepted w) : w ∈ accepted := by
  obtain ⟨later, earlier, rfl, -⟩ := h
  simp

lemma NewestWrite.le {x : AcceptedWrite τ}
    (h : NewestWrite accepted w) (hx : x ∈ accepted) (hp : x.pageId = w.pageId) : x.lsn ≤ w.lsn := by
  obtain ⟨later, earlier, rfl, hearlier, hlater⟩ := h
  rcases mem_append.1 hx with hx | hx
  · exact (hlater x hx hp).le
  · rcases mem_cons.1 hx with rfl | hx
    · exact le_rfl
    · exact hearlier x hx hp

/-- A page server and the writes it has accepted, the last one first. -/
structure PageHistory (τ : Type*) where
  server : PageServer τ
  accepted : List (AcceptedWrite τ)

inductive PageCall (τ : Type*) where
  | write (pageId : ℕ) (data : τ) (pageLsn : ℕ)
  | setDurableLsn (lsn : ℕ)

namespace PageHistory

variable {τ : Type*} (fmt : PageFormat τ)

def init : PageHistory τ := ⟨.init fmt, []⟩

section

variable (s : PageHistory τ)

def call : PageCall τ → PageHistory τ
  | .write pageId data pageLsn =>
    match s.server.writePage fmt pageId data pageLsn with
    | (server, true) => ⟨server, ⟨pageId, writeLsn fmt data pageLsn, data⟩ :: s.accepted⟩
    | (server, false) => ⟨server, s.accepted⟩
  | .setDurableLsn lsn => ⟨s.server.setDurableLsn lsn, s.accepted⟩

/-- A plain read gives, for each page, the last image accepted among those with the highest LSN. -/
def NewestWins : Prop :=
  ∀ w, NewestWrite s.accepted w → s.server.readPage w.pageId = fmt.stamp w.data

/-- The condition on a call: an image that is accepted under the highest LSN of its page is the image that is
there, unless the LSN is zero. -/
def SameImage : PageCall τ → Prop
  | .write pageId data pageLsn =>
    let lsn := writeLsn fmt data pageLsn
    s.server.accepts lsn = true → lsn ≠ 0 → s.server.latestLsn pageId = some lsn →
      s.server.primary pageId = fmt.stamp data
  | .setDurableLsn _ => True

end

end PageHistory

namespace PageServer

variable {τ : Type*} {s : PageServer τ} {recorded : ℕ → ℕ → Prop}

/-- The index and the metadata go with the LSNs that were recorded for each page. -/
structure Indexed (s : PageServer τ) (recorded : ℕ → ℕ → Prop) : Prop where
  sorted : ∀ p, SortedBy PageLogIndexEntry.lsn (s.logIndex p)
  mem : ∀ p lsn, lsn ∈ (s.logIndex p).map PageLogIndexEntry.lsn ↔ recorded p lsn
  latest : ∀ p l, s.latestLsn p = some l → recorded p l ∧ ∀ lsn, recorded p lsn → lsn ≤ l
  unknown : ∀ p, s.latestLsn p = none → ∀ lsn, ¬ recorded p lsn

lemma indexed_init (fmt : PageFormat τ) : (init fmt).Indexed fun _ _ => False where
  sorted := fun _ => .nil
  mem := fun _ _ => by simp [init]
  latest := fun _ _ h => nomatch h
  unknown := fun _ _ _ => id

section

variable (h : s.Indexed recorded)
include h

lemma Indexed.congr {s' : PageServer τ} {recorded' : ℕ → ℕ → Prop}
    (hindex : s'.logIndex = s.logIndex) (hlatest : s'.latestLsn = s.latestLsn)
    (heq : ∀ p lsn, recorded' p lsn ↔ recorded p lsn) : s'.Indexed recorded' := by
  obtain rfl : recorded' = recorded := funext fun p => funext fun lsn => propext (heq p lsn)
  exact ⟨hindex ▸ h.sorted, hindex ▸ h.mem, hlatest ▸ h.latest, hlatest ▸ h.unknown⟩

lemma Indexed.latest_eq {p l : ℕ} (hl : recorded p l) (hmax : ∀ lsn, recorded p lsn → lsn ≤ l) :
    s.latestLsn p = some l := by
  cases hlat : s.latestLsn p with
  | none => exact absurd hl (h.unknown p hlat l)
  | some l' =>
    obtain ⟨hl', hmax'⟩ := h.latest p l' hlat
    rw [le_antisymm (hmax l' hl') (hmax' l hl)]

lemma Indexed.any_lsn (pageId lsn : ℕ) :
    ((s.logIndex pageId).any fun e => e.lsn == lsn) = true ↔ recorded pageId lsn := by
  rw [← h.mem, any_eq_true, mem_map]
  simp only [beq_iff_eq]

lemma Indexed.all_latest (pageId lsn : ℕ) : ((s.latestLsn pageId).all fun latest => decide (latest ≤ lsn)) = true ↔
      ∀ l, recorded pageId l → l ≤ lsn := by
  cases hlatest : s.latestLsn pageId with
  | none =>
    refine iff_of_true rfl fun l hl => ?_
    exact absurd hl (h.unknown pageId hlatest l)
  | some latest =>
    obtain ⟨hrec, hmax⟩ := h.latest pageId latest hlatest
    simp only [Option.all_some, decide_eq_true_eq]
    exact ⟨fun hle l hl => (hmax l hl).trans hle, fun hall => hall latest hrec⟩

lemma Indexed.rememberVersion (pageId lsn walOffset : ℕ) :
    (s.rememberVersion pageId lsn walOffset).Indexed fun p l => recorded p l ∨ p = pageId ∧ l = lsn where
  sorted := by
    intro p
    by_cases hp : p = pageId
    · subst hp
      simpa [PageServer.rememberVersion] using (h.sorted p).addVersion _
    · simpa [PageServer.rememberVersion, hp] using h.sorted p
  mem := by
    intro p l
    by_cases hp : p = pageId
    · subst hp
      rw [← h.mem]
      simp only [PageServer.rememberVersion, update_self, mem_map, (h.sorted p).mem_addVersion]
      constructor
      · rintro ⟨e, rfl | he, rfl⟩
        · exact .inr ⟨trivial, rfl⟩
        · exact .inl ⟨e, he, rfl⟩
      · rintro (⟨e, he, rfl⟩ | ⟨-, rfl⟩)
        · exact ⟨e, .inr he, rfl⟩
        · exact ⟨_, .inl rfl, rfl⟩
    · simp [PageServer.rememberVersion, hp, ← h.mem]
  latest := by
    intro p l hl
    by_cases hp : p = pageId
    · subst hp
      simp only [PageServer.rememberVersion, update_self] at hl
      split_ifs at hl with hall
      · cases hl
        rw [h.all_latest] at hall
        refine ⟨.inr ⟨rfl, rfl⟩, ?_⟩
        rintro l' (hl' | ⟨-, rfl⟩)
        · exact hall l' hl'
        · exact le_rfl
      · obtain ⟨hrec, hmax⟩ := h.latest p l hl
        refine ⟨.inl hrec, ?_⟩
        rintro l' (hl' | ⟨-, rfl⟩)
        · exact hmax l' hl'
        · rw [hl] at hall
          simp only [Option.all_some, decide_eq_true_eq] at hall
          omega
    · simp only [PageServer.rememberVersion, update_of_ne hp] at hl
      simpa [hp] using h.latest p l hl
  unknown := by
    intro p hnone
    by_cases hp : p = pageId
    · subst hp
      simp only [PageServer.rememberVersion, update_self] at hnone
      split_ifs at hnone with hall
      rw [hnone] at hall
      exact absurd rfl hall
    · simp only [PageServer.rememberVersion, update_of_ne hp] at hnone
      simpa [hp] using h.unknown p hnone

/-- What the part under the shard's latch does: the LSN is there already, or it is recorded. -/
lemma Indexed.recordImage (pageId lsn walOffset : ℕ) :
    (lsn ≠ 0 ∧ recorded pageId lsn ∧ s.recordImage pageId lsn walOffset = (s, false)) ∨
      ((lsn = 0 ∨ ¬ recorded pageId lsn) ∧ ∃ isNewest,
        s.recordImage pageId lsn walOffset = (s.rememberVersion pageId lsn walOffset, isNewest) ∧
          (isNewest = true ↔ ∀ l, recorded pageId l → l ≤ lsn)) := by
  rw [PageServer.recordImage]
  split_ifs with hdup
  · exact .inl ⟨hdup.1, (h.any_lsn pageId lsn).1 hdup.2, rfl⟩
  · rw [h.any_lsn] at hdup
    exact .inr ⟨by tauto, _, rfl, h.all_latest pageId lsn⟩

end

lemma writeAccepted_of_recordImage {fmt : PageFormat τ} {pageId lsn : ℕ} {data : τ} {s' : PageServer τ}
    {isNewest : Bool}
    (heq : (s.appendWalImage pageId data lsn).1.recordImage pageId lsn s.walImages.length = (s', isNewest)) :
    s.writeAccepted fmt pageId data lsn = if isNewest then s'.writePrimary fmt pageId data else s' := by
  simp only [appendWalImage] at heq
  simp [writeAccepted, appendWalImage, heq]

end PageServer

namespace PageHistory

variable {τ : Type*} {fmt : PageFormat τ} {s s' : PageHistory τ}

/-- The LSNs that were accepted for a page. -/
def Recorded (s : PageHistory τ) (p lsn : ℕ) : Prop := ∃ w ∈ s.accepted, w.pageId = p ∧ w.lsn = lsn

structure Inv (fmt : PageFormat τ) (s : PageHistory τ) : Prop where
  indexed : s.server.Indexed s.Recorded
  newest : s.NewestWins fmt

lemma recorded_cons (w : AcceptedWrite τ) (server : PageServer τ) (p lsn : ℕ) :
    Recorded ⟨server, w :: s.accepted⟩ p lsn ↔ s.Recorded p lsn ∨ p = w.pageId ∧ lsn = w.lsn := by
  simp only [Recorded, mem_cons, exists_eq_or_imp, eq_comm (a := p), eq_comm (a := lsn)]
  exact or_comm

/-- What an accepted write does: in any case the LSN is recorded afterwards.  The primary copy stays if the LSN was
recorded before, or if a higher one was. -/
lemma writeAccepted_spec (fmt : PageFormat τ) (h : s.server.Indexed s.Recorded) (pageId : ℕ)
    (data : τ) (lsn : ℕ) :
    (s.server.writeAccepted fmt pageId data lsn).Indexed (Recorded ⟨s.server, ⟨pageId, lsn, data⟩ :: s.accepted⟩) ∧
      ((((lsn ≠ 0 ∧ s.Recorded pageId lsn) ∨ ∃ l, s.Recorded pageId l ∧ lsn < l) ∧
          (s.server.writeAccepted fmt pageId data lsn).primary = s.server.primary) ∨
        ((lsn = 0 ∨ ¬ s.Recorded pageId lsn) ∧ (∀ l, s.Recorded pageId l → l ≤ lsn) ∧
          (s.server.writeAccepted fmt pageId data lsn).primary = update s.server.primary pageId (fmt.stamp data))) := by
  have happend : (s.server.appendWalImage pageId data lsn).1.Indexed s.Recorded :=
    h.congr rfl rfl fun _ _ => Iff.rfl
  have hcons : ∀ p l, Recorded ⟨s.server, ⟨pageId, lsn, data⟩ :: s.accepted⟩ p l ↔
      s.Recorded p l ∨ p = pageId ∧ l = lsn := recorded_cons ⟨pageId, lsn, data⟩ s.server
  rcases happend.recordImage pageId lsn s.server.walImages.length with ⟨h0, hrec, heq⟩ | ⟨hnew, isNewest, heq, hmax⟩
  · rw [writeAccepted_of_recordImage heq]
    refine ⟨happend.congr rfl rfl fun p l => (hcons p l).trans (or_iff_left_of_imp ?_), .inl ⟨.inl ⟨h0, hrec⟩, rfl⟩⟩
    rintro ⟨rfl, rfl⟩
    exact hrec
  · rw [writeAccepted_of_recordImage heq]
    have hremember := (happend.rememberVersion pageId lsn s.server.walImages.length).congr rfl rfl hcons
    cases isNewest with
    | true => exact ⟨hremember.congr rfl rfl fun _ _ => Iff.rfl, .inr ⟨hnew, hmax.1 rfl, rfl⟩⟩
    | false =>
      have hhigher : ∃ l, s.Recorded pageId l ∧ lsn < l := by
        by_contra hnone
        push Not at hnone
        cases hmax.2 hnone
      exact ⟨hremember, .inl ⟨.inr hhigher, rfl⟩⟩

/-- A call is a write that was accepted, or leaves the pages alone. -/
lemma call_cases (fmt : PageFormat τ) (s : PageHistory τ) (c : PageCall τ) :
    (∃ pageId data pageLsn, c = .write pageId data pageLsn ∧ s.server.accepts (writeLsn fmt data pageLsn) = true ∧
        s.call fmt c = ⟨s.server.writeAccepted fmt pageId data (writeLsn fmt data pageLsn),
          ⟨pageId, writeLsn fmt data pageLsn, data⟩ :: s.accepted⟩) ∨
      ((∀ pageId data pageLsn, c = .write pageId data pageLsn → s.server.accepts (writeLsn fmt data pageLsn) = false) ∧
        ∃ durableLsn, s.call fmt c = ⟨{ s.server with durableLsn := durableLsn }, s.accepted⟩) := by
  cases c with
  | write pageId data pageLsn =>
    simp only [call, writePage]
    split_ifs with hacc
    · exact .inl ⟨pageId, data, pageLsn, rfl, hacc, rfl⟩
    · refine .inr ⟨fun pageId' data' pageLsn' heq => ?_, s.server.durableLsn, rfl⟩
      cases heq
      simpa using hacc
  | setDurableLsn lsn =>
    refine .inr ⟨fun _ _ _ h => (nomatch h), ?_⟩
    simp only [call, setDurableLsn]
    split_ifs
    · exact ⟨lsn, rfl⟩
    · exact ⟨s.server.durableLsn, rfl⟩

lemma Inv.call (h : s.Inv fmt) {c : PageCall τ} (hsame : s.SameImage fmt c) : (s.call fmt c).Inv fmt := by
  rcases call_cases fmt s c with ⟨pageId, data, pageLsn, rfl, hacc, heq⟩ | ⟨-, durableLsn, heq⟩
  · rw [heq]
    obtain ⟨hindexed, hprimary⟩ := writeAccepted_spec fmt h.indexed pageId data (writeLsn fmt data pageLsn)
    generalize hlsn : writeLsn fmt data pageLsn = lsn at hindexed hprimary hacc ⊢
    refine ⟨hindexed, fun w hw => ?_⟩
    rw [readPage]
    rcases newestWrite_cons.1 hw with ⟨rfl, hmax⟩ | ⟨hold, hlt⟩
    · rcases hprimary with ⟨hstays, hprimary⟩ | ⟨-, -, hprimary⟩
      · -- the LSN is there already, as the highest one
        have hmax' : ∀ l, s.Recorded pageId l → l ≤ lsn := by
          rintro l ⟨x, hx, hp, rfl⟩
          exact hmax x hx hp
        obtain ⟨h0, hrec⟩ : lsn ≠ 0 ∧ s.Recorded pageId lsn := by
          rcases hstays with hdup | ⟨l, hl, hlt⟩
          · exact hdup
          · exact absurd hlt (not_lt.2 (hmax' l hl))
        rw [hprimary]
        subst hlsn
        exact hsame hacc h0 (h.indexed.latest_eq hrec hmax')
      · rw [hprimary, update_self]
    · have hread : s.server.primary w.pageId = fmt.stamp w.data := h.newest w hold
      rcases hprimary with ⟨-, hprimary⟩ | ⟨-, hmax, hprimary⟩
      · rw [hprimary, hread]
      · -- the new image is the highest of its page, so that `w` is of another one
        have hp : w.pageId ≠ pageId := by
          intro hp
          have hle := hmax w.lsn ⟨w, hold.mem, hp, rfl⟩
          exact absurd (hlt hp.symm) (not_lt.2 hle)
        rw [hprimary, update_of_ne hp, hread]
  · rw [heq]
    exact ⟨h.indexed.congr rfl rfl fun _ _ => Iff.rfl, h.newest⟩

/-- Another image under the highest LSN is accepted and dropped. -/
lemma not_newestWins_of_not_sameImage (h : s.Inv fmt) {c : PageCall τ} (hsame : ¬ s.SameImage fmt c) :
    ¬ (s.call fmt c).NewestWins fmt := by
  intro hwins
  rcases call_cases fmt s c with ⟨pageId, data, pageLsn, rfl, hacc, heq⟩ | ⟨hrej, -⟩
  · rw [heq] at hwins
    simp only [SameImage] at hsame
    push Not at hsame
    obtain ⟨-, h0, hlatest, hne⟩ := hsame
    obtain ⟨hrec, hmax⟩ := h.indexed.latest pageId _ hlatest
    refine hne ?_
    rcases (writeAccepted_spec fmt h.indexed pageId data (writeLsn fmt data pageLsn)).2 with
      ⟨-, hprimary⟩ | ⟨hnew, -⟩
    swap
    · tauto
    rw [← hprimary]
    refine hwins ⟨pageId, _, data⟩ (newestWrite_cons.2 (.inl ⟨rfl, fun x hx hp => ?_⟩))
    exact hmax x.lsn ⟨x, hx, hp, rfl⟩
  · refine hsame ?_
    cases c with
    | write pageId data pageLsn =>
      intro hacc
      rw [hrej pageId data pageLsn rfl] at hacc
      cases hacc
    | setDurableLsn lsn => trivial

lemma inv_init (fmt : PageFormat τ) : (init fmt).Inv fmt where
  indexed := (indexed_init fmt).congr rfl rfl fun p lsn => by simp [Recorded, init]
  newest := by
    rintro w ⟨later, earlier, heq, -⟩
    simp [init] at heq

/-- **The newest image wins if and only if no accepted image differs from the one that its page has under the same
LSN.** -/
theorem newestWins_iff (fmt : PageFormat τ) (calls : List (PageCall τ)) :
    Always (total (call fmt)) (NewestWins fmt) (init fmt) calls ↔
      StepsMeet (total (call fmt)) (SameImage fmt) (init fmt) calls := by
  refine always_iff_stepsMeet (I := Inv fmt) ?_ (fun _ h => h.newest) ?_ (inv_init fmt) (runs_total ..)
  · rintro s c s' h hsame ⟨⟩
    exact h.call hsame
  · rintro s c s' h hsame ⟨⟩
    exact not_newestWins_of_not_sameImage h hsame

end PageHistory

/-- Images that are an LSN and a content, stored as they are. -/
def plainFormat : PageFormat (ℕ × ℕ) where
  zero := (0, 0)
  headerLsn := Prod.fst
  stamp := id
  headerLsn_zero := rfl
  headerLsn_stamp := fun _ => rfl

/-- A page is written twice under LSN 5, the second time with other bytes. -/
theorem PageHistory.second_image_dropped :
    ¬ Always (total (call plainFormat)) (NewestWins plainFormat) (init plainFormat)
      [.write 7 (5, 1) 5, .write 7 (5, 2) 5] := by
  intro h
  have hnewest : NewestWrite [⟨7, 5, (5, 2)⟩, ⟨7, 5, (5, 1)⟩] (⟨7, 5, (5, 2)⟩ : AcceptedWrite (ℕ × ℕ)) :=
    ⟨[], _, rfl, by simp, by simp⟩
  have hread := h.last (runs_total ..) ⟨7, 5, (5, 2)⟩ hnewest
  exact absurd hread (by decide)

end MiniDb
