import MiniDb.Recovery.Wal

/-!
# The log manager

`WalManager` puts a record into a buffer of 8192 bytes, the header first and then the payload, and writes the buffer
when it is full or when somebody asks for it.  A write may fail after some of its bytes; the buffer is then kept as it
is and written again by the next flush.  The durable LSN is stored by whoever flushed the log.

A byte of the log is given by the record that it belongs to and its position there, and a byte that belongs to no
record, such as a crash leaves, is `none`.  `written` holds all bytes ever written; the log file is what comes behind
`base`, which moves when a checkpoint truncates the file.

LSNs count records and are natural numbers; the 64-bit counter of the source does not wrap in practice.
-/

namespace MiniDb

open List

variable {β : Type*}

def kWalBufferSize : ℕ := 8192

/-- `sizeof(WalRecord)`. -/
def kWalHeaderSize : ℕ := 32

/-- A record of the log; `dataLen` is the length of its payload. -/
structure LogRecord (β : Type*) where
  lsn : ℕ
  txnId : ℕ
  op : WalOp β
  dataLen : ℕ
  deriving DecidableEq

abbrev LogByte (β : Type*) := Option (LogRecord β × ℕ)

namespace LogRecord

section

variable (r : LogRecord β)

def header : List (LogByte β) :=
  (List.range kWalHeaderSize).map fun i => some (r, i)

def payload : List (LogByte β) :=
  (List.range r.dataLen).map fun i => some (r, kWalHeaderSize + i)

def bytes : List (LogByte β) := r.header ++ r.payload

/-- The record as recovery decodes it. -/
def toWal : WalRecord β := ⟨r.lsn, r.txnId, r.op⟩

lemma eq_of_mem_bytes {r r' : LogRecord β} {i : ℕ} (h : some (r', i) ∈ r.bytes) : r' = r := by
  rcases mem_append.1 h with h | h
  · obtain ⟨j, -, heq⟩ := mem_map.1 h
    cases heq
    rfl
  · obtain ⟨j, -, heq⟩ := mem_map.1 h
    cases heq
    rfl

@[simp] lemma length_header : r.header.length = kWalHeaderSize := by simp [header]

@[simp] lemma length_payload : r.payload.length = r.dataLen := by simp [payload]

end

end LogRecord

structure LogConfig where
  fsyncEnabled : Bool
  /-- group commit is enabled, with a delay -/
  groupCommit : Bool
  segmentSize : ℕ

/-- What the calls of the operating system return, by the number of the call. -/
structure LogIo where
  /-- a write fails after so many bytes, or succeeds -/
  write : ℕ → Option ℕ
  fsync : ℕ → Bool
  fstat : ℕ → Bool
  /-- the log file can be opened again after its truncation -/
  reopen : ℕ → Bool

structure LogManager (β : Type*) where
  isOpen : Bool
  buf : List (LogByte β)
  written : List (LogByte β)
  base : ℕ
  /-- how many of the written bytes a successful `fsync` has covered -/
  synced : ℕ
  nextLsn : ℕ
  durableLsn : ℕ
  lastWrittenLsn : ℕ
  pendingCommitWaiters : ℕ
  commitBatchId : ℕ
  ioCalls : ℕ

namespace LogManager

variable (cfg : LogConfig) (io : LogIo)

/-- `WalManager()`, on an empty log. -/
def create : LogManager β where
  isOpen := true
  buf := []
  written := []
  base := 0
  synced := 0
  nextLsn := 1
  durableLsn := 0
  lastWrittenLsn := 0
  pendingCommitWaiters := 0
  commitBatchId := 0
  ioCalls := 0

/-- `WalManager()` on an existing file, after `recover`. -/
def reopened (file : List (LogByte β)) (nextLsn ioCalls : ℕ) : LogManager β :=
  { create with
    written := file, synced := file.length, nextLsn := nextLsn, durableLsn := nextLsn - 1
    lastWrittenLsn := nextLsn - 1, ioCalls := ioCalls }

section

variable (l : LogManager β)

section

variable (data : List (LogByte β))

def writeDirect : LogManager β × Bool :=
  if !l.isOpen then (l, false)
  else match io.write l.ioCalls with
    | none => ({ l with written := l.written ++ data, ioCalls := l.ioCalls + 1 }, true)
    | some k =>
      -- A write that fails has not written its last byte.
      ({ l with written := l.written ++ data.dropLast.take k, ioCalls := l.ioCalls + 1 }, false)

def flushBuffer : LogManager β × Bool :=
  if l.buf = [] then (l, true)
  else
    let (l, ok) := l.writeDirect io l.buf
    if ok then ({ l with buf := [] }, true) else (l, false)

/-- The end of `append_to_buffer`: the bytes are copied, and a full buffer is written. -/
def copyToBuffer : LogManager β × Bool :=
  let l := { l with buf := l.buf ++ data }
  if l.buf.length = kWalBufferSize then l.flushBuffer io else (l, true)

def appendToBuffer : LogManager β × Bool :=
  if data = [] then (l, true)
  else if kWalBufferSize < data.length then
    let (l, ok) := l.flushBuffer io
    if ok then l.writeDirect io data else (l, false)
  else if kWalBufferSize < l.buf.length + data.length then
    let (l, ok) := l.flushBuffer io
    if ok then l.copyToBuffer io data else (l, false)
  else l.copyToBuffer io data

end

/-- `fsync` of the log file. -/
def fsync : LogManager β × Bool :=
  if io.fsync l.ioCalls then
    ({ l with synced := l.written.length, ioCalls := l.ioCalls + 1 }, true)
  else ({ l with ioCalls := l.ioCalls + 1 }, false)

/-- `flush_buffer() && (!fsync_enabled_ || fsync(fd_) == 0)`. -/
def flushAndSync : LogManager β × Bool :=
  let (l, ok) := l.flushBuffer io
  if ok && cfg.fsyncEnabled then l.fsync io else (l, ok)

/-- Both parts of a record, one after the other. -/
def appendRecord (r : LogRecord β) : LogManager β × Bool :=
  let (l, ok) := l.appendToBuffer io r.header
  if ok then l.appendToBuffer io r.payload else (l, false)

/-- The record gets the next LSN. -/
def advance : LogManager β :=
  { l with nextLsn := l.nextLsn + 1, lastWrittenLsn := l.nextLsn }

/-- The end of `write_record`: a segment that is too large is made durable. -/
def closeSegment : LogManager β :=
  let stat := io.fstat l.ioCalls
  let l := { l with ioCalls := l.ioCalls + 1 }
  if stat && decide (cfg.segmentSize < l.written.length - l.base + l.buf.length) then
    let (l, ok) := l.flushAndSync cfg io
    if ok then { l with durableLsn := l.lastWrittenLsn } else l
  else l

/-- The record that `write_record` makes. -/
def nextRecord (txnId : ℕ) (op : WalOp β) (dataLen : ℕ) : LogRecord β :=
  ⟨l.nextLsn, txnId, op, dataLen⟩

/-- `write_record`, with the LSN, or 0. -/
def writeRecord (txnId : ℕ) (op : WalOp β) (dataLen : ℕ) : LogManager β × ℕ :=
  if !l.isOpen then (l, 0)
  else
    let lsn := l.nextLsn
    let (l, ok) := l.appendRecord io (l.nextRecord txnId op dataLen)
    if ok then (l.advance.closeSegment cfg io, lsn) else (l, 0)

def flush : LogManager β :=
  if l.isOpen then
    let (l, ok) := l.flushAndSync cfg io
    if ok then { l with durableLsn := l.lastWrittenLsn } else l
  else l

def flushUntil (lsn : ℕ) : LogManager β × Bool :=
  if lsn = 0 ∨ lsn ≤ l.durableLsn then (l, true)
  else if !l.isOpen then (l, false)
  else
    let (l, ok) := l.flushAndSync cfg io
    if ok then ({ l with durableLsn := l.lastWrittenLsn }, decide (lsn ≤ l.lastWrittenLsn)) else (l, false)

/-- The second half of `log_abort`, which takes the latch anew. -/
def flushAbort (lsn : ℕ) : LogManager β :=
  let (l, ok) := l.flushBuffer io
  if ok && l.isOpen then
    if cfg.fsyncEnabled then
      let (l, ok) := l.fsync io
      if ok then { l with durableLsn := lsn } else l
    else { l with durableLsn := lsn }
  else l

/-- What `flush_commit` comes to: an answer, or a wait for the batch. -/
inductive CommitOutcome where
  | done (ok : Bool)
  | wait (batch : ℕ)
  deriving DecidableEq

/-- `flush_commit`, to its end or to the wait of a follower. -/
def flushCommit (lsn : ℕ) : LogManager β × CommitOutcome :=
  if !l.isOpen then (l, .done false)
  else if !cfg.fsyncEnabled then
    let (l, ok) := l.flushBuffer io
    if ok then
      let l := if l.durableLsn < lsn then { l with durableLsn := lsn } else l
      (l, .done (decide (lsn ≤ l.durableLsn)))
    else (l, .done false)
  else if !cfg.groupCommit then
    let (l, ok) := l.flushAndSync cfg io
    if ok then ({ l with durableLsn := l.lastWrittenLsn }, .done (decide (lsn ≤ l.lastWrittenLsn)))
    else (l, .done false)
  else if l.pendingCommitWaiters = 0 then
    -- The leader: it is alone, so that it does not wait.
    let (l, ok) := l.flushAndSync cfg io
    let l := if ok then { l with durableLsn := l.lastWrittenLsn } else l
    ({ l with commitBatchId := l.commitBatchId + 1, pendingCommitWaiters := 0 },
      .done (ok && decide (lsn ≤ l.durableLsn)))
  else
    let l := { l with pendingCommitWaiters := l.pendingCommitWaiters + 1 }
    if l.durableLsn < lsn then (l, .wait l.commitBatchId) else (l, .done true)

/-- `checkpoint`; the pages are flushed in between, which does not concern the log. -/
def checkpoint (allowTruncate : Bool) : LogManager β :=
  if !l.isOpen then l
  else
    let (l, ok) := l.appendToBuffer io (l.nextRecord 0 .other 0).header
    if !ok then l
    else
      let (l, ok) := l.advance.flushAndSync cfg io
      if !ok then l
      else
        let l := { l with durableLsn := l.lastWrittenLsn }
        if allowTruncate then
          { l with
            isOpen := io.reopen l.ioCalls, ioCalls := l.ioCalls + 1
            base := l.written.length, lastWrittenLsn := l.durableLsn }
        else l

/-- The last phase of `checkpoint`: the file is truncated and opened again. -/
def truncateFile : LogManager β :=
  { l with
    isOpen := io.reopen l.ioCalls, ioCalls := l.ioCalls + 1
    base := l.written.length, lastWrittenLsn := l.durableLsn }

/-! ## What writing and flushing can change -/

/-- The bytes that are in the log file, were there before a truncation, or wait in the buffer. -/
def Holds (b : LogByte β) : Prop := b ∈ l.written ∨ b ∈ l.buf

end

/-- Nothing but the buffer, the file and the number of calls has changed, no byte is lost, and the new bytes
are from `data`. -/
structure Wrote (l : LogManager β) (data : List (LogByte β)) (l' : LogManager β) : Prop where
  written : l.written <+: l'.written
  kept : ∀ b, l.Holds b → l'.Holds b
  fresh : ∀ b, l'.Holds b → l.Holds b ∨ b ∈ data
  synced : l.synced ≤ l'.synced
  covered : l.synced ≤ l.written.length → l'.synced ≤ l'.written.length
  isOpen : l'.isOpen = l.isOpen
  base : l'.base = l.base
  nextLsn : l'.nextLsn = l.nextLsn
  durableLsn : l'.durableLsn = l.durableLsn
  lastWrittenLsn : l'.lastWrittenLsn = l.lastWrittenLsn
  waiters : l'.pendingCommitWaiters = l.pendingCommitWaiters
  batch : l'.commitBatchId = l.commitBatchId

section

variable (cfg : LogConfig) (io : LogIo) {l l' l'' : LogManager β} {data data' : List (LogByte β)}

omit cfg io in
lemma Wrote.refl (l : LogManager β) (data : List (LogByte β)) : l.Wrote data l :=
  ⟨prefix_rfl, fun _ h => h, fun _ h => .inl h, le_rfl, id, rfl, rfl, rfl, rfl, rfl, rfl, rfl⟩

omit cfg io in
lemma Wrote.trans (h : l.Wrote data l') (h' : l'.Wrote data' l'') : l.Wrote (data ++ data') l'' where
  written := h.written.trans h'.written
  kept := fun b hb => h'.kept b (h.kept b hb)
  fresh := by
    intro b hb
    rcases h'.fresh b hb with hb | hb
    · rcases h.fresh b hb with hb | hb
      · exact .inl hb
      · exact .inr (mem_append_left _ hb)
    · exact .inr (mem_append_right _ hb)
  synced := h.synced.trans h'.synced
  covered := fun hc => h'.covered (h.covered hc)
  isOpen := h'.isOpen.trans h.isOpen
  base := h'.base.trans h.base
  nextLsn := h'.nextLsn.trans h.nextLsn
  durableLsn := h'.durableLsn.trans h.durableLsn
  lastWrittenLsn := h'.lastWrittenLsn.trans h.lastWrittenLsn
  waiters := h'.waiters.trans h.waiters
  batch := h'.batch.trans h.batch

omit cfg io in
/-- The new bytes are among others, or were there before. -/
lemma Wrote.mono (h : l.Wrote data l') (hdata : ∀ b ∈ data, b ∈ data' ∨ l.Holds b) : l.Wrote data' l' :=
  { h with
    fresh := by
      intro b hb
      rcases h.fresh b hb with hb | hb
      · exact .inl hb
      · exact (hdata b hb).symm }

omit cfg io in
lemma Wrote.after (h : l.Wrote [] l') (h' : l'.Wrote data l'') : l.Wrote data l'' := by
  have htrans := h.trans h'
  rwa [nil_append] at htrans

omit cfg io in
lemma Wrote.before (h : l.Wrote data l') (h' : l'.Wrote [] l'') : l.Wrote data l'' := by
  have htrans := h.trans h'
  rwa [append_nil] at htrans

lemma writeDirect_wrote (l : LogManager β) (data : List (LogByte β)) :
    l.Wrote data (l.writeDirect io data).1 := by
  have hput : ∀ new : List (LogByte β), (∀ b ∈ new, b ∈ data) →
      l.Wrote data { l with written := l.written ++ new, ioCalls := l.ioCalls + 1 } := by
    intro new hnew
    refine ⟨prefix_append _ _, ?_, ?_, le_rfl, ?_, rfl, rfl, rfl, rfl, rfl, rfl, rfl⟩
    · rintro b (hb | hb)
      · exact .inl (mem_append_left _ hb)
      · exact .inr hb
    · rintro b (hb | hb)
      · rcases mem_append.1 hb with hb | hb
        · exact .inl (.inl hb)
        · exact .inr (hnew b hb)
      · exact .inl (.inr hb)
    · simp only [length_append]
      omega
  rw [writeDirect]
  split_ifs
  · exact .refl l data
  · cases io.write l.ioCalls with
    | none => exact hput data fun _ hb => hb
    | some k => exact hput _ fun _ hb => dropLast_subset _ (mem_of_mem_take hb)

lemma writeDirect_ok (h : (l.writeDirect io data).2 = true) :
    (l.writeDirect io data).1 = { l with written := l.written ++ data, ioCalls := l.ioCalls + 1 } := by
  simp only [writeDirect] at h ⊢
  split_ifs at h ⊢
  cases hw : io.write l.ioCalls with
  | none => rfl
  | some k =>
    rw [hw] at h
    cases h

lemma flushBuffer_ok (h : (l.flushBuffer io).2 = true) : (l.flushBuffer io).1.buf = [] := by
  simp only [flushBuffer] at h ⊢
  split_ifs at h ⊢ with hbuf hok
  · exact hbuf
  · rfl

lemma flushBuffer_wrote (l : LogManager β) : l.Wrote [] (l.flushBuffer io).1 := by
  have hw : l.Wrote [] (l.writeDirect io l.buf).1 :=
    (writeDirect_wrote io l l.buf).mono fun b hb => .inr (.inr hb)
  simp only [flushBuffer]
  split_ifs with hbuf hok
  · exact .refl l []
  · -- The buffer is emptied, and all its bytes are in the file.
    have heq := writeDirect_ok io hok
    refine { hw with kept := ?_, fresh := ?_ }
    · rintro b (hb | hb)
      · exact .inl (by simp [heq, hb])
      · exact .inl (by simp [heq, hb])
    · rintro b (hb | hb)
      · exact hw.fresh b (.inl hb)
      · exact absurd hb not_mem_nil
  · exact hw

omit cfg io in
lemma wrote_copy (l : LogManager β) (data : List (LogByte β)) :
    l.Wrote data { l with buf := l.buf ++ data } := by
  refine ⟨prefix_rfl, ?_, ?_, le_rfl, id, rfl, rfl, rfl, rfl, rfl, rfl, rfl⟩
  · rintro b (hb | hb)
    · exact .inl hb
    · exact .inr (mem_append_left _ hb)
  · rintro b (hb | hb)
    · exact .inl (.inl hb)
    · rcases mem_append.1 hb with hb | hb
      · exact .inl (.inr hb)
      · exact .inr hb

lemma copyToBuffer_wrote (l : LogManager β) (data : List (LogByte β)) :
    l.Wrote data (l.copyToBuffer io data).1 := by
  simp only [copyToBuffer]
  split_ifs
  · exact (wrote_copy l data).before (flushBuffer_wrote io _)
  · exact wrote_copy l data

variable {b : LogByte β}

lemma holds_copyToBuffer (hb : b ∈ data) : (l.copyToBuffer io data).1.Holds b := by
  have hcopied : Holds { l with buf := l.buf ++ data } b := .inr (mem_append_right _ hb)
  simp only [copyToBuffer]
  split_ifs
  · exact (flushBuffer_wrote io _).kept b hcopied
  · exact hcopied

lemma appendToBuffer_wrote (l : LogManager β) (data : List (LogByte β)) :
    l.Wrote data (l.appendToBuffer io data).1 := by
  have hflush := flushBuffer_wrote io l
  simp only [appendToBuffer]
  split_ifs
  · exact .refl l data
  · exact hflush.after (writeDirect_wrote io _ data)
  · exact hflush.mono fun b hb => absurd hb not_mem_nil
  · exact hflush.after (copyToBuffer_wrote io _ data)
  · exact hflush.mono fun b hb => absurd hb not_mem_nil
  · exact copyToBuffer_wrote io l data

lemma holds_appendToBuffer (h : (l.appendToBuffer io data).2 = true) (hb : b ∈ data) :
    (l.appendToBuffer io data).1.Holds b := by
  simp only [appendToBuffer] at h ⊢
  split_ifs at h ⊢ with hnil hlarge hok hfull hok
  · rw [hnil] at hb
    exact absurd hb not_mem_nil
  · rw [writeDirect_ok io h]
    exact .inl (mem_append_right _ hb)
  · exact holds_copyToBuffer io hb
  · exact holds_copyToBuffer io hb

lemma fsync_wrote (l : LogManager β) (hc : l.synced ≤ l.written.length) : l.Wrote [] (l.fsync io).1 := by
  rw [fsync]
  split_ifs
  · exact ⟨prefix_rfl, fun _ h => h, fun _ h => .inl h, hc, fun _ => le_rfl, rfl, rfl, rfl, rfl, rfl, rfl, rfl⟩
  · exact ⟨prefix_rfl, fun _ h => h, fun _ h => .inl h, le_rfl, id, rfl, rfl, rfl, rfl, rfl, rfl, rfl⟩

lemma flushAndSync_wrote (l : LogManager β) (hc : l.synced ≤ l.written.length) :
    l.Wrote [] (l.flushAndSync cfg io).1 := by
  have hflush := flushBuffer_wrote io l
  simp only [flushAndSync]
  split_ifs
  · exact hflush.after (fsync_wrote io _ (hflush.covered hc))
  · exact hflush

/-- Everything is written, and synced if that is asked for. -/
structure Stable (l : LogManager β) : Prop where
  buf : l.buf = []
  synced : cfg.fsyncEnabled → l.synced = l.written.length

lemma fsync_ok (hbuf : l.buf = []) (h : (l.fsync io).2 = true) : (l.fsync io).1.Stable cfg := by
  simp only [fsync] at h ⊢
  split_ifs at h ⊢
  exact ⟨hbuf, fun _ => rfl⟩

lemma flushAndSync_ok (h : (l.flushAndSync cfg io).2 = true) : (l.flushAndSync cfg io).1.Stable cfg := by
  simp only [flushAndSync] at h ⊢
  split_ifs at h ⊢ with hif
  · simp only [Bool.and_eq_true] at hif
    exact fsync_ok cfg io (flushBuffer_ok io hif.1) h
  · refine ⟨flushBuffer_ok io h, fun hf => absurd ?_ hif⟩
    rw [h, hf]
    rfl

lemma appendRecord_wrote (l : LogManager β) (r : LogRecord β) : l.Wrote r.bytes (l.appendRecord io r).1 := by
  have hheader := appendToBuffer_wrote io l r.header
  simp only [appendRecord]
  split_ifs
  · exact hheader.trans (appendToBuffer_wrote io _ r.payload)
  · exact hheader.mono fun b hb => .inl (mem_append_left _ hb)

lemma holds_appendRecord {r : LogRecord β} (h : (l.appendRecord io r).2 = true)
    (hb : b ∈ r.bytes) : (l.appendRecord io r).1.Holds b := by
  simp only [appendRecord] at h ⊢
  split_ifs at h ⊢ with hok
  rcases mem_append.1 hb with hb | hb
  · exact (appendToBuffer_wrote io _ r.payload).kept b (holds_appendToBuffer io hok hb)
  · exact holds_appendToBuffer io h hb

/-- What the functions that flush are made of: the buffer is written and the file synced, the counters change, and
with everything on stable storage the watermark becomes the last LSN, or a given one. -/
inductive Flushed (lsn : ℕ) (back : Prop) (l : LogManager β) : LogManager β → Prop where
  | refl : Flushed lsn back l l
  | write {l' : LogManager β} (h : Flushed lsn back l l') : Flushed lsn back l (l'.flushBuffer io).1
  | sync {l' : LogManager β} (h : Flushed lsn back l l') : Flushed lsn back l (l'.fsync io).1
  | store {l' : LogManager β} (h : Flushed lsn back l l') (hs : l'.Stable cfg) :
    Flushed lsn back l { l' with durableLsn := l'.lastWrittenLsn }
  | given {l' : LogManager β} (h : Flushed lsn back l l') (hs : l'.Stable cfg) (hlsn : back ∨ l'.durableLsn < lsn) :
    Flushed lsn back l { l' with durableLsn := lsn }
  | count {l' : LogManager β} (h : Flushed lsn back l l') (waiters batch calls : ℕ)
      (hwaiters : l'.pendingCommitWaiters = 0 → waiters = 0) :
    Flushed lsn back l { l' with pendingCommitWaiters := waiters, commitBatchId := batch, ioCalls := calls }

open Flushed

lemma Flushed.flushAndSync {lsn : ℕ} {back : Prop} (h : l.Flushed cfg io lsn back l') :
    l.Flushed cfg io lsn back (l'.flushAndSync cfg io).1 := by
  simp only [LogManager.flushAndSync]
  split_ifs
  · exact h.write.sync
  · exact h.write

lemma flushed_closeSegment (l : LogManager β) : l.Flushed cfg io 0 False (l.closeSegment cfg io) := by
  have hcall : l.Flushed cfg io 0 False { l with ioCalls := l.ioCalls + 1 } := refl.count _ _ _ id
  simp only [closeSegment]
  split_ifs with hif hok
  · exact hcall.flushAndSync.store (flushAndSync_ok cfg io hok)
  · exact hcall.flushAndSync
  · exact hcall

lemma flushed_flush (l : LogManager β) : l.Flushed cfg io 0 False (l.flush cfg io) := by
  simp only [flush]
  split_ifs with hopen hok
  · exact refl.flushAndSync.store (flushAndSync_ok cfg io hok)
  · exact refl.flushAndSync
  · exact .refl

lemma flushed_flushUntil (l : LogManager β) (lsn : ℕ) : l.Flushed cfg io 0 False (l.flushUntil cfg io lsn).1 := by
  simp only [flushUntil]
  split_ifs with hdone hopen hok
  · exact .refl
  · exact .refl
  · exact refl.flushAndSync.store (flushAndSync_ok cfg io hok)
  · exact refl.flushAndSync

lemma flushed_flushAbort (l : LogManager β) (lsn : ℕ) : l.Flushed cfg io lsn True (l.flushAbort cfg io lsn) := by
  simp only [flushAbort]
  split_ifs with hif hfsync hok
  · simp only [Bool.and_eq_true] at hif
    exact refl.write.sync.given (fsync_ok cfg io (flushBuffer_ok io hif.1) hok) (.inl trivial)
  · exact refl.write.sync
  · simp only [Bool.and_eq_true] at hif
    exact refl.write.given ⟨flushBuffer_ok io hif.1, fun hf => absurd hf hfsync⟩ (.inl trivial)
  · exact refl.write

lemma flushed_flushCommit (l : LogManager β) (lsn : ℕ) :
    l.Flushed cfg io lsn False (l.flushCommit cfg io lsn).1 := by
  simp only [flushCommit]
  split_ifs with hopen hfsync hok hlt hgroup hok hwaiters hok hlt
  · exact .refl
  · -- Without `fsync` a flushed buffer is all that is asked for.
    exact refl.write.given ⟨flushBuffer_ok io hok, fun hf => by simp [hf] at hfsync⟩ (.inr hlt)
  · exact refl.write
  · exact refl.write
  · exact refl.flushAndSync.store (flushAndSync_ok cfg io hok)
  · exact refl.flushAndSync
  · exact (refl.flushAndSync.store (flushAndSync_ok cfg io hok)).count _ _ _ fun _ => rfl
  · exact refl.flushAndSync.count _ _ _ fun _ => rfl
  · exact refl.count _ _ _ fun hz => absurd hz hwaiters
  · exact refl.count _ _ _ fun hz => absurd hz hwaiters

end

end LogManager

end MiniDb
