import MiniDb.Recovery.LogManager

/-!
# The durable watermark

The log manager under concurrent callers.  A step is what one caller does under the latch, so that `log_commit` and
`log_abort` are two steps each: the append, and the flush.

`log_abort` then stores the LSN of its own record, which may be far behind by that time.  `watermark_iff` says that
this is the only way for the watermark to go back, and that it is truthful in any case: of every record up to the
watermark all bytes are written, and synced if `fsync` is on.
-/

namespace MiniDb

open List List.Subset

variable {β : Type*}

/-- A commit or an abort record, which only `log_commit` and `log_abort` write. -/
def WalOp.endsTxn : WalOp β → Bool
  | .txnCommit => true
  | .txnAbort => true
  | _ => false

/-- The log manager, and the callers inside of `log_commit` and `log_abort`. -/
structure LogSystem (β : Type*) where
  log : LogManager β
  /-- the records whose append returned an LSN -/
  acked : List (LogRecord β)
  /-- LSN and transaction of the callers between the two steps of `log_commit` -/
  committing : List (ℕ × ℕ)
  /-- LSN, transaction and batch of the followers that wait -/
  followers : List (ℕ × ℕ × ℕ)
  /-- the LSNs of the callers between the two steps of `log_abort` -/
  aborting : List ℕ
  /-- the transactions that have called `log_commit` -/
  commitCalls : List ℕ
  /-- those for which it returned 0 -/
  failed : List ℕ

inductive LogAction (β : Type*) where
  | append (txnId : ℕ) (op : WalOp β) (dataLen : ℕ)
  | commitAppend (txnId : ℕ)
  | commitFlush (lsn txnId : ℕ)
  | commitWake (lsn txnId batch : ℕ)
  | abortAppend (txnId : ℕ)
  | abortFlush (lsn : ℕ)
  | flush
  | flushUntil (lsn : ℕ)
  | checkpoint (allowTruncate : Bool)

namespace LogSystem

variable (cfg : LogConfig) (io : LogIo)

def create : LogSystem β := ⟨.create, [], [], [], [], [], []⟩

/-- `write_record`, noted if it returns an LSN. -/
def record (s : LogSystem β) (txnId : ℕ) (op : WalOp β) (dataLen : ℕ) : LogSystem β × ℕ :=
  let (log, lsn) := s.log.writeRecord cfg io txnId op dataLen
  if lsn = 0 then ({ s with log := log }, 0)
  else ({ s with log := log, acked := s.acked ++ [s.log.nextRecord txnId op dataLen] }, lsn)

/-- `log_commit` returns. -/
def endCommit (s : LogSystem β) (txnId : ℕ) (ok : Bool) : LogSystem β :=
  if ok then s else { s with failed := txnId :: s.failed }

def step (s : LogSystem β) : LogAction β → Option (LogSystem β)
  | .append txnId op dataLen =>
    if op.endsTxn then none else some (s.record cfg io txnId op dataLen).1
  | .commitAppend txnId =>
    -- A transaction calls `log_commit` once.
    if txnId ∈ s.commitCalls then none
    else
      let (s, lsn) := { s with commitCalls := txnId :: s.commitCalls }.record cfg io txnId .txnCommit 0
      some (if lsn = 0 then s.endCommit txnId false
        else { s with committing := (lsn, txnId) :: s.committing })
  | .commitFlush lsn txnId =>
    if (lsn, txnId) ∈ s.committing then
      let (log, outcome) := s.log.flushCommit cfg io lsn
      let s := { s with log := log, committing := s.committing.erase (lsn, txnId) }
      match outcome with
      | .done ok => some (s.endCommit txnId ok)
      | .wait batch => some { s with followers := (lsn, txnId, batch) :: s.followers }
    else none
  | .commitWake lsn txnId batch =>
    if (lsn, txnId, batch) ∈ s.followers ∧ (lsn ≤ s.log.durableLsn ∨ s.log.commitBatchId ≠ batch) then
      let s := { s with followers := s.followers.erase (lsn, txnId, batch) }
      some (s.endCommit txnId (decide (lsn ≤ s.log.durableLsn)))
    else none
  | .abortAppend txnId =>
    let (s, lsn) := s.record cfg io txnId .txnAbort 0
    some (if lsn = 0 then s else { s with aborting := lsn :: s.aborting })
  | .abortFlush lsn =>
    if lsn ∈ s.aborting then
      some { s with log := s.log.flushAbort cfg io lsn, aborting := s.aborting.erase lsn }
    else none
  | .flush => some { s with log := s.log.flush cfg io }
  | .flushUntil lsn => some { s with log := (s.log.flushUntil cfg io lsn).1 }
  | .checkpoint allowTruncate =>
    let marker := s.log.nextRecord 0 .other 0
    some { s with
      log := s.log.checkpoint cfg io allowTruncate
      acked := if s.log.isOpen && (s.log.appendToBuffer io marker.header).2 then s.acked ++ [marker]
        else s.acked }

end LogSystem

namespace LogManager

variable (cfg : LogConfig) (io : LogIo)

def durableBytes (l : LogManager β) : List (LogByte β) :=
  if cfg.fsyncEnabled then l.written.take l.synced else l.written

/-- The watermark is truthful for the records. -/
def Truthful (l : LogManager β) (acked : List (LogRecord β)) : Prop :=
  ∀ r ∈ acked, r.lsn ≤ l.durableLsn → ∀ b ∈ r.bytes, b ∈ l.durableBytes cfg

/-- What holds of the log at all times. -/
structure LogOk (l : LogManager β) (acked : List (LogRecord β)) : Prop where
  next : 0 < l.nextLsn
  last : l.lastWrittenLsn < l.nextLsn
  durable : l.durableLsn ≤ l.lastWrittenLsn
  covered : l.synced ≤ l.written.length
  below : ∀ r ∈ acked, r.lsn < l.nextLsn
  held : ∀ r ∈ acked, ∀ b ∈ r.bytes, l.Holds b
  truthful : l.Truthful cfg acked

section

variable {cfg} {l l' : LogManager β} {acked : List (LogRecord β)} {data : List (LogByte β)}

lemma logOk_reopened (file : List (LogByte β)) (maxLsn ioCalls : ℕ) :
    (reopened file (maxLsn + 1) ioCalls).LogOk cfg [] :=
  ⟨Nat.succ_pos _, Nat.lt_succ_self _, le_rfl, le_rfl, fun _ h => absurd h not_mem_nil,
    fun _ h => absurd h not_mem_nil, fun _ h => absurd h not_mem_nil⟩

lemma logOk_create : (create : LogManager β).LogOk cfg [] := logOk_reopened [] 0 0

lemma durableBytes_subset (hw : l.Wrote data l') {b : LogByte β} (hb : b ∈ l.durableBytes cfg) :
    b ∈ l'.durableBytes cfg := by
  rw [durableBytes] at hb ⊢
  split_ifs at hb ⊢
  · have hpre : l.written.take l.synced <+: l'.written.take l'.synced :=
      (hw.written.take l.synced).trans (take_prefix_take_left hw.synced)
    exact hpre.subset hb
  · exact hw.written.subset hb

section

variable (h : l.LogOk cfg acked)
include h

lemma LogOk.wrote (hw : l.Wrote data l') : l'.LogOk cfg acked where
  next := by rw [hw.nextLsn]; exact h.next
  last := by rw [hw.nextLsn, hw.lastWrittenLsn]; exact h.last
  durable := by rw [hw.durableLsn, hw.lastWrittenLsn]; exact h.durable
  covered := hw.covered h.covered
  below := by rw [hw.nextLsn]; exact h.below
  held := fun r hr b hb => hw.kept b (h.held r hr b hb)
  truthful := by
    intro r hr hlsn b hb
    rw [hw.durableLsn] at hlsn
    exact durableBytes_subset hw (h.truthful r hr hlsn b hb)

lemma LogOk.store (hs : l.Stable cfg) {lsn : ℕ} (hlsn : lsn ≤ l.lastWrittenLsn) :
    { l with durableLsn := lsn }.LogOk cfg acked := by
  refine ⟨h.next, h.last, hlsn, h.covered, h.below, h.held, fun r hr _ b hb => ?_⟩
  have hwritten : b ∈ l.written := by
    rcases h.held r hr b hb with hb | hb
    · exact hb
    · rw [hs.buf] at hb
      exact absurd hb not_mem_nil
  simp only [durableBytes]
  split_ifs with hf
  · rw [hs.synced hf, take_length]
    exact hwritten
  · exact hwritten

lemma LogOk.advance {r : LogRecord β} (hr : r.lsn = l.nextLsn)
    (hheld : ∀ b ∈ r.bytes, l.Holds b) : l.advance.LogOk cfg (acked ++ [r]) := by
  have hlast := h.last
  have hdurable := h.durable
  refine ⟨Nat.succ_pos _, Nat.lt_succ_self _, hdurable.trans hlast.le, h.covered, ?_, ?_, ?_⟩
  · intro r' hr'
    rcases mem_append.1 hr' with hr' | hr'
    · exact (h.below r' hr').trans (Nat.lt_succ_self _)
    · rw [mem_singleton.1 hr', hr]
      exact Nat.lt_succ_self _
  · intro r' hr' b hb
    rcases mem_append.1 hr' with hr' | hr'
    · exact h.held r' hr' b hb
    · rw [mem_singleton.1 hr'] at hb
      exact hheld b hb
  · intro r' hr' hlsn b hb
    rcases mem_append.1 hr' with hr' | hr'
    · exact h.truthful r' hr' hlsn b hb
    · -- The new record is above the watermark.
      have hle : r'.lsn ≤ l.durableLsn := hlsn
      rw [mem_singleton.1 hr', hr] at hle
      omega

end

end

/-- From one log to the next: all is well, and neither the watermark nor the last LSN goes back. -/
structure Advances (l l' : LogManager β) (acked' : List (LogRecord β)) : Prop where
  ok : l'.LogOk cfg acked'
  durable : l.durableLsn ≤ l'.durableLsn
  last : l.lastWrittenLsn ≤ l'.lastWrittenLsn

section

variable {cfg} {l l' : LogManager β} {acked : List (LogRecord β)} {data : List (LogByte β)}

omit io in
lemma LogOk.advances_wrote (h : l.LogOk cfg acked) (hw : l.Wrote data l') : l.Advances cfg l' acked :=
  ⟨h.wrote hw, hw.durableLsn.ge, hw.lastWrittenLsn.ge⟩

/-- Flushing keeps the log well, and the watermark goes back only if a given LSN is stored that may be behind it. -/
lemma LogOk.flushed (h : l.LogOk cfg acked) {lsn : ℕ} {back : Prop} (hf : l.Flushed cfg io lsn back l')
    (hlsn : lsn ≤ l.lastWrittenLsn) :
    l'.LogOk cfg acked ∧ l'.lastWrittenLsn = l.lastWrittenLsn ∧ (¬ back → l.durableLsn ≤ l'.durableLsn) := by
  induction hf with
  | refl => exact ⟨h, rfl, fun _ => le_rfl⟩
  | @write l' _ ih =>
    obtain ⟨hok, hlast, hdurable⟩ := ih
    have hw := flushBuffer_wrote io l'
    exact ⟨hok.wrote hw, hw.lastWrittenLsn.trans hlast, fun hb => (hdurable hb).trans hw.durableLsn.ge⟩
  | sync _ ih =>
    obtain ⟨hok, hlast, hdurable⟩ := ih
    have hw := fsync_wrote io _ hok.covered
    exact ⟨hok.wrote hw, hw.lastWrittenLsn.trans hlast, fun hb => (hdurable hb).trans hw.durableLsn.ge⟩
  | store _ hs ih =>
    obtain ⟨hok, hlast, hdurable⟩ := ih
    exact ⟨hok.store hs le_rfl, hlast, fun hb => (hdurable hb).trans hok.durable⟩
  | given _ hs hback ih =>
    obtain ⟨hok, hlast, hdurable⟩ := ih
    exact ⟨hok.store hs (hlsn.trans hlast.ge), hlast, fun hb => (hdurable hb).trans (hback.resolve_left hb).le⟩
  | count _ _ _ _ _ ih =>
    obtain ⟨⟨hnext, hlt, hle, hcovered, hbelow, hheld, htruthful⟩, hlast, hdurable⟩ := ih
    exact ⟨⟨hnext, hlt, hle, hcovered, hbelow, hheld, htruthful⟩, hlast, hdurable⟩

lemma LogOk.advances_flushed (h : l.LogOk cfg acked) {lsn : ℕ} (hf : l.Flushed cfg io lsn False l')
    (hlsn : lsn ≤ l.lastWrittenLsn) : l.Advances cfg l' acked := by
  obtain ⟨hok, hlast, hdurable⟩ := h.flushed io hf hlsn
  exact ⟨hok, hdurable id, hlast.ge⟩

/-- `write_record`: an LSN is returned with the record in the log, or 0 without it. -/
lemma LogOk.advances_writeRecord (h : l.LogOk cfg acked) (txnId : ℕ) (op : WalOp β) (dataLen : ℕ) :
    ((l.writeRecord cfg io txnId op dataLen).2 = 0 ∧ l.Advances cfg (l.writeRecord cfg io txnId op dataLen).1 acked) ∨
    ((l.writeRecord cfg io txnId op dataLen).2 = l.nextLsn ∧
      l.nextLsn ≤ (l.writeRecord cfg io txnId op dataLen).1.lastWrittenLsn ∧
      l.Advances cfg (l.writeRecord cfg io txnId op dataLen).1 (acked ++ [l.nextRecord txnId op dataLen])) := by
  have hw := appendRecord_wrote io l (l.nextRecord txnId op dataLen)
  simp only [writeRecord]
  split_ifs with hopen hok
  · exact .inl ⟨rfl, h, le_rfl, le_rfl⟩
  · have hadv := (h.wrote hw).advance (r := l.nextRecord txnId op dataLen) hw.nextLsn.symm fun b hb =>
      holds_appendRecord io hok hb
    have hclose := hadv.advances_flushed io (flushed_closeSegment cfg io _) (Nat.zero_le _)
    have hlast : l.nextLsn ≤ (l.appendRecord io (l.nextRecord txnId op dataLen)).1.advance.lastWrittenLsn :=
      hw.nextLsn.ge
    have hdurable : l.durableLsn ≤ (l.appendRecord io (l.nextRecord txnId op dataLen)).1.advance.durableLsn :=
      hw.durableLsn.ge
    exact .inr ⟨rfl, hlast.trans hclose.last, hclose.ok, hdurable.trans hclose.durable,
      h.last.le.trans (hlast.trans hclose.last)⟩
  · have hadv := h.advances_wrote hw
    exact .inl ⟨rfl, hadv⟩

lemma LogOk.advances_checkpoint (h : l.LogOk cfg acked) (allowTruncate : Bool) :
    l.Advances cfg (l.checkpoint cfg io allowTruncate)
      (if l.isOpen && (l.appendToBuffer io (l.nextRecord 0 .other 0).header).2 then
        acked ++ [l.nextRecord 0 .other 0] else acked) := by
  have hw := appendToBuffer_wrote io l (l.nextRecord 0 .other 0).header
  simp only [checkpoint]
  cases hopen : l.isOpen with
  | false => exact ⟨h, le_rfl, le_rfl⟩
  | true =>
    cases hok : (l.appendToBuffer io (l.nextRecord 0 .other 0).header).2 with
    | false => exact h.advances_wrote hw
    | true =>
      have hbytes : (l.nextRecord 0 (.other : WalOp β) 0).bytes = (l.nextRecord 0 .other 0).header :=
        append_nil _
      have hadv := (h.wrote hw).advance (r := l.nextRecord 0 .other 0) hw.nextLsn.symm fun b hb =>
        holds_appendToBuffer io hok (hbytes ▸ hb)
      -- The marker is in the log; whatever follows does not go back behind it.
      have hback : ∀ l' : LogManager β, (l.appendToBuffer io (l.nextRecord 0 .other 0).header).1.advance.Advances
          cfg l' (acked ++ [l.nextRecord 0 .other 0]) →
          l.Advances cfg l' (acked ++ [l.nextRecord 0 .other 0]) := by
        intro l' h'
        refine ⟨h'.ok, hw.durableLsn.ge.trans h'.durable, ?_⟩
        exact h.last.le.trans (hw.nextLsn.ge.trans h'.last)
      simp only [Bool.not_true, Bool.false_eq_true, if_false, Bool.and_self, if_true]
      split_ifs with hsync htrunc
      · exact hback _ (hadv.advances_wrote (flushAndSync_wrote cfg io _ hadv.covered))
      · have hstored := hadv.advances_flushed io
          (Flushed.refl.flushAndSync.store (flushAndSync_ok cfg io (by simpa using hsync))) (Nat.zero_le _)
        refine hback _ ⟨⟨hstored.ok.next, hstored.ok.last, le_rfl, hstored.ok.covered, hstored.ok.below,
          hstored.ok.held, hstored.ok.truthful⟩, hstored.durable, hstored.last⟩
      · exact hback _ (hadv.advances_flushed io
          (Flushed.refl.flushAndSync.store (flushAndSync_ok cfg io (by simpa using hsync))) (Nat.zero_le _))

end

/-- `log_abort` stores its LSN: flush and `fsync` succeed. -/
def abortStores (l : LogManager β) : Bool :=
  (l.flushBuffer io).2 && (l.flushBuffer io).1.isOpen &&
    (!cfg.fsyncEnabled || io.fsync (l.flushBuffer io).1.ioCalls)

section

variable {cfg} {l : LogManager β} {acked : List (LogRecord β)} {lsn : ℕ}

omit cfg in
lemma snd_fsync (l : LogManager β) : (l.fsync io).2 = io.fsync l.ioCalls := by
  rw [fsync]
  split_ifs with h
  · exact h.symm
  · simpa using h

lemma durableLsn_flushAbort :
    (l.flushAbort cfg io lsn).durableLsn = if l.abortStores cfg io then lsn else l.durableLsn := by
  have hw := flushBuffer_wrote io l
  have hsync : ∀ l' : LogManager β, (l'.fsync io).1.durableLsn = l'.durableLsn := by
    intro l'
    rw [fsync]
    split_ifs
    · rfl
    · rfl
  simp only [flushAbort, abortStores, snd_fsync]
  by_cases hflush : ((l.flushBuffer io).2 && (l.flushBuffer io).1.isOpen) = true
  · by_cases hfsync : cfg.fsyncEnabled = true
    · by_cases hok : io.fsync (l.flushBuffer io).1.ioCalls = true
      · simp [hflush, hfsync, hok]
      · simp [hflush, hfsync, hok, hsync, hw.durableLsn]
    · simp [hflush, hfsync]
  · simp [hflush, hw.durableLsn]

end

end LogManager

/-- `WalManager(wal_dir)`. -/
def LogConfig.default : LogConfig := ⟨true, false, 64 * 1024 * 1024⟩

def LogIo.ok : LogIo := ⟨fun _ => none, fun _ => true, fun _ => true, fun _ => true⟩

namespace LogSystem

open LogManager

variable (cfg : LogConfig) (io : LogIo)

/-- The watermark does not go back in the step. -/
def Monotone (s : LogSystem β) (a : LogAction β) : Prop :=
  ∀ s', step cfg io s a = some s' → s.log.durableLsn ≤ s'.log.durableLsn

/-- The condition on a step: the second half of `log_abort`, if it stores its LSN, finds the watermark
not past it. -/
def StoreOk (s : LogSystem β) : LogAction β → Prop
  | .abortFlush lsn => lsn ∈ s.aborting → s.log.abortStores cfg io → s.log.durableLsn ≤ lsn
  | _ => True

structure SysOk (s : LogSystem β) : Prop where
  log : s.log.LogOk cfg s.acked
  committing : ∀ c ∈ s.committing, c.1 ≤ s.log.lastWrittenLsn
  aborting : ∀ lsn ∈ s.aborting, lsn ≤ s.log.lastWrittenLsn

section

variable {cfg} {s s' : LogSystem β} {a : LogAction β}

omit io in
lemma sysOk_create : (create : LogSystem β).SysOk cfg :=
  ⟨logOk_create, fun _ h => absurd h not_mem_nil, fun _ h => absurd h not_mem_nil⟩

omit io in
/-- The log advances, and of the callers some may have left. -/
lemma SysOk.advances (h : s.SysOk cfg) (hlog : s.log.Advances cfg s'.log s'.acked)
    (hcommitting : s'.committing ⊆ s.committing) (haborting : s'.aborting ⊆ s.aborting) : s'.SysOk cfg :=
  ⟨hlog.ok, fun c hc => (h.committing c (hcommitting hc)).trans hlog.last,
    fun lsn hlsn => (h.aborting lsn (haborting hlsn)).trans hlog.last⟩

lemma SysOk.record (h : s.SysOk cfg) (txnId : ℕ) (op : WalOp β) (dataLen : ℕ) :
    (s.record cfg io txnId op dataLen).1.SysOk cfg ∧
      (s.record cfg io txnId op dataLen).2 ≤ (s.record cfg io txnId op dataLen).1.log.lastWrittenLsn ∧
      s.log.durableLsn ≤ (s.record cfg io txnId op dataLen).1.log.durableLsn := by
  have hnext := h.log.next.ne'
  simp only [LogSystem.record]
  rcases h.log.advances_writeRecord io txnId op dataLen with ⟨hlsn, hadv⟩ | ⟨hlsn, hlast, hadv⟩
  · rw [if_pos hlsn]
    exact ⟨h.advances hadv (refl _) (refl _), Nat.zero_le _, hadv.durable⟩
  · rw [if_neg (by rwa [hlsn])]
    refine ⟨h.advances hadv (refl _) (refl _), ?_, hadv.durable⟩
    rw [hlsn]
    exact hlast

omit io in
lemma SysOk.endCommit (h : s.SysOk cfg) (txnId : ℕ) (ok : Bool) : (s.endCommit txnId ok).SysOk cfg := by
  cases ok with
  | true => exact h
  | false => exact ⟨h.log, h.committing, h.aborting⟩

omit io in
@[simp] lemma log_endCommit (txnId : ℕ) (ok : Bool) : (s.endCommit txnId ok).log = s.log := by
  cases ok <;> rfl

/-- A step of `log_commit` or `log_abort` that appends the record. -/
lemma SysOk.step_append (h : s.SysOk cfg) (hs : step cfg io s a = some s')
    (ha : (∃ txnId op dataLen, a = .append txnId op dataLen) ∨ (∃ txnId, a = .commitAppend txnId) ∨
      ∃ txnId, a = .abortAppend txnId) : s'.SysOk cfg ∧ s.log.durableLsn ≤ s'.log.durableLsn := by
  rcases ha with ⟨txnId, op, dataLen, rfl⟩ | ⟨txnId, rfl⟩ | ⟨txnId, rfl⟩
  · simp only [step] at hs
    split_ifs at hs
    cases hs
    have hrec := h.record io txnId op dataLen
    exact ⟨hrec.1, hrec.2.2⟩
  · have hcalls : { s with commitCalls := txnId :: s.commitCalls }.SysOk cfg :=
      ⟨h.log, h.committing, h.aborting⟩
    have hrec := hcalls.record io txnId .txnCommit 0
    simp only [step] at hs
    split_ifs at hs with hmem hzero
    · rw [Option.some.injEq] at hs
      subst hs
      refine ⟨hrec.1.endCommit txnId false, ?_⟩
      exact hrec.2.2
    · rw [Option.some.injEq] at hs
      subst hs
      refine ⟨⟨hrec.1.log, fun c hc => ?_, hrec.1.aborting⟩, hrec.2.2⟩
      rcases mem_cons.1 hc with rfl | hc
      · exact hrec.2.1
      · exact hrec.1.committing c hc
  · have hrec := h.record io txnId .txnAbort 0
    simp only [step, Option.some.injEq] at hs
    subst hs
    split_ifs with hzero
    · exact ⟨hrec.1, hrec.2.2⟩
    · refine ⟨⟨hrec.1.log, hrec.1.committing, fun lsn hlsn => ?_⟩, hrec.2.2⟩
      rcases mem_cons.1 hlsn with rfl | hlsn
      · exact hrec.2.1
      · exact hrec.1.aborting lsn hlsn

/-- Every step keeps the log well, and the watermark does not go back but in `log_abort`. -/
lemma SysOk.step (h : s.SysOk cfg) (hs : LogSystem.step cfg io s a = some s') :
    s'.SysOk cfg ∧ (s.log.durableLsn ≤ s'.log.durableLsn ↔ s.StoreOk cfg io a) := by
  have hplain : s'.SysOk cfg ∧ s.log.durableLsn ≤ s'.log.durableLsn → s.StoreOk cfg io a →
      s'.SysOk cfg ∧ (s.log.durableLsn ≤ s'.log.durableLsn ↔ s.StoreOk cfg io a) :=
    fun h' hok => ⟨h'.1, iff_of_true h'.2 hok⟩
  cases a with
  | append txnId op dataLen => exact hplain (h.step_append io hs (.inl ⟨_, _, _, rfl⟩)) trivial
  | commitAppend txnId => exact hplain (h.step_append io hs (.inr (.inl ⟨_, rfl⟩))) trivial
  | abortAppend txnId => exact hplain (h.step_append io hs (.inr (.inr ⟨_, rfl⟩))) trivial
  | commitFlush lsn txnId =>
    refine hplain ?_ trivial
    simp only [LogSystem.step] at hs
    split_ifs at hs with hmem
    have hadv := h.log.advances_flushed io (flushed_flushCommit cfg io _ lsn) (h.committing _ hmem)
    have hok : { s with
        log := (s.log.flushCommit cfg io lsn).1
        committing := s.committing.erase (lsn, txnId) }.SysOk cfg :=
      h.advances hadv erase_subset (refl _)
    cases hout : (s.log.flushCommit cfg io lsn).2 with
    | done ok =>
      simp only [hout] at hs
      cases hs
      refine ⟨hok.endCommit txnId ok, ?_⟩
      rw [log_endCommit]
      exact hadv.durable
    | wait batch =>
      simp only [hout] at hs
      cases hs
      exact ⟨⟨hok.log, hok.committing, hok.aborting⟩, hadv.durable⟩
  | commitWake lsn txnId batch =>
    refine hplain ?_ trivial
    simp only [LogSystem.step] at hs
    split_ifs at hs
    cases hs
    have hok : { s with followers := s.followers.erase (lsn, txnId, batch) }.SysOk cfg :=
      ⟨h.log, h.committing, h.aborting⟩
    refine ⟨hok.endCommit txnId _, ?_⟩
    rw [log_endCommit]
  | abortFlush lsn =>
    simp only [LogSystem.step] at hs
    split_ifs at hs with hmem
    cases hs
    obtain ⟨hlog, hlast, -⟩ := h.log.flushed io (flushed_flushAbort cfg io _ lsn) (h.aborting lsn hmem)
    refine ⟨⟨hlog, fun c hc => (h.committing c hc).trans hlast.ge, fun lsn' hlsn' => ?_⟩, ?_⟩
    · exact (h.aborting lsn' (mem_of_mem_erase hlsn')).trans hlast.ge
    · simp only [StoreOk, durableLsn_flushAbort, hmem, forall_true_left]
      split_ifs with hstores
      · simp [hstores]
      · simp [hstores]
  | flush =>
    cases hs
    have hadv := h.log.advances_flushed io (flushed_flush cfg io _) (Nat.zero_le _)
    exact hplain ⟨h.advances hadv (refl _) (refl _), hadv.durable⟩ trivial
  | flushUntil lsn =>
    cases hs
    have hadv := h.log.advances_flushed io (flushed_flushUntil cfg io _ lsn) (Nat.zero_le _)
    exact hplain ⟨h.advances hadv (refl _) (refl _), hadv.durable⟩ trivial
  | checkpoint allowTruncate =>
    cases hs
    have hadv := h.log.advances_checkpoint io allowTruncate
    exact hplain ⟨h.advances hadv (refl _) (refl _), hadv.durable⟩ trivial

lemma SysOk.truncateFile (h : s.SysOk cfg) (hall : s.log.durableLsn = s.log.lastWrittenLsn) :
    { s with log := s.log.truncateFile io }.SysOk cfg :=
  ⟨⟨h.log.next, hall.trans_lt h.log.last, le_rfl, h.log.covered, h.log.below, h.log.held, h.log.truthful⟩,
    fun c hc => (h.committing c hc).trans hall.ge, fun lsn hlsn => (h.aborting lsn hlsn).trans hall.ge⟩

end

/-- **The watermark.**  Along any run, with any failures of the operating system, the watermark never goes
back and is always truthful, if and only if every `log_abort` that stores its LSN finds the watermark
not past it. -/
theorem watermark_iff (actions : List (LogAction β)) :
    (StepsMeet (step cfg io) (Monotone cfg io) create actions ∧
      Always (step cfg io) (fun s => s.log.Truthful cfg s.acked) create actions) ↔
    StepsMeet (step cfg io) (StoreOk cfg io) create actions := by
  have hkept : ∀ P : LogSystem β → LogAction β → Prop, ∀ s a s', SysOk cfg s → P s a →
      step cfg io s a = some s' → SysOk cfg s' := fun _ _ _ _ h _ hs => (h.step io hs).1
  constructor
  · rintro ⟨hmono, -⟩
    refine hmono.of_invariant (I := SysOk cfg) (hkept _) (fun s a h hm => ?_) sysOk_create
    cases hs : step cfg io s a with
    | some s' => exact ((h.step io hs).2).1 (hm s' hs)
    | none =>
      cases a with
      | abortFlush lsn =>
        intro hmem
        simp only [step, if_pos hmem] at hs
        cases hs
      | _ => exact trivial
  · intro hstore
    refine ⟨hstore.of_invariant (I := SysOk cfg) (hkept _) (fun s a h hok s' hs => ?_) sysOk_create, ?_⟩
    · exact ((h.step io hs).2).2 hok
    · exact always_of_invariant (I := SysOk cfg) (hkept _) (fun s h => h.log.truthful) sysOk_create hstore

/-- An abort record gets LSN 1 and the record of another transaction LSN 2, and the log is flushed. -/
def lateAbort : List (LogAction Unit) := [.abortAppend 1, .append 3 .other 0, .flush]

/-- The second half of `log_abort` then puts the watermark back from 2 to 1. -/
theorem watermark_goes_back :
    ¬ (StepsMeet (step .default .ok) (Monotone .default .ok) create (lateAbort ++ [.abortFlush 1]) ∧
      Always (step .default .ok) (fun s => s.log.Truthful .default s.acked) create
        (lateAbort ++ [.abortFlush 1])) := by
  rintro ⟨hmono, -⟩
  obtain ⟨m, ⟨hbefore, haborting, hstores⟩, hmono⟩ := hmono.eval (R := fun m => m.log.durableLsn = 2 ∧
    m.aborting = [1] ∧ m.log.abortStores .default .ok = true) (by decide +kernel)
  have hstep : step .default .ok m (.abortFlush 1) = some
      { m with log := m.log.flushAbort .default .ok 1, aborting := m.aborting.erase 1 } :=
    if_pos (by simp [haborting])
  have hle := hmono _ hstep
  rw [durableLsn_flushAbort, if_pos hstores, hbefore] at hle
  omega

end LogSystem

end MiniDb
