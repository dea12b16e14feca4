import MiniDb.Recovery.LogReader

/-!
# Commits that failed

When `log_commit` returns 0 the transaction is rolled back, and recovery should find it aborted.  But the commit record
may be in the buffer or in the file already: a failed flush or `fsync` does not take it out, and the next flush writes
it after all.

`failed_stay_aborted`: if `log_commit` only ever fails before it has copied its record, no crash at any later time
leaves a log in which the transaction is committed.
-/

namespace MiniDb

open List LogRecord

variable {β : Type*} {lsn txnId : ℕ}

namespace LogManager

variable (cfg : LogConfig) (io : LogIo)

/-- No bytes but these are new, and no caller waits for a batch. -/
structure Touches (data : List (LogByte β)) (l l' : LogManager β) : Prop where
  fresh : ∀ b, l'.Holds b → l.Holds b ∨ b ∈ data
  waiters : l.pendingCommitWaiters = 0 → l'.pendingCommitWaiters = 0

section

variable {cfg} {l l' l'' : LogManager β} {acked : List (LogRecord β)} {data : List (LogByte β)}

omit io in
lemma Touches.refl (l : LogManager β) (data : List (LogByte β)) : Touches data l l :=
  ⟨fun _ h => .inl h, id⟩

omit io in
lemma Wrote.touches (h : l.Wrote data l') : Touches data l l' :=
  ⟨h.fresh, fun hz => h.waiters.trans hz⟩

omit io in
/-- A function that adds no byte comes last. -/
lemma Touches.before (h : Touches data l l') (h' : Touches [] l' l'') : Touches data l l'' := by
  refine ⟨fun b hb => ?_, fun hz => h'.waiters (h.waiters hz)⟩
  rcases h'.fresh b hb with hb | hb
  · exact h.fresh b hb
  · exact absurd hb not_mem_nil

lemma Flushed.touches {back : Prop} (h : l.Flushed cfg io lsn back l') (hc : l.synced ≤ l.written.length) :
    Touches [] l l' ∧ l'.synced ≤ l'.written.length := by
  induction h with
  | refl => exact ⟨.refl l [], hc⟩
  | @write l' _ ih =>
    have hw := flushBuffer_wrote io l'
    exact ⟨ih.1.before hw.touches, hw.covered ih.2⟩
  | sync _ ih =>
    have hw := fsync_wrote io _ ih.2
    exact ⟨ih.1.before hw.touches, hw.covered ih.2⟩
  | store _ _ ih | given _ _ _ ih => exact ⟨⟨ih.1.fresh, ih.1.waiters⟩, ih.2⟩
  | count _ _ _ _ hwaiters ih => exact ⟨⟨ih.1.fresh, fun hz => hwaiters (ih.1.waiters hz)⟩, ih.2⟩

section

variable (h : l.LogOk cfg acked)
include h

lemma touches_writeRecord (txnId : ℕ) (op : WalOp β) (dataLen : ℕ) :
    Touches (l.nextRecord txnId op dataLen).bytes l (l.writeRecord cfg io txnId op dataLen).1 := by
  have hw := appendRecord_wrote io l (l.nextRecord txnId op dataLen)
  simp only [writeRecord]
  split_ifs
  · exact .refl l _
  · have hadv : Touches (l.nextRecord txnId op dataLen).bytes l
        (l.appendRecord io (l.nextRecord txnId op dataLen)).1.advance := ⟨hw.touches.fresh, hw.touches.waiters⟩
    have hc : (l.appendRecord io (l.nextRecord txnId op dataLen)).1.advance.synced ≤ _ := hw.covered h.covered
    exact hadv.before ((flushed_closeSegment cfg io _).touches io hc).1
  · exact hw.touches

lemma touches_checkpoint (allowTruncate : Bool) :
    Touches (l.nextRecord 0 .other 0).header l (l.checkpoint cfg io allowTruncate) := by
  have hw := appendToBuffer_wrote io l (l.nextRecord 0 .other 0).header
  have hadv : Touches (l.nextRecord 0 .other 0).header l
      (l.appendToBuffer io (l.nextRecord 0 .other 0).header).1.advance := ⟨hw.fresh, hw.touches.waiters⟩
  have hc : (l.appendToBuffer io (l.nextRecord 0 .other 0).header).1.advance.synced ≤ _ := hw.covered h.covered
  have hsync := hadv.before (flushAndSync_wrote cfg io _ hc).touches
  simp only [checkpoint]
  split_ifs
  · exact .refl l _
  · exact hw.touches
  · exact hsync
  · exact ⟨hsync.fresh, hsync.waiters⟩
  · exact ⟨hsync.fresh, hsync.waiters⟩

/-- With nobody waiting, a flush and an `fsync` that succeed are a commit. -/
lemma flushCommit_done (hz : l.pendingCommitWaiters = 0)
    (hlsn : lsn ≤ l.lastWrittenLsn) (hopen : l.isOpen = true) (hok : (l.flushAndSync cfg io).2 = true) :
    (l.flushCommit cfg io lsn).2 = .done true := by
  have hw := flushAndSync_wrote cfg io l h.covered
  have hle : lsn ≤ (l.flushAndSync cfg io).1.lastWrittenLsn := hlsn.trans hw.lastWrittenLsn.ge
  by_cases hfsync : cfg.fsyncEnabled = true
  · by_cases hgroup : cfg.groupCommit = true
    · simp [flushCommit, hopen, hfsync, hgroup, hz, hok, hle]
    · simp [flushCommit, hopen, hfsync, hgroup, hok, hle]
  · have hflush : (l.flushBuffer io).2 = true := by simpa [flushAndSync, hfsync] using hok
    simp only [flushCommit, hopen, hfsync, hflush]
    by_cases hlt : (l.flushBuffer io).1.durableLsn < lsn
    · simp [hlt]
    · simp [hlt, Nat.not_lt.1 hlt]

end

end

/-- The header of a record that is not copied: there is no room for it, and the flush fails. -/
def NoRoom (l : LogManager β) : Prop :=
  l.isOpen = false ∨ kWalBufferSize < l.buf.length + kWalHeaderSize ∧ (l.flushBuffer io).2 = false

section

variable {cfg} {l : LogManager β} {acked : List (LogRecord β)}

lemma touches_writeRecord_of_noRoom (cfg : LogConfig) (h : l.NoRoom io) (txnId : ℕ) (op : WalOp β)
    (dataLen : ℕ) :
    Touches [] l (l.writeRecord cfg io txnId op dataLen).1 := by
  rcases h with h | ⟨hfull, hflush⟩
  · simp only [writeRecord, h, Bool.not_false, if_true]
    exact .refl l []
  · have happend : l.appendToBuffer io (l.nextRecord txnId op dataLen).header = ((l.flushBuffer io).1, false) := by
      have hne : (l.nextRecord txnId op dataLen).header ≠ [] := by simp [header, kWalHeaderSize]
      rw [appendToBuffer, if_neg hne, if_neg (by simp [kWalHeaderSize, kWalBufferSize]), if_pos (by simpa)]
      simp [hflush]
    have hrecord : l.appendRecord io (l.nextRecord txnId op dataLen) = ((l.flushBuffer io).1, false) := by
      simp [appendRecord, happend]
    simp only [writeRecord, hrecord, Bool.false_eq_true, if_false]
    split_ifs
    · exact .refl l []
    · exact (flushBuffer_wrote io l).touches

end

end LogManager

namespace LogSystem

open LogManager

variable (cfg : LogConfig) (io : LogIo)

/-- After any crash, recovery finds no transaction committed whose `log_commit` returned 0, and redoes
none of its rows. -/
def FailedStayAborted [DecidableEq β] (s : LogSystem β) : Prop :=
  ∀ c, s.log.CrashOf c → ∀ t ∈ s.failed,
    isCommitted ((readLog c).map LogRecord.toWal) t = false ∧
    ∀ (st : Replay β) (r : WalRecord β), r.txnId = t → r.op.isData →
      (redoRecord (isCommitted ((readLog c).map LogRecord.toWal)) st r).heaps = st.heaps

/-- The condition on a step: if `log_commit` fails, it has not copied its record. -/
def FailsEarly (s : LogSystem β) : LogAction β → Prop
  | .commitAppend txnId =>
    (s.log.appendToBuffer io (s.log.nextRecord txnId .txnCommit 0).header).2 = true ∨ s.log.NoRoom io
  | .commitFlush _ _ => s.log.isOpen = true ∧ (s.log.flushAndSync cfg io).2 = true
  | _ => True

/-- The commit records in the log are of transactions that called `log_commit` and were not told that
it failed. -/
structure CommitsOk (s : LogSystem β) : Prop where
  sys : s.SysOk cfg
  waiters : s.log.pendingCommitWaiters = 0
  followers : s.followers = []
  commits : ∀ r i, s.log.Holds (some (r, i)) → r.op = .txnCommit → r.txnId ∈ s.commitCalls ∧ r.txnId ∉ s.failed
  failed : s.failed ⊆ s.commitCalls

section

variable {cfg} {s s' : LogSystem β} {a : LogAction β}

omit io in
lemma heaps_redoRecord_of_not_committed {committed : ℕ → Bool} {st : Replay β} {r : WalRecord β}
    (hr : committed r.txnId = false) (hdata : r.op.isData) : (redoRecord committed st r).heaps = st.heaps := by
  cases hop : r.op with
  | insert table rid data length | delete table rid | update table old new data length => simp [redoRecord, hop, hr]
  | _ => simp [hop, WalOp.isData] at hdata

omit io in
lemma CommitsOk.failedStayAborted [DecidableEq β] (h : s.CommitsOk cfg) : s.FailedStayAborted := by
  intro c hc t ht
  have hnot : isCommitted ((readLog c).map toWal) t = false := by
    rw [isCommitted, any_eq_false]
    intro w hw hand
    obtain ⟨r, hr, rfl⟩ := mem_map.1 hw
    have hheld : s.log.Holds (some (r, 0)) := .inl (hc.mem (of_mem_readRecords hr).1)
    cases hop : r.op with
    | txnCommit =>
      have htxn : r.txnId = t := by simpa [toWal, hop] using hand
      exact (h.commits r 0 hheld hop).2 (htxn ▸ ht)
    | _ => simp [toWal, hop] at hand
  exact ⟨hnot, fun st r hr hdata => heaps_redoRecord_of_not_committed (hr ▸ hnot) hdata⟩

lemma CommitsOk.touches (h : s.CommitsOk cfg) (hsys : s'.SysOk cfg) (data : List (LogByte β))
    (ht : Touches data s.log s'.log) (hdata : ∀ r i, some (r, i) ∈ data → r.op ≠ .txnCommit)
    (hfollowers : s'.followers = s.followers) (hcalls : s'.commitCalls = s.commitCalls)
    (hfailed : s'.failed = s.failed) : s'.CommitsOk cfg := by
  refine ⟨hsys, ht.waiters h.waiters, hfollowers.trans h.followers, fun r i hheld hop => ?_, ?_⟩
  · rw [hcalls, hfailed]
    rcases ht.fresh _ hheld with hheld | hmem
    · exact h.commits r i hheld hop
    · exact absurd hop (hdata r i hmem)
  · rw [hcalls, hfailed]
    exact h.failed

omit cfg in
lemma record_fields (cfg : LogConfig) (txnId : ℕ) (op : WalOp β) (dataLen : ℕ) :
    (s.record cfg io txnId op dataLen).1.log = (s.log.writeRecord cfg io txnId op dataLen).1 ∧
    (s.record cfg io txnId op dataLen).2 = (s.log.writeRecord cfg io txnId op dataLen).2 ∧
    (s.record cfg io txnId op dataLen).1.followers = s.followers ∧
    (s.record cfg io txnId op dataLen).1.commitCalls = s.commitCalls ∧
    (s.record cfg io txnId op dataLen).1.failed = s.failed := by
  simp only [record]
  split_ifs with hzero
  · exact ⟨rfl, hzero.symm, rfl, rfl, rfl⟩
  · exact ⟨rfl, rfl, rfl, rfl, rfl⟩

section

variable (h : s.CommitsOk cfg)
include h

lemma CommitsOk.record (txnId : ℕ) {op : WalOp β} (dataLen : ℕ)
    (hop : op ≠ .txnCommit) : (s.record cfg io txnId op dataLen).1.CommitsOk cfg := by
  obtain ⟨hlog, -, hfollowers, hcalls, hfailed⟩ := record_fields io (s := s) cfg txnId op dataLen
  refine h.touches (h.sys.record io txnId op dataLen).1 (s.log.nextRecord txnId op dataLen).bytes
    ?_ ?_ hfollowers hcalls hfailed
  · rw [hlog]
    exact touches_writeRecord io h.sys.log txnId op dataLen
  · intro r i hmem
    rw [eq_of_mem_bytes hmem]
    exact hop

omit h in
/-- `log_commit` fails in its first step only if it leaves no byte of its record. -/
lemma noRoom_of_failsEarly (hok : s.FailsEarly cfg io (.commitAppend txnId))
    (hzero : (s.log.writeRecord cfg io txnId .txnCommit 0).2 = 0) (hnext : 0 < s.log.nextLsn) : s.log.NoRoom io := by
  rcases hok with hheader | hroom
  · left
    by_contra hopen
    have hpayload : (s.log.nextRecord txnId (.txnCommit : WalOp β) 0).payload = [] := rfl
    have hrecord : (s.log.appendRecord io (s.log.nextRecord txnId .txnCommit 0)).2 = true := by
      simp only [appendRecord, hheader, hpayload, if_true]
      rw [appendToBuffer, if_pos rfl]
    simp [writeRecord, hopen, hrecord] at hzero
    omega
  · exact hroom

lemma CommitsOk.commitAppend
    (hok : s.FailsEarly cfg io (.commitAppend txnId)) (hs : step cfg io s (.commitAppend txnId) = some s') :
    s'.CommitsOk cfg := by
  have hsys : s'.SysOk cfg := (h.sys.step io hs).1
  have hcalled : ∀ t, t ∈ s.commitCalls ∧ t ∉ s.failed → txnId ∉ s.commitCalls → t ≠ txnId := by
    rintro t ⟨ht, -⟩ hnew rfl
    exact hnew ht
  simp only [step] at hs
  split_ifs at hs with hmem hzero
  · -- It fails, and the transaction has no commit record.
    rw [Option.some.injEq] at hs
    subst hs
    obtain ⟨hlog, hlsn, hfollowers, hcalls, hfailed⟩ :=
      record_fields io (s := { s with commitCalls := txnId :: s.commitCalls }) cfg txnId .txnCommit 0
    have hroom := noRoom_of_failsEarly io hok (hlsn ▸ hzero) h.sys.log.next
    have ht := touches_writeRecord_of_noRoom io cfg hroom txnId .txnCommit 0
    refine ⟨hsys, ?_, ?_, fun r i hheld hop => ?_, ?_⟩
    · rw [log_endCommit, hlog]
      exact ht.waiters h.waiters
    · simpa [endCommit, hfollowers] using h.followers
    · rw [log_endCommit, hlog] at hheld
      have hold : s.log.Holds (some (r, i)) := (ht.fresh _ hheld).resolve_right not_mem_nil
      have hr := h.commits r i hold hop
      simp only [endCommit, Bool.false_eq_true, if_false, hcalls, hfailed, mem_cons, not_or]
      exact ⟨.inr hr.1, hcalled _ hr hmem, hr.2⟩
    · simp only [endCommit, Bool.false_eq_true, if_false, hcalls, hfailed]
      exact cons_subset_cons txnId h.failed
  · -- The record is in the log, and the transaction waits for its flush.
    rw [Option.some.injEq] at hs
    subst hs
    obtain ⟨hlog, -, hfollowers, hcalls, hfailed⟩ :=
      record_fields io (s := { s with commitCalls := txnId :: s.commitCalls }) cfg txnId .txnCommit 0
    have ht := touches_writeRecord io h.sys.log txnId .txnCommit 0
    refine ⟨hsys, ?_, hfollowers.trans h.followers, fun r i hheld hop => ?_, ?_⟩
    · rw [hlog]
      exact ht.waiters h.waiters
    · rw [hlog] at hheld
      rw [hcalls, hfailed]
      rcases ht.fresh _ hheld with hold | hnew
      · have hr := h.commits r i hold hop
        exact ⟨mem_cons_of_mem _ hr.1, hr.2⟩
      · rw [eq_of_mem_bytes hnew]
        exact ⟨mem_cons_self, fun hfail => hmem (h.failed hfail)⟩
    · rw [hcalls, hfailed]
      exact fun t ht => mem_cons_of_mem _ (h.failed ht)

lemma CommitsOk.commitFlush (hok : s.FailsEarly cfg io (.commitFlush lsn txnId))
    (hs : step cfg io s (.commitFlush lsn txnId) = some s') : s'.CommitsOk cfg := by
  have hsys : s'.SysOk cfg := (h.sys.step io hs).1
  simp only [step] at hs
  split_ifs at hs with hmem
  have hdone := flushCommit_done io h.sys.log h.waiters (h.sys.committing _ hmem) hok.1 hok.2
  simp only [hdone, endCommit, if_true, Option.some.injEq] at hs
  subst hs
  exact h.touches hsys _ ((flushed_flushCommit cfg io _ lsn).touches io h.sys.log.covered).1
    (fun _ _ hmem => absurd hmem not_mem_nil) rfl rfl rfl

lemma CommitsOk.step (hok : s.FailsEarly cfg io a) (hs : LogSystem.step cfg io s a = some s') :
    s'.CommitsOk cfg := by
  have hsys : s'.SysOk cfg := (h.sys.step io hs).1
  cases a with
  | append txnId op dataLen =>
    simp only [LogSystem.step] at hs
    split_ifs at hs with hend
    cases hs
    refine h.record io txnId dataLen fun hop => hend ?_
    rw [hop]
    rfl
  | commitAppend txnId => exact h.commitAppend io hok hs
  | commitFlush lsn txnId => exact h.commitFlush io hok hs
  | commitWake lsn txnId batch =>
    simp only [LogSystem.step] at hs
    split_ifs at hs with hmem
    rw [h.followers] at hmem
    exact absurd hmem.1 not_mem_nil
  | abortAppend txnId =>
    have hrec := h.record io txnId 0 (show WalOp.txnAbort ≠ .txnCommit by simp)
    simp only [LogSystem.step, Option.some.injEq] at hs
    subst hs
    split_ifs at hsys ⊢
    · exact hrec
    · exact ⟨hsys, hrec.waiters, hrec.followers, hrec.commits, hrec.failed⟩
  | abortFlush lsn =>
    simp only [LogSystem.step] at hs
    split_ifs at hs
    cases hs
    exact h.touches hsys _ ((flushed_flushAbort cfg io _ lsn).touches io h.sys.log.covered).1
      (fun _ _ hmem => absurd hmem not_mem_nil) rfl rfl rfl
  | flush =>
    cases hs
    exact h.touches hsys _ ((flushed_flush cfg io _).touches io h.sys.log.covered).1
      (fun _ _ hmem => absurd hmem not_mem_nil) rfl rfl rfl
  | flushUntil lsn =>
    cases hs
    exact h.touches hsys _ ((flushed_flushUntil cfg io _ lsn).touches io h.sys.log.covered).1
      (fun _ _ hmem => absurd hmem not_mem_nil) rfl rfl rfl
  | checkpoint allowTruncate =>
    cases hs
    refine h.touches hsys _ (touches_checkpoint io h.sys.log allowTruncate) (fun r i hmem => ?_) rfl rfl rfl
    rw [eq_of_mem_bytes (mem_append_left _ hmem)]
    simp [nextRecord]

end

omit io in
lemma commitsOk_create : (create : LogSystem β).CommitsOk cfg := by
  refine ⟨sysOk_create, rfl, rfl, ?_, List.Subset.refl _⟩
  rintro r i (hb | hb)
  · exact absurd hb not_mem_nil
  · exact absurd hb not_mem_nil

end

/-- **Failed commits.**  In every run in which `log_commit` fails only before it has copied its record, with
any failures of the operating system and any other calls, a crash at any time leaves a log in which
the transactions of failed commits are not committed, and recovery redoes none of their rows. -/
theorem failed_stay_aborted [DecidableEq β] (actions : List (LogAction β))
    (hok : StepsMeet (step cfg io) (FailsEarly cfg io) create actions) :
    Always (step cfg io) FailedStayAborted create actions :=
  always_of_invariant (I := CommitsOk cfg) (fun _ _ _ h hok hs => h.step io hok hs)
    (fun _ h => h.failedStayAborted) commitsOk_create hok

/-- The log file cannot be opened again after a checkpoint, and the next commit fails. -/
theorem failed_stay_aborted_closed :
    Always (step .default { LogIo.ok with reopen := fun _ => false }) FailedStayAborted
      (create : LogSystem Unit) [.checkpoint true, .commitAppend 3] := by
  refine failed_stay_aborted _ _ _ ⟨trivial, fun s hs => ⟨.inr (.inl ?_), fun _ _ => trivial⟩⟩
  have hrun : runs (step .default { LogIo.ok with reopen := fun _ => false }) (create : LogSystem Unit)
      [.checkpoint true] = some s := runs_cons_eq_some.2 ⟨s, hs, runs_nil s⟩
  exact runs_eval (f := fun s : LogSystem Unit => s.log.isOpen) (by decide +kernel) hrun

/-- The `fsync` of a commit fails: `log_commit` returns 0, with the commit record in the file. -/
theorem failed_commit_recovered :
    ¬ Always (step .default { LogIo.ok with fsync := fun _ => false }) FailedStayAborted
      (create : LogSystem Unit) [.commitAppend 3, .commitFlush 1 3] := by
  intro h
  obtain ⟨s, ⟨hfailed, hcommitted, hsynced⟩, hstay⟩ := h.eval (R := fun s => s.failed = [3] ∧
    isCommitted ((readLog s.log.file).map toWal) 3 = true ∧ s.log.synced = 0) (by decide +kernel)
  have hcrash : s.log.CrashOf s.log.file := ⟨le_rfl, by simp [hsynced], fun _ _ => .inl rfl⟩
  have hnot := (hstay s.log.file hcrash 3 (by simp [hfailed])).1
  rw [hcommitted] at hnot
  cases hnot

end LogSystem

end MiniDb
