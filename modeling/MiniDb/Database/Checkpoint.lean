import MiniDb.Transaction.Horizon

/-!
# Checkpoints and the truncation of the log

`Database::checkpoint` asks whether a transaction is active and calls `WalManager::checkpoint` with the answer.  That
call takes the latch of the log, writes a marker, has the pool write all dirty pages, has the page store sync its
files, and truncates the log if the answer allows it.  Nothing is checked on the way: a page that could not be written
stays behind, and whoever begins or still undoes between the question and the latch goes unnoticed.

A page is known by the changes that it contains, in the pool, in its file, and on stable storage.  `truncates_safely`
says when a truncation discards nothing that is needed.
-/

namespace MiniDb

open List

/-- One of the changes that a record describes, each made by a heap call of its own. -/
structure Change where
  lsn : ℕ
  txnId : ℕ
  part : ℕ
  page : ℕ
  deriving DecidableEq, Repr

/-- What becomes of a write to the page store: `lost` is an error that the store does not pass on. -/
inductive WriteOutcome where
  | written
  | refused
  | lost
  deriving DecidableEq, Repr

/-- A page, by the changes that its images contain. -/
structure PageState where
  mem : List Change := []
  dirty : Bool := false
  written : List Change := []
  stable : List Change := []
  deriving DecidableEq, Repr

open PageState

namespace PageState

section

variable (p : PageState)

def change (c : Change) : PageState := { p with mem := c :: p.mem, dirty := true }

/-- A change that no record describes, such as an undo or a prune. -/
def touch : PageState := { p with dirty := true }

/-- A dirty page is written, by `flush_all` or when it is evicted. -/
def writeBack (o : WriteOutcome) : PageState :=
  if p.dirty then
    match o with
    | .written => { p with written := p.mem, dirty := false }
    | .refused => p
    | .lost => { p with dirty := false }
  else p

/-- A clean page leaves the pool and is read again. -/
def reload : PageState := { p with mem := p.written }

def sync : PageState := { p with stable := p.written }

/-- The change is in the page, and in its file unless the page is dirty. -/
def Kept (c : Change) : Prop := c ∈ p.mem ∧ (p.dirty = false → c ∈ p.written)

end

section

variable {p : PageState} {c c' : Change}

lemma kept_change (p : PageState) (c : Change) : (p.change c).Kept c := by simp [change, Kept]

section

variable (h : p.Kept c)
include h

lemma Kept.change (c' : Change) : (p.change c').Kept c := by
  refine ⟨mem_cons_of_mem c' h.1, ?_⟩
  simp [PageState.change]

lemma Kept.touch : p.touch.Kept c := ⟨h.1, by simp [PageState.touch]⟩

lemma Kept.sync : p.sync.Kept c := h

lemma Kept.reload (hd : p.dirty = false) : p.reload.Kept c := ⟨h.2 hd, h.2⟩

omit h in
lemma writeBack_clean (hd : p.dirty = false) (o : WriteOutcome) : p.writeBack o = p := by
  simp [writeBack, hd]

lemma Kept.writeBack {o : WriteOutcome} (ho : p.dirty = true → o ≠ .lost) : (p.writeBack o).Kept c := by
  cases hd : p.dirty with
  | false => rwa [writeBack_clean hd]
  | true =>
    cases o with
    | written => simpa [PageState.writeBack, hd, Kept] using h.1
    | refused => simpa [PageState.writeBack, hd] using h
    | lost => exact absurd rfl (ho hd)

lemma Kept.mem_written {o : WriteOutcome} (ho : p.dirty = true → o = .written) :
    c ∈ (p.writeBack o).written := by
  cases hd : p.dirty with
  | false =>
    rw [writeBack_clean hd]
    exact h.2 hd
  | true => simpa [PageState.writeBack, hd, ho hd] using h.1

lemma Kept.mem_written_writeBack (hw : c ∈ p.written) (o : WriteOutcome) : c ∈ (p.writeBack o).written := by
  cases hd : p.dirty with
  | false => rwa [writeBack_clean hd]
  | true =>
    cases o with
    | written => simpa [PageState.writeBack, hd] using h.1
    | refused | lost => simpa [PageState.writeBack, hd] using hw

end

@[simp] lemma stable_writeBack (p : PageState) (o : WriteOutcome) : (p.writeBack o).stable = p.stable := by
  cases hd : p.dirty with
  | false => rw [writeBack_clean hd]
  | true => cases o <;> simp [writeBack, hd]

end

end PageState

/-- What becomes of the marker. -/
inductive MarkOutcome where
  | appendFails
  | flushFails
  | durable
  deriving DecidableEq, Repr

/-- The database as a checkpoint meets it. -/
structure CheckpointDb where
  txns : TxnSystem
  nextLsn : ℕ
  /-- LSN and transaction of the records in the log -/
  log : List (ℕ × ℕ)
  /-- the changes that they describe -/
  changes : List Change
  /-- those whose heap call has not come yet -/
  pending : List Change
  pages : ℕ → PageState
  /-- the checkpoints between the question and the latch: whether they may truncate, and the next
  transaction id at the question -/
  waiting : List (Bool × ℕ)
  /-- the checkpoint that has the latch: whether it may truncate, and how many steps of the flush are done -/
  flushing : Option (Bool × ℕ)

open CheckpointDb

inductive CheckpointAction where
  | begin (logged : Bool)
  | txn (a : TxnAction)
  | log (t : ℕ) (pages : List ℕ)
  | change (c : Change)
  | refuse (c : Change)
  | touch (page : ℕ)
  | writeBack (page : ℕ) (o : WriteOutcome)
  | reload (page : ℕ)
  | ask
  | mark (w : Bool × ℕ) (o : MarkOutcome)
  | flushPartition (outcome : ℕ → WriteOutcome)
  | syncStore (covered : ℕ → Bool)
  | truncate

/-- The transaction of an action other than `begin`. -/
def TxnAction.txn? : TxnAction → Option ℕ
  | .begin => none
  | .publish t => some t
  | .recordCommitted t => some t
  | .flip t => some t
  | .recordAborted t => some t
  | .finish t => some t

namespace TxnSystem

def IsRunning (sys : TxnSystem) (t : ℕ) : Prop := ∃ x ∈ sys.sessions t, x.phase = .running

/-- In `rollback`, from the flip of the slot to the last undo. -/
def IsUndoing (sys : TxnSystem) (t : ℕ) : Prop :=
  ∃ x ∈ sys.sessions t, x.phase = .flipped ∨ x.phase = .abortRecorded

instance (sys : TxnSystem) (t : ℕ) : Decidable (sys.IsRunning t) :=
  inferInstanceAs (Decidable (∃ x ∈ sys.sessions t, _))

instance (sys : TxnSystem) (t : ℕ) : Decidable (sys.IsUndoing t) :=
  inferInstanceAs (Decidable (∃ x ∈ sys.sessions t, _))

end TxnSystem

def TransactionManager.hasActiveTransactions (tm : TransactionManager) : Bool :=
  tm.txnSlots.any TxnSlot.isActive

namespace CheckpointDb

def create (slotCount firstTxnId nextLsn : ℕ) : CheckpointDb where
  txns := .init slotCount (firstTxnId + 1) (some .empty)
  nextLsn := nextLsn
  log := []
  changes := []
  pending := []
  pages := fun _ => {}
  waiting := []
  flushing := none

/-- A record of `t` is appended, which describes one change to each of the pages. -/
def append (s : CheckpointDb) (t : ℕ) (pages : List ℕ) : CheckpointDb :=
  let new := pages.zipIdx.map fun p => (⟨s.nextLsn, t, p.2, p.1⟩ : Change)
  { s with
    nextLsn := s.nextLsn + 1, log := s.log ++ [(s.nextLsn, t)]
    changes := s.changes ++ new, pending := s.pending ++ new }

def updatePage (s : CheckpointDb) (page : ℕ) (f : PageState → PageState) : CheckpointDb :=
  { s with pages := Function.update s.pages page (f (s.pages page)) }

variable (partitions : ℕ)

def step (s : CheckpointDb) : CheckpointAction → Option CheckpointDb
  | .begin logged =>
    -- `begin` calls `log_begin` under its own latch.
    if s.flushing.isSome then none
    else (s.txns.step .begin).map fun txns =>
      if logged then { s with txns := txns }.append s.txns.tm.nextTxnId [] else { s with txns := txns }
  | .txn a =>
    -- One thread runs a transaction, and is not within a heap call.
    if a = .begin ∨ ∃ c ∈ s.pending, a.txn? = some c.txnId then none
    else (s.txns.step a).map fun txns => { s with txns := txns }
  | .log t pages =>
    if s.flushing.isSome ∨ s.txns.sessions t = none ∨ pages ≠ [] ∧ ¬ s.txns.IsRunning t then none
    else some (s.append t pages)
  | .change c =>
    if c ∈ s.pending then
      some { s.updatePage c.page fun p => p.change c with pending := s.pending.filter (· ≠ c) }
    else none
  | .refuse c =>
    -- `mark_deleted_if_current` finds the row changed, so that the record describes no change.
    if c ∈ s.pending then
      some { s with pending := s.pending.filter (· ≠ c), changes := s.changes.filter (· ≠ c) }
    else none
  | .touch page => some (s.updatePage page touch)
  | .writeBack page o => some (s.updatePage page fun p => p.writeBack o)
  | .reload page => if (s.pages page).dirty then none else some (s.updatePage page reload)
  | .ask =>
    some { s with waiting := (!s.txns.tm.hasActiveTransactions, s.txns.tm.nextTxnId) :: s.waiting }
  | .mark w o =>
    if w ∈ s.waiting ∧ s.flushing = none then
      let s := { s with waiting := s.waiting.erase w }
      match o with
      | .appendFails => some s
      | .flushFails => some (s.append kInvalidTxnId [])
      | .durable => some { s.append kInvalidTxnId [] with flushing := some (w.1, 0) }
    else none
  | .flushPartition outcome =>
    match s.flushing with
    | some (allow, k) =>
      if k < partitions then
        some { s with
          flushing := some (allow, k + 1)
          pages := fun p => if p % partitions = k then (s.pages p).writeBack (outcome p) else s.pages p }
      else none
    | none => none
  | .syncStore covered =>
    match s.flushing with
    | some (allow, k) =>
      if k = partitions then
        some { s with
          flushing := some (allow, k + 1)
          pages := fun p => if covered p then (s.pages p).sync else s.pages p }
      else none
    | none => none
  | .truncate =>
    match s.flushing with
    | some (allow, k) =>
      if k = partitions + 1 then
        some (if allow then { s with flushing := none, log := [], changes := [] }
          else { s with flushing := none })
      else none
    | none => none

/-- A truncation discards only changes that are on stable storage, and no record of a transaction that
runs or still undoes. -/
def TruncatesSafely (s : CheckpointDb) : CheckpointAction → Prop
  | .truncate => s.flushing = some (true, partitions + 1) →
      (∀ c ∈ s.changes, c ∈ (s.pages c.page).stable) ∧
        ∀ r ∈ s.log, ¬ s.txns.IsRunning r.2 ∧ ¬ s.txns.IsUndoing r.2
  | _ => True

/-- The condition on a step.  A checkpoint that may truncate takes the latch when no transaction that began
since its question runs, and none undoes, with records in the log; no write of a dirty page with logged
changes is lost, and if the log may be truncated all of them succeed and are synced. -/
def FlushOk (s : CheckpointDb) : CheckpointAction → Prop
  | .mark w .durable => w.1 = true →
      ∀ r ∈ s.log, ¬ s.txns.IsUndoing r.2 ∧ (s.txns.IsRunning r.2 → r.2 < w.2)
  | .writeBack page o => ∀ c ∈ s.changes, c.page = page → (s.pages page).dirty = true → o ≠ .lost
  | .flushPartition outcome => ∀ f ∈ s.flushing, ∀ c ∈ s.changes, c.page % partitions = f.2 →
      (s.pages c.page).dirty = true → outcome c.page ≠ .lost ∧ (f.1 = true → outcome c.page = .written)
  | .syncStore covered => ∀ f ∈ s.flushing, f.1 = true → ∀ c ∈ s.changes,
      covered c.page = true ∨ c ∈ (s.pages c.page).stable
  | _ => True

end CheckpointDb

namespace TxnSystem

variable {sys sys' : TxnSystem} {a : TxnAction} {t : ℕ}

section

variable (hs : sys.step a = some sys')
include hs

/-- What a step does to a session: nothing, or it begins, or it goes on in its own phases. -/
lemma session_step (t : ℕ) : sys'.sessions t = sys.sessions t ∨
    (a = .begin ∧ t = sys.tm.nextTxnId ∧ ¬ sys'.IsUndoing t) ∨
    (a.txn? = some t ∧ ¬ sys'.IsRunning t ∧ (sys'.IsUndoing t → sys.IsUndoing t ∨ sys.IsRunning t)) := by
  cases step_cases hs with
  | begin =>
    by_cases heq : t = sys.tm.nextTxnId
    · exact .inr (.inl ⟨rfl, heq, by simp [IsUndoing, heq]⟩)
    · exact .inl (setSession_of_ne sys _ heq)
  | @publish t' | @recordCommitted t' | @finish t' =>
    by_cases heq : t = t'
    · exact .inr (.inr ⟨congrArg some heq.symm, by simp [IsRunning, heq], by simp [IsUndoing, heq]⟩)
    · exact .inl (setSession_of_ne sys _ heq)
  | @flip t' txn hx =>
    by_cases heq : t = t'
    · exact .inr (.inr ⟨congrArg some heq.symm, by simp [IsRunning, heq], fun _ => .inr ⟨_, heq ▸ hx, rfl⟩⟩)
    · exact .inl (setSession_of_ne sys _ heq)
  | @recordAborted t' txn hx =>
    by_cases heq : t = t'
    · exact .inr (.inr ⟨congrArg some heq.symm, by simp [IsRunning, heq],
        fun _ => .inl ⟨_, heq ▸ hx, .inl rfl⟩⟩)
    · exact .inl (setSession_of_ne sys _ heq)

lemma isRunning_of_step (hr : sys'.IsRunning t) : sys.IsRunning t ∨ a = .begin ∧ t = sys.tm.nextTxnId := by
  rcases session_step hs t with heq | ⟨ha, ht, -⟩ | ⟨-, hnot, -⟩
  · exact .inl (by rwa [IsRunning, ← heq])
  · exact .inr ⟨ha, ht⟩
  · exact absurd hr hnot

lemma isUndoing_of_step (hu : sys'.IsUndoing t) : sys.IsUndoing t ∨ sys.IsRunning t := by
  rcases session_step hs t with heq | ⟨-, -, hnot⟩ | ⟨-, -, hback⟩
  · exact .inl (by rwa [IsUndoing, ← heq])
  · exact absurd hu hnot
  · exact hback hu

end

lemma IsRunning.step (hr : sys.IsRunning t) (hi : TxnInv sys) (hs : sys.step a = some sys')
    (ha : a.txn? ≠ some t) : sys'.IsRunning t := by
  rcases session_step hs t with heq | ⟨-, ht, -⟩ | ⟨hown, -, -⟩
  · rwa [IsRunning, heq]
  · obtain ⟨x, hx, -⟩ := hr
    exact absurd ht (hi.session_ne_fresh hx)
  · exact absurd hown ha

lemma IsRunning.hasActiveTransactions (hr : sys.IsRunning t) (hi : TxnInv sys) :
    sys.tm.hasActiveTransactions = true := by
  obtain ⟨x, hx, hphase⟩ := hr
  have hin := (hi.session_ok t x hx).phase
  rw [hphase] at hin
  obtain ⟨slot, hslot, rfl, hactive⟩ := hi.slot_unfinished hin
  exact any_eq_true.2 ⟨slot, hslot, TxnSlot.isActive_iff.2 ⟨hi.began_ne _ hin.1, hactive⟩⟩

end TxnSystem

namespace CheckpointDb

variable {partitions : ℕ} {s s' : CheckpointDb} {a : CheckpointAction}

@[simp] lemma pages_updatePage_self (page : ℕ) (f : PageState → PageState) :
    (s.updatePage page f).pages page = f (s.pages page) := by
  simp [updatePage]

lemma pages_updatePage_of_ne {page page' : ℕ} (h : page' ≠ page) (f : PageState → PageState) :
    (s.updatePage page f).pages page' = s.pages page' := by
  simp [updatePage, h]

structure Inv (partitions : ℕ) (s : CheckpointDb) : Prop where
  txns : TxnInv s.txns
  /-- a heap call that is still to come belongs to a transaction that runs -/
  pending : ∀ c ∈ s.pending, (c.lsn, c.txnId) ∈ s.log ∧ s.txns.IsRunning c.txnId
  kept : ∀ c ∈ s.changes, c ∈ s.pending ∨ (s.pages c.page).Kept c
  /-- whoever runs has begun after a question that was answered with yes -/
  asked : ∀ w ∈ s.waiting, w.2 ≤ s.txns.tm.nextTxnId ∧
    (w.1 = true → ∀ t, s.txns.IsRunning t → w.2 ≤ t)
  /-- while a checkpoint that may truncate has the latch, all transactions in the log have ended -/
  quiet : ∀ k, s.flushing = some (true, k) →
    ∀ r ∈ s.log, ¬ s.txns.IsRunning r.2 ∧ ¬ s.txns.IsUndoing r.2
  /-- it has written the partitions that are done, and at last synced everything -/
  flushed : ∀ k, s.flushing = some (true, k) → ∀ c ∈ s.changes,
    (c.page % partitions < k → c ∈ (s.pages c.page).written) ∧
      (partitions < k → c ∈ (s.pages c.page).stable)

lemma inv_create (slotCount firstTxnId nextLsn : ℕ) : (create slotCount firstTxnId nextLsn).Inv partitions where
  txns := TxnInv.init (Nat.succ_pos _) (by rintro l ⟨⟩ c -; rfl)
  pending := fun _ h => absurd h not_mem_nil
  kept := fun _ h => absurd h not_mem_nil
  asked := fun _ h => absurd h not_mem_nil
  quiet := fun _ h => nomatch h
  flushed := fun _ h => nomatch h

section

variable (h : s.Inv partitions)
include h

/-- A record is appended while nobody has the latch. -/
lemma Inv.append (hlatch : s.flushing = none) {t : ℕ} {pages : List ℕ}
    (hrun : pages ≠ [] → s.txns.IsRunning t) : (s.append t pages).Inv partitions where
  txns := h.txns
  pending := by
    intro c hc
    rcases mem_append.1 hc with hc | hc
    · exact ⟨mem_append_left _ (h.pending c hc).1, (h.pending c hc).2⟩
    · obtain ⟨p, hp, rfl⟩ := mem_map.1 hc
      refine ⟨mem_append_right _ (by simp), hrun ?_⟩
      rintro rfl
      simp at hp
  kept := by
    intro c hc
    rcases mem_append.1 hc with hc | hc
    · exact (h.kept c hc).imp_left (mem_append_left _)
    · exact .inl (mem_append_right _ hc)
  asked := h.asked
  quiet := fun k hk => nomatch hlatch.symm.trans hk
  flushed := fun k hk => nomatch hlatch.symm.trans hk

variable {k : ℕ} {c : Change} {w : Bool × ℕ}

/-- While a checkpoint that may truncate has the latch, every change is made. -/
lemma Inv.made (hk : s.flushing = some (true, k)) (hc : c ∈ s.changes) : (s.pages c.page).Kept c := by
  rcases h.kept c hc with hp | hkept
  · obtain ⟨hlog, hrun⟩ := h.pending c hp
    exact absurd hrun (h.quiet k hk _ hlog).1
  · exact hkept

lemma Inv.withPages (pages : ℕ → PageState) (hkept : ∀ c ∈ s.changes, (s.pages c.page).Kept c → (pages c.page).Kept c ∧
      (c ∈ (s.pages c.page).written → c ∈ (pages c.page).written) ∧
      (c ∈ (s.pages c.page).stable → c ∈ (pages c.page).stable)) : { s with pages := pages }.Inv partitions where
  txns := h.txns
  pending := h.pending
  kept := fun c hc => (h.kept c hc).imp_right fun hk => (hkept c hc hk).1
  asked := h.asked
  quiet := h.quiet
  flushed := by
    intro k hk c hc
    obtain ⟨-, hwritten, hstable⟩ := hkept c hc (h.made hk hc)
    exact ⟨fun hlt => hwritten ((h.flushed k hk c hc).1 hlt), fun hlt => hstable ((h.flushed k hk c hc).2 hlt)⟩

lemma Inv.updatePage {page : ℕ} {f : PageState → PageState}
    (hkept : ∀ c ∈ s.changes, c.page = page → (s.pages page).Kept c → (f (s.pages page)).Kept c ∧
      (c ∈ (s.pages page).written → c ∈ (f (s.pages page)).written) ∧
      (c ∈ (s.pages page).stable → c ∈ (f (s.pages page)).stable)) : (s.updatePage page f).Inv partitions := by
  refine h.withPages (s.updatePage page f).pages fun c hc hk => ?_
  by_cases heq : c.page = page
  · subst heq
    rw [pages_updatePage_self]
    exact hkept c hc rfl hk
  · rw [pages_updatePage_of_ne heq]
    exact ⟨hk, id, id⟩

lemma Inv.withTxns {a : TxnAction} {txns : TxnSystem} (hs : s.txns.step a = some txns)
    (hpending : ∀ c ∈ s.pending, a.txn? ≠ some c.txnId) (hlatch : a = .begin → s.flushing = none) :
    { s with txns := txns }.Inv partitions where
  txns := h.txns.step hs
  pending := fun c hc => ⟨(h.pending c hc).1, (h.pending c hc).2.step h.txns hs (hpending c hc)⟩
  kept := h.kept
  asked := by
    intro w hw
    refine ⟨(h.asked w hw).1.trans (nextTxnId_le_of_step hs), fun hyes t hr => ?_⟩
    rcases TxnSystem.isRunning_of_step hs hr with hr | ⟨-, rfl⟩
    · exact (h.asked w hw).2 hyes t hr
    · exact (h.asked w hw).1
  quiet := by
    intro k hk r hr
    obtain ⟨hrun, hundo⟩ := h.quiet k hk r hr
    refine ⟨fun hr' => ?_, fun hu' => ?_⟩
    · rcases TxnSystem.isRunning_of_step hs hr' with hr' | ⟨hbegin, -⟩
      · exact hrun hr'
      · exact nomatch (hlatch hbegin).symm.trans hk
    · rcases TxnSystem.isUndoing_of_step hs hu' with hu' | hr'
      · exact hundo hu'
      · exact hrun hr'
  flushed := h.flushed

/-- A checkpoint that may truncate takes the latch: nobody in the log runs, since those that ran at the
question kept it from asking for a truncation, and those that began since have ended. -/
lemma Inv.latch (hw : w ∈ s.waiting)
    (hok : w.1 = true → ∀ r ∈ s.log, ¬ s.txns.IsUndoing r.2 ∧ (s.txns.IsRunning r.2 → r.2 < w.2))
    (hyes : w.1 = true) : ∀ r ∈ s.log, ¬ s.txns.IsRunning r.2 ∧ ¬ s.txns.IsUndoing r.2 := by
  intro r hr
  obtain ⟨hundo, hlt⟩ := hok hyes r hr
  refine ⟨fun hrun => ?_, hundo⟩
  have hge := (h.asked w hw).2 hyes r.2 hrun
  have hlt := hlt hrun
  omega

lemma Inv.not_invalid : ¬ s.txns.IsRunning kInvalidTxnId ∧ ¬ s.txns.IsUndoing kInvalidTxnId := by
  constructor
  · rintro ⟨x, hx, -⟩
    exact h.txns.began_ne _ (h.txns.session_ok _ x hx).began rfl
  · rintro ⟨x, hx, -⟩
    exact h.txns.began_ne _ (h.txns.session_ok _ x hx).began rfl

lemma Inv.mark {o : MarkOutcome} (hok : s.FlushOk partitions (.mark w o))
    (hs : s.step partitions (.mark w o) = some s') : s'.Inv partitions := by
  simp only [step] at hs
  split_ifs at hs with hw
  obtain ⟨hw, hlatch⟩ := hw
  have herase : { s with waiting := s.waiting.erase w }.Inv partitions :=
    { h with asked := fun w' hw' => h.asked w' (mem_of_mem_erase hw') }
  have happend : ({ s with waiting := s.waiting.erase w }.append kInvalidTxnId []).Inv partitions :=
    herase.append hlatch fun hne => absurd rfl hne
  cases o with
  | appendFails =>
    cases hs
    exact herase
  | flushFails =>
    cases hs
    exact happend
  | durable =>
    cases hs
    refine { happend with quiet := fun k hk r hr => ?_, flushed := fun k hk c hc => ?_ }
    · have hyes : w.1 = true := congrArg Prod.fst (Option.some.inj hk)
      rcases mem_append.1 hr with hr | hr
      · exact h.latch hw hok hyes r hr
      · rw [mem_singleton.1 hr]
        exact h.not_invalid
    · have hzero : 0 = k := congrArg Prod.snd (Option.some.inj hk)
      subst hzero
      exact ⟨fun hlt => absurd hlt (Nat.not_lt_zero _), fun hlt => absurd hlt (Nat.not_lt_zero _)⟩

lemma Inv.flushPartition {outcome : ℕ → WriteOutcome} (hok : s.FlushOk partitions (.flushPartition outcome))
    (hs : s.step partitions (.flushPartition outcome) = some s') : s'.Inv partitions := by
  simp only [step] at hs
  split at hs
  · rename_i allow k hk
    split_ifs at hs with hlt
    cases hs
    have hpages : ∀ c ∈ s.changes, (s.pages c.page).Kept c →
        ((if c.page % partitions = k then (s.pages c.page).writeBack (outcome c.page) else s.pages c.page).Kept c) := by
      intro c hc hkept
      split_ifs with hpart
      · exact hkept.writeBack fun hd => (hok _ hk c hc hpart hd).1
      · exact hkept
    refine
      { txns := h.txns, pending := h.pending, asked := h.asked
        kept := fun c hc => (h.kept c hc).imp_right (hpages c hc)
        quiet := fun k' hk' => ?_
        flushed := fun k' hk' c hc => ?_ }
    · cases hk'
      exact h.quiet k hk
    · cases hk'
      have hmade := h.made hk hc
      refine ⟨fun hdone => ?_, fun hall => by omega⟩
      dsimp only
      split_ifs with hpart
      · exact hmade.mem_written fun hd => (hok _ hk c hc hpart hd).2 rfl
      · exact (h.flushed k hk c hc).1 (by omega)
  · cases hs

lemma Inv.syncStore (hpart : 0 < partitions) {covered : ℕ → Bool}
    (hok : s.FlushOk partitions (.syncStore covered))
    (hs : s.step partitions (.syncStore covered) = some s') : s'.Inv partitions := by
  simp only [step] at hs
  split at hs
  · rename_i allow k hk
    split_ifs at hs with heq
    subst heq
    cases hs
    refine
      { txns := h.txns, pending := h.pending, asked := h.asked
        kept := fun c hc => (h.kept c hc).imp_right fun hkept => ?_
        quiet := fun k' hk' => ?_
        flushed := fun k' hk' c hc => ?_ }
    · dsimp only
      split_ifs
      · exact hkept.sync
      · exact hkept
    · cases hk'
      exact h.quiet k hk
    · cases hk'
      have hwritten := (h.flushed k hk c hc).1 (Nat.mod_lt _ hpart)
      dsimp only
      split_ifs with hcov
      · exact ⟨fun _ => hwritten, fun _ => hwritten⟩
      · exact ⟨fun _ => hwritten, fun _ => (hok _ hk rfl c hc).resolve_left hcov⟩
  · cases hs

/-- A heap call makes its change; no checkpoint that may truncate has the latch then. -/
lemma Inv.change (hc : c ∈ s.pending) :
    { s.updatePage c.page fun p => p.change c with pending := s.pending.filter (· ≠ c) }.Inv partitions where
  txns := h.txns
  pending := fun c' hc' => h.pending c' (mem_of_mem_filter hc')
  kept := by
    intro c' hc'
    by_cases hsame : c' = c
    · subst hsame
      rw [pages_updatePage_self]
      exact .inr (kept_change _ _)
    rcases h.kept c' hc' with hp | hk
    · exact .inl (mem_filter.2 ⟨hp, by simpa using hsame⟩)
    · by_cases hpage : c'.page = c.page
      · rw [hpage] at hk ⊢
        rw [pages_updatePage_self]
        exact .inr (hk.change c)
      · rw [pages_updatePage_of_ne hpage]
        exact .inr hk
  asked := h.asked
  quiet := h.quiet
  flushed := fun k hk => absurd (h.pending c hc).2 (h.quiet k hk _ (h.pending c hc).1).1

lemma Inv.truncate (hk : s.flushing = some (true, k)) :
    { s with flushing := none, log := [], changes := [] }.Inv partitions where
  txns := h.txns
  pending := fun c hc => absurd (h.pending c hc).2 (h.quiet k hk _ (h.pending c hc).1).1
  kept := fun _ hc => absurd hc not_mem_nil
  asked := h.asked
  quiet := fun _ hk' => nomatch hk'
  flushed := fun _ hk' => nomatch hk'

lemma Inv.step (hpart : 0 < partitions) (hok : s.FlushOk partitions a)
    (hs : step partitions s a = some s') : s'.Inv partitions := by
  cases a <;> simp only [step] at hs
  case begin logged =>
    by_cases hlatch : s.flushing.isSome = true
    · rw [if_pos hlatch] at hs
      cases hs
    rw [if_neg hlatch] at hs
    have hfree : s.flushing = none := by simpa using hlatch
    obtain ⟨txns, htxns, rfl⟩ := Option.map_eq_some_iff.1 hs
    have hbegun := h.withTxns htxns (fun _ _ => nofun) fun _ => hfree
    cases logged with
    | true => exact hbegun.append hfree fun hne => absurd rfl hne
    | false => exact hbegun
  case txn a =>
    split_ifs at hs with hno
    obtain ⟨txns, htxns, rfl⟩ := Option.map_eq_some_iff.1 hs
    push Not at hno
    exact h.withTxns htxns hno.2 fun hbegin => absurd hbegin hno.1
  case log t pages =>
    split_ifs at hs with hno
    cases hs
    push Not at hno
    exact h.append (by simpa using hno.1) hno.2.2
  case change c =>
    split_ifs at hs with hc
    cases hs
    exact h.change hc
  case refuse c =>
    split_ifs at hs with hc
    cases hs
    refine { h with
        pending := fun c' hc' => h.pending c' (mem_of_mem_filter hc')
        kept := fun c' hc' => ?_
        flushed := fun k hk c' hc' => h.flushed k hk c' (mem_of_mem_filter hc') }
    obtain ⟨hc', hne⟩ := mem_filter.1 hc'
    exact (h.kept c' hc').imp_left fun hp => mem_filter.2 ⟨hp, hne⟩
  case touch page =>
    cases hs
    exact h.updatePage fun c _ _ hk => ⟨hk.touch, id, id⟩
  case writeBack page o =>
    cases hs
    refine h.updatePage fun c hc heq hk => ⟨hk.writeBack (hok c hc heq), fun hw => ?_, fun hst => ?_⟩
    · exact hk.mem_written_writeBack hw o
    · rwa [stable_writeBack]
  case reload page =>
    split_ifs at hs with hd
    cases hs
    exact h.updatePage fun c _ _ hk => ⟨hk.reload (by simpa using hd), id, id⟩
  case ask =>
    cases hs
    refine { h with asked := fun w hw => ?_ }
    rcases mem_cons.1 hw with rfl | hw
    · refine ⟨le_rfl, fun hyes t hr => ?_⟩
      simp [hr.hasActiveTransactions h.txns] at hyes
    · exact h.asked w hw
  case mark w o => exact h.mark hok hs
  case flushPartition outcome => exact h.flushPartition hok hs
  case syncStore covered => exact h.syncStore hpart hok hs
  case truncate =>
    split at hs
    · rename_i allow k hk
      split_ifs at hs with hdone hallow
      · cases hs
        rw [hallow] at hk
        exact h.truncate hk
      · cases hs
        exact { h with quiet := fun _ hk' => (nomatch hk'), flushed := fun _ hk' => (nomatch hk') }
    · cases hs

end

/-- **Truncation.**  In every run whose steps meet the condition, whenever the log is truncated, all changes
that it describes are on stable storage, and none of its transactions runs or still undoes. -/
theorem truncates_safely (hpart : 0 < partitions) (slotCount firstTxnId nextLsn : ℕ)
    (actions : List CheckpointAction)
    (hok : StepsMeet (CheckpointDb.step partitions) (FlushOk partitions) (create slotCount firstTxnId nextLsn)
      actions) :
    StepsMeet (CheckpointDb.step partitions) (TruncatesSafely partitions) (create slotCount firstTxnId nextLsn)
      actions := by
  refine hok.of_invariant (I := Inv partitions) (fun _ _ _ h hok hs => h.step hpart hok hs) ?_
    (inv_create slotCount firstTxnId nextLsn)
  intro s a h _
  cases a with
  | truncate =>
    intro hk
    exact ⟨fun c hc => (h.flushed _ hk c hc).2 (Nat.lt_succ_self _), h.quiet _ hk⟩
  | _ => trivial

instance (s : CheckpointDb) : (a : CheckpointAction) → Decidable (s.TruncatesSafely partitions a)
  | .truncate => inferInstanceAs (Decidable (_ → _ ∧ ∀ r ∈ s.log, _))
  | .begin _ | .txn _ | .log .. | .change _ | .refuse _ | .touch _ | .writeBack .. | .reload _ | .ask
  | .mark .. | .flushPartition _ | .syncStore _ => isTrue trivial

instance (s : CheckpointDb) : (a : CheckpointAction) → Decidable (s.FlushOk partitions a)
  | .mark _ .durable => inferInstanceAs (Decidable (_ → ∀ r ∈ s.log, _ ∧ (_ → _)))
  | .writeBack .. => inferInstanceAs (Decidable (∀ c ∈ s.changes, _ → _ → _))
  | .flushPartition _ => inferInstanceAs (Decidable (∀ f ∈ s.flushing, ∀ c ∈ s.changes, _ → _ → _ ∧ (_ → _)))
  | .syncStore _ => inferInstanceAs (Decidable (∀ f ∈ s.flushing, _ → ∀ c ∈ s.changes, _ ∨ _))
  | .begin _ | .txn _ | .log .. | .change _ | .refuse _ | .touch _ | .reload _ | .ask
  | .mark _ .appendFails | .mark _ .flushFails | .truncate => isTrue trivial

/-- A checkpoint of a pool with one partition, whose writes all succeed. -/
def checkpointSteps (w : Bool × ℕ) : List CheckpointAction :=
  [.mark w .durable, .flushPartition fun _ => .written, .syncStore fun _ => true, .truncate]

/-- A transaction changes two pages and commits, and then the log is truncated. -/
theorem truncates_safely_commit :
    StepsMeet (CheckpointDb.step 1) (TruncatesSafely 1) (create 2 0 1)
      ([.begin true, .log 1 [5, 6], .change ⟨2, 1, 0, 5⟩, .change ⟨2, 1, 1, 6⟩, .log 1 [], .txn (.publish 1),
        .txn (.recordCommitted 1), .txn (.finish 1), .ask] ++ checkpointSteps (true, 3)) :=
  truncates_safely Nat.one_pos 2 0 1 _ (by decide)

/-- A transaction begins and writes its records after the question and before the latch: they are gone while
it runs. -/
theorem truncates_active_records :
    ¬ StepsMeet (CheckpointDb.step 1) (TruncatesSafely 1) (create 2 0 1)
      ([.ask, .begin true, .log 1 [5], .change ⟨2, 1, 0, 5⟩] ++ checkpointSteps (true, 1)) := by
  decide

end CheckpointDb

end MiniDb
