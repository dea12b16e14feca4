import MiniDb.Database.UndoLedger

/-!
# Serializable transactions and write skew

At commit, `ssi_check_conflict` compares the read set of a serializable transaction with the write sets of the
transactions that committed since its snapshot, and the commit becomes a rollback if they meet.  `SsiEngine` is the
engine together with that protocol:

* `read` returns a row version to the client.  A sequential or index scan adds it to the read set; an index-only scan
  and the inner side of an index lookup join do not (`AccessPath.tracked`).
* `check` is the comparison; other transactions may commit between it and the commit itself (`publish`).

`noWriteSkew_of_conflictsSeen`: as long as no commit goes through whose check has missed a conflict, no two concurrent
serializable transactions both commit after each has returned a version that the other one updated or deleted.

The fields `returned` and `done` are ghosts: what clients were given, and what was committed.
-/

namespace MiniDb

open Function List Option Engine TxnSystem List.Subset

variable {β κ : Type*}

inductive AccessPath where
  | seqScan
  | indexScan
  | indexOnlyScan
  | indexLookupJoin
  deriving DecidableEq, Repr

/-- Does the executor call `record_read`? -/
def AccessPath.tracked : AccessPath → Bool
  | .seqScan => true
  | .indexScan => true
  | .indexOnlyScan => false
  | .indexLookupJoin => false

def Transaction.recordRead (txn : Transaction) (tableId : ℕ) (rid : RecordId) : Transaction :=
  if txn.isolation ≠ .serializable then txn
  else if ⟨tableId, rid⟩ ∈ txn.readSet then txn
  else { txn with readSet := txn.readSet ++ [⟨tableId, rid⟩] }

def TransactionManager.ssiCheckConflict (tm : TransactionManager) (txn : Transaction) : Bool :=
  tm.committedHistory.any fun entry =>
    entry.txnId != txn.id && txn.snapshotId ≤ entry.commitId &&
      entry.writes.any fun w => txn.readSet.contains w

def TransactionManager.setDefaultIsolation (tm : TransactionManager) (level : IsolationLevel) :
    TransactionManager :=
  { tm with defaultIsolation := level }

/-- Where a commit stands: its check is to come, was passed when `next` was the next id, or has
found a conflict. -/
inductive CommitStage where
  | unchecked
  | passed (next : ℕ)
  | refused
  deriving DecidableEq, Repr

/-- A row version that was returned to a client: how, from where, and which one. -/
structure Returned where
  path : AccessPath
  rid : RecordId
  ver : ℕ
  deriving DecidableEq, Repr

/-- A committed transaction, with the versions it has set `xmax` on. -/
structure CommittedTxn where
  txn : Transaction
  superseded : List ℕ
  deriving DecidableEq, Repr

/-- The committed transaction updated or deleted the version at `rid`. -/
def CommittedTxn.Overwrote (c : CommittedTxn) (rid : RecordId) (ver : ℕ) : Prop :=
  (∃ u ∈ c.txn.undoRecords, (u.type = .delete ∨ u.type = .hotDelete) ∧
    u.tableId = Engine.kTableId ∧ u.rid = rid) ∧ ver ∈ c.superseded

instance (c : CommittedTxn) (rid : RecordId) (ver : ℕ) : Decidable (c.Overwrote rid ver) :=
  inferInstanceAs (Decidable (_ ∧ _))

/-- What the history of commits keeps of the transaction. -/
def CommittedTxn.entry (c : CommittedTxn) : CommittedWriteSet :=
  ⟨c.txn.commitId, c.txn.id, c.txn.undoRecords.map fun r => ⟨r.tableId, r.rid⟩⟩

structure SsiEngine (β κ : Type*) where
  engine : Engine β κ
  stage : ℕ → CommitStage
  returned : ℕ → List Returned
  done : ℕ → Option CommittedTxn

inductive SsiAction (β : Type*) where
  | engine (a : Action β)
  | read (t : ℕ) (path : AccessPath) (rid : RecordId)
  | check (t : ℕ)
  | setDefaultIsolation (level : IsolationLevel)

/-- The session whose statement the action belongs to. -/
def Action.statementOf : Action β → Option ℕ
  | .beginStmt t => some t
  | .scan t _ => some t
  | .readRow t => some t
  | .lockRow t => some t
  | .recheck t => some t
  | .install t _ _ _ _ => some t
  | .commitOld t => some t
  | .insert t _ _ _ => some t
  | .indexRow t => some t
  | .lockDelete t => some t
  | .delete t _ => some t
  | .failStmt t => some t
  | .endStmt t => some t
  | _ => none

/-- A session's read set, with one more record read. -/
def Engine.recordRead (e : Engine β κ) (t : ℕ) (rid : RecordId) : Engine β κ :=
  { e with
    sys :=
      { e.sys with
        sessions := Function.update e.sys.sessions t ((e.sys.sessions t).map fun x =>
          { x with txn := x.txn.recordRead kTableId rid }) } }

open Engine

namespace SsiEngine

def init (sys : TxnSystem) (keys : List (β → κ)) : SsiEngine β κ where
  engine := Engine.init sys keys
  stage := fun _ => .unchecked
  returned := fun _ => []
  done := fun _ => none

/-- A session that has called `commit` executes no statement.  A serializable commit goes through
only after its check. -/
def mayAct (s : SsiEngine β κ) : Action β → Bool
  | .txn (.publish t) =>
    match s.engine.running t with
    | none => false
    | some txn =>
      match s.stage t with
      | .unchecked => txn.isolation != .serializable
      | .passed _ => true
      | .refused => false
  | a =>
    match a.statementOf with
    | some t => s.stage t == .unchecked
    | none => true

/-- What an action of the engine changes besides the engine.  The scan below an UPDATE or DELETE
records its reads too. -/
def after (s : SsiEngine β κ) (e : Engine β κ) : Action β → SsiEngine β κ
  | .scan t rid => { s with engine := e.recordRead t rid }
  | .txn (.publish t) =>
    { s with
      engine := e
      done := Function.update s.done t ((e.sys.sessions t).map fun x =>
        ⟨x.txn, (e.superseded.filter fun p => p.2 = t).map Prod.fst⟩) }
  | _ => { s with engine := e }

/-- May the executor return the version at `rid`?  An index-only scan does not look at the rows of a
page that the visibility map shows as all-visible. -/
def mayReturn (e : Engine β κ) (txn : Transaction) (path : AccessPath) (rid : RecordId) : Bool :=
  match e.heap.tupleAt rid with
  | none => false
  | some tup => e.sys.tm.isVisible tup.xmin tup.xmax txn ||
      path == .indexOnlyScan && (e.heap.vm rid.pageId).visible

def read (s : SsiEngine β κ) (t : ℕ) (path : AccessPath) (rid : RecordId) : Option (SsiEngine β κ) :=
  (s.engine.running t).bind fun txn =>
    if s.stage t = .unchecked ∧ mayReturn s.engine txn path rid = true then
      some { s with
        engine := if path.tracked then s.engine.recordRead t rid else s.engine
        returned := Function.update s.returned t
          (⟨path, rid, s.engine.ver rid⟩ :: s.returned t) }
    else none

/-- The check at the start of a serializable commit, when no statement is running. -/
def check (s : SsiEngine β κ) (t : ℕ) : Option (SsiEngine β κ) :=
  (s.engine.running t).bind fun txn =>
    if txn.isolation = .serializable ∧ s.stage t = .unchecked ∧ (s.engine.stmts t).isNone then
      some { s with
        stage := Function.update s.stage t
          (if s.engine.sys.tm.ssiCheckConflict txn then .refused
            else .passed s.engine.sys.tm.nextTxnId) }
    else none

def step [DecidableEq κ] (s : SsiEngine β κ) : SsiAction β → Option (SsiEngine β κ)
  | .engine a => if s.mayAct a then (s.engine.step a).map fun e => s.after e a else none
  | .read t path rid => s.read t path rid
  | .check t => s.check t
  | .setDefaultIsolation level =>
    some { s with
      engine := { s.engine with
        sys := { s.engine.sys with tm := s.engine.sys.tm.setDefaultIsolation level } } }

def hist (s : SsiEngine β κ) : List TxnEvent := s.engine.sys.hist

/-- No two serializable transactions, neither of which committed before the other began, have
both committed after each returned a version that the other one updated or deleted. -/
def NoWriteSkew (s : SsiEngine β κ) : Prop :=
  ∀ t₁ t₂ c₁ c₂, t₁ ≠ t₂ → s.done t₁ = some c₁ → s.done t₂ = some c₂ →
    c₁.txn.isolation = .serializable → c₂.txn.isolation = .serializable →
    ¬ CommittedBefore s.hist t₁ t₂ → ¬ CommittedBefore s.hist t₂ t₁ →
    ¬ ((∃ r ∈ s.returned t₁, c₂.Overwrote r.rid r.ver) ∧ ∃ r ∈ s.returned t₂, c₁.Overwrote r.rid r.ver)

/-- When a serializable transaction commits: every version it returned that a concurrent
transaction has overwritten and committed was returned by an executor that tracks reads, and that
transaction had committed before the check. -/
def ConflictsSeen (s : SsiEngine β κ) : SsiAction β → Prop
  | .engine (.txn (.publish t)) =>
    ∀ txn, s.engine.running t = some txn → txn.isolation = .serializable →
      ∀ t' c, s.done t' = some c → ¬ CommittedBefore s.hist t' t →
        ∀ r ∈ s.returned t, c.Overwrote r.rid r.ver →
          r.path.tracked = true ∧ ∃ next, s.stage t = .passed next ∧ c.txn.commitId < next
  | _ => True

end SsiEngine

/-! ## What the actions do to the transaction system -/

variable {e : Engine β κ} {t u : ℕ} {txn : Transaction}

lemma Engine.sameTxns_of_step [DecidableEq κ] {e' : Engine β κ} {a : Action β}
    (h : e.step a = some e') (hne : ∀ b, a ≠ .txn b) : SameTxns e.sys e'.sys := by
  cases hs : a.session? with
  | some t => exact (touches_of_step hs hne h).sameTxns
  | none =>
    cases a with
    | txn b => exact absurd rfl (hne b)
    | gc | vacuum =>
      obtain rfl := some.inj h
      exact .refl _
    | _ => cases hs

/-- The two systems have the same transactions, up to undo records, reads and the default isolation;
read sets grow, and only those of sessions that `P` allows. -/
structure AlikeTxns (P : ℕ → Prop) (sys sys' : TxnSystem) : Prop where
  hist : sys'.hist = sys.hist
  slots : sys'.tm.txnSlots = sys.tm.txnSlots
  next : sys'.tm.nextTxnId = sys.tm.nextTxnId
  status : sys'.tm.status = sys.tm.status
  committed : sys'.tm.committedHistory = sys.tm.committedHistory
  sessions : ∀ t x', sys'.sessions t = some x' → ∃ x, sys.sessions t = some x ∧
    x'.phase = x.phase ∧ x'.txn.id = x.txn.id ∧ x'.txn.snapshotId = x.txn.snapshotId ∧
    x'.txn.activeSnapshot = x.txn.activeSnapshot ∧ x'.txn.isolation = x.txn.isolation ∧
    x.txn.readSet ⊆ x'.txn.readSet ∧ (x'.txn.readSet = x.txn.readSet ∨ P t)
  sessions_some : ∀ t, (sys'.sessions t).isSome = (sys.sessions t).isSome

namespace AlikeTxns

variable {P : ℕ → Prop} {sys sys' : TxnSystem}

lemma of_same (h : SameTxns sys sys') : AlikeTxns P sys sys' where
  hist := h.hist
  slots := by rw [h.tm]
  next := by rw [h.tm]
  status := by rw [h.tm]
  committed := by rw [h.tm]
  sessions t x' hx' := by
    obtain ⟨x, hx, heq⟩ := h.session hx'
    simp only [Session.forgetUndo, Session.mk.injEq, Transaction.mk.injEq] at heq
    obtain ⟨⟨hid, hsnap, -, -, hact, -, hreads, hiso⟩, hph⟩ := heq
    exact ⟨x, hx, hph, hid, hsnap, hact, hiso, hreads ▸ refl _, .inl hreads⟩
  sessions_some t := by
    have := congrArg isSome (h.sessions t)
    simpa using this

section

variable (h : AlikeTxns P sys sys')
include h

lemma mono {Q : ℕ → Prop} (hPQ : ∀ t, P t → Q t) : AlikeTxns Q sys sys' :=
  { h with
    sessions := fun t x' hx' => by
      obtain ⟨x, hx, hph, hid, hsnap, hact, hiso, hsub, hreads⟩ := h.sessions t x' hx'
      exact ⟨x, hx, hph, hid, hsnap, hact, hiso, hsub, hreads.imp_right (hPQ t)⟩ }

lemma running {txn' : Transaction} (hr : sys'.sessions t = some ⟨txn', .running⟩) :
    ∃ txn, sys.sessions t = some ⟨txn, .running⟩ ∧ txn'.isolation = txn.isolation ∧
      txn.readSet ⊆ txn'.readSet ∧ (txn'.readSet = txn.readSet ∨ P t) := by
  obtain ⟨⟨txn, ph⟩, hx, hph, -, -, -, hiso, hsub, hreads⟩ := h.sessions t _ hr
  subst hph
  exact ⟨txn, hx, hiso, hsub, hreads⟩

lemma txnInv (hi : TxnInv sys) : TxnInv sys' := by
  refine hi.carry h.hist h.slots h.next h.status (fun t x' hx' => ?_) h.sessions_some
  obtain ⟨x, hx, hph, hid, hsnap, hact, -⟩ := h.sessions t x' hx'
  exact ⟨x, hx, hph, hid, hsnap, hact⟩

end

end AlikeTxns

lemma Transaction.recordRead_eq (txn : Transaction) (tableId : ℕ) (rid : RecordId) :
    ∃ reads, txn.recordRead tableId rid = { txn with readSet := reads } ∧ txn.readSet ⊆ reads := by
  unfold recordRead
  split
  · exact ⟨txn.readSet, rfl, refl _⟩
  · split
    · exact ⟨txn.readSet, rfl, refl _⟩
    · exact ⟨_, rfl, subset_append_left _ _⟩

lemma Transaction.mem_readSet_recordRead (h : txn.isolation = .serializable) (tableId : ℕ) (rid : RecordId) :
    ⟨tableId, rid⟩ ∈ (txn.recordRead tableId rid).readSet := by
  unfold recordRead
  rw [if_neg (by simp [h])]
  split
  · assumption
  · simp

lemma Engine.alike_recordRead (e : Engine β κ) (t : ℕ) (rid : RecordId) :
    AlikeTxns (· = t) e.sys (e.recordRead t rid).sys where
  hist := rfl
  slots := rfl
  next := rfl
  status := rfl
  committed := rfl
  sessions u x' hx' := by
    simp only [recordRead] at hx'
    rcases update_eq_some hx' with ⟨rfl, hx'⟩ | ⟨-, hx'⟩
    · obtain ⟨x, hx, rfl⟩ := map_eq_some_iff.1 hx'
      obtain ⟨reads, hreads, hsub⟩ := x.txn.recordRead_eq kTableId rid
      rw [hreads]
      exact ⟨x, hx, rfl, rfl, rfl, rfl, rfl, hsub, .inr rfl⟩
    · exact ⟨x', hx', rfl, rfl, rfl, rfl, rfl, refl _, .inl rfl⟩
  sessions_some u := by
    simp only [recordRead]
    by_cases hu : u = t
    · subst hu
      rw [update_self, isSome_map]
    · rw [update_of_ne hu]

lemma AlikeTxns.trans {P : ℕ → Prop} {a b c : TxnSystem} (h1 : AlikeTxns P a b)
    (h2 : AlikeTxns P b c) : AlikeTxns P a c where
  hist := h2.hist.trans h1.hist
  slots := h2.slots.trans h1.slots
  next := h2.next.trans h1.next
  status := h2.status.trans h1.status
  committed := h2.committed.trans h1.committed
  sessions t z hz := by
    obtain ⟨y, hy, hph, hid, hsnap, hact, hiso, hsub, hreads⟩ := h2.sessions t z hz
    obtain ⟨x, hx, hph', hid', hsnap', hact', hiso', hsub', hreads'⟩ := h1.sessions t y hy
    refine ⟨x, hx, hph.trans hph', hid.trans hid', hsnap.trans hsnap', hact.trans hact',
      hiso.trans hiso', List.Subset.trans hsub' hsub, ?_⟩
    rcases hreads with hreads | hP
    · rcases hreads' with hreads' | hP
      · exact .inl (hreads.trans hreads')
      · exact .inr hP
    · exact .inr hP
  sessions_some t := (h2.sessions_some t).trans (h1.sessions_some t)

/-- A session adds to its read set only before its check. -/
lemma SsiEngine.alike_of_step [DecidableEq κ] {s s' : SsiEngine β κ} {a : SsiAction β} (hs : s.step a = some s')
    (hne : ∀ b, a ≠ .engine (.txn b)) : AlikeTxns (fun t => s.stage t = .unchecked) s.engine.sys s'.engine.sys := by
  cases a with
  | read t path rid =>
    obtain ⟨txn, -, hs⟩ := bind_eq_some_iff.1 hs
    split_ifs at hs with hmay
    all_goals cases hs
    · exact (s.engine.alike_recordRead t rid).mono fun u hu => hu ▸ hmay.1
    · exact .of_same (.refl _)
  | check t =>
    obtain ⟨txn, -, hs⟩ := bind_eq_some_iff.1 hs
    split_ifs at hs
    all_goals
      cases hs
      exact .of_same (.refl _)
  | setDefaultIsolation level =>
    cases hs
    exact ⟨rfl, rfl, rfl, rfl, rfl, fun t x hx => ⟨x, hx, rfl, rfl, rfl, rfl, rfl, refl _, .inl rfl⟩, fun _ => rfl⟩
  | engine a =>
    simp only [SsiEngine.step] at hs
    split_ifs at hs with hmay
    obtain ⟨e, he, rfl⟩ := map_eq_some_iff.1 hs
    have hsame := sameTxns_of_step he fun b hb => hne b (congrArg _ hb)
    cases a with
    | scan t rid =>
      have hstage : s.stage t = .unchecked := by
        simpa [SsiEngine.mayAct, Action.statementOf] using hmay
      exact (AlikeTxns.of_same hsame).trans ((e.alike_recordRead t rid).mono fun u hu => hu ▸ hstage)
    | txn b => exact absurd rfl (hne b)
    | _ => exact .of_same hsame

/-! ## The invariant -/

/-- What ties committed transactions, history of commits, checks and read sets together. -/
structure SsiInv (s : SsiEngine β κ) : Prop where
  txn : TxnInv s.engine.sys
  slot_snapshot : ∀ sl ∈ s.engine.sys.tm.txnSlots, sl.isActive = true →
    sl.snapshotId = sl.txnId + 1
  done_ok : ∀ t c, s.done t = some c →
    .committed t ∈ s.hist ∧ c.txn.id = t ∧ c.txn.commitId < s.engine.sys.tm.nextTxnId
  /-- The commit ids below the id of a transaction were drawn before that one began. -/
  done_before : ∀ t c, s.done t = some c → ∀ u, .began u ∈ s.hist →
    (c.txn.commitId ≤ u ↔ CommittedBefore s.hist t u)
  done_inj : ∀ t t' c c', s.done t = some c → s.done t' = some c' →
    c.txn.commitId = c'.txn.commitId → t = t'
  /-- The write sets that a running transaction has to be checked against are kept. -/
  kept : ∀ t c, s.done t = some c → ∀ u txn, s.engine.running u = some txn →
    u < c.txn.commitId → c.entry ∈ s.engine.sys.tm.committedHistory
  stage_began : ∀ u, s.stage u ≠ .unchecked → .began u ∈ s.hist
  passed_le : ∀ u next, s.stage u = .passed next → next ≤ s.engine.sys.tm.nextTxnId
  returned_began : ∀ u, s.returned u ≠ [] → .began u ∈ s.hist
  reads : ∀ u txn, s.engine.running u = some txn → txn.isolation = .serializable →
    ∀ r ∈ s.returned u, r.path.tracked = true → ⟨kTableId, r.rid⟩ ∈ txn.readSet
  checked : ∀ u txn next, s.engine.running u = some txn → s.stage u = .passed next →
    ∀ t c, s.done t = some c → u < c.txn.commitId → c.txn.commitId < next →
      ∀ w ∈ c.entry.writes, w ∉ txn.readSet
  /-- Who commits later has returned nothing that a concurrent, earlier one overwrote. -/
  ordered : ∀ t t' c c', s.done t = some c → s.done t' = some c' →
    c'.txn.isolation = .serializable → c.txn.commitId < c'.txn.commitId → t' < c.txn.commitId →
      ∀ r ∈ s.returned t', ¬ c.Overwrote r.rid r.ver

namespace SsiInv

variable {s s' : SsiEngine β κ}

section

variable (h : SsiInv s)
include h

lemma noWriteSkew : s.NoWriteSkew := by
  intro t₁ t₂ c₁ c₂ hne h1 h2 hiso1 hiso2 hconc1 hconc2
  rintro ⟨⟨r1, hr1, hover1⟩, r2, hr2, hover2⟩
  have hbegan : ∀ t c, s.done t = some c → .began t ∈ s.hist := fun t c hc =>
    h.txn.histOk.began_of_mem (h.done_ok t c hc).1
  have hlt : ∀ t t' c, s.done t = some c → .began t' ∈ s.hist → ¬ CommittedBefore s.hist t t' →
      t' < c.txn.commitId := by
    intro t t' c hc hb hconc
    by_contra hle
    exact hconc ((h.done_before t c hc t' hb).1 (not_lt.1 hle))
  rcases lt_trichotomy c₁.txn.commitId c₂.txn.commitId with hc | hc | hc
  · exact h.ordered t₁ t₂ c₁ c₂ h1 h2 hiso2 hc (hlt t₁ t₂ c₁ h1 (hbegan t₂ c₂ h2) hconc1) r2 hr2 hover2
  · exact hne (h.done_inj t₁ t₂ c₁ c₂ h1 h2 hc)
  · exact h.ordered t₂ t₁ c₂ c₁ h2 h1 hiso1 hc (hlt t₂ t₁ c₂ h2 (hbegan t₁ c₁ h1) hconc2) r1 hr1 hover1

/-- Steps that leave the transactions alone, and add to read sets only before the check. -/
lemma alike (ha : AlikeTxns (fun t => s.stage t = .unchecked) s.engine.sys e.sys) :
    SsiInv { s with engine := e } where
  txn := ha.txnInv h.txn
  slot_snapshot := by
    rw [ha.slots]
    exact h.slot_snapshot
  done_ok t c hc := by
    rw [SsiEngine.hist, ha.hist, ha.next]
    exact h.done_ok t c hc
  done_before t c hc u := by
    rw [SsiEngine.hist, ha.hist]
    exact h.done_before t c hc u
  done_inj := h.done_inj
  kept t c hc u txn hr hlt := by
    obtain ⟨txn0, hr0, -⟩ := ha.running (running_eq_some.1 hr)
    rw [ha.committed]
    exact h.kept t c hc u txn0 (running_eq_some.2 hr0) hlt
  stage_began u hu := by
    rw [SsiEngine.hist, ha.hist]
    exact h.stage_began u hu
  passed_le u next hu := by
    rw [ha.next]
    exact h.passed_le u next hu
  returned_began u hu := by
    rw [SsiEngine.hist, ha.hist]
    exact h.returned_began u hu
  reads u txn hr hiso r hret htr := by
    obtain ⟨txn0, hr0, hiso0, hsub, -⟩ := ha.running (running_eq_some.1 hr)
    exact hsub (h.reads u txn0 (running_eq_some.2 hr0) (hiso0 ▸ hiso) r hret htr)
  checked u txn next hr hstage := by
    obtain ⟨txn0, hr0, -, -, hreads⟩ := ha.running (running_eq_some.1 hr)
    have hsame : txn.readSet = txn0.readSet := by
      refine hreads.resolve_right fun hun => ?_
      cases hun.symm.trans hstage
    rw [hsame]
    exact h.checked u txn0 next (running_eq_some.2 hr0) hstage
  ordered := h.ordered

lemma not_done (hr : s.engine.running u = some txn) (c : CommittedTxn) : s.done u ≠ some c := fun hc =>
  (h.txn.session_ok u _ (running_eq_some.1 hr)).phase.2.1 (h.done_ok u c hc).1

lemma read [DecidableEq κ] {path : AccessPath} {rid : RecordId} (hs : s.read t path rid = some s') :
    SsiInv s' := by
  have halike := SsiEngine.alike_of_step (a := .read t path rid) hs (by simp)
  obtain ⟨txn, hr, hs⟩ := bind_eq_some_iff.1 hs
  split at hs
  · cases hs
    have hi := h.alike halike
    refine { hi with
      returned_began := fun u hu => ?_
      reads := fun u txn' hr' hiso r hret htr => ?_
      ordered := fun t₁ t₂ c₁ c₂ h1 h2 hiso hlt hconc r hret => ?_ }
    · by_cases hut : u = t
      · have hb := (h.txn.session_ok t _ (running_eq_some.1 hr)).began
        rw [hut, SsiEngine.hist, halike.hist]
        exact hb
      · exact hi.returned_began u (by simpa [update_of_ne hut] using hu)
    · by_cases hut : u = t
      · subst hut
        simp only [update_self, mem_cons] at hret
        rcases hret with rfl | hret
        · -- the version just returned: a tracked executor has recorded it
          rw [if_pos htr, running_eq_some] at hr'
          simp only [recordRead, update_self] at hr'
          obtain ⟨x, -, hx⟩ := map_eq_some_iff.1 hr'
          obtain ⟨reads, hreads, -⟩ := x.txn.recordRead_eq kTableId rid
          have htxn : x.txn.recordRead kTableId rid = txn' := congrArg Session.txn hx
          have hxiso : x.txn.isolation = .serializable := by
            rw [← hiso, ← htxn, hreads]
          rw [← htxn]
          exact Transaction.mem_readSet_recordRead hxiso _ _
        · exact hi.reads u txn' hr' hiso r hret htr
      · exact hi.reads u txn' hr' hiso r (by simpa [update_of_ne hut] using hret) htr
    · by_cases hut : t₂ = t
      · subst hut
        exact absurd h2 (h.not_done hr c₂)
      · exact hi.ordered t₁ t₂ c₁ c₂ h1 h2 hiso hlt hconc r (by simpa [update_of_ne hut] using hret)
  · cases hs

/-- The check compares with every write set that matters, since those are kept. -/
lemma check (hs : s.check t = some s') : SsiInv s' := by
  obtain ⟨txn, hr, hs⟩ := bind_eq_some_iff.1 hs
  have hsess := h.txn.session_ok t _ (running_eq_some.1 hr)
  split at hs
  · cases hs
    refine { h with
      stage_began := fun u hu => ?_
      passed_le := fun u next hu => ?_
      checked := fun u txn' next hr' hstage t' c hc hlt hnext w hw hmem => ?_ }
    · by_cases hut : u = t
      · rw [hut]
        exact hsess.began
      · exact h.stage_began u (by simpa [update_of_ne hut] using hu)
    · by_cases hut : u = t
      · subst hut
        simp only [update_self] at hu
        split at hu
        · cases hu
        · cases hu
          exact le_rfl
      · exact h.passed_le u next (by simpa [update_of_ne hut] using hu)
    · by_cases hut : u = t
      · subst hut
        obtain rfl : txn = txn' := some.inj (hr.symm.trans hr')
        simp only [update_self] at hstage
        split at hstage
        · cases hstage
        · next hok =>
          refine hok (any_eq_true.2 ⟨c.entry, h.kept t' c hc u txn hr hlt, ?_⟩)
          have hid : c.txn.id ≠ u := by
            rw [(h.done_ok t' c hc).2.1]
            rintro rfl
            exact h.not_done hr c hc
          have hany : (c.entry.writes.any fun w => txn.readSet.contains w) = true :=
            any_eq_true.2 ⟨w, hw, by simpa using hmem⟩
          have hsnap : txn.snapshotId ≤ c.entry.commitId := by
            rw [hsess.snapshot_eq]
            exact hlt
          have hne : c.entry.txnId ≠ txn.id := by
            rw [hsess.id_eq]
            exact hid
          rw [Bool.and_eq_true, Bool.and_eq_true]
          exact ⟨⟨by simpa using hne, by simpa using hsnap⟩, hany⟩
      · exact h.checked u txn' next hr' (by simpa [update_of_ne hut] using hstage) t' c hc
          hlt hnext w hw hmem
  · cases hs

end

end SsiInv

/-! ## The sections of the transaction manager -/

section

open TransactionManager

variable {sys sys' : TxnSystem} {a : TxnAction}

lemma mem_modifyFirst {p : TxnSlot → Bool} {f : TxnSlot → TxnSlot} {x : TxnSlot} :
    ∀ {l : List TxnSlot}, x ∈ modifyFirst p f l → x ∈ l ∨ ∃ sl, x = f sl
  | [], h => by cases h
  | sl :: l, h => by
      rw [modifyFirst] at h
      split at h
      · rcases mem_cons.1 h with rfl | h
        · exact .inr ⟨sl, rfl⟩
        · exact .inl (mem_cons_of_mem _ h)
      · rcases mem_cons.1 h with rfl | h
        · exact .inl mem_cons_self
        · exact (mem_modifyFirst h).imp_left (mem_cons_of_mem _)

section

variable (h : sys.step a = some sys')
include h

lemma slot_snapshot_of_step (hs : ∀ sl ∈ sys.tm.txnSlots, sl.isActive = true → sl.snapshotId = sl.txnId + 1) :
    ∀ sl ∈ sys'.tm.txnSlots, sl.isActive = true → sl.snapshotId = sl.txnId + 1 := by
  intro sl hmem hact
  cases step_cases h with
  | begin =>
    rcases mem_modifyFirst hmem with hmem | ⟨_, rfl⟩
    · exact hs sl hmem hact
    · rfl
  | publish =>
    simp only [publish_txnSlots] at hmem
    rcases mem_modifyFirst hmem with hmem | ⟨_, rfl⟩
    · exact hs sl hmem hact
    · simp [TxnSlot.isActive] at hact
  | flip =>
    rcases mem_modifyFirst hmem with hmem | ⟨_, rfl⟩
    · exact hs sl hmem hact
    · simp [TxnSlot.isActive] at hact
  | _ => exact hs sl hmem hact

omit h in
lemma before_of_step (hi : TxnInv sys) (h : sys.step a = some sys')
    (hb : .began u ∈ sys.hist) : before u sys'.hist = before u sys.hist := by
  have hne : u ≠ sys.tm.nextTxnId := fun hu => hi.not_began_fresh (hu ▸ hb)
  cases step_cases h with
  | begin => exact before_cons_of_ne _ fun he => hne (by cases he; rfl)
  | publish | flip => exact before_cons_of_ne _ (by simp)
  | _ => rfl

/-- Who has begun after a step had begun before it, or begins with it. -/
lemma began_of_step (hb : .began u ∈ sys'.hist) :
    .began u ∈ sys.hist ∨ (u = sys.tm.nextTxnId ∧ before u sys'.hist = sys.hist) := by
  cases step_cases h with
  | begin =>
    rcases mem_cons.1 hb with hb | hb
    · cases hb
      exact .inr ⟨rfl, before_began_self _ _⟩
    · exact .inl hb
  | publish | flip => exact .inl ((mem_cons.1 hb).resolve_left (by simp))
  | _ => exact .inl hb

lemma committedHistory_of_step (hne : ∀ t, a ≠ .publish t) :
    sys'.tm.committedHistory = sys.tm.committedHistory := by
  cases step_cases h with
  | publish => exact absurd rfl (hne _)
  | _ => rfl

end

/-- What a commit makes of its transaction, and of the history of commits before it is pruned. -/
lemma publish_eq_some (h : sys.step (.publish t) = some sys') : ∃ txn o, sys.sessions t = some ⟨txn, .running⟩ ∧
      sys'.sessions t = some ⟨{ txn with commitId := sys.tm.nextTxnId, state := .committed }, o⟩ ∧
      sys'.hist = .committed t :: sys.hist ∧ sys'.tm.nextTxnId = sys.tm.nextTxnId + 1 ∧
      ∃ tm : TransactionManager, sys'.tm = tm.pruneCommittedHistory ∧
        tm.committedHistory = sys.tm.committedHistory ++ [⟨sys.tm.nextTxnId, txn.id,
          txn.undoRecords.map fun r => ⟨r.tableId, r.rid⟩⟩] := by
  simp only [TxnSystem.step] at h
  split at h
  · next txn hx =>
    cases h
    exact ⟨txn, _, hx, setSession_self .., rfl, publish_nextTxnId .., _, rfl, rfl⟩
  · cases h

/-- Pruning the history keeps what some running transaction may still meet. -/
lemma mem_pruneCommittedHistory {tm : TransactionManager} {entry : CommittedWriteSet}
    {sl : TxnSlot} (hentry : entry ∈ tm.committedHistory) (hsl : sl ∈ tm.txnSlots)
    (hact : sl.isActive = true) (hle : sl.snapshotId ≤ entry.commitId) :
    entry ∈ tm.pruneCommittedHistory.committedHistory := by
  unfold pruneCommittedHistory
  rw [if_pos (any_eq_true.2 ⟨sl, hsl, hact⟩)]
  refine mem_filter.2 ⟨hentry, ?_⟩
  simpa using (oldestBelow_le_key TxnSlot.snapshotId hsl hact _).trans hle

/-- What is in the history before it is pruned is kept for those who began before it was committed. -/
lemma mem_committedHistory_of_publish (hi : TxnInv sys)
    (hslots : ∀ sl ∈ sys.tm.txnSlots, sl.isActive = true → sl.snapshotId = sl.txnId + 1)
    (hs : sys.step (.publish t) = some sys') {tm : TransactionManager} (htm : sys'.tm = tm.pruneCommittedHistory)
    {entry : CommittedWriteSet} (hentry : entry ∈ tm.committedHistory)
    (hu : sys'.sessions u = some ⟨txn, .running⟩) (hlt : u < entry.commitId) : entry ∈ sys'.tm.committedHistory := by
  obtain ⟨sl, hsl, rfl, hact⟩ := (hi.step hs).active_slot hu
  have hsnap := slot_snapshot_of_step hs hslots sl hsl hact
  rw [htm] at hsl ⊢
  rw [TransactionManager.pruneCommittedHistory_txnSlots] at hsl
  exact mem_pruneCommittedHistory hentry hsl hact (by omega)

end

namespace SsiInv

variable {s : SsiEngine β κ} {a : TxnAction} {t : ℕ} {c : CommittedTxn} {e : Engine β κ}

section

variable (h : SsiInv s)
include h

/-- The committed transactions and a section of the transaction manager: the ids keep their order,
and no check is undone. -/
lemma section_ids {sys : TxnSystem} (hs : s.engine.sys.step a = some sys) (hc : s.done t = some c) :
    (.committed t ∈ sys.hist ∧ c.txn.id = t ∧ c.txn.commitId < sys.tm.nextTxnId) ∧
      ∀ u, .began u ∈ sys.hist → (c.txn.commitId ≤ u ↔ CommittedBefore sys.hist t u) := by
  obtain ⟨hcom, hid, hlt⟩ := h.done_ok t c hc
  refine ⟨⟨hist_of_step hs hcom, hid, hlt.trans_le (nextTxnId_le_of_step hs)⟩, fun u hb => ?_⟩
  rw [CommittedBefore]
  rcases began_of_step hs hb with hb | ⟨rfl, hbefore⟩
  · rw [before_of_step h.txn hs hb]
    exact h.done_before t c hc u hb
  · rw [hbefore]
    exact iff_of_true hlt.le hcom

lemma txnSection (hs : s.engine.sys.step a = some e.sys)
    (hkept : ∀ entry ∈ s.engine.sys.tm.committedHistory, ∀ u txn, e.running u = some txn →
      u < entry.commitId → entry ∈ e.sys.tm.committedHistory) : SsiInv { s with engine := e } where
  txn := h.txn.step hs
  slot_snapshot := slot_snapshot_of_step hs h.slot_snapshot
  done_ok t c hc := (h.section_ids hs hc).1
  done_before t c hc := (h.section_ids hs hc).2
  done_inj := h.done_inj
  kept t c hc u txn hr hlt := by
    refine hkept c.entry ?_ u txn hr hlt
    rcases running_of_step hs (running_eq_some.1 hr) with ⟨-, rfl, -⟩ | ⟨hr, -⟩
    · exact absurd (h.done_ok t c hc).2.2 (by omega)
    · exact h.kept t c hc u txn (running_eq_some.2 hr) hlt
  stage_began u hu := hist_of_step hs (h.stage_began u hu)
  passed_le u next hu := (h.passed_le u next hu).trans (nextTxnId_le_of_step hs)
  returned_began u hu := hist_of_step hs (h.returned_began u hu)
  reads u txn hr hiso r hret htr := by
    rcases running_of_step hs (running_eq_some.1 hr) with ⟨-, rfl, -⟩ | ⟨hr, -⟩
    · exact absurd (h.returned_began _ (ne_nil_of_mem hret)) h.txn.not_began_fresh
    · exact h.reads u txn (running_eq_some.2 hr) hiso r hret htr
  checked u txn next hr hstage := by
    rcases running_of_step hs (running_eq_some.1 hr) with ⟨-, rfl, -⟩ | ⟨hr, -⟩
    · refine absurd (h.stage_began _ ?_) h.txn.not_began_fresh
      rw [show s.stage _ = _ from hstage]
      simp
    · exact h.checked u txn next (running_eq_some.2 hr) hstage
  ordered := h.ordered

/-- A serializable commit has returned nothing that a concurrent, earlier commit overwrote: its
check has seen the conflict. -/
lemma not_overwrote (hr : s.engine.running t = some txn) (hiso : txn.isolation = .serializable)
    (hseen : s.ConflictsSeen (.engine (.txn (.publish t)))) {t' : ℕ}
    (hc : s.done t' = some c) (hconc : t < c.txn.commitId) {r : Returned}
    (hret : r ∈ s.returned t) : ¬ c.Overwrote r.rid r.ver := by
  intro hover
  have hb : .began t ∈ s.hist := (h.txn.session_ok t _ (running_eq_some.1 hr)).began
  have hnb : ¬ CommittedBefore s.hist t' t := fun hcb =>
    absurd ((h.done_before t' c hc t hb).2 hcb) (by omega)
  obtain ⟨htr, next, hstage, hlt⟩ := hseen txn hr hiso t' c hc hnb r hret hover
  obtain ⟨⟨u, hu, -, htable, hrid⟩, -⟩ := hover
  have hmem := h.reads t txn hr hiso r hret htr
  refine h.checked t txn next hr hstage t' c hc hconc hlt _ ?_ hmem
  exact mem_map.2 ⟨u, hu, by rw [htable, hrid]⟩

lemma publish (hs : s.engine.sys.step (.publish t) = some e.sys)
    (hseen : s.ConflictsSeen (.engine (.txn (.publish t)))) : SsiInv (s.after e (.txn (.publish t))) := by
  obtain ⟨txn, o, hx, hx', hhist, hnext, tm, htm, hhistory⟩ := publish_eq_some hs
  have hr : s.engine.running t = some txn := running_eq_some.2 hx
  have hsess := h.txn.session_ok t _ hx
  set c0 : CommittedTxn :=
    ⟨{ txn with commitId := s.engine.sys.tm.nextTxnId, state := .committed },
      (e.superseded.filter fun p => p.2 = t).map Prod.fst⟩ with hc0
  have hdone : ∀ t' c, (s.after e (.txn (.publish t))).done t' = some c →
      (t' = t ∧ c = c0) ∨ (t' ≠ t ∧ s.done t' = some c) := by
    intro t' c hc
    simp only [SsiEngine.after, hx', map_some] at hc
    exact (update_eq_some hc).imp_left fun hc => ⟨hc.1, (some.inj hc.2).symm⟩
  have hlt : ∀ t' c, s.done t' = some c → c.txn.commitId < c0.txn.commitId := fun t' c hc =>
    (h.done_ok t' c hc).2.2
  have hkeep : ∀ entry ∈ tm.committedHistory, ∀ u txn', e.running u = some txn' →
      u < entry.commitId → entry ∈ e.sys.tm.committedHistory := fun entry hentry u txn' hu =>
    mem_committedHistory_of_publish h.txn h.slot_snapshot hs htm hentry (running_eq_some.1 hu)
  have hold : SsiInv { s with engine := e } :=
    h.txnSection hs fun entry hentry => hkeep entry (hhistory ▸ mem_append_left _ hentry)
  refine { hold with done_ok := ?_, done_before := ?_, done_inj := ?_, kept := ?_, checked := ?_, ordered := ?_ }
  · intro t' c hc
    rcases hdone t' c hc with ⟨rfl, rfl⟩ | ⟨-, hc⟩
    · refine ⟨?_, hsess.id_eq, ?_⟩
      · show .committed t' ∈ e.sys.hist
        rw [hhist]
        exact mem_cons_self
      · show s.engine.sys.tm.nextTxnId < e.sys.tm.nextTxnId
        omega
    · exact hold.done_ok t' c hc
  · intro t' c hc u hu
    rcases hdone t' c hc with ⟨rfl, rfl⟩ | ⟨-, hc⟩
    · -- the commit id is new, and the commit comes after every begin
      have hb : .began u ∈ s.engine.sys.hist := by
        rcases began_of_step hs hu with hb | ⟨rfl, -⟩
        · exact hb
        · have hu : .began s.engine.sys.tm.nextTxnId ∈ e.sys.hist := hu
          rw [hhist] at hu
          exact (mem_cons.1 hu).resolve_left (by simp)
      have hub := h.txn.began_lt u hb
      refine iff_of_false (fun hle => absurd hub (not_lt.2 hle)) fun hcb => ?_
      have hcb : .committed t' ∈ before u e.sys.hist := hcb
      rw [before_of_step h.txn hs hb] at hcb
      exact hsess.phase.2.1 (before_sublist u _ _ hcb)
    · exact hold.done_before t' c hc u hu
  · intro t₁ t₂ c₁ c₂ h1 h2 heq
    rcases hdone t₁ c₁ h1 with ⟨rfl, rfl⟩ | ⟨-, h1'⟩
    · rcases hdone t₂ c₂ h2 with ⟨rfl, -⟩ | ⟨-, h2'⟩
      · rfl
      · exact absurd (hlt t₂ c₂ h2') (by omega)
    · rcases hdone t₂ c₂ h2 with ⟨rfl, rfl⟩ | ⟨-, h2'⟩
      · exact absurd (hlt t₁ c₁ h1') (by omega)
      · exact h.done_inj t₁ t₂ c₁ c₂ h1' h2' heq
  · intro t' c hc u txn' hu hle
    rcases hdone t' c hc with ⟨rfl, rfl⟩ | ⟨-, hc⟩
    · exact hkeep _ (hhistory ▸ mem_append_right _ (mem_singleton.2 rfl)) u txn' hu hle
    · exact hold.kept t' c hc u txn' hu hle
  · intro u txn' next hu hstage t' c hc hle hcn
    rcases hdone t' c hc with ⟨rfl, rfl⟩ | ⟨-, hc⟩
    · have hpl := h.passed_le u next hstage
      exact absurd hcn (not_lt.2 hpl)
    · exact hold.checked u txn' next hu hstage t' c hc hle hcn
  · intro t₁ t₂ c₁ c₂ h1 h2 hiso hlt12 hconc r hret
    rcases hdone t₁ c₁ h1 with ⟨rfl, rfl⟩ | ⟨-, h1'⟩
    · rcases hdone t₂ c₂ h2 with ⟨rfl, rfl⟩ | ⟨-, h2'⟩
      · exact absurd hlt12 (lt_irrefl _)
      · exact absurd (hlt t₂ c₂ h2') (by omega)
    · rcases hdone t₂ c₂ h2 with ⟨rfl, rfl⟩ | ⟨-, h2'⟩
      · exact h.not_overwrote hr hiso hseen h1' hconc hret
      · exact h.ordered t₁ t₂ c₁ c₂ h1' h2' hiso hlt12 hconc r hret

/-- **Every action keeps the invariant**, as long as no commit has missed a conflict. -/
theorem step [DecidableEq κ] {s' : SsiEngine β κ} {a : SsiAction β}
    (hseen : s.ConflictsSeen a) (hs : s.step a = some s') : SsiInv s' := by
  cases a with
  | read t path rid => exact h.read hs
  | check t => exact h.check hs
  | setDefaultIsolation level =>
    have halike := SsiEngine.alike_of_step hs (by simp)
    cases hs
    exact h.alike halike
  | engine a =>
    have halike := SsiEngine.alike_of_step hs
    simp only [SsiEngine.step] at hs
    split_ifs at hs
    obtain ⟨e, he, rfl⟩ := map_eq_some_iff.1 hs
    cases a with
    | txn b =>
      obtain ⟨-, sys, hstep, rfl⟩ := txnStep_eq_some he
      have hstep' : s.engine.sys.step b = some (s.engine.afterTxn sys b).sys := by
        rw [afterTxn_sys]
        exact hstep
      cases b with
      | publish t => exact h.publish hstep' hseen
      | begin | recordCommitted t | flip t | recordAborted t | finish t =>
        refine h.txnSection hstep' fun entry hentry _ _ _ _ => ?_
        rwa [committedHistory_of_step hstep' (by simp)]
    | _ => exact h.alike (halike (by simp))

end

lemma init {slotCount next : ℕ} {log : Option TxnStatusLog} (hnext : 0 < next)
    (hlog : ∀ l ∈ log, ∀ c, next ≤ c → l.states c = none) (keys : List (β → κ)) :
    SsiInv (SsiEngine.init (init slotCount next log) keys) := by
  refine ⟨TxnInv.init hnext hlog, ?_, ?_, ?_, ?_, ?_, ?_, ?_, ?_, ?_, ?_, ?_⟩
  · intro sl hsl hact
    rw [eq_of_mem_replicate hsl] at hact
    cases hact
  · rintro t c ⟨⟩
  · rintro t c ⟨⟩
  · rintro t t' c c' ⟨⟩
  · rintro t c ⟨⟩
  · exact fun u hu => absurd rfl hu
  · rintro u next ⟨⟩
  · exact fun u hu => absurd rfl hu
  · rintro u txn ⟨⟩
  · rintro u txn next ⟨⟩
  · rintro t t' c c' ⟨⟩

end SsiInv

/-- **No write skew.**  From a table just created, in every interleaving of statements, reads,
checks, commits and aborts in which no serializable commit has missed a conflict, no state has two
concurrent serializable transactions that have both committed after each of them returned a row
version that the other one updated or deleted. -/
theorem noWriteSkew_of_conflictsSeen [DecidableEq κ] {slotCount next : ℕ}
    {log : Option TxnStatusLog} (hnext : 0 < next)
    (hlog : ∀ l ∈ log, ∀ c, next ≤ c → l.states c = none) (keys : List (β → κ))
    {acts : List (SsiAction β)}
    (hseen : StepsMeet SsiEngine.step SsiEngine.ConflictsSeen
      (SsiEngine.init (TxnSystem.init slotCount next log) keys) acts) :
    Always SsiEngine.step SsiEngine.NoWriteSkew
      (SsiEngine.init (TxnSystem.init slotCount next log) keys) acts :=
  always_of_invariant (fun _ _ _ h hP hs => SsiInv.step h hP hs) (fun _ h => h.noWriteSkew)
    (SsiInv.init hnext hlog keys) hseen

/-! ## Runs -/

/-- Transaction 1 inserts four rows and commits.  Transactions 3, 4 and 5 run together: 3 returns the first row and
deletes the second, 4 returns the third and deletes the first, and 5 returns the second.  3 and 4 commit, and then 5
asks to. -/
def readsAndDeletes : List (SsiAction ℕ) :=
  [.setDefaultIsolation .serializable, .engine (.txn .begin)] ++
    (insertStmt 1 5 40 1 ++ insertStmt 1 6 40 2 ++ insertStmt 1 7 40 3 ++ insertStmt 1 8 40 4).map .engine ++
    [.check 1] ++ (commitTxn 1).map .engine ++
    [.engine (.txn (.finish 1)), .engine (.txn .begin), .engine (.txn .begin), .engine (.txn .begin)] ++
    [.read 3 .seqScan ⟨1, 0⟩, .read 4 .indexScan ⟨1, 2⟩, .read 5 .seqScan ⟨1, 1⟩] ++
    (deleteStmt 3 ⟨1, 1⟩ 5 ++ deleteStmt 4 ⟨1, 0⟩ 6).map .engine ++
    [.check 3] ++ (commitTxn 3).map .engine ++ [.check 4] ++ (commitTxn 4).map .engine ++ [.check 5]

/-- At a publish, the transactions that have committed since the session began have overwritten nothing it returned. -/
def nothingMissed (s : SsiEngine ℕ ℕ) : SsiAction ℕ → Bool
  | .engine (.txn (.publish t)) => s.hist.all fun ev => (s.done ev.txn).all fun c =>
      decide (CommittedBefore s.hist ev.txn t) || (s.returned t).all fun r => !decide (c.Overwrote r.rid r.ver)
  | _ => true

/-- 3 and 4 both commit, and 4 has deleted a row that 3 returned; the check of 5 refuses it. -/
theorem noWriteSkew_readsAndDeletes :
    Always SsiEngine.step SsiEngine.NoWriteSkew
        (SsiEngine.init (TxnSystem.init 4 1 (some TxnStatusLog.empty)) [(id : ℕ → ℕ)]) readsAndDeletes ∧
      ∃ m, runs SsiEngine.step (SsiEngine.init (TxnSystem.init 4 1 (some TxnStatusLog.empty)) [(id : ℕ → ℕ)])
          readsAndDeletes = some m ∧
        ((m.done 3).isSome = true ∧ ¬ CommittedBefore m.hist 3 4 ∧ ¬ CommittedBefore m.hist 4 3 ∧
          ((m.done 4).any fun c => (m.returned 3).any fun r => decide (c.Overwrote r.rid r.ver)) = true ∧
          m.stage 5 = .refused) := by
  refine ⟨noWriteSkew_of_conflictsSeen (by decide) TxnStatusLog.empty_unused [id] ?_, exists_run (by decide +kernel)⟩
  have hmet : StepsMeet SsiEngine.step (fun s a => nothingMissed s a = true)
      (SsiEngine.init (TxnSystem.init 4 1 (some TxnStatusLog.empty)) [(id : ℕ → ℕ)]) readsAndDeletes := by
    decide +kernel
  -- who is done has committed, so that the history names all that a publish has to look at
  have hseen : ∀ (s : SsiEngine ℕ ℕ) a, SsiInv s → nothingMissed s a = true → s.ConflictsSeen a := by
    intro s a hi hok
    cases a with
    | engine a =>
      cases a with
      | txn b =>
        cases b with
        | publish t =>
          intro txn _ _ t' c hc hnot r hr hover
          have hcom := (hi.done_ok t' c hc).1
          have hdone := (Option.all_eq_true _ _).1 (List.all_eq_true.1 hok _ hcom) c hc
          rcases Bool.or_eq_true_iff.1 hdone with hbefore | hnone
          · exact absurd (of_decide_eq_true hbefore) hnot
          · simpa [hover] using List.all_eq_true.1 hnone r hr
        | _ => trivial
      | _ => trivial
    | _ => trivial
  exact StepsMeet.of_invariant (I := SsiInv) (fun s a s' hi hok hs => hi.step (hseen s a hi hok) hs)
    hseen (SsiInv.init (by decide) TxnStatusLog.empty_unused [id]) hmet

/-- Transaction 1 inserts two rows.  Transactions 3 and 4 each return one of them from an index-only
scan and delete the other one; then both commit, one after the other. -/
def skewedDeletes : List (SsiAction ℕ) :=
  [.setDefaultIsolation .serializable, .engine (.txn .begin)] ++
    (insertStmt 1 5 40 1 ++ insertStmt 1 6 40 2).map .engine ++ [.check 1] ++
    (commitTxn 1).map .engine ++ [.engine (.txn (.finish 1)), .engine (.txn .begin), .engine (.txn .begin)] ++
    [.read 3 .indexOnlyScan ⟨1, 0⟩, .read 4 .indexOnlyScan ⟨1, 1⟩] ++
    (deleteStmt 3 ⟨1, 1⟩ 3 ++ deleteStmt 4 ⟨1, 0⟩ 4).map .engine ++
    [.check 3] ++ (commitTxn 3).map .engine ++ [.check 4] ++
    (commitTxn 4).map .engine

/-- Each transaction has read the row that the other deletes, and both commit. -/
theorem skewed_deletes_commit :
    ¬ Always SsiEngine.step SsiEngine.NoWriteSkew
      (SsiEngine.init (TxnSystem.init 4 1 (some TxnStatusLog.empty)) [(id : ℕ → ℕ)])
      skewedDeletes := by
  intro h
  obtain ⟨m, heval, hskew⟩ := h.eval (R := fun m => ((m.done 3).any fun c3 => (m.done 4).any fun c4 =>
    decide (c3.txn.isolation = .serializable ∧ c4.txn.isolation = .serializable ∧
      ¬ CommittedBefore m.hist 3 4 ∧ ¬ CommittedBefore m.hist 4 3 ∧
      (∃ r ∈ m.returned 3, c4.Overwrote r.rid r.ver) ∧ ∃ r ∈ m.returned 4, c3.Overwrote r.rid r.ver)) = true)
    (by decide +kernel)
  obtain ⟨c3, hc3, heval⟩ := (any_eq_true _ _).1 heval
  obtain ⟨c4, hc4, heval⟩ := (any_eq_true _ _).1 heval
  obtain ⟨hiso3, hiso4, h34, h43, hover4, hover3⟩ := of_decide_eq_true heval
  exact hskew 3 4 c3 c4 (by decide) hc3 hc4 hiso3 hiso4 h34 h43 ⟨hover4, hover3⟩

/-! ## Repeatable reads

What counts as committed for a reader was settled when it began, so its verdict on a version stays. -/

section

open TransactionManager

variable {sys sys' : TxnSystem} {t : ℕ} {x x' : Session} {xmin xmax xmax' : ℕ} {more : List TxnAction}

/-- What may stand in a stamp: no one, or a transaction that has begun. -/
def StampOk (sys : TxnSystem) (c : ℕ) : Prop := c = kInvalidTxnId ∨ .began c ∈ sys.hist ∧ Ordinary c

instance (sys : TxnSystem) : DecidablePred (BeginSafe sys)
  | .begin => inferInstanceAs (Decidable (∀ s ∈ sys.tm.txnSlots.find? TxnSlot.isFree, _ → _ → _))
  | .publish _ | .recordCommitted _ | .flip _ | .recordAborted _ | .finish _ => isTrue trivial

end

end MiniDb
