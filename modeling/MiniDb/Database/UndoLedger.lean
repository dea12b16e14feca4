import MiniDb.Core.Ledger
import MiniDb.Database.EngineInv

/-!
# What a session can still take back

A session that has not committed can take back what its undo records name, and the new version of
an `UPDATE` whose undo record is not written yet.  `Engine.ledger` is this as a ledger; here is what
the actions do to it, and that an action leaves the statements and ledgers of other sessions alone.
-/

namespace MiniDb

open Function List TxnSystem UndoRecord

variable {β κ : Type*}

/-- A session that may still take its writes back: it has not committed. -/
def Phase.canUndo : Phase → Bool
  | .published _ => false
  | .recorded _ => false
  | _ => true

/-- An undo record as an entry of a ledger. -/
def UndoRecord.entry? (rec : UndoRecord) : Option (Entry RecordId) :=
  match rec.type with
  | .insert => some (.fill rec.rid)
  | .hotInsert => some (.fill rec.rid)
  | .delete => some (.stamp rec.rid)
  | .hotDelete => some (.stamp rec.rid)
  | .ddl _ => none

namespace Engine

/-- A new version whose undo record is not written yet. -/
def inFlight (e : Engine β κ) (t : ℕ) : List (Entry RecordId) :=
  match e.stmts t with
  | some st => st.pc.inFlight.toList.map .fill
  | none => []

/-- The writes that session `t` can still take back. -/
def ledger (e : Engine β κ) (t : ℕ) : List (Entry RecordId) :=
  match e.sys.sessions t with
  | some x =>
    if x.phase.canUndo then x.txn.undoRecords.filterMap UndoRecord.entry? ++ e.inFlight t else []
  | none => []

end Engine

/-! ## What the actions do to the ledgers -/

namespace Engine

variable {e e' : Engine β κ} {t : ℕ} {txn : Transaction} {st : Stmt β} {x : Session}

lemma ledger_of_running (hr : e.running t = some txn) (hst : e.stmts t = some st) :
    e.ledger t = txn.undoRecords.filterMap entry? ++ st.pc.inFlight.toList.map .fill := by
  rw [ledger, running_eq_some.1 hr, inFlight, hst]
  rfl

section

variable (hs : ∀ t', t' ≠ t → e'.sys.sessions t' = e.sys.sessions t')
include hs

lemma ledger_update (hst : ∀ t', t' ≠ t → e'.stmts t' = e.stmts t') :
    e'.ledger = update e.ledger t (e'.ledger t) := by
  funext t'
  by_cases ht : t' = t
  · rw [ht, update_self]
  · rw [update_of_ne ht, ledger, ledger, hs t' ht, inFlight, inFlight, hst t' ht]

lemma ledger_eq_update (hst : e'.stmts = update e.stmts t (some st)) (hr : e'.running t = some txn) :
    e'.ledger = update e.ledger t (txn.undoRecords.filterMap entry? ++ st.pc.inFlight.toList.map .fill) := by
  rw [ledger_update hs fun t' ht => by rw [hst, update_of_ne ht],
    ledger_of_running hr (by rw [hst, update_self])]

end

lemma sessions_setUndo_of_ne {t' : ℕ} (ht : t' ≠ t) (u : List UndoRecord) :
    (e.setUndo t u).sys.sessions t' = e.sys.sessions t' := update_of_ne ht ..

lemma running_setUndo (hr : e.running t = some txn)
    (u : List UndoRecord) : (e.setUndo t u).running t = some { txn with undoRecords := u } := by
  rw [running_eq_some]
  show update _ t _ t = _
  rw [update_self, running_eq_some.1 hr]
  rfl

lemma inFlight_of_mayUndo (hi : EngineInv e) (hx : e.sys.sessions t = some x) (hmay : e.mayUndo t x = true) :
    x.phase.canUndo = true ∧ e.inFlight t = [] := by
  unfold mayUndo at hmay
  split at hmay
  · next _ hph =>
    refine ⟨by rw [hph]; rfl, ?_⟩
    cases hst : e.stmts t with
    | none => simp [inFlight, hst]
    | some st =>
      obtain ⟨txn, hr⟩ := hi.stmt_running t st hst
      cases hx.symm.trans (running_eq_some.1 hr)
      cases hph
  · next hph hst => exact ⟨by rw [hph]; rfl, by simp [inFlight, hst, Pc.inFlight]⟩
  · cases hmay

@[simp] lemma applyUndoRecord_sys [DecidableEq κ] (e : Engine β κ) (t lsn : ℕ)
    (rec : UndoRecord) : (e.applyUndoRecord t lsn rec).sys = e.sys := by
  unfold applyUndoRecord
  split <;> rfl

@[simp] lemma applyUndoRecord_stmts [DecidableEq κ] (e : Engine β κ) (t lsn : ℕ)
    (rec : UndoRecord) : (e.applyUndoRecord t lsn rec).stmts = e.stmts := by
  unfold applyUndoRecord
  split <;> rfl

/-- The ledgers before and after the last record is taken back. -/
lemma ledger_of_undo [DecidableEq κ] (hi : EngineInv e) {n : ℕ}
    {rec : UndoRecord} (hx : e.sys.sessions t = some x) (hmay : e.mayUndo t x = true)
    (hrec : x.txn.undoRecords.getLast? = some rec) :
    e.ledger t = x.txn.undoRecords.dropLast.filterMap entry? ++ rec.entry?.toList ∧
      ((e.applyUndoRecord t n rec).setUndo t x.txn.undoRecords.dropLast).ledger = update e.ledger t
          (x.txn.undoRecords.dropLast.filterMap entry?) := by
  obtain ⟨hph, hfl⟩ := inFlight_of_mayUndo hi hx hmay
  constructor
  · have hsplit := dropLast_append_getLast? rec hrec
    rw [ledger, hx, hfl]
    conv_lhs => simp only [hph, if_true, append_nil]; rw [← hsplit]
    cases h : rec.entry? <;> simp [h]
  · have hself : ((e.applyUndoRecord t n rec).setUndo t x.txn.undoRecords.dropLast).ledger t =
        x.txn.undoRecords.dropLast.filterMap entry? := by
      have hst : ((e.applyUndoRecord t n rec).setUndo t x.txn.undoRecords.dropLast).inFlight t =
          [] := by rwa [inFlight, setUndo_stmts, applyUndoRecord_stmts]
      rw [ledger, hst, setUndo]
      simp [hx, hph]
    rw [ledger_update (fun t' ht => ?_) fun t' _ => ?_, hself]
    · rw [sessions_setUndo_of_ne ht, applyUndoRecord_sys]
    · rw [setUndo_stmts, applyUndoRecord_stmts]

lemma began_of_mem_ledger (hi : TxnInv e.sys) {en : Entry RecordId} (h : en ∈ e.ledger t) :
    .began t ∈ e.sys.hist := by
  rw [ledger] at h
  cases hx : e.sys.sessions t with
  | none => rw [hx] at h; cases h
  | some x => exact (hi.session_ok t x hx).began

lemma ledger_eq_nil (hi : TxnInv e.sys) (hc : .committed t ∈ e.sys.hist) : e.ledger t = [] := by
  rw [ledger]
  cases hx : e.sys.sessions t with
  | none => rfl
  | some x =>
    have hph := (hi.session_ok t x hx).phase
    have hno : x.phase.canUndo = false := by
      generalize x.phase = ph at hph
      cases ph with
      | running => exact absurd hc hph.2.1
      | published o => rfl
      | recorded o => rfl
      | flipped | abortRecorded => exact (hi.histOk.not_both hc hph).elim
    simp [hno]

/-- A control action moves no new version into flight and none out of it. -/
lemma inFlight_of_move {st' : Option (Stmt β)} (hm : StmtMove e t st')
    (hst' : e'.stmts t = st') : e.inFlight t = [] ∧ e'.inFlight t = [] := by
  constructor
  · cases hm with
    | begin mark hst => rw [inFlight, hst]
    | fail st0 targets hst hpc | finish st0 hst hpc => simp [inFlight, hst, hpc]
    | _ => simp [inFlight, *, Pc.inFlight]
  · rw [inFlight, hst']
    cases hm <;> rfl

lemma ledger_of_controlled (hc : Controlled e e' t) : e'.ledger = e.ledger := by
  obtain ⟨st', hst', hmove⟩ := hc.stmts
  have hself : e'.stmts t = st' := by rw [hst', update_self]
  obtain ⟨h1, h2⟩ := inFlight_of_move hmove hself
  funext t'
  by_cases ht : t' = t
  · rw [ht, ledger, ledger, hc.sys, h1, h2]
  · have hst : e'.stmts t' = e.stmts t' := by rw [hst', update_of_ne ht]
    rw [ledger, ledger, hc.sys, inFlight, inFlight, hst]

end Engine

/-- A session that can undo after a section could undo before it, with the same undo records,
unless it has just begun. -/
lemma undo_of_step {sys sys' : TxnSystem} {a : TxnAction} {t : ℕ} {x' : Session}
    (h : sys.step a = some sys') (hx' : sys'.sessions t = some x') (hc : x'.phase.canUndo = true) :
    (∃ x, sys.sessions t = some x ∧ x.phase.canUndo = true ∧ x'.txn.undoRecords = x.txn.undoRecords) ∨
      t = sys.tm.nextTxnId ∧ x'.txn.undoRecords = [] := by
  cases step_cases h with
  | begin =>
    rcases setSession_eq_some hx' with ⟨rfl, ⟨⟩⟩ | ⟨-, hsame⟩
    · exact Or.inr ⟨rfl, rfl⟩
    · exact Or.inl ⟨x', hsame, hc, rfl⟩
  | publish | recordCommitted =>
    rcases setSession_eq_some hx' with ⟨-, ⟨⟩⟩ | ⟨-, hsame⟩
    · cases hc
    · exact Or.inl ⟨x', hsame, hc, rfl⟩
  | flip hx | recordAborted hx =>
    rcases setSession_eq_some hx' with ⟨rfl, ⟨⟩⟩ | ⟨-, hsame⟩
    · exact Or.inl ⟨_, hx, rfl, rfl⟩
    · exact Or.inl ⟨x', hsame, hc, rfl⟩
  | finish =>
    rcases setSession_eq_some hx' with ⟨-, ⟨⟩⟩ | ⟨-, hsame⟩
    exact Or.inl ⟨x', hsame, hc, rfl⟩

namespace Engine

variable {e e' : Engine β κ}

/-- A section of the transaction manager adds nothing to any ledger. -/
lemma ledger_of_txnStep (hi : EngineInv e) {a : TxnAction} {sys : TxnSystem}
    (hs : e.sys.step a = some sys) (t : ℕ) :
    ((e.afterTxn sys a).ledger t).Sublist (e.ledger t) := by
  have hfl : ((e.afterTxn sys a).inFlight t).Sublist (e.inFlight t) := by
    unfold inFlight
    cases hst : (e.afterTxn sys a).stmts t with
    | none => exact nil_sublist _
    | some st => rw [(EngineInv.afterTxn_stmts hst).1]
  rw [ledger, ledger, afterTxn_sys]
  cases hx' : sys.sessions t with
  | none => exact nil_sublist _
  | some x' =>
    cases hc : x'.phase.canUndo with
    | false => simp [hc]
    | true =>
      rcases undo_of_step hs hx' hc with ⟨x, hx, hcx, hundo⟩ | ⟨rfl, hnil⟩
      · simpa [hx, hc, hcx, hundo] using hfl
      · -- a fresh session has no statement
        have hst : e.stmts e.sys.tm.nextTxnId = none := by
          by_contra hne
          obtain ⟨st, hst⟩ := Option.ne_none_iff_exists'.1 hne
          obtain ⟨txn, hr⟩ := hi.stmt_running _ st hst
          exact hi.txn.session_ne_fresh (running_eq_some.1 hr) rfl
        have hnone : e.inFlight e.sys.tm.nextTxnId = [] := by simp [inFlight, hst]
        rw [hnone, sublist_nil] at hfl
        simp [hc, hnil, hfl]

end Engine

/-- The session that takes an action. -/
def Action.session? {β : Type*} : Action β → Option ℕ
  | .txn .begin | .gc _ | .vacuum => none
  | .txn (.publish t) | .txn (.recordCommitted t) | .txn (.flip t) | .txn (.recordAborted t)
  | .txn (.finish t) => some t
  | .beginStmt t | .scan t _ | .readRow t | .lockRow t | .recheck t | .install t _ _ _ _ | .commitOld t
  | .insert t _ _ _ | .indexRow t | .lockDelete t | .delete t _ | .failStmt t | .endStmt t | .undo t _
  | .prune t _ => some t

namespace Engine

variable {e e' : Engine β κ}

/-- Besides the table, an action changes the statement and the undo records of its own session at most. -/
structure Touches (e e' : Engine β κ) (t : ℕ) : Prop where
  sys : e'.sys = e.sys ∨ ∃ u, e'.sys = (e.setUndo t u).sys
  stmts : ∀ {t'}, t' ≠ t → e'.stmts t' = e.stmts t'

variable {t t' : ℕ} {a : TxnAction}

lemma Touches.sameTxns (h : Touches e e' t) : SameTxns e.sys e'.sys := by
  rcases h.sys with heq | ⟨u, heq⟩ <;> rw [heq]
  · exact .refl _
  · exact sameTxns_setUndo ..

lemma Touches.sessions (h : Touches e e' t) (ht : t' ≠ t) : e'.sys.sessions t' = e.sys.sessions t' := by
  rcases h.sys with heq | ⟨u, heq⟩ <;> rw [heq]
  exact sessions_setUndo_of_ne ht u

lemma touches_of_step [DecidableEq κ] {a : Action β} (ha : a.session? = some t) (hne : ∀ b, a ≠ .txn b)
    (h : e.step a = some e') : Touches e e' t := by
  have hstmt : ∀ (st' : Option (Stmt β)) {t'}, t' ≠ t → update e.stmts t st' t' = e.stmts t' :=
    fun st' t' ht => update_of_ne ht ..
  have hcontrolled : Controlled e e' t → Touches e e' t := by
    intro hc
    obtain ⟨st', hst', -⟩ := hc.stmts
    exact ⟨.inl hc.sys, fun ht => hst' ▸ hstmt st' ht⟩
  cases a with
  | txn a => exact absurd rfl (hne a)
  | install c row length lsn hot =>
    cases ha
    obtain ⟨txn, st, old, oldRow, hp, new, -, -, -, -, -, -, rfl⟩ := install_eq_some h
    exact ⟨.inl rfl, hstmt _⟩
  | commitOld c =>
    cases ha
    obtain ⟨txn, st, old, new, row, hot, lsn, -, -, -, ⟨-, rfl⟩ | ⟨hp, -, rfl⟩⟩ := commitOld_eq_some h
    · exact ⟨.inl rfl, hstmt _⟩
    · exact ⟨.inr ⟨_, rfl⟩, hstmt _⟩
  | insert c row length lsn =>
    cases ha
    obtain ⟨txn, st, -, -, -, -, ⟨hp, rid, lm, -, rfl⟩ | hc⟩ := insert_eq_some h
    · exact ⟨.inr ⟨_, rfl⟩, hstmt _⟩
    · exact hcontrolled hc
  | indexRow c =>
    cases ha
    obtain ⟨txn, st, new, row, -, -, -, rfl⟩ := indexRow_eq_some h
    exact ⟨.inl rfl, hstmt _⟩
  | delete c lsn =>
    cases ha
    obtain ⟨txn, st, rid, -, -, -, ⟨-, -, hc⟩ | ⟨hp, -, rfl⟩⟩ := delete_eq_some h
    · exact hcontrolled hc
    · exact ⟨.inr ⟨_, rfl⟩, hstmt _⟩
  | undo c lsn =>
    cases ha
    obtain ⟨x, rec, -, -, -, rfl⟩ := undo_eq_some h
    refine ⟨.inr ⟨x.txn.undoRecords.dropLast, ?_⟩, fun _ => by rw [setUndo_stmts, applyUndoRecord_stmts]⟩
    simp [setUndo]
  | prune c lsn =>
    obtain ⟨x, o, rid, rest, -, -, -, rfl⟩ := prune_eq_some h
    exact ⟨.inl rfl, fun _ => rfl⟩
  | gc | vacuum => cases ha
  | _ => exact hcontrolled (controlled_of_step h ha)

lemma step_frame [DecidableEq κ] {a : Action β} (ha : a.session? = some t) (h : e.step a = some e')
    (ht : t' ≠ t) : e'.stmts t' = e.stmts t' ∧ e'.sys.sessions t' = e.sys.sessions t' := by
  by_cases htxn : ∃ b, a = .txn b
  · obtain ⟨b, rfl⟩ := htxn
    obtain ⟨-, sys, hs, rfl⟩ := txnStep_eq_some h
    cases step_cases hs with
    | begin => cases ha
    | flip =>
      cases ha
      exact ⟨update_of_ne ht .., setSession_of_ne _ _ ht⟩
    | _ =>
      cases ha
      exact ⟨rfl, setSession_of_ne _ _ ht⟩
  · have htouch := touches_of_step ha (not_exists.1 htxn) h
    exact ⟨htouch.stmts ht, htouch.sessions ht⟩

lemma endStmt_stmts (h : e.endStmt t = some e') : e'.stmts t = none ∧ e'.sys = e.sys := by
  obtain ⟨txn, st, -, -, h⟩ := withStmt_eq_some h
  split at h
  · cases h
    exact ⟨update_self .., rfl⟩
  · split at h
    · cases h
      exact ⟨update_self .., rfl⟩
    · cases h
  · cases h

lemma ledger_congr (hst : e'.stmts t = e.stmts t) (hs : e'.sys.sessions t = e.sys.sessions t) :
    e'.ledger t = e.ledger t := by
  rw [ledger, ledger, hs, inFlight, inFlight, hst]

lemma stmts_eq_none (hi : EngineInv e) (h : ∀ txn, e.sys.sessions t ≠ some ⟨txn, .running⟩) :
    e.stmts t = none := by
  by_contra hne
  obtain ⟨st, hst⟩ := Option.ne_none_iff_exists'.1 hne
  obtain ⟨txn, hr⟩ := hi.stmt_running t st hst
  exact h txn (running_eq_some.1 hr)

lemma ledger_of_session {x : Session} (hx : e.sys.sessions t = some x) (hst : e.inFlight t = []) :
    e.ledger t = if x.phase.canUndo then x.txn.undoRecords.filterMap entry? else [] := by
  rw [ledger, hx, hst]
  simp

/-- No section is taken between the two writes of an UPDATE. -/
lemma inFlight_of_txnStep (hi : EngineInv e) (h : e.txnStep a = some e')
    (ha : (Action.txn a : Action β).session? = some t) : e.inFlight t = [] := by
  obtain ⟨hmay, sys, hs, -⟩ := txnStep_eq_some h
  unfold inFlight
  cases hst : e.stmts t with
  | none => rfl
  | some st =>
    obtain ⟨txn, hr⟩ := hi.stmt_running t st hst
    rw [running_eq_some] at hr
    cases a with
    | begin => cases ha
    | flip c =>
      cases ha
      simp only [mayTake, hst] at hmay
      split at hmay
      · next hpc => simp [hpc, Pc.inFlight]
      · next hpc => simp [hpc, Pc.inFlight]
      · cases hmay
    | publish c =>
      cases ha
      simp [mayTake, hst] at hmay
    | recordCommitted c | recordAborted c | finish c =>
      cases ha
      simp [TxnSystem.step, hr] at hs

/-- A section of the transaction manager takes the ledger away with a commit, and only then. -/
lemma ledger_of_txnStep_eq [DecidableEq κ] (hi : EngineInv e) (h : e.txnStep a = some e')
    (t : ℕ) : e'.ledger t = e.ledger t ∨ .committed t ∈ e'.sys.hist ∧ e'.ledger t = [] := by
  obtain ⟨hmay, sys, hs, he⟩ := txnStep_eq_some h
  have hother : ∀ c, (Action.txn a : Action β).session? = some c → t ≠ c → e'.ledger t = e.ledger t := by
    intro c hc hne
    obtain ⟨hst, hse⟩ := step_frame (a := .txn a) hc h hne
    exact ledger_congr hst hse
  cases step_cases hs with
  | begin =>
    left
    subst he
    by_cases heq : t = e.sys.tm.nextTxnId
    · subst heq
      have hnone : e.sys.sessions e.sys.tm.nextTxnId = none := by
        by_contra hne
        obtain ⟨x, hx⟩ := Option.ne_none_iff_exists'.1 hne
        exact hi.txn.session_ne_fresh hx rfl
      have hst : e.stmts e.sys.tm.nextTxnId = none := stmts_eq_none hi fun txn => by simp [hnone]
      simp [ledger, hnone, afterTxn, inFlight, hst, TransactionManager.newTransaction]
    · exact ledger_congr rfl (setSession_of_ne _ _ heq)
  | @publish c =>
    by_cases heq : t = c
    · subst heq he
      exact .inr ⟨mem_cons_self, by simp [ledger, afterTxn, Phase.canUndo]⟩
    · exact .inl (hother c rfl heq)
  | @recordCommitted c txn o hx | @recordAborted c txn hx =>
    left
    by_cases heq : t = c
    · subst heq he
      simp [ledger, afterTxn, hx, Phase.canUndo, inFlight]
    · exact hother c rfl heq
  | @flip c txn hx =>
    left
    by_cases heq : t = c
    · subst heq he
      rw [ledger_of_session hx (inFlight_of_txnStep hi h rfl),
        ledger_of_session (x := ⟨txn, .flipped⟩) (by simp [afterTxn]) ?_]
      · rfl
      · simp [afterTxn, inFlight]
    · exact hother c rfl heq
  | @finish c txn ph hx hph =>
    left
    by_cases heq : t = c
    · subst heq he
      have hnil : e.ledger t = [] := by
        rw [ledger_of_session hx (inFlight_of_txnStep hi h rfl)]
        rcases hph with ⟨o, rfl⟩ | rfl
        · rfl
        · simp only [mayTake, hx, List.isEmpty_iff] at hmay
          simp [hmay]
      rw [hnil]
      simp [ledger, afterTxn]
    · exact hother c rfl heq

end Engine

end MiniDb
