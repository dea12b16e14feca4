import MiniDb.Database.KeyVersions

/-!
# Unique keys

Statements are executed one at a time, in transactions that commit or roll back in any mix: `turn` names the session
that acts.  INSERT and UPDATE write a row only if it passes `violates_unique_constraints`.

No two live rows get the same key as long as each check through an index finds all live versions with the key
(`IndexFinds`), and no version is deleted or updated whose creator is another transaction that has not committed.  A
HOT update makes the first condition fail: the new version has no index entry, and the entry of the row leads to the
old version or to a redirect, which `read_tuple` does not follow.
-/

namespace MiniDb

open Function List Engine TxnSystem HeapFile UndoRecord

structure UniqueDb (V : Type*) where
  engine : Engine (List V) (List (Option V))
  /-- the session that executes a statement, commits or rolls back -/
  turn : Option ℕ

inductive UniqueAction (V : Type*) where
  | act (a : Action (List V))
  /-- the new version of an UPDATE, with the columns and values of its SET list -/
  | update (t : ℕ) (sets : List (ℕ × V)) (length lsn : ℕ) (hot : Bool)

/-- The new values of an UPDATE: those of the old version but for the columns of the SET list. -/
def setColumns {V : Type*} (sets : List (ℕ × V)) (row : List V) : List V :=
  sets.foldl (fun row s => row.set s.1 s.2) row

def TableDef.anyColumnIndexed (d : TableDef) (cols : List ℕ) : Bool :=
  cols.any fun c => d.indexes.any (fun ix => ix.keyColumns.contains c) || d.columns[c]?.any Column.isPrimary

lemma getElem?_setColumns {V : Type*} {sets : List (ℕ × V)} {c : ℕ} (hc : c ∉ sets.map Prod.fst)
    (row : List V) :
    (setColumns sets row)[c]? = row[c]? := by
  induction sets generalizing row with
  | nil => rfl
  | cons s sets ih =>
    simp only [map_cons, mem_cons, not_or] at hc
    refine (ih hc.2 _).trans ?_
    rw [getElem?_set_ne (Ne.symm hc.1)]

namespace UniqueDb

variable {V : Type*} (ops : RowOps V) (d : TableDef)

def init (sys : TxnSystem) : UniqueDb V :=
  ⟨Engine.init sys (d.indexes.map fun ix => indexKey ix.keyColumns), none⟩

def hasTurn (u : UniqueDb V) (t : ℕ) : Bool := u.turn.all fun t' => t' == t

/-- `InsertExecutor::violates_unique_constraints`. -/
def insertViolates (u : UniqueDb V) (t : ℕ) (row : List V) : Bool :=
  violatesUniqueConstraints ops d u.engine.sys.tm (u.engine.running t) u.engine.heap u.engine.table.indexes row
    none d.uniqueGroups

/-- The groups that an UPDATE of the given columns checks. -/
def updateGroups (cols : List ℕ) : List (List ℕ) :=
  d.uniqueGroups.filter fun group => groupIntersectsColumns group cols

/-- `UpdateExecutor::violates_unique_constraints`. -/
def updateViolates (u : UniqueDb V) (t : ℕ) (old : RecordId) (row : List V) (cols : List ℕ) : Bool :=
  violatesUniqueConstraints ops d u.engine.sys.tm (u.engine.running t) u.engine.heap u.engine.table.indexes row
    (some old) (updateGroups d cols)

/-- May the action be taken now?  A transaction begins between statements; the collector and vacuum are left out. -/
def mayAct (u : UniqueDb V) : Action (List V) → Bool
  | .txn .begin => u.turn.isNone
  | .insert t row _ _ => u.hasTurn t && !u.insertViolates ops d t row
  | .install .. | .gc _ | .vacuum => false
  | a => a.session?.any u.hasTurn

/-- The turn ends with the statement, the commit or the rollback. -/
def turnAfter {β : Type*} : Action β → Option ℕ
  | .endStmt _ => none
  | .txn (.finish _) => none
  | a => a.session?

def step [DecidableEq V] (u : UniqueDb V) : UniqueAction V → Option (UniqueDb V)
  | .act a => if u.mayAct ops d a then (u.engine.step a).map fun e => ⟨e, turnAfter a⟩ else none
  | .update t sets length lsn hot =>
    match u.engine.stmts t with
    | some ⟨_, _, .checked old oldRow⟩ =>
      let cols := sets.map Prod.fst
      let row := setColumns sets oldRow
      if u.hasTurn t && !(hot && d.anyColumnIndexed cols) && !u.updateViolates ops d t old row cols then
        (u.engine.step (.install t row length lsn hot)).map fun e => ⟨e, some t⟩
      else none
    | _ => none

/-- The version is there, its creator has committed and its deleter, if there is one, has not. -/
def LiveCommitted (u : UniqueDb V) (rid : RecordId) (tup : Tuple (List V)) : Prop :=
  u.engine.heap.tupleAt rid = some tup ∧ .committed tup.xmin ∈ u.engine.sys.hist ∧
    .committed tup.xmax ∉ u.engine.sys.hist

/-- No two live committed rows have equal values, none of them NULL, on a unique group of columns. -/
def KeysUnique (u : UniqueDb V) : Prop :=
  ∀ g ∈ d.uniqueGroups, ∀ r₁ r₂ t₁ t₂, u.LiveCommitted r₁ t₁ → u.LiveCommitted r₂ t₂ →
    sameOn ops t₁.row t₂.row g = true → r₁ = r₂

/-- The version was written by the session itself or by a transaction that has committed. -/
def Settled (e : Engine (List V) (List (Option V))) (t : ℕ) (rid : RecordId) : Prop :=
  ∀ tup ∈ e.heap.tupleAt rid, tup.xmin = t ∨ .committed tup.xmin ∈ e.sys.hist

/-- The condition on a step: a check through an index finds all live versions with the key, and what is deleted or
updated is settled. -/
def CheckSees (u : UniqueDb V) : UniqueAction V → Prop
  | .act (.insert t row _ _) =>
    IndexFinds ops d u.engine.sys.tm (u.engine.running t) u.engine.heap u.engine.table.indexes row none
      d.uniqueGroups
  | .act (.delete t _) =>
    match u.engine.stmts t with
    | some ⟨_, _, .deleting rid⟩ => Settled u.engine t rid
    | _ => True
  | .update t sets _ _ _ =>
    match u.engine.stmts t with
    | some ⟨_, _, .checked old oldRow⟩ =>
      Settled u.engine t old ∧
      IndexFinds ops d u.engine.sys.tm (u.engine.running t) u.engine.heap u.engine.table.indexes
        (setColumns sets oldRow) (some old) (updateGroups d (sets.map Prod.fst))
    | _ => True
  | _ => True

instance (e : Engine (List V) (List (Option V))) (t : ℕ) (rid : RecordId) : Decidable (Settled e t rid) :=
  inferInstanceAs (Decidable (∀ tup ∈ e.heap.tupleAt rid, _))

instance (u : UniqueDb V) : DecidablePred (CheckSees ops d u)
  | .act (.insert _ _ _ _) => inferInstanceAs (Decidable (IndexFinds ..))
  | .act (.delete t _) =>
    match h : u.engine.stmts t with
    | some ⟨_, _, .deleting rid⟩ => decidable_of_iff (Settled u.engine t rid) (by simp only [CheckSees, h])
    | none => isTrue (by simp only [CheckSees, h])
    | some ⟨_, _, .idle⟩ | some ⟨_, _, .read _ _⟩ | some ⟨_, _, .locked _ _⟩ | some ⟨_, _, .checked _ _⟩
    | some ⟨_, _, .installed _ _ _ _ _⟩ | some ⟨_, _, .indexing _ _⟩ | some ⟨_, _, .failed⟩ =>
      isTrue (by simp only [CheckSees, h])
  | .update t sets _ _ _ =>
    match h : u.engine.stmts t with
    | some ⟨_, _, .checked old oldRow⟩ =>
      decidable_of_iff (Settled u.engine t old ∧
        IndexFinds ops d u.engine.sys.tm (u.engine.running t) u.engine.heap u.engine.table.indexes
          (setColumns sets oldRow) (some old) (updateGroups d (sets.map Prod.fst)))
        (by simp only [CheckSees, h])
    | none => isTrue (by simp only [CheckSees, h])
    | some ⟨_, _, .idle⟩ | some ⟨_, _, .read _ _⟩ | some ⟨_, _, .locked _ _⟩ | some ⟨_, _, .deleting _⟩
    | some ⟨_, _, .installed _ _ _ _ _⟩ | some ⟨_, _, .indexing _ _⟩ | some ⟨_, _, .failed⟩ =>
      isTrue (by simp only [CheckSees, h])
  | .act (.txn _) | .act (.beginStmt _) | .act (.scan _ _) | .act (.readRow _) | .act (.lockRow _)
  | .act (.recheck _) | .act (.install _ _ _ _ _) | .act (.commitOld _) | .act (.indexRow _)
  | .act (.lockDelete _) | .act (.failStmt _) | .act (.endStmt _) | .act (.undo _ _) | .act (.prune _ _)
  | .act (.gc _) | .act .vacuum => isTrue trivial

section

variable {ops d} {u u' : UniqueDb V}

/-- Who does not have the turn is not in a statement, and neither commits nor rolls back. -/
def TurnOk (u : UniqueDb V) : Prop :=
  ∀ t, u.turn ≠ some t → u.engine.stmts t = none ∧
    ∀ x, u.engine.sys.sessions t = some x → x.phase = .running

variable {t : ℕ} {a : Action (List V)} {e : Engine (List V) (List (Option V))}

lemma TurnOk.others (h : u.TurnOk) {t' : ℕ} (hturn : u.hasTurn t = true) (ht : t' ≠ t) :
    u.engine.stmts t' = none ∧ ∀ x, u.engine.sys.sessions t' = some x → x.phase = .running := by
  refine h t' fun heq => ht ?_
  simpa [hasTurn, heq] using hturn

lemma TurnOk.eq_of_stmt (h : u.TurnOk) {t' : ℕ} {st : Stmt (List V)} (hturn : u.hasTurn t = true)
    (hst : u.engine.stmts t' = some st) : t' = t := by
  by_contra ht
  cases (h.others hturn ht).1.symm.trans hst

/-- The session of the action keeps the turn, or is done. -/
lemma TurnOk.act [DecidableEq V] (h : u.TurnOk) (hi : EngineInv u.engine)
    (ha : a.session? = some t) (hturn : u.hasTurn t = true)
    (hs : u.engine.step a = some e) : TurnOk ⟨e, turnAfter a⟩ := by
  have hothers : ∀ t', t' ≠ t → e.stmts t' = none ∧ ∀ x, e.sys.sessions t' = some x → x.phase = .running := by
    intro t' ht
    obtain ⟨hst, hse⟩ := step_frame ha hs ht
    rw [hst, hse]
    exact h.others hturn ht
  intro t' ht'
  by_cases heq : t' = t
  · subst heq
    cases a with
    | endStmt c =>
      cases ha
      obtain ⟨hst, hsys⟩ := endStmt_stmts hs
      refine ⟨hst, fun x hx => ?_⟩
      obtain ⟨txn, st, hr, -, -⟩ := withStmt_eq_some hs
      rw [hsys, running_eq_some.1 hr] at hx
      cases hx
      rfl
    | txn a =>
      cases a with
      | finish c =>
        cases ha
        have hi' := hi.step hs
        obtain ⟨-, sys, hsys, rfl⟩ := txnStep_eq_some hs
        have hnone : sys.sessions t' = none := by
          cases step_cases hsys
          exact setSession_self ..
        exact ⟨stmts_eq_none hi' fun txn => by simp [hnone], fun x hx => by simp [hnone] at hx⟩
      | _ => exact absurd ha ht'
    | _ => exact absurd ha ht'
  · exact hothers t' heq

lemma TurnOk.begin (h : u.TurnOk) (hturn : u.turn = none)
    (hs : u.engine.txnStep .begin = some e) : TurnOk ⟨e, none⟩ := by
  obtain ⟨-, sys, hsys, rfl⟩ := txnStep_eq_some hs
  cases step_cases hsys
  intro t _
  obtain ⟨hst, hse⟩ := h t (by simp [hturn])
  refine ⟨hst, fun x hx => ?_⟩
  rcases setSession_eq_some hx with ⟨-, ⟨⟩⟩ | ⟨-, hx⟩
  · rfl
  · exact hse x hx

/-- What a statement knows of the row in hand. -/
def RowsOk (e : Engine (List V) (List (Option V))) (t : ℕ) : Pc (List V) → Prop
  | .read old row | .locked old row | .checked old row => ∃ tup, e.heap.tupleAt old = some tup ∧ tup.row = row
  | .installed old new _ _ _ => old ≠ new ∧ Settled e t old
  | _ => True

lemma RowsOk.mono {e' : Engine (List V) (List (Option V))} {pc : Pc (List V)} (h : RowsOk e t pc)
    (hheap : e'.heap = e.heap) (hhist : ∀ ev ∈ e.sys.hist, ev ∈ e'.sys.hist) : RowsOk e' t pc := by
  cases pc with
  | read old row | locked old row | checked old row => simpa only [RowsOk, hheap] using h
  | installed old new row hot lsn => exact ⟨h.1, fun tup htup => (h.2 tup (hheap ▸ htup)).imp_right (hhist _)⟩
  | _ => trivial

/-- What is to be shown of rows and keys after an action. -/
def RowsKeys (ops : RowOps V) (d : TableDef) (e : Engine (List V) (List (Option V))) : Prop :=
  (∀ t st, e.stmts t = some st → RowsOk e t st.pc) ∧ KeyInv ops d e

structure Inv (ops : RowOps V) (d : TableDef) (u : UniqueDb V) : Prop where
  engine : EngineInv u.engine
  update : UpdateInv u.engine
  turn : u.TurnOk
  rows : ∀ t st, u.engine.stmts t = some st → RowsOk u.engine t st.pc
  keys : KeyInv ops d u.engine

namespace Inv

variable {lsn t : ℕ} {e : Engine (List V) (List (Option V))} {old : RecordId}

/-- Only who has the turn can be between the two writes of an UPDATE. -/
lemma updating (h : u.Inv ops d) (hturn : u.hasTurn t = true) {new : RecordId}
    (hu : Updating u.engine old new) :
    ∃ st row hot lsn, u.engine.stmts t = some st ∧ st.pc = .installed old new row hot lsn := by
  obtain ⟨t', st, row, hot, lsn, hst, hpc⟩ := hu
  exact ⟨st, row, hot, lsn, h.turn.eq_of_stmt hturn hst ▸ hst, hpc⟩

lemma rowsOk (h : u.Inv ops d) {st : Stmt (List V)} {pc : Pc (List V)} (hst : u.engine.stmts t = some st)
    (hpc : st.pc = pc) : RowsOk u.engine t pc :=
  hpc ▸ h.rows t st hst

lemma not_updating (h : u.Inv ops d) (hturn : u.hasTurn t = true)
    (hfl : u.engine.inFlight t = []) (old new : RecordId) : ¬ Updating u.engine old new := by
  intro hu
  obtain ⟨st, row, hot, lsn, hst, hpc⟩ := h.updating hturn hu
  simp [inFlight, hst, hpc, Pc.inFlight] at hfl

/-- The invariant leaves no two live committed rows with one key. -/
theorem keysUnique (h : u.Inv ops d) : u.KeysUnique ops d := by
  intro g hg r₁ r₂ t₁ t₂ ⟨h1, hmin1, hmax1⟩ ⟨h2, hmin2, hmax2⟩ hsame
  -- one of the two would have to be replaced
  have hno : ∀ {r r' tup tup'}, u.engine.heap.tupleAt r = some tup → u.engine.heap.tupleAt r' = some tup' →
      .committed tup.xmax ∉ u.engine.sys.hist → .committed tup'.xmin ∈ u.engine.sys.hist →
      ¬ (Replaced u.engine r r' ∨ Updating u.engine r r') := by
    rintro r r' tup tup' htup htup' hmax hmin (⟨t, t', ht, ht', -, hwhy⟩ | ⟨t, st, row, hot, lsn, hst, hpc⟩)
    · cases htup.symm.trans ht
      cases htup'.symm.trans ht'
      rcases hwhy with hc | ⟨heq, -⟩
      · exact hmax hc
      · exact hmax (heq ▸ hmin)
    · obtain ⟨txn, hr⟩ := h.engine.stmt_running t st hst
      have hx : tup'.xmin = t := by
        refine h.keys.filled t r' ?_ tup' htup'
        rw [ledger_of_running hr hst, hpc]
        exact mem_append_right _ mem_cons_self
      exact (h.engine.txn.session_ok t _ (running_eq_some.1 hr)).phase.2.1 (hx ▸ hmin)
  by_contra hne
  rcases h.keys.apart g hg r₁ r₂ t₁ t₂ hne h1 h2 hsame with hap | hap
  · exact hno h1 h2 hmax1 hmin2 hap
  · exact hno h2 h1 hmax2 hmin1 hap

section

variable (h : u.Inv ops d) (hturn : u.hasTurn t = true)
include h hturn

variable {r : RecordId} {tup : Tuple (List V)} {length : ℕ} {st : Stmt (List V)} {oldRow : List V}

/-- A version that does not count as live is dead: others that have stamped versions are running, and the
transaction manager knows it. -/
lemma dead_of_not_live {txn : Transaction} (hr : u.engine.running t = some txn)
    (htup : u.engine.heap.tupleAt r = some tup)
    (hlive : tupleLiveForUniqueCheck u.engine.sys.tm (some txn) tup = false) : KeyInv.Dead u.engine t r tup := by
  have hid : txn.id = t := (h.engine.txn.session_ok t _ (running_eq_some.1 hr)).id_eq
  simp only [tupleLiveForUniqueCheck, hid] at hlive
  split_ifs at hlive with h0 ht
  · refine ⟨h0, (h.keys.stamped r tup htup h0).imp_right fun hst => ⟨ht, ht ▸ hst⟩⟩
  · refine ⟨h0, (h.keys.stamped r tup htup h0).imp_right fun hst => ?_⟩
    exfalso
    have hunfinished : Unfinished u.engine.sys.hist tup.xmax := by
      cases hx : u.engine.sys.sessions tup.xmax with
      | none => simp [ledger, hx] at hst
      | some x =>
        have hphase := (h.engine.txn.session_ok _ x hx).phase
        rwa [(h.turn.others hturn ht).2 x hx] at hphase
    cases hstate : u.engine.sys.tm.getTxnState tup.xmax with
    | none =>
      obtain ⟨s, hs, heq, -⟩ := h.engine.txn.slot_unfinished hunfinished
      exact getTxnState_eq_none.1 hstate s hs heq
    | some state =>
      obtain ⟨s, hs, heq, rfl⟩ := getTxnState_eq_some hstate
      have hin := (h.engine.txn.slot_state s hs (by rw [heq]; exact h0)).2
      simp only [hstate, bne_eq_false_iff_eq] at hlive
      rw [hlive, heq] at hin
      exact hunfinished.2.1 hin

/-- Nobody can take back what is settled. -/
lemma undisturbed {rid : RecordId} (hset : Settled u.engine t rid) : Undisturbed u.engine t rid := by
  refine ⟨fun t' st ht hst => absurd (h.turn.eq_of_stmt hturn hst) ht, fun t' ht hfill => ?_⟩
  have hcell := (h.update.ledger.holds t' _ hfill).occupied
  obtain ⟨tup, htup⟩ := Option.ne_none_iff_exists'.1 (mt cells_eq_none.2 hcell)
  have hx := h.keys.filled t' rid hfill tup htup
  rcases hset tup htup with heq | hc
  · exact ht (hx.symm.trans heq)
  · rw [ledger_eq_nil h.engine.txn (hx ▸ hc)] at hfill
    exact not_mem_nil hfill

lemma rows_update {st' : Option (Stmt (List V))}
    (hst : e.stmts = Function.update u.engine.stmts t st') (hself : ∀ st, st' = some st → RowsOk e t st.pc) :
    ∀ t' st, e.stmts t' = some st → RowsOk e t' st.pc := by
  intro t' st hst'
  rw [hst] at hst'
  rcases update_eq_some hst' with ⟨rfl, hs⟩ | ⟨ht, hst'⟩
  · exact hself st hs
  · exact absurd (h.turn.eq_of_stmt hturn hst') ht

lemma rows_controlled (hc : Engine.Controlled u.engine e t) :
    ∀ t' st, e.stmts t' = some st → RowsOk e t' st.pc := by
  obtain ⟨st', hst', hmove⟩ := hc.stmts
  have hheap : e.heap = u.engine.heap := congrArg GcTable.heap hc.table
  refine h.rows_update hturn hst' ?_
  rintro st rfl
  cases hmove with
  | read st0 rid rest tup hst hpc htg htup => exact ⟨tup, hheap ▸ htup, rfl⟩
  | lock st0 rid row hst hpc | check st0 rid row tup hst hpc htup hxmax =>
    simpa only [RowsOk, hheap] using h.rowsOk hst hpc
  | _ => trivial

lemma keys_controlled (hc : Engine.Controlled u.engine e t) : KeyInv ops d e := by
  obtain ⟨st', hst', hmove⟩ := hc.stmts
  refine h.keys.same (congrArg GcTable.heap hc.table) (fun _ hev => hc.sys ▸ hev)
    (fun t' => .inl (by rw [ledger_of_controlled hc])) fun old new hu => ?_
  have hself : e.stmts t = st' := by rw [hst', update_self]
  have hfl := (inFlight_of_move hmove hself).1
  exact absurd hu (h.not_updating hturn hfl old new)

/-- A row that passes the check may be written. -/
lemma keys_insert {row : List V} (hpass : u.insertViolates ops d t row = false)
    (hfinds : IndexFinds ops d u.engine.sys.tm (u.engine.running t) u.engine.heap u.engine.table.indexes row none
      d.uniqueGroups) (hs : u.engine.insert t row length lsn = some e) : RowsKeys ops d e := by
  obtain ⟨txn, st, hr, hst, hpc, hlen, ⟨hp, rid, lm, hins, rfl⟩ | hc⟩ := insert_eq_some hs
  · refine ⟨h.rows_update hturn rfl (by rintro _ ⟨⟩; trivial), ?_⟩
    have hinserted := (insertVersion_eq_some hlen h.engine.heap.heapOk hins).1
    refine h.keys.inserted h.update.ledger hinserted rfl ?_ ?_ ?_
    · refine Eq.trans (ledger_eq_update (e := u.engine) ?_ rfl (running_setUndo hr _)) ?_
      · exact fun t' ht => sessions_setUndo_of_ne ht _
      · rw [ledger_of_running hr hst, hpc]
        simp [Pc.inFlight, entry?]
    · exact fun old new hu => absurd hu
        (h.not_updating hturn (by simp [inFlight, hst, hpc, Pc.inFlight]) old new)
    · intro g hg r tup htup hsame
      rw [insertViolates, hr] at hpass
      rw [hr] at hfinds
      exact .inl (h.dead_of_not_live hturn hr htup
        (not_live_of_not_violates h.engine.heap.heapOk hpass hfinds hg htup (by simp) hsame))
  · exact ⟨h.rows_controlled hturn hc, h.keys_controlled hturn hc⟩

/-- A version with the key of the row that an UPDATE replaces, on columns that it does not set, is dead too. -/
lemma dead_of_same_old (hst : u.engine.stmts t = some st)
    (hpc : st.pc = .checked old oldRow) (hset : Settled u.engine t old)
    {g : List ℕ} (hg : g ∈ d.uniqueGroups) (hne : r ≠ old)
    (htup : u.engine.heap.tupleAt r = some tup) (hsame : sameOn ops oldRow tup.row g = true) :
    KeyInv.Dead u.engine t r tup := by
  obtain ⟨tup0, hold, rfl⟩ := h.rowsOk hst hpc
  -- the old version has no stamp
  have hx : tup0.xmax = kInvalidTxnId := by
    refine xmax_eq_of_cells_none hold ((h.update.stmts _ _ hst).cells_eq_some_none ?_ hold ?_)
    · rw [Stmt.rids, hpc]
      exact mem_cons_self
    · intro x hx
      exact (h.update.stmts t st hst).checked old (by rw [hpc]; rfl) x hx
  have hfl : u.engine.inFlight t = [] := by simp [inFlight, hst, hpc, Pc.inFlight]
  rcases h.keys.apart g hg old r tup0 tup (Ne.symm hne) hold htup hsame with (hrep | hu) | (hrep | hu)
  · obtain ⟨t₁, -, ht1, -, hx1, -⟩ := hrep
    cases hold.symm.trans ht1
    exact absurd hx hx1
  · exact absurd hu (h.not_updating hturn hfl _ _)
  · obtain ⟨t₁, t₂, ht1, ht2, hx1, hwhy⟩ := hrep
    cases htup.symm.trans ht1
    refine ⟨hx1, hwhy.imp_right ?_⟩
    rintro ⟨heq, hsub⟩
    -- the creator of the old version is the session itself
    have hmine : tup.xmax = t := by
      by_contra hne
      exact (h.undisturbed hturn hset).2 tup.xmax hne (hsub.mem (by simp))
    exact ⟨hmine, hmine ▸ hsub.mem (by simp)⟩
  · exact absurd hu (h.not_updating hturn hfl _ _)

lemma keys_install [DecidableEq V] (hst : u.engine.stmts t = some st)
    (hpc : st.pc = .checked old oldRow) {sets : List (ℕ × V)} {hot : Bool}
    (hpass : u.updateViolates ops d t old (setColumns sets oldRow) (sets.map Prod.fst) = false)
    (hset : Settled u.engine t old)
    (hfinds : IndexFinds ops d u.engine.sys.tm (u.engine.running t) u.engine.heap u.engine.table.indexes
      (setColumns sets oldRow) (some old) (updateGroups d (sets.map Prod.fst)))
    (hs : u.engine.install t (setColumns sets oldRow) length lsn hot = some e) : RowsKeys ops d e := by
  obtain ⟨txn, st', old', oldRow', hp, new, hr, hst', hpc', hlen, -, hins, rfl⟩ := install_eq_some hs
  cases hst.symm.trans hst'
  cases hpc.symm.trans hpc'
  have hinserted := (h.engine.install_heap hst hpc hlen hins).1
  obtain ⟨tup0, hold, -⟩ := h.rowsOk hst hpc
  have hne : old ≠ new := by
    rintro rfl
    rw [tupleAt_eq_look, hinserted.empty] at hold
    cases hold
  refine ⟨h.rows_update hturn rfl ?_, h.keys.inserted h.update.ledger hinserted rfl ?_ ?_ ?_⟩
  · rintro _ ⟨⟩
    refine ⟨hne, fun tup htup => hset tup ?_⟩
    have hlook := hinserted.look old
    rw [if_neg hne] at hlook
    exact (congrArg SlotView.tuple? hlook).symm.trans htup
  · refine Eq.trans (ledger_eq_update (e := u.engine) (fun _ _ => rfl) rfl hr) ?_
    rw [ledger_of_running hr hst, hpc]
    simp [Pc.inFlight]
  · exact fun old' new' hu => absurd hu
      (h.not_updating hturn (by simp [inFlight, hst, hpc, Pc.inFlight]) old' new')
  · intro g hg r tup htup hsame
    by_cases hr' : r = old
    · subst hr'
      exact .inr ⟨t, _, _, _, _, update_self .., rfl⟩
    · left
      by_cases hcols : groupIntersectsColumns g (sets.map Prod.fst) = true
      · rw [updateViolates, hr] at hpass
        rw [hr] at hfinds
        have hmem : g ∈ updateGroups d (sets.map Prod.fst) := mem_filter.2 ⟨hg, hcols⟩
        exact h.dead_of_not_live hturn hr htup
          (not_live_of_not_violates h.engine.heap.heapOk hpass hfinds hmem htup (by simpa using hr') hsame)
      · -- the old version has the same key
        refine h.dead_of_same_old hturn hst hpc hset hg hr' htup ?_
        rw [← hsame]
        refine (sameOn_congr fun c hc => getElem?_setColumns ?_ oldRow).symm
        intro hmem
        refine hcols (any_eq_true.2 ⟨c, hc, ?_⟩)
        simpa using hmem

lemma keys_commitOld (hs : u.engine.commitOld t = some e) : RowsKeys ops d e := by
  obtain ⟨txn, st, old, new, row, hot, lsn, hr, hst, hpc, hc⟩ := commitOld_eq_some hs
  have hL : u.engine.ledger t = txn.undoRecords.filterMap entry? ++ [.fill new] := by
    rw [ledger_of_running hr hst, hpc]
    rfl
  have hpair : ∀ old' new', Updating u.engine old' new' → old' = old ∧ new' = new := by
    intro old' new' hu
    obtain ⟨st', row', hot', lsn', hst', hpc'⟩ := h.updating hturn hu
    cases hst.symm.trans hst'
    cases hpc.symm.trans hpc'
    exact ⟨rfl, rfl⟩
  rcases hc with ⟨-, rfl⟩ | ⟨hp, hc, rfl⟩
  · -- the new version is taken back
    have hL' : ((u.engine.setHeap ((u.engine.heap.rollbackInsert new lsn).getD u.engine.heap)).setPc t st
        .failed).ledger = Function.update u.engine.ledger t (txn.undoRecords.filterMap entry? ++ []) :=
      Eq.trans (ledger_eq_update (e := u.engine) (fun _ _ => rfl) rfl (by exact hr)) rfl
    refine ⟨h.rows_update hturn rfl (by rintro _ ⟨⟩; trivial), ?_⟩
    exact h.keys.takeBackFill rfl rfl hL (by rwa [append_nil] at hL') fun old' new' hu hne =>
      absurd (hpair old' new' hu).2 hne
  · obtain ⟨tup, htup, hw, -⟩ := commitOldTuple_eq_some hc
    have hrows := h.rowsOk hst hpc
    have hL' : ((((u.engine.setHeap hp).noteSuperseded old t).setUndo t
        (txn.undoRecords ++ updateUndo hot old new)).setPc t st
          (if hot then .idle else .indexing new row)).ledger =
        Function.update u.engine.ledger t (txn.undoRecords.filterMap entry? ++ .stamp old :: [.fill new]) := by
      refine Eq.trans (ledger_eq_update (e := u.engine) ?_ rfl (running_setUndo hr _)) ?_
      · exact fun t' ht => sessions_setUndo_of_ne ht _
      · cases hot <;> simp [updateUndo, entry?, Pc.inFlight]
    refine ⟨h.rows_update hturn rfl (by rintro _ ⟨⟩; cases hot <;> trivial), ?_⟩
    have hx := xmax_eq_of_cells_none htup ((h.update.stmts _ st hst).cells_of_checked hpc htup)
    refine h.keys.marked ⟨htup, hw.tupleAt, rfl, rfl⟩ hx rfl rfl hL hL' fun old' new' hu => .inl ?_
    obtain ⟨rfl, rfl⟩ := hpair old' new' hu
    -- the new version is there, and it is the session's
    have hfill : .fill new' ∈ u.engine.ledger t := by simp [hL]
    obtain ⟨tup', htup'⟩ := Option.ne_none_iff_exists'.1
      (mt cells_eq_none.2 (h.update.ledger.holds t _ hfill).occupied)
    refine ⟨_, tup', (hw.tupleAt old').trans (if_pos rfl), ?_, UpdateInv.began_ne_of_running h.engine hr, .inr ⟨?_, ?_⟩⟩
    · exact (hw.tupleAt new').trans ((if_neg (Ne.symm hrows.1)).trans htup')
    · exact (h.keys.filled t new' hfill tup' htup').symm
    · rw [hL', update_self]
      exact sublist_append_right _ _

lemma keys_delete (hs : u.engine.delete t lsn = some e) : RowsKeys ops d e := by
  obtain ⟨txn, st, rid, hr, hst, hpc, ⟨-, -, hc⟩ | ⟨hp, hd, rfl⟩⟩ := delete_eq_some hs
  · exact ⟨h.rows_controlled hturn hc, h.keys_controlled hturn hc⟩
  · obtain ⟨tup, htup, hcur, hw, -⟩ := markDeletedIfCurrent_eq_some hd
    have hL : u.engine.ledger t = txn.undoRecords.filterMap entry? ++ [] := by
      rw [ledger_of_running hr hst, hpc]
      rfl
    refine ⟨h.rows_update hturn rfl (by rintro _ ⟨⟩; trivial), ?_⟩
    have hx := xmax_eq_of_cells_none htup ((h.update.stmts _ st hst).cells_of_current hpc htup hcur)
    refine h.keys.marked ⟨htup, hw.tupleAt, rfl, rfl⟩ hx rfl rfl hL ?_ fun old new hu => ?_
    · refine Eq.trans (ledger_eq_update (e := u.engine) ?_ rfl (running_setUndo hr _)) ?_
      · exact fun t' ht => sessions_setUndo_of_ne ht _
      · simp [Pc.inFlight, entry?]
    · exact absurd hu (h.not_updating hturn (by simp [inFlight, hst, hpc, Pc.inFlight]) old new)

lemma keys_indexRow (hs : u.engine.indexRow t = some e) : RowsKeys ops d e := by
  obtain ⟨txn, st, new, row, hr, hst, hpc, rfl⟩ := indexRow_eq_some hs
  refine ⟨h.rows_update hturn rfl (by rintro _ ⟨⟩; trivial), ?_⟩
  refine h.keys.same rfl (fun _ hev => hev) (fun t' => .inl ?_) fun old new hu =>
    absurd hu (h.not_updating hturn (by simp [inFlight, hst, hpc, Pc.inFlight]) old new)
  by_cases ht : t' = t
  · subst ht
    rw [ledger_of_running hr hst, hpc]
    exact Eq.trans (ledger_of_running (by exact hr) (by exact update_self ..)) rfl
  · exact ledger_congr (update_of_ne ht ..) rfl

/-- Undo takes the newest write back.  The statement, if there is one, has failed. -/
lemma keys_undo [DecidableEq V] (hs : u.engine.undo t lsn = some e) : RowsKeys ops d e := by
  obtain ⟨x, rec, hx, hrec, hmay, rfl⟩ := undo_eq_some hs
  obtain ⟨hL, hL'⟩ := ledger_of_undo h.engine hx hmay hrec (n := lsn)
  obtain ⟨hcan, hfl⟩ := inFlight_of_mayUndo h.engine hx hmay
  have hupd : ∀ old new, ¬ Updating u.engine old new := h.not_updating hturn hfl
  have hnc : .committed t ∉ u.engine.sys.hist := by
    intro hc
    have hphase := (h.engine.txn.session_ok t x hx).phase
    generalize x.phase = ph at hphase hcan
    cases ph with
    | running => exact hphase.2.1 hc
    | published o => cases hcan
    | recorded o => cases hcan
    | flipped | abortRecorded => exact h.engine.txn.histOk.not_both hc hphase
  have hhist : ((u.engine.applyUndoRecord t lsn rec).setUndo t x.txn.undoRecords.dropLast).sys.hist =
      u.engine.sys.hist := by
    rw [(sameTxns_setUndo ..).hist, applyUndoRecord_sys]
  have hstmts : ((u.engine.applyUndoRecord t lsn rec).setUndo t x.txn.undoRecords.dropLast).stmts = u.engine.stmts := by
    rw [setUndo_stmts, applyUndoRecord_stmts]
  constructor
  · intro t' st hst
    rw [hstmts] at hst
    cases h.turn.eq_of_stmt hturn hst
    obtain ⟨txn, hr⟩ := h.engine.stmt_running t st hst
    cases hx.symm.trans (running_eq_some.1 hr)
    unfold mayUndo at hmay
    rw [hst] at hmay
    split at hmay
    · next hph => cases hph
    · next heq => cases heq; trivial
    · cases hmay
  obtain ⟨type, tableId, rid⟩ := rec
  cases type with
  | insert | hotInsert => exact h.keys.takeBackFill rfl hhist hL hL' fun old new hu _ => absurd hu (hupd old new)
  | delete | hotDelete =>
    exact h.keys.takeBackStamp h.update.ledger h.engine.heap.heapOk.lengths rfl hhist hnc hL hL'
      fun old new hu => absurd hu (hupd old new)
  | ddl info =>
    refine h.keys.same rfl (fun _ hev => hhist ▸ hev) (fun t' => .inl ?_) fun old new hu =>
      absurd hu (hupd old new)
    rw [hL']
    by_cases ht : t' = t
    · subst ht
      rw [update_self, hL]
      simp [UndoRecord.entry?]
    · exact update_of_ne ht ..

lemma keys_prune (hs : u.engine.prune t lsn = some e) : RowsKeys ops d e := by
  obtain ⟨x, o, rid, rest, hx, hph, hq, rfl⟩ := prune_eq_some hs
  have hst : u.engine.stmts t = none := by
    refine stmts_eq_none h.engine fun txn heq => ?_
    cases hx.symm.trans heq
    cases hph
  have hupd : ∀ old new, ¬ Updating u.engine old new := h.not_updating hturn (by simp [inFlight, hst])
  constructor
  · intro t' st hst'
    cases h.turn.eq_of_stmt hturn hst'
    cases hst.symm.trans hst'
  · cases hp : u.engine.heap.pruneObsoleteVersion rid o t lsn with
    | none => exact h.keys.same rfl (fun _ hev => hev) (fun _ => .inl rfl) fun old new hu => absurd hu (hupd old new)
    | some hp' =>
      obtain ⟨-, -, tup, -, -, hw, -⟩ := pruneObsoleteVersion_eq_some hp
      have htuple : ∀ r, hp'.tupleAt r = if r = rid then none else u.engine.heap.tupleAt r := by
        intro r
        rw [hw.tupleAt r]
        split_ifs <;> rfl
      exact h.keys.removed htuple rfl (fun _ => .inl rfl) fun old new hu _ => absurd hu (hupd old new)

end

lemma keys_txn [DecidableEq V] (h : u.Inv ops d) {a : TxnAction} (hs : u.engine.txnStep a = some e)
    (hupd : ∀ old new, ¬ Updating u.engine old new) : RowsKeys ops d e := by
  have hledger := ledger_of_txnStep_eq h.engine hs
  obtain ⟨-, sys, hsys, rfl⟩ := txnStep_eq_some hs
  have hhist : ∀ ev ∈ u.engine.sys.hist, ev ∈ (u.engine.afterTxn sys a).sys.hist := by
    intro ev hev
    rw [afterTxn_sys]
    exact hist_of_step hsys hev
  refine ⟨fun t st hst => ?_, h.keys.same (afterTxn_heap ..) hhist hledger fun old new hu =>
    absurd hu (hupd old new)⟩
  exact (h.rows t st (EngineInv.afterTxn_stmts hst).1).mono (afterTxn_heap ..) hhist

/-- The stamps of a statement that has the turn disturb nobody. -/
lemma storeSafe (h : u.Inv ops d) {a : Action (List V)} (ha : a.session? = some t)
    (hturn : u.hasTurn t = true) (hsees : CheckSees ops d u (.act a)) : StoreSafe u.engine a := by
  cases a with
  | delete c lsn =>
    cases ha
    rintro ⟨mark, targets, pc⟩ rid hst rfl
    simp only [CheckSees, hst] at hsees
    exact h.undisturbed hturn hsees
  | commitOld c =>
    cases ha
    intro st old new row hot lsn hst hpc
    have hrows := h.rowsOk hst hpc
    exact ⟨h.undisturbed hturn hrows.2, hrows.1⟩
  | _ => trivial

/-- What an action of the session that has the turn does to rows and keys. -/
lemma keys_act [DecidableEq V] (h : u.Inv ops d) {a : Action (List V)} (ha : a.session? = some t)
    (hmay : u.mayAct ops d a = true) (hturn : u.hasTurn t = true) (hsees : CheckSees ops d u (.act a))
    (hs : u.engine.step a = some e) : RowsKeys ops d e := by
  have hcontrolled : Engine.Controlled u.engine e t → RowsKeys ops d e := fun hc =>
    ⟨h.rows_controlled hturn hc, h.keys_controlled hturn hc⟩
  cases a with
  | txn a => exact h.keys_txn hs (h.not_updating hturn (inFlight_of_txnStep h.engine hs ha))
  | install c row length lsn hot => cases hmay
  | commitOld c => cases ha; exact h.keys_commitOld hturn hs
  | insert c row length lsn =>
    cases ha
    simp only [mayAct, Bool.and_eq_true, Bool.not_eq_true'] at hmay
    exact h.keys_insert hturn hmay.2 hsees hs
  | indexRow c => cases ha; exact h.keys_indexRow hturn hs
  | delete c lsn => cases ha; exact h.keys_delete hturn hs
  | undo c lsn => cases ha; exact h.keys_undo hturn hs
  | prune c lsn => cases ha; exact h.keys_prune hturn hs
  | gc maxPages => cases ha
  | vacuum => cases ha
  | _ => exact hcontrolled (controlled_of_step hs ha)

end Inv

/-- Who takes an action has the turn, unless a transaction begins between statements. -/
lemma turn_of_mayAct (h : u.mayAct ops d a = true) :
    (∃ t, a.session? = some t ∧ u.hasTurn t = true) ∨ a = .txn .begin ∧ u.turn = none := by
  cases a with
  | txn a =>
    cases a with
    | begin => exact .inr ⟨rfl, by simpa [mayAct] using h⟩
    | _ => exact .inl ⟨_, rfl, by simpa [mayAct, Action.session?] using h⟩
  | insert t row length lsn =>
    simp only [mayAct, Bool.and_eq_true] at h
    exact .inl ⟨t, rfl, h.1⟩
  | install | gc | vacuum => cases h
  | _ => exact .inl ⟨_, rfl, by simpa [mayAct, Action.session?] using h⟩

theorem Inv.step [DecidableEq V] (h : u.Inv ops d) {a : UniqueAction V} (hsees : CheckSees ops d u a)
    (hs : u.step ops d a = some u') : u'.Inv ops d := by
  cases a with
  | act a =>
    simp only [UniqueDb.step] at hs
    split_ifs at hs with hmay
    obtain ⟨e, he, rfl⟩ := Option.map_eq_some_iff.1 hs
    rcases turn_of_mayAct hmay with ⟨t, ha, hturn⟩ | ⟨rfl, hnone⟩
    · obtain ⟨hrows, hkeys⟩ := h.keys_act ha hmay hturn hsees he
      exact ⟨h.engine.step he, h.update.step h.engine (h.storeSafe ha hturn hsees) he,
        h.turn.act h.engine ha hturn he, hrows, hkeys⟩
    · have hupd : ∀ old new, ¬ Updating u.engine old new := by
        rintro old new ⟨t, st, row, hot, lsn, hst, -⟩
        rw [(h.turn t (by simp [hnone])).1] at hst
        cases hst
      obtain ⟨hrows, hkeys⟩ := h.keys_txn he hupd
      exact ⟨h.engine.step he, h.update.step h.engine (by exact trivial) he, h.turn.begin hnone he, hrows, hkeys⟩
  | update t sets length lsn hot =>
    simp only [UniqueDb.step] at hs
    split at hs
    · next mark targets old oldRow hst =>
      split_ifs at hs with hmay
      obtain ⟨e, he, rfl⟩ := Option.map_eq_some_iff.1 hs
      simp only [Bool.and_eq_true, Bool.not_eq_true'] at hmay
      obtain ⟨⟨hturn, -⟩, hpass⟩ := hmay
      simp only [CheckSees, hst] at hsees
      obtain ⟨hrows, hkeys⟩ := h.keys_install hturn hst rfl hpass hsees.1 hsees.2 he
      exact ⟨h.engine.step he, h.update.step h.engine (by exact trivial) he, h.turn.act h.engine rfl hturn he, hrows,
        hkeys⟩
    · cases hs

lemma inv_init {slotCount next : ℕ} {log : Option TxnStatusLog} (hnext : 0 < next)
    (hlog : ∀ l ∈ log, ∀ c, next ≤ c → l.states c = none) :
    (init d (TxnSystem.init slotCount next log) : UniqueDb V).Inv ops d where
  engine := EngineInv.init hnext hlog _
  update := UpdateInv.init slotCount next log _
  turn := fun _ _ => ⟨rfl, fun _ hx => nomatch hx⟩
  rows := fun _ _ hst => nomatch hst
  keys := by
    have hempty : ∀ rid tup, (init d (TxnSystem.init slotCount next log) : UniqueDb V).engine.heap.tupleAt rid ≠
        some tup := by
      intro rid tup htup
      simp [init, Engine.init, Engine.heap, create, tupleAt] at htup
    exact ⟨fun r tup htup => absurd htup (hempty r tup), fun t r hr => (nomatch hr),
      fun g hg r₁ r₂ t₁ t₂ hne h1 => absurd h1 (hempty r₁ t₁)⟩

end

/-- **Unique keys stay unique as long as the checks see what is there.** -/
theorem keysUnique_of_checkSees [DecidableEq V] {slotCount next : ℕ}
    {log : Option TxnStatusLog} (hnext : 0 < next) (hlog : ∀ l ∈ log, ∀ c, next ≤ c → l.states c = none)
    {acts : List (UniqueAction V)}
    (hsees : StepsMeet (step ops d) (CheckSees ops d) (init d (TxnSystem.init slotCount next log)) acts) :
    Always (step ops d) (KeysUnique ops d) (init d (TxnSystem.init slotCount next log)) acts :=
  always_of_invariant (fun _ _ _ h hsees hs => h.step hsees hs) (fun _ h => h.keysUnique) (inv_init hnext hlog) hsees

section

/-- `CREATE TABLE t (a INT PRIMARY KEY, b INT)`: the primary key has a unique index. -/
def pkeyTable : TableDef := ⟨[⟨true, false⟩, ⟨false, false⟩], [⟨[0], true⟩]⟩

def optionOps : RowOps (Option ℕ) where
  isNull := Option.isNone
  eq := fun v w => v == w
  eq_comm := fun _ _ => Bool.beq_comm
  supportsType := fun _ => true
  fits := fun _ => true

def insertAndCommit (t : ℕ) (row : List (Option ℕ)) (lsn : ℕ) : List (UniqueAction (Option ℕ)) :=
  ([Action.txn .begin] ++ insertStmt t row 40 lsn ++ commitTxn t ++ [Action.txn (.finish t)]).map .act

/-- A transaction that updates a row, commits and prunes the old version. -/
def updateAndCommit (t : ℕ) (rid : RecordId) (sets : List (ℕ × Option ℕ)) (lsn : ℕ) (hot : Bool) :
    List (UniqueAction (Option ℕ)) :=
  [.act (.txn .begin), .act (.beginStmt t), .act (.scan t rid), .act (.readRow t), .act (.lockRow t),
    .act (.recheck t), .update t sets 40 lsn hot, .act (.commitOld t)] ++
  (if hot then [] else [.act (.indexRow t)]) ++
  [.act (.endStmt t), .act (.txn (.publish t)), .act (.txn (.recordCommitted t)), .act (.prune t (lsn + 1)),
    .act (.txn (.finish t))]

/-- The key of a row changes, and another row gets the old one. -/
theorem keysUnique_changed_key :
    Always (step optionOps pkeyTable) (KeysUnique optionOps pkeyTable)
      (init pkeyTable (TxnSystem.init 4 1 (some .empty)))
      (insertAndCommit 1 [some 1, some 10] 1 ++ updateAndCommit 3 ⟨1, 0⟩ [(0, some 2)] 2 false ++
        insertAndCommit 5 [some 1, some 12] 4) :=
  keysUnique_of_checkSees optionOps pkeyTable Nat.one_pos (by rintro l ⟨⟩ c -; rfl) (by decide +kernel)

/-- A row gets a new value in the other column, which is a HOT update; then a second row with the same primary key
is accepted. -/
theorem duplicate_key_after_hot_update :
    ¬ Always (step optionOps pkeyTable) (KeysUnique optionOps pkeyTable)
      (init pkeyTable (TxnSystem.init 4 1 (some .empty)))
      (insertAndCommit 1 [some 1, some 10] 1 ++ updateAndCommit 3 ⟨1, 0⟩ [(1, some 11)] 2 true ++
        insertAndCommit 5 [some 1, some 12] 4) := by
  intro h
  obtain ⟨u, ⟨hhot, hnew, h3, h5, h₀⟩, hunique⟩ := h.eval (R := fun u =>
    u.engine.heap.tupleAt ⟨1, 1⟩ = some ⟨3, 0, kNullPageId, 0, [some 1, some 11]⟩ ∧
    u.engine.heap.tupleAt ⟨2, 0⟩ = some ⟨5, 0, kNullPageId, 0, [some 1, some 12]⟩ ∧
    .committed 3 ∈ u.engine.sys.hist ∧ .committed 5 ∈ u.engine.sys.hist ∧ .committed 0 ∉ u.engine.sys.hist)
    (by decide +kernel)
  have hsame := hunique [0] (by decide) ⟨1, 1⟩ ⟨2, 0⟩ _ _ ⟨hhot, h3, h₀⟩ ⟨hnew, h5, h₀⟩ (by decide)
  exact absurd hsame (by decide)

end

end UniqueDb

end MiniDb
