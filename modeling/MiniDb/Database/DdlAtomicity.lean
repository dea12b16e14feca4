import MiniDb.Database.DdlChange
import MiniDb.Recovery.LogReader

/-!
# DDL and crashes

A DDL statement changes the catalog in memory, saves the catalog file, and writes its record to the log; at the end of
its transaction comes a commit record.  After a crash the catalog file is read back, and the recovery reverses the
records of transactions without a commit record.  It reads the log up to the first record that is torn or has too long
a payload, and what it does not read stays there, with everything that is written behind it later.

A crash can fall between any two of these steps, the two halves of a checkpoint, single undos, and single records that
the recovery reverses.  An `ALTER TABLE` outside of a transaction commits, then makes a checkpoint, and only then
writes its record: if the checkpoint empties the log, the record stands there without its commit.

`committed` and the lists of unfinished changes are ghosts: they say what the catalog should be after the recovery.
-/

namespace MiniDb

open Function List

open Catalog

/-- The records of the log, as the recovery of DDL sees them. -/
inductive DdlLogRecord where
  | ddl (txn : ℕ) (record : DdlRecord)
  | commit (txn : ℕ)
  /-- a record of another kind, which may stay in the buffer -/
  | data (dataLen : ℕ)
  /-- what a crash has left of a record that was being written -/
  | torn
  deriving DecidableEq

namespace DdlLogRecord

/-- `read_record` takes it: a torn record, or a payload above the limit, is the end of the log. -/
def readable : DdlLogRecord → Bool
  | .ddl _ record => record.dataLen ≤ kMaxReplayDataLen
  | .commit _ => true
  | .data dataLen => dataLen ≤ kMaxReplayDataLen
  | .torn => false

def isData : DdlLogRecord → Bool
  | .data _ => true
  | _ => false

end DdlLogRecord

namespace DdlOp

def isAlter : DdlOp → Bool
  | .alterAddColumn | .alterDropColumn | .alterRenameColumn => true
  | _ => false

/-- The recovery calls an undo function, which saves the catalog. -/
def reversible : DdlOp → Bool
  | .createTable | .createIndex | .alterAddColumn | .alterDropColumn => true
  | .dropTable | .dropIndex | .alterRenameColumn => false

end DdlOp

/-- Where a session stands in a DDL call. -/
inductive DdlPhase where
  | idle
  /-- the catalog in memory is changed; `late` says that the record comes after the commit -/
  | changed (record : DdlRecord) (late : Bool)
  /-- `save_catalog` is done -/
  | saved (record : DdlRecord) (late : Bool)
  /-- the transaction has committed, the checkpoint comes next -/
  | committed (record : DdlRecord)
  /-- the checkpoint is done, the record comes next -/
  | checkpointed (record : DdlRecord)
  /-- a change is undone in memory -/
  | undone
  deriving DecidableEq

/-- The records that the recovery reverses, in the order in which it does, among those that it reads. -/
def uncommitted (log : List DdlLogRecord) : List (ℕ × DdlRecord) :=
  let read := log.takeWhile DdlLogRecord.readable
  (read.filterMap fun
    | .ddl txn record => if .commit txn ∈ read then none else some (txn, record)
    | _ => none).reverse

/-- The columns of a table in the catalog. -/
def Catalog.Val.schema : Val → Schema
  | .table entry _ => entry.schema
  | _ => []

/-- The table that the statement locks. -/
def Catalog.lockFor (c : Catalog) : DdlStatement → Option ℕ
  | .createTable .. => none
  | .dropTable name => (c.getTable name).map Prod.fst
  | .createIndex _ tableName _ _ _ => (c.getTable tableName).map Prod.fst
  | .dropIndex name => (c.getIndex name).map fun a => a.2.tableId
  | .addColumn tableName _ _ => (c.getTable tableName).map Prod.fst
  | .dropColumn tableName _ => (c.getTable tableName).map Prod.fst
  | .renameColumn tableName _ _ => (c.getTable tableName).map Prod.fst

structure DdlSystem where
  mem : Catalog
  file : Catalog
  log : List DdlLogRecord
  phase : ℕ → DdlPhase
  active : List ℕ
  locks : List (ℕ × ℕ)
  nextTxn : ℕ
  /-- the calls of `checkpoint` that have asked for active transactions, with the answer -/
  checkpoints : List (Option ℕ × Bool)
  /-- during recovery, the records that are still to be reversed -/
  recovering : Option (List (ℕ × DdlRecord))
  /-- the changes of unfinished transactions that are in memory, and those in the file -/
  changes : List (ℕ × DdlChange)
  saved : List (ℕ × DdlChange)
  /-- the effects of the committed transactions -/
  committed : Key → Val

namespace DdlSystem

inductive Action where
  | begin
  /-- a DDL call up to `save_catalog`; `auto` if it has started its own transaction -/
  | execute (txn : ℕ) (stmt : DdlStatement) (auto : Bool)
  /-- `save_catalog` -/
  | save (txn : ℕ)
  /-- `log_ddl` -/
  | mark (txn : ℕ)
  /-- a record of another kind is written -/
  | write (dataLen : ℕ)
  | commit (txn : ℕ)
  /-- `rollback`, up to where it starts to undo -/
  | abort (txn : ℕ)
  /-- one DDL record of `rollback` or `rollback_to_savepoint` is undone in memory -/
  | undo (txn : ℕ)
  /-- `Database::checkpoint`: asking for active transactions, and the checkpoint itself -/
  | beginCheckpoint (caller : Option ℕ)
  | endCheckpoint (caller : Option ℕ) (truncate : Bool)
  /-- `lost` records were only in the buffer, and another may be torn -/
  | crash (lost : ℕ) (torn : Bool)
  /-- the recovery reverses the next record -/
  | reverse
  /-- the recovery is done -/
  | finish

def init : DdlSystem where
  mem := .empty
  file := .empty
  log := []
  phase := fun _ => .idle
  active := []
  locks := []
  nextTxn := 1
  checkpoints := []
  recovering := none
  changes := []
  saved := []
  committed := Catalog.empty.content

/-- The changes as edits. -/
def asEdits (l : List (ℕ × DdlChange)) : List (ℕ × Edit Key Val) := l.map fun a => (a.1, a.2.edit)

section

variable (s : DdlSystem)

section

variable (txn : ℕ)

def setPhase (p : DdlPhase) : DdlSystem :=
  { s with phase := Function.update s.phase txn p }

/-- The commit record is durable, the locks are released. -/
def commitTxn : DdlSystem :=
  { s with
    log := s.log ++ [.commit txn]
    active := s.active.filter fun t => t ≠ txn
    locks := s.locks.filter fun l => l.1 ≠ txn
    nextTxn := s.nextTxn + 1
    changes := s.changes.filter fun a => a.1 ≠ txn
    saved := s.saved.filter fun a => a.1 ≠ txn
    committed := effects s.committed (edits (asEdits (s.changes.filter fun a => a.1 = txn))) }

def GetsLock (stmt : DdlStatement) : Prop :=
  ∀ tid ∈ s.mem.lockFor stmt, ∀ l ∈ s.locks, l.2 = tid → l.1 = txn

instance (s : DdlSystem) (txn : ℕ) (stmt : DdlStatement) : Decidable (s.GetsLock txn stmt) :=
  inferInstanceAs (Decidable (∀ _ ∈ _, _))

def act : Action → Option DdlSystem
  | .begin => some { s with active := s.nextTxn :: s.active, nextTxn := s.nextTxn + 1 }
  | .execute txn stmt auto =>
    if txn ∈ s.active ∧ s.phase txn = .idle ∧ s.GetsLock txn stmt ∧ (auto → ∀ a ∈ s.changes, a.1 ≠ txn) then
      let locks := ((s.mem.lockFor stmt).map fun tid => (txn, tid)).toList ++ s.locks
      match s.mem.execute stmt with
      | (mem, none) => some { s with mem, locks }
      | (mem, some (change, record)) =>
        some { s with
          mem, locks
          changes := s.changes ++ [(txn, change)]
          phase := Function.update s.phase txn (.changed record (auto && record.op.isAlter)) }
    else none
  | .save txn =>
    match s.phase txn with
    | .changed record late =>
      some ({ s with file := s.mem, saved := s.changes }.setPhase txn (.saved record late))
    | .undone => some ({ s with file := s.mem, saved := s.changes }.setPhase txn .idle)
    | _ => none
  | .mark txn =>
    match s.phase txn with
    | .saved record false | .checkpointed record =>
      some ({ s with log := s.log ++ [DdlLogRecord.ddl txn record] }.setPhase txn .idle)
    | _ => none
  | .write dataLen => some { s with log := s.log ++ [.data dataLen] }
  | .commit txn =>
    if txn ∈ s.active then
      match s.phase txn with
      | .idle => some (s.commitTxn txn)
      | .saved record true => some ((s.commitTxn txn).setPhase txn (.committed record))
      | _ => none
    else none
  | .abort txn =>
    if txn ∈ s.active ∧ s.phase txn = .idle then
      some { s with
        active := s.active.filter fun t => t ≠ txn
        locks := s.locks.filter fun l => l.1 ≠ txn }
    else none
  | .undo txn =>
    if s.phase txn = .idle then
      match popLast txn s.changes with
      | some (change, rest) =>
        some ({ s with mem := s.mem.undoChange change, changes := rest }.setPhase txn .undone)
      | none => none
    else none
  | .beginCheckpoint caller => some { s with checkpoints := (caller, s.active.isEmpty) :: s.checkpoints }
  | .endCheckpoint caller truncate =>
    if (caller, truncate) ∈ s.checkpoints then
      let s' := { s with
        log := if truncate then [] else s.log
        checkpoints := s.checkpoints.erase (caller, truncate) }
      match caller with
      | none => some s'
      | some txn =>
        match s.phase txn with
        | .committed record => some (s'.setPhase txn (.checkpointed record))
        | _ => some s'
    else none
  | .crash .. | .reverse | .finish => none

/-- The unfinished changes without the one that the recovery reverses by the record. -/
def remaining (record : DdlRecord) (l : List (ℕ × DdlChange)) : List (ℕ × DdlChange) :=
  match popLast txn l with
  | some (change, rest) => if change.ReversedBy record then rest else l
  | none => l

def step (reread : Schema → Schema) (s : DdlSystem) : Action → Option DdlSystem
  | .crash lost torn =>
    -- `log_ddl` and a commit leave nothing in the buffer
    if (s.log.drop (s.log.length - lost)).all DdlLogRecord.isData then do
      let mem ← Catalog.load reread s.file.save
      return { s with
        mem
        log := s.log.take (s.log.length - lost) ++ if torn then [.torn] else []
        phase := fun _ => .idle
        active := []
        locks := []
        checkpoints := []
        recovering := some (uncommitted s.log)
        changes := s.saved }
    else none
  | .reverse =>
    match s.recovering with
    | some ((txn, record) :: records) =>
      let rest := remaining txn record s.saved
      some { s with
        mem := s.mem.reverse record
        file := if record.op.reversible then s.mem.reverse record else s.file
        recovering := some records
        changes := rest
        saved := rest }
    | _ => none
  | .finish => if s.recovering = some [] then some { s with recovering := none } else none
  | a => if s.recovering.isNone then s.act a else none

/-- After recovery the catalog has the effects of the committed transactions, and no others. -/
def Atomic : Prop := s.recovering = some [] → s.mem.content = s.committed

/-! ## The condition -/

/-- The recovery finds its way back: going through the records, each one is that of the newest change
left of its transaction, and of a kind that can be reversed, or it concerns nothing that is there; and
no change is left at the end. -/
def Reversible : List (ℕ × DdlRecord) → (Key → Val) → List (ℕ × DdlChange) → Prop
  | [], _, l => l.isEmpty
  | (txn, record) :: records, x, l =>
    match popLast txn l with
    | some (change, rest) =>
      if change.ReversedBy record then Reversible records (fun k => change.edit.undo k (x k)) rest
      else Idle record x ∧ Reversible records x l
    | none => Idle record x ∧ Reversible records x l

instance decidableReversible : (records : List (ℕ × DdlRecord)) → (x : Key → Val) → (l : List (ℕ × DdlChange)) →
      Decidable (Reversible records x l)
  | [], _, l => inferInstanceAs (Decidable (l.isEmpty = true))
  | (txn, record) :: records, x, l =>
    have := decidableReversible records
    match h : popLast txn l with
    | some (change, rest) =>
      decidable_of_iff
        (if change.ReversedBy record then Reversible records (fun k => change.edit.undo k (x k)) rest
          else Idle record x ∧ Reversible records x l) (by rw [Reversible, h])
    | none => decidable_of_iff (Idle record x ∧ Reversible records x l) (by rw [Reversible, h])

/-- The statement touches nothing that an unfinished transaction of others has changed. -/
def Apart (stmt : DdlStatement) : Prop :=
  ∀ p ∈ (s.mem.execute stmt).2, ∀ a ∈ s.changes, a.1 ≠ txn → ∀ k ∈ a.2.edit.keys, k ∉ p.1.edit.keys

end

end

instance (s : DdlSystem) (txn : ℕ) (stmt : DdlStatement) : Decidable (s.Apart txn stmt) :=
  inferInstanceAs (Decidable (∀ _ ∈ _, _))

def StepOk (reread : Schema → Schema) (s : DdlSystem) : Action → Prop
  | .execute txn stmt _ => s.mem.IdsLeft stmt ∧ s.Apart txn stmt
  | .crash .. => s.file.save.Readable reread ∧ Reversible (uncommitted s.log) s.file.content s.saved
  | _ => True

instance (reread : Schema → Schema) (s : DdlSystem) : (a : Action) → Decidable (s.StepOk reread a)
  | .execute .. => inferInstanceAs (Decidable (_ ∧ _))
  | .crash .. => inferInstanceAs (Decidable (_ ∧ _))
  | .begin | .save _ | .mark _ | .write _ | .commit _ | .abort _ | .undo _ | .beginCheckpoint _ | .endCheckpoint .. |
    .reverse | .finish => isTrue trivial

/-! ## The invariant -/

/-- The catalog has the effects of the committed transactions and of the unfinished changes. -/
structure Holds (x : Key → Val) (l : List (ℕ × DdlChange)) (c : Catalog) : Prop where
  sound : Sound x (asEdits l)
  valid : ∀ a ∈ l, a.2.Valid
  content : ∀ k, c.content k = effects x (edits (asEdits l)) k
  wellFormed : c.WellFormed

/-- The indexes are on columns of their tables, and so it was where each of the changes was made. -/
structure HoldsColumns (x : Key → Val) (l : List (ℕ × DdlChange)) (c : Catalog) : Prop extends Holds x l c where
  columns : ∀ k, (c.content k).ColumnsIn
  before : AtEach (fun e y => ∀ k ∈ e.keys, (y k).ColumnsIn) x (asEdits l)

structure Inv (s : DdlSystem) : Prop where
  mem : HoldsColumns s.committed s.changes s.mem
  file : HoldsColumns s.committed s.saved s.file
  /-- a transaction between two statements has everything in the file -/
  settled : ∀ t, (∀ record late, s.phase t ≠ .changed record late) → s.phase t ≠ .undone →
    (s.saved.filter fun a => a.1 = t) = s.changes.filter fun a => a.1 = t
  recovering : ∀ records ∈ s.recovering, Reversible records s.mem.content s.saved ∧ s.changes = s.saved

section

variable {s s' : DdlSystem} {x : Key → Val} {l l' : List (ℕ × DdlChange)} {c c' : Catalog} {t : ℕ} {change : DdlChange}

lemma asEdits_append (l l' : List (ℕ × DdlChange)) : asEdits (l ++ l') = asEdits l ++ asEdits l' := map_append

lemma asEdits_ofOwner : asEdits (l.filter fun a => a.1 = t) = Sound.ofOwner t (asEdits l) := by
  rw [Sound.ofOwner, asEdits, asEdits, filter_map]
  rfl

lemma asEdits_ofOthers : asEdits (l.filter fun a => a.1 ≠ t) = Sound.ofOthers t (asEdits l) := by
  rw [Sound.ofOthers, asEdits, asEdits, filter_map]
  rfl

lemma Holds.of_editsTo_nil (h : Holds x l c) (hedits : EditsTo [] c c') : Holds x l c' :=
  ⟨h.sound, h.valid, fun k => (hedits.content k).trans (h.content k), hedits.wellFormed⟩

lemma Holds.concat (h : Holds x l c) (hedits : EditsTo change.edit c c') (hfits : change.edit.Fits c.content)
    (hvalid : change.Valid) (hothers : ∀ a ∈ l, a.1 ≠ t → ∀ k ∈ a.2.edit.keys, k ∉ change.edit.keys) :
    Holds x (l ++ [(t, change)]) c' where
  sound := by
    rw [asEdits_append]
    refine h.sound.concat (hfits.congr fun k _ => h.content k) fun a ha k hk hk' => ?_
    obtain ⟨b, hb, rfl⟩ := mem_map.1 ha
    by_contra hne
    exact hothers b hb hne k hk hk'
  valid a ha := by
    rcases mem_append.1 ha with ha | ha
    · exact h.valid a ha
    · rw [mem_singleton.1 ha]
      exact hvalid
  content k := by
    rw [hedits.content, asEdits_append, Sound.edits_append, h.content]
    exact effects_concat.symm
  wellFormed := hedits.wellFormed

variable {rest : List (ℕ × DdlChange)} {reread : Schema → Schema} {a : Action}

lemma Holds.split (h : Holds x l c) (hpop : popLast t l = some (change, rest)) :
    ∃ front back, asEdits l = front ++ (t, change.edit) :: back ∧ asEdits rest = front ++ back ∧
      (∀ a ∈ back, a.1 ≠ t) ∧ Sound x (front ++ (t, change.edit) :: back) := by
  obtain ⟨front, back, rfl, rfl, hback⟩ := popLast_eq_some hpop
  have hsplit : asEdits (front ++ (t, change) :: back) = asEdits front ++ (t, change.edit) :: asEdits back :=
    map_append
  refine ⟨asEdits front, asEdits back, hsplit, asEdits_append front back, fun a ha => ?_, hsplit ▸ h.sound⟩
  obtain ⟨b, hb, rfl⟩ := mem_map.1 ha
  exact hback b hb

lemma Holds.pop (h : Holds x l c) (hpop : popLast t l = some (change, rest)) : Made change c ∧ change.Valid ∧
      ∀ c', EditsTo change.edit.inverse c c' →
        Holds x rest c' ∧ ∀ k, c'.content k = change.edit.undo k (c.content k) := by
  obtain ⟨front, back, hsplit, hrest, hlast, hsound⟩ := h.split hpop
  obtain ⟨front', back', hl, rfl, _⟩ := popLast_eq_some hpop
  obtain ⟨hundo, hsound'⟩ := hsound.pop hlast
  refine ⟨⟨effects x (edits (front ++ back)), fun k => ?_⟩, h.valid (t, change) (by simp [hl]),
    fun c' hedits => ⟨⟨hrest ▸ hsound', fun a ha => h.valid a ?_, fun k => ?_, hedits.wellFormed⟩, fun k => ?_⟩⟩
  · rw [h.content, hsplit]
    exact hsound.effects_last hlast k
  · simp only [hl, mem_append, mem_cons] at ha ⊢
    tauto
  · rw [hedits.content, Edit.act_inverse, h.content, hsplit, hrest]
    exact hundo k
  · rw [hedits.content, Edit.act_inverse]

lemma Holds.commit (h : Holds x l c) (t : ℕ) (hl' : l'.filter (fun a => a.1 = t) = l.filter fun a => a.1 = t) :
    Holds (effects x (edits (asEdits (l'.filter fun a => a.1 = t)))) (l.filter fun a => a.1 ≠ t) c := by
  rw [hl', asEdits_ofOwner]
  refine ⟨asEdits_ofOthers ▸ h.sound.settle t, fun a ha => h.valid a (mem_of_mem_filter ha), fun k => ?_, h.wellFormed⟩
  rw [asEdits_ofOthers, h.sound.effects_settle t k, h.content]

/-! ## Key columns -/

/-- A key of a change that is taken back or made final may be looked at in another state. -/
lemma columnsIn_congr {e : Edit Key Val} {y z : Key → Val} (h : ∀ k ∈ e.keys, (y k).ColumnsIn)
    (heq : ∀ k ∈ e.keys, y k = z k) : ∀ k ∈ e.keys, (z k).ColumnsIn :=
  fun k hk => heq k hk ▸ h k hk

namespace HoldsColumns

section

variable (h : HoldsColumns x l c)
include h

lemma of_editsTo_nil (hedits : EditsTo [] c c') : HoldsColumns x l c' :=
  ⟨h.toHolds.of_editsTo_nil hedits, fun k => (hedits.content k).symm ▸ h.columns k, h.before⟩

lemma concat (hnew : Holds x (l ++ [(t, change)]) c') (hcolumns : c'.ColumnsFit) :
    HoldsColumns x (l ++ [(t, change)]) c' := by
  refine ⟨hnew, columnsFit_iff.1 hcolumns, ?_⟩
  rw [asEdits_append]
  exact h.before.concat fun k _ => h.content k ▸ h.columns k

lemma pop {rest : List (ℕ × DdlChange)} (hpop : popLast t l = some (change, rest))
    (hnew : Holds x rest c') : HoldsColumns x rest c' := by
  obtain ⟨front, back, hsplit, hrest, hlast, hsound⟩ := h.split hpop
  have hbefore := h.before
  rw [hsplit] at hbefore
  refine ⟨hnew, fun k => ?_, hrest ▸ hsound.atEach_pop hlast columnsIn_congr hbefore⟩
  rw [hnew.content, hrest]
  by_cases hk : k ∈ change.edit.keys
  · -- the key is as the change has found it
    rw [hsound.effects_before hlast hk]
    exact hbefore front (t, change.edit) back rfl k hk
  · have hsame := hsound.effects_last hlast k
    rw [change.edit.act_of_notMem hk, ← hsplit, ← h.content] at hsame
    exact hsame ▸ h.columns k

lemma commit (t : ℕ) (hl' : l'.filter (fun a => a.1 = t) = l.filter fun a => a.1 = t) :
    HoldsColumns (effects x (edits (asEdits (l'.filter fun a => a.1 = t)))) (l.filter fun a => a.1 ≠ t) c := by
  refine ⟨h.toHolds.commit t hl', h.columns, ?_⟩
  rw [hl', asEdits_ofOwner, asEdits_ofOthers]
  exact h.sound.atEach_settle t columnsIn_congr h.before

end

end HoldsColumns

/-! ## Steps -/

/-- Of a step that leaves the catalogs and the changes alone, only the phases matter. -/
lemma Inv.of_same (h : s.Inv) (hmem : s'.mem = s.mem) (hfile : s'.file = s.file)
    (hchanges : s'.changes = s.changes)
    (hsaved : s'.saved = s.saved) (hcommitted : s'.committed = s.committed) (hrecovering : s'.recovering = none)
    (hphase : ∀ t, (∀ record late, s'.phase t ≠ .changed record late) → s'.phase t ≠ .undone →
      (∀ record late, s.phase t ≠ .changed record late) ∧ s.phase t ≠ .undone) : s'.Inv where
  mem := by
    rw [hmem, hchanges, hcommitted]
    exact h.mem
  file := by
    rw [hfile, hsaved, hcommitted]
    exact h.file
  settled t hchanged hundone := by
    rw [hchanges, hsaved]
    exact h.settled t (hphase t hchanged hundone).1 (hphase t hchanged hundone).2
  recovering records hrecords := by
    rw [hrecovering] at hrecords
    cases hrecords

/-- One transaction gets a new phase, and it was not in the middle of a change. -/
lemma phase_setPhase {p : DdlPhase} (hchanged : ∀ record late, s.phase t ≠ .changed record late)
    (hundone : s.phase t ≠ .undone) (u : ℕ) (hu : ∀ record late, update s.phase t p u ≠ .changed record late)
    (hu' : update s.phase t p u ≠ .undone) :
    (∀ record late, s.phase u ≠ .changed record late) ∧ s.phase u ≠ .undone := by
  by_cases htu : u = t
  · subst htu
    exact ⟨hchanged, hundone⟩
  · rw [update_of_ne htu] at hu'
    simp only [update_of_ne htu] at hu
    exact ⟨hu, hu'⟩

section

variable (h : s.Inv) (hopen : s.recovering = none)
include h hopen

lemma Inv.execute {stmt : DdlStatement} {auto : Bool} (hok : s.StepOk reread (.execute t stmt auto))
    (hs : s.act (.execute t stmt auto) = some s') : s'.Inv := by
  simp only [act] at hs
  split_ifs at hs
  obtain ⟨hids, hothers⟩ := hok
  have hspec := h.mem.wellFormed.execute_spec hids
  obtain ⟨⟨mem, result⟩, hresult⟩ : ∃ r, s.mem.execute stmt = r := ⟨_, rfl⟩
  rw [Apart, hresult] at hothers
  rw [hresult] at hspec hs
  cases result with
  | none =>
    cases hs
    exact ⟨h.mem.of_editsTo_nil hspec, h.file, h.settled, fun _ hr => nomatch hopen.symm.trans hr⟩
  | some p =>
    obtain ⟨change, record⟩ := p
    obtain ⟨hedits, hfits, hvalid⟩ := hspec
    cases hs
    have hcolumns := (columnsFit_iff.2 h.mem.columns).execute h.mem.wellFormed stmt
    rw [hresult] at hcolumns
    have hmem := h.mem.toHolds.concat hedits hfits hvalid (hothers (change, record) rfl)
    refine ⟨h.mem.concat hmem hcolumns, h.file, fun u hu hu' => ?_, fun _ hr => nomatch hopen.symm.trans hr⟩
    by_cases htu : u = t
    · subst htu
      exact absurd (update_self ..) (hu record _)
    · dsimp only at hu hu' ⊢
      rw [update_of_ne htu] at hu'
      simp only [update_of_ne htu] at hu
      rw [h.settled u hu hu', filter_append, filter_singleton]
      simp [Ne.symm htu]

lemma Inv.save (hs : s.act (.save t) = some s') : s'.Inv := by
  simp only [act] at hs
  split at hs
  all_goals cases hs
  all_goals exact ⟨h.mem, h.mem, fun _ _ _ => rfl, fun _ hr => nomatch hopen.symm.trans hr⟩

lemma Inv.mark (hs : s.act (.mark t) = some s') : s'.Inv := by
  simp only [act] at hs
  split at hs
  all_goals cases hs
  all_goals
    rename_i record hphase
    exact h.of_same rfl rfl rfl rfl rfl hopen (phase_setPhase (by simp [hphase]) (by simp [hphase]))

lemma Inv.commitTxn (hchanged : ∀ record late, s.phase t ≠ .changed record late)
    (hundone : s.phase t ≠ .undone) :
    (s.commitTxn t).Inv where
  mem := h.mem.commit t rfl
  file := h.file.commit t (h.settled t hchanged hundone).symm
  settled u hu hu' := by
    have hold := h.settled u hu hu'
    dsimp only [DdlSystem.commitTxn]
    rw [filter_comm, hold, filter_comm]
  recovering _ hr := nomatch hopen.symm.trans hr

lemma Inv.commit (hs : s.act (.commit t) = some s') : s'.Inv := by
  simp only [act] at hs
  split_ifs at hs
  split at hs
  · rename_i hphase
    cases hs
    exact h.commitTxn hopen (by simp [hphase]) (by simp [hphase])
  · rename_i record hphase
    cases hs
    have hcommit := h.commitTxn (t := t) hopen (by simp [hphase]) (by simp [hphase])
    exact hcommit.of_same rfl rfl rfl rfl rfl hopen
      (phase_setPhase (s := s.commitTxn t) (by simp [DdlSystem.commitTxn, hphase])
        (by simp [DdlSystem.commitTxn, hphase]))
  · cases hs

lemma Inv.undo (hs : s.act (.undo t) = some s') : s'.Inv := by
  simp only [act] at hs
  split_ifs at hs
  split at hs
  · rename_i change rest hpop
    cases hs
    obtain ⟨hmade, hvalid, hundo⟩ := h.mem.toHolds.pop hpop
    obtain ⟨hrest, _⟩ := hundo _ (h.mem.wellFormed.undoChange_editsTo hmade hvalid)
    refine ⟨h.mem.pop hpop hrest, h.file, fun u hu hu' => ?_, fun _ hr => nomatch hopen.symm.trans hr⟩
    by_cases htu : u = t
    · subst htu
      exact absurd (update_self ..) hu'
    · dsimp only [setPhase] at hu hu' ⊢
      rw [update_of_ne htu] at hu'
      simp only [update_of_ne htu] at hu
      obtain ⟨front, back, hl, rfl, _⟩ := popLast_eq_some hpop
      rw [h.settled u hu hu', hl, filter_append, filter_append, filter_cons_of_neg]
      simpa using Ne.symm htu
  · cases hs

lemma Inv.endCheckpoint {caller : Option ℕ} {truncate : Bool}
    (hs : s.act (.endCheckpoint caller truncate) = some s') : s'.Inv := by
  simp only [act] at hs
  by_cases hmem : (caller, truncate) ∈ s.checkpoints
  case neg =>
    rw [if_neg hmem] at hs
    cases hs
  rw [if_pos hmem] at hs
  cases caller with
  | none =>
    cases hs
    exact h.of_same rfl rfl rfl rfl rfl hopen fun _ hu hu' => ⟨hu, hu'⟩
  | some t =>
    dsimp only at hs
    split at hs
    · rename_i record hphase
      cases hs
      exact h.of_same rfl rfl rfl rfl rfl hopen (phase_setPhase (by simp [hphase]) (by simp [hphase]))
    · cases hs
      exact h.of_same rfl rfl rfl rfl rfl hopen fun _ hu hu' => ⟨hu, hu'⟩

lemma Inv.act (hok : s.StepOk reread a) (hs : s.act a = some s') : s'.Inv := by
  cases a with
  | begin | write dataLen | beginCheckpoint caller =>
    cases hs
    exact h.of_same rfl rfl rfl rfl rfl hopen fun _ hu hu' => ⟨hu, hu'⟩
  | execute txn stmt auto => exact h.execute hopen hok hs
  | save txn => exact h.save hopen hs
  | mark txn => exact h.mark hopen hs
  | commit txn => exact h.commit hopen hs
  | abort txn =>
    simp only [DdlSystem.act] at hs
    split_ifs at hs
    cases hs
    exact h.of_same rfl rfl rfl rfl rfl hopen fun _ hu hu' => ⟨hu, hu'⟩
  | undo txn => exact h.undo hopen hs
  | endCheckpoint caller truncate => exact h.endCheckpoint hopen hs
  | crash lost torn | reverse | finish => cases hs

end

lemma Inv.crash {lost : ℕ} {torn : Bool} (h : s.Inv) (hok : s.StepOk reread (.crash lost torn))
    (hs : s.step reread (.crash lost torn) = some s') : s'.Inv := by
  obtain ⟨hread, hreversible⟩ := hok
  obtain ⟨mem, hload, hedits⟩ := h.file.wellFormed.load_save hread
  simp only [step, hload, Option.bind_eq_bind, Option.bind_some, Option.pure_def] at hs
  split at hs
  case isFalse => cases hs
  cases hs
  refine ⟨h.file.of_editsTo_nil hedits, h.file, fun _ _ _ => rfl, fun records hrecords => ⟨?_, rfl⟩⟩
  cases hrecords
  have hcontent : mem.content = s.file.content := funext hedits.content
  rw [hcontent]
  exact hreversible

lemma Inv.reverse (h : s.Inv) (hs : s.step reread .reverse = some s') : s'.Inv := by
  simp only [step] at hs
  split at hs
  · rename_i txn record records hrecovering
    cases hs
    obtain ⟨hreversible, hsame⟩ := h.recovering _ hrecovering
    have hmem := hsame ▸ h.mem
    -- what this record does to the catalog, and what is left
    have hstep : HoldsColumns s.committed (remaining txn record s.saved) (s.mem.reverse record) ∧
        Reversible records (s.mem.reverse record).content (remaining txn record s.saved) ∧
        (record.op.reversible = false → remaining txn record s.saved = s.saved) := by
      rw [Reversible] at hreversible
      rw [remaining]
      have hidle : Idle record s.mem.content → Reversible records s.mem.content s.saved →
          HoldsColumns s.committed s.saved (s.mem.reverse record) ∧
            Reversible records (s.mem.reverse record).content s.saved := by
        intro hidle hrest
        have hedits := hmem.wellFormed.reverse_idle hidle
        refine ⟨hmem.of_editsTo_nil hedits, ?_⟩
        rwa [show (s.mem.reverse record).content = s.mem.content from funext hedits.content]
      cases hpop : popLast txn s.saved with
      | none =>
        rw [hpop] at hreversible
        exact (hidle hreversible.1 hreversible.2).imp_right (⟨·, fun _ => rfl⟩)
      | some p =>
        obtain ⟨change, rest⟩ := p
        rw [hpop] at hreversible
        dsimp only at hreversible ⊢
        split_ifs at hreversible ⊢ with hrev
        · obtain ⟨hmade, hvalid, hundo⟩ := hmem.toHolds.pop hpop
          obtain ⟨hrest, hcontent⟩ := hundo _ (hmem.wellFormed.reverse_editsTo hmade hvalid hrev)
          refine ⟨hmem.pop hpop hrest, ?_, fun hop => ?_⟩
          · rw [funext hcontent]
            exact hreversible
          · cases change <;> simp_all [DdlChange.ReversedBy, DdlOp.reversible]
        · exact (hidle hreversible.1 hreversible.2).imp_right (⟨·, fun _ => rfl⟩)
    obtain ⟨hholds, hrest, hfile⟩ := hstep
    refine ⟨hholds, ?_, fun _ _ _ => rfl, fun records' hrecords => ?_⟩
    · split_ifs with hop
      · exact hholds
      · rw [hfile (Bool.eq_false_iff.2 hop)]
        exact h.file
    · cases hrecords
      exact ⟨hrest, rfl⟩
  · cases hs

lemma Inv.step (h : s.Inv) (hok : s.StepOk reread a) (hs : s.step reread a = some s') : s'.Inv := by
  have hact : ∀ {a}, s.StepOk reread a → (if s.recovering.isNone then s.act a else none) = some s' → s'.Inv := by
    intro a hok hs
    split_ifs at hs with hopen
    exact h.act (Option.isNone_iff_eq_none.1 hopen) hok hs
  cases a with
  | crash lost torn => exact h.crash hok hs
  | reverse => exact h.reverse hs
  | finish =>
    simp only [DdlSystem.step] at hs
    split_ifs at hs
    cases hs
    exact h.of_same rfl rfl rfl rfl rfl rfl fun _ hu hu' => ⟨hu, hu'⟩
  | begin | execute txn stmt auto | save txn | mark txn | write dataLen | commit txn | abort txn | undo txn
  | beginCheckpoint caller | endCheckpoint caller truncate => exact hact hok hs

lemma wellFormed_empty : empty.WellFormed where
  tableName name id := by simp [empty]
  indexName name id := by simp [empty]
  tableOf iid e he := by simp [empty] at he
  tableId tid htid := absurd htid (AList.notMem_empty tid)
  indexId iid hiid := absurd hiid (AList.notMem_empty iid)
  fit := ⟨by decide, by decide⟩
  tablePos := by decide
  indexPos := by decide

lemma Holds.nil (h : c.WellFormed) : Holds c.content [] c :=
  ⟨.nil _, fun _ ha => absurd ha not_mem_nil, fun _ => rfl, h⟩

lemma holds_empty : HoldsColumns empty.content [] empty :=
  ⟨.nil wellFormed_empty, columnsFit_iff.1 (fun _ _ _ he => nomatch he), .nil⟩

lemma inv_init : init.Inv where
  mem := holds_empty
  file := holds_empty
  settled _ _ _ := rfl
  recovering _ hr := nomatch hr

lemma Inv.atomic (h : s.Inv) : s.Atomic := by
  intro hrecovering
  obtain ⟨hreversible, hsame⟩ := h.recovering [] hrecovering
  have hnil : s.changes = [] := hsame.trans (isEmpty_iff.1 hreversible)
  funext k
  rw [h.mem.content, hnil]
  rfl

end

/-- **DDL is atomic across crashes**, in every state of every run whose statements touch no object of
an unfinished transaction of others and whose crashes leave the recovery its way back. -/
theorem atomic_of_stepOk (reread : Schema → Schema) (actions : List Action)
    (hok : StepsMeet (step reread) (StepOk reread) init actions) :
    Always (step reread) Atomic init actions :=
  always_of_invariant (I := Inv) (fun _ _ _ h hok hs => h.step hok hs) (fun _ h => h.atomic) inv_init hok

def plainColumn (name : String) : Catalog.Column :=
  { name, isPrimary := false, isUnique := false, textBytes := 0 }

/-- One table is created and committed, a second one is in the catalog file when the database crashes:
the recovery takes it out, and a third one after a second crash. -/
theorem atomic_createTable_crash :
    Always (step id) Atomic init
      [.begin, .execute 1 (.createTable "t" [plainColumn "a"]) true, .save 1, .mark 1, .commit 1,
        .begin, .execute 3 (.createTable "u" [plainColumn "a"]) false, .save 3, .mark 3, .write 8192,
        .crash 1 true, .reverse, .finish, .beginCheckpoint none, .endCheckpoint none true,
        .begin, .execute 4 (.createTable "v" [plainColumn "a"]) false, .save 4, .mark 4, .crash 0 false, .reverse] :=
  atomic_of_stepOk id _ (by decide +kernel)

/-- An `ALTER TABLE` that has committed: the checkpoint behind the commit empties the log, the record is
written behind it, and after a crash the recovery takes the column away. -/
def lateRecordRun : List Action :=
  [.begin, .execute 1 (.createTable "t" [plainColumn "a"]) true, .save 1, .mark 1, .commit 1,
    .begin, .execute 3 (.addColumn "t" (plainColumn "b") false) true, .save 3, .commit 3,
    .beginCheckpoint (some 3), .endCheckpoint (some 3) true, .mark 3, .crash 0 false, .reverse]

/-- The committed column is gone after the recovery. -/
theorem not_atomic_lateRecord : ¬ Always (step id) Atomic init lateRecordRun := by
  intro h
  obtain ⟨s, ⟨hrecovering, hmem, hcommitted⟩, hatomic⟩ := h.eval (R := fun s => s.recovering = some [] ∧
    (s.mem.content (.table 10)).schema = [plainColumn "a"] ∧
      (s.committed (.table 10)).schema = [plainColumn "a", plainColumn "b"]) (by decide +kernel)
  rw [hatomic hrecovering, hcommitted] at hmem
  exact absurd hmem (by decide)

end DdlSystem

end MiniDb
