import MiniDb.Transaction.System
import MiniDb.Concurrency.LockManager
import MiniDb.Recovery.Gc

/-!
# The engine: sessions, statements, undo, pruning and collection on one table

`Engine` is the transaction system, one table (heap, indexes and the collector's position), the record locks, and the
statement that each session executes.  An action is one section of the transaction manager, or one call of the lock
manager, the heap file or a collector, so that a list of actions is an interleaving of statements.

* `UPDATE` reads a target (`readRow`), locks it (`lockRow`), looks at its `xmax` again (`recheck`), writes the new
  version (`install`) and stamps the old one (`commitOld`).
* `DELETE` locks a target (`lockDelete`) and marks it (`delete`).
* `INSERT` writes a row (`insert`).  Index entries are written afterwards (`indexRow`).
* A statement that fails is undone back to its mark, a rollback is undone to the end (`undo`).
* A commit prunes the versions it deleted (`prune`), after its status-log call.

`scan` adds a version that the session sees to the targets.  New row values and lengths are arbitrary, so the actions
cover more than the statements of the source can do.

The ghosts `ver`, `nextVer` and `superseded` number the versions ever written and keep who has set `xmax` on which.
-/

namespace MiniDb

open Function

/-- Where a session stands within its statement. -/
inductive Pc (β : Type*) where
  | idle
  | read (old : RecordId) (row : β)
  | locked (old : RecordId) (row : β)
  | checked (old : RecordId) (row : β)
  | installed (old new : RecordId) (row : β) (hot : Bool) (lsn : ℕ)
  | indexing (new : RecordId) (row : β)
  | deleting (rid : RecordId)
  | failed

/-- A statement: the undo position at which it started, and the addresses it has still to visit. -/
structure Stmt (β : Type*) where
  mark : ℕ
  targets : List RecordId
  pc : Pc β

structure Engine (β κ : Type*) where
  sys : TxnSystem
  table : GcTable β κ
  locks : LockManager
  stmts : ℕ → Option (Stmt β)
  /-- What a commit has still to prune. -/
  pruneQueue : ℕ → List RecordId
  ver : RecordId → ℕ
  nextVer : ℕ
  superseded : List (ℕ × ℕ)

inductive Action (β : Type*) where
  | txn (a : TxnAction)
  | beginStmt (t : ℕ)
  | scan (t : ℕ) (rid : RecordId)
  | readRow (t : ℕ)
  | lockRow (t : ℕ)
  | recheck (t : ℕ)
  | install (t : ℕ) (row : β) (length lsn : ℕ) (hot : Bool)
  | commitOld (t : ℕ)
  | insert (t : ℕ) (row : β) (length lsn : ℕ)
  | indexRow (t : ℕ)
  | lockDelete (t : ℕ)
  | delete (t lsn : ℕ)
  | failStmt (t : ℕ)
  | endStmt (t : ℕ)
  | undo (t lsn : ℕ)
  | prune (t lsn : ℕ)
  | gc (maxPages : ℕ)
  | vacuum

namespace Engine

variable {β κ : Type*}

def heap (e : Engine β κ) : HeapFile β := e.table.heap

/-- A table just created, with indexes on the given keys. -/
def init (sys : TxnSystem) (keys : List (β → κ)) : Engine β κ where
  sys := sys
  table := ⟨HeapFile.create, keys.map fun k => ⟨k, []⟩, 0⟩
  locks := .empty
  stmts := fun _ => none
  pruneQueue := fun _ => []
  ver := fun _ => 0
  nextVer := 1
  superseded := []

def running (e : Engine β κ) (t : ℕ) : Option Transaction :=
  match e.sys.sessions t with
  | some ⟨txn, .running⟩ => some txn
  | _ => none

/-- What session `t` does while it is running a statement. -/
def withStmt (e : Engine β κ) (t : ℕ) (f : Transaction → Stmt β → Option (Engine β κ)) : Option (Engine β κ) :=
  (e.running t).bind fun txn => (e.stmts t).bind fun st => f txn st

def setStmt (e : Engine β κ) (t : ℕ) (st : Option (Stmt β)) : Engine β κ :=
  { e with stmts := update e.stmts t st }

def setPc (e : Engine β κ) (t : ℕ) (st : Stmt β) (pc : Pc β) : Engine β κ :=
  e.setStmt t (some { st with pc := pc })

def setHeap (e : Engine β κ) (h : HeapFile β) : Engine β κ :=
  { e with table := { e.table with heap := h } }

/-- Replace the undo records of a session. -/
def setUndo (e : Engine β κ) (t : ℕ) (undo : List UndoRecord) : Engine β κ :=
  { e with
    sys :=
      { e.sys with
        sessions := update e.sys.sessions t
          ((e.sys.sessions t).map fun x => { x with txn := { x.txn with undoRecords := undo } }) } }

/-- The id under which undo records name the table. -/
def kTableId : ℕ := 1

/-- A version just written gets a number of its own. -/
def newVersion (e : Engine β κ) (rid : RecordId) : Engine β κ :=
  { e with ver := update e.ver rid e.nextVer, nextVer := e.nextVer + 1 }

/-- Session `t` has set `xmax` on the version at `rid`. -/
def noteSuperseded (e : Engine β κ) (rid : RecordId) (t : ℕ) : Engine β κ :=
  { e with superseded := (e.ver rid, t) :: e.superseded }

/-- Session `t` has taken it back. -/
def noteUndone (e : Engine β κ) (rid : RecordId) (t : ℕ) : Engine β κ :=
  { e with superseded := e.superseded.filter fun p => p ≠ (e.ver rid, t) }

/-! ## Control: steps that touch neither table nor undo records -/

def beginStmt (e : Engine β κ) (t : ℕ) : Option (Engine β κ) :=
  (e.running t).bind fun txn =>
    match e.stmts t with
    | none => some (e.setStmt t (some ⟨txn.undoRecords.length, [], .idle⟩))
    | some _ => none

/-- A scan, in between two rows, has found a version that the session sees.  An address that is a
target already is not taken twice. -/
def scan (e : Engine β κ) (t : ℕ) (rid : RecordId) : Option (Engine β κ) :=
  e.withStmt t fun txn st =>
    match st.pc with
    | .idle =>
      (e.heap.tupleAt rid).bind fun tup =>
        if rid ∉ st.targets ∧ e.sys.tm.isVisible tup.xmin tup.xmax txn = true then
          some (e.setStmt t (some { st with targets := st.targets ++ [rid] }))
        else none
    | _ => none

/-- `Database::read_tuple` on the next target; a target whose slot is not valid is skipped. -/
def readRow (e : Engine β κ) (t : ℕ) : Option (Engine β κ) :=
  e.withStmt t fun _ st =>
    match st.pc, st.targets with
    | .idle, rid :: rest =>
      match e.heap.tupleAt rid with
      | none => some (e.setStmt t (some { st with targets := rest }))
      | some tup => some (e.setStmt t (some { st with targets := rest, pc := .read rid tup.row }))
    | _, _ => none

/-- The caller waits while its request is queued, and fails on a conflict. -/
def lockThen (e : Engine β κ) (t : ℕ) (st : Stmt β) (rid : RecordId) (pc : Pc β) : Option (Engine β κ) :=
  match e.locks.lockRecord t rid .rowExclusive with
  | .granted lm => some { e.setPc t st pc with locks := lm }
  | .waiting _ => none
  | .conflict => some (e.setPc t st .failed)

def lockRow (e : Engine β κ) (t : ℕ) : Option (Engine β κ) :=
  e.withStmt t fun _ st =>
    match st.pc with
    | .read rid row => e.lockThen t st rid (.locked rid row)
    | _ => none

/-- The look at `xmax` after the lock was granted. -/
def recheck (e : Engine β κ) (t : ℕ) : Option (Engine β κ) :=
  e.withStmt t fun _ st =>
    match st.pc with
    | .locked rid row =>
      match e.heap.tupleAt rid with
      | none => some (e.setPc t st .failed)
      | some tup =>
        if tup.xmax ≠ kInvalidTxnId ∧ tup.xmax ≠ t then some (e.setPc t st .failed)
        else some (e.setPc t st (.checked rid row))
    | _ => none

def lockDelete (e : Engine β κ) (t : ℕ) : Option (Engine β κ) :=
  e.withStmt t fun _ st =>
    match st.pc, st.targets with
    | .idle, rid :: rest => e.lockThen t { st with targets := rest } rid (.deleting rid)
    | _, _ => none

/-- An error.  Between the new version and the stamp of the old one there is no way out. -/
def failStmt (e : Engine β κ) (t : ℕ) : Option (Engine β κ) :=
  e.withStmt t fun _ st =>
    match st.pc with
    | .installed .. => none
    | _ => some (e.setPc t st .failed)

/-- A statement ends when it has no row in hand; after an error, when it is undone. -/
def endStmt (e : Engine β κ) (t : ℕ) : Option (Engine β κ) :=
  e.withStmt t fun txn st =>
    match st.pc with
    | .idle => some (e.setStmt t none)
    | .failed => if txn.undoRecords.length ≤ st.mark then some (e.setStmt t none) else none
    | _ => none

/-! ## Writing -/

/-- The new version of an `UPDATE`.  A HOT update goes on the page of the old version and is only
taken when no indexed column changes. -/
def install [DecidableEq κ] (e : Engine β κ) (t : ℕ) (row : β) (length lsn : ℕ) (hot : Bool) :
    Option (Engine β κ) :=
  e.withStmt t fun _ st =>
    match st.pc with
    | .checked old oldRow =>
      if ¬ LengthOk length then none
      else if hot && !(e.table.indexes.all fun ix => ix.key row == ix.key oldRow) then none
      else
        let tup : Tuple β := ⟨t, kInvalidTxnId, kNullPageId, 0, row⟩
        let res := if hot then e.heap.insertVersionInPage old.pageId tup length lsn
          else e.heap.insertVersion tup length lsn
        res.map fun (h, new) =>
          ((e.setHeap h).newVersion new).setPc t st (.installed old new row hot lsn)
    | _ => none

/-- What an `UPDATE` records for undo. -/
def updateUndo (hot : Bool) (old new : RecordId) : List UndoRecord :=
  if hot then [⟨.hotDelete, kTableId, old⟩, ⟨.hotInsert, kTableId, new⟩]
  else [⟨.delete, kTableId, old⟩, ⟨.insert, kTableId, new⟩]

/-- The stamp of the old version.  If it fails, the new version is taken back.  Only a new version
that is not HOT gets index entries. -/
def commitOld (e : Engine β κ) (t : ℕ) : Option (Engine β κ) :=
  e.withStmt t fun txn st =>
    match st.pc with
    | .installed old new row hot lsn =>
      match e.heap.commitOldTuple old new t lsn with
      | none => some ((e.setHeap ((e.heap.rollbackInsert new lsn).getD e.heap)).setPc t st .failed)
      | some h =>
        some ((((e.setHeap h).noteSuperseded old t).setUndo t (txn.undoRecords ++ updateUndo hot old new)).setPc t st
            (if hot then .idle else .indexing new row))
    | _ => none

/-- One row of an `INSERT`, with the record lock it takes on the slot. -/
def insert (e : Engine β κ) (t : ℕ) (row : β) (length lsn : ℕ) : Option (Engine β κ) :=
  e.withStmt t fun txn st =>
    match st.pc with
    | .idle =>
      if ¬ LengthOk length then none
      else
        (e.heap.insertVersion ⟨t, kInvalidTxnId, kNullPageId, 0, row⟩ length lsn).bind
          fun (h, rid) =>
            match e.locks.lockRecord t rid .rowExclusive with
            | .granted lm =>
              some { ((((e.setHeap h).newVersion rid).setUndo t (txn.undoRecords ++
                [⟨.insert, kTableId, rid⟩])).setPc t st (.indexing rid row)) with locks := lm }
            | .waiting _ => none
            | .conflict => some (e.setPc t st .failed)
    | _ => none

/-- `Database::insert_index_entries` for the version just written. -/
def indexRow (e : Engine β κ) (t : ℕ) : Option (Engine β κ) :=
  e.withStmt t fun _ st =>
    match st.pc with
    | .indexing new row =>
      some { e.setPc t st .idle with
        table := { e.table with indexes := insertIndexEntries e.table.indexes row new } }
    | _ => none

def delete (e : Engine β κ) (t lsn : ℕ) : Option (Engine β κ) :=
  e.withStmt t fun txn st =>
    match st.pc with
    | .deleting rid =>
      match e.heap.markDeletedIfCurrent rid t lsn with
      | none => some (e.setPc t st .failed)
      | some h =>
        some ((((e.setHeap h).noteSuperseded rid t).setUndo t
          (txn.undoRecords ++ [⟨.delete, kTableId, rid⟩])).setPc t st .idle)
    | _ => none

/-! ## Undo, pruning and collection -/

/-- `apply_undo_record`.  Failures of the heap functions are ignored. -/
def applyUndoRecord [DecidableEq κ] (e : Engine β κ) (t lsn : ℕ) (rec : UndoRecord) : Engine β κ :=
  match rec.type with
  | .insert =>
    let indexes := match e.heap.tupleAt rec.rid with
      | some tup => deleteIndexEntries e.table.indexes tup.row rec.rid
      | none => e.table.indexes
    { e with
      table := { e.table with
        heap := (e.heap.rollbackInsert rec.rid lsn).getD e.heap, indexes := indexes } }
  | .hotInsert => e.setHeap ((e.heap.rollbackInsert rec.rid lsn).getD e.heap)
  | .delete => (e.setHeap ((e.heap.rollbackDelete rec.rid lsn).getD e.heap)).noteUndone rec.rid t
  | .hotDelete =>
    (e.setHeap ((e.heap.rollbackDelete rec.rid lsn).getD e.heap)).noteUndone rec.rid t
  | .ddl _ => e

/-- May the session take its last undo record back?  In a rollback, or when its statement failed
and has records of its own. -/
def mayUndo (e : Engine β κ) (t : ℕ) (x : Session) : Bool :=
  match x.phase, e.stmts t with
  | .abortRecorded, _ => true
  | .running, some ⟨mark, _, .failed⟩ => mark < x.txn.undoRecords.length
  | _, _ => false

def undo [DecidableEq κ] (e : Engine β κ) (t lsn : ℕ) : Option (Engine β κ) :=
  (e.sys.sessions t).bind fun x => (x.txn.undoRecords.getLast?).bind fun rec =>
    if e.mayUndo t x then
      some ((e.applyUndoRecord t lsn rec).setUndo t x.txn.undoRecords.dropLast)
    else none

/-- The versions a commit has to prune. -/
def deletedRids (txn : Transaction) : List RecordId :=
  (txn.undoRecords.filter fun r => r.type == .delete || r.type == .hotDelete).map UndoRecord.rid

/-- One version of a commit's pruning. -/
def prune (e : Engine β κ) (t lsn : ℕ) : Option (Engine β κ) :=
  (e.sys.sessions t).bind fun x =>
    match x.phase, e.pruneQueue t with
    | .recorded oldestActive, rid :: rest =>
      some { e.setHeap ((e.heap.pruneObsoleteVersion rid oldestActive t lsn).getD e.heap) with
        pruneQueue := update e.pruneQueue t rest }
    | _, _ => none

/-- May a session take this section now?  A commit waits for its statement; a rollback comes when
the statement has no row in hand; a session ends when pruning or undo is done. -/
def mayTake (e : Engine β κ) : TxnAction → Bool
  | .publish t => (e.stmts t).isNone
  | .flip t =>
    match e.stmts t with
    | none => true
    | some st => match st.pc with
      | .idle => true
      | .failed => true
      | _ => false
  | .finish t =>
    match e.sys.sessions t with
    | some ⟨txn, .abortRecorded⟩ => txn.undoRecords.isEmpty
    | _ => (e.pruneQueue t).isEmpty
  | _ => true

/-- What a section of the transaction manager changes besides the transaction system. -/
def afterTxn (e : Engine β κ) (sys : TxnSystem) : TxnAction → Engine β κ
  | .publish t =>
    { e with
      sys := sys
      pruneQueue := update e.pruneQueue t
        (match e.running t with
          | some txn => deletedRids txn
          | none => []) }
  | .flip t => { e with sys := sys, stmts := update e.stmts t none }
  | .recordAborted t => { e with sys := sys, locks := e.locks.unlockAll t }
  | .finish t => { e with sys := sys, locks := e.locks.unlockAll t }
  | _ => { e with sys := sys }

def txnStep (e : Engine β κ) (a : TxnAction) : Option (Engine β κ) :=
  if e.mayTake a then (e.sys.step a).map fun sys => e.afterTxn sys a else none

def step [DecidableEq κ] (e : Engine β κ) : Action β → Option (Engine β κ)
  | .txn a => e.txnStep a
  | .beginStmt t => e.beginStmt t
  | .scan t rid => e.scan t rid
  | .readRow t => e.readRow t
  | .lockRow t => e.lockRow t
  | .recheck t => e.recheck t
  | .install t row length lsn hot => e.install t row length lsn hot
  | .commitOld t => e.commitOld t
  | .insert t row length lsn => e.insert t row length lsn
  | .indexRow t => e.indexRow t
  | .lockDelete t => e.lockDelete t
  | .delete t lsn => e.delete t lsn
  | .failStmt t => e.failStmt t
  | .endStmt t => e.endStmt t
  | .undo t lsn => e.undo t lsn
  | .prune t lsn => e.prune t lsn
  | .gc maxPages => some { e with table := runGc e.sys.tm maxPages e.table }
  | .vacuum => some { e with table := runVacuum e.sys.tm e.table }

/-! ## Whole statements, run without interruption -/

def insertStmt (t : ℕ) (row : β) (length lsn : ℕ) : List (Action β) :=
  [.beginStmt t, .insert t row length lsn, .indexRow t, .endStmt t]

/-- An `UPDATE` of one row; a HOT update writes no index entries. -/
def updateStmt (t : ℕ) (rid : RecordId) (row : β) (length lsn : ℕ) (hot : Bool) : List (Action β) :=
  [.beginStmt t, .scan t rid, .readRow t, .lockRow t, .recheck t, .install t row length lsn hot, .commitOld t] ++
    (if hot then [.endStmt t] else [.indexRow t, .endStmt t])

def deleteStmt (t : ℕ) (rid : RecordId) (lsn : ℕ) : List (Action β) :=
  [.beginStmt t, .scan t rid, .lockDelete t, .delete t lsn, .endStmt t]

/-- The sections of `commit` up to the pruning. -/
def commitTxn (t : ℕ) : List (Action β) := [.txn (.publish t), .txn (.recordCommitted t)]

end Engine

end MiniDb
