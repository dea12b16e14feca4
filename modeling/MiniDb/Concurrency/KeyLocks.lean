import MiniDb.Concurrency.TableLocks

/-!
# Unique-key locks

Before INSERT and UPDATE check a row against the unique constraints, they lock the key of every unique group of
columns.  The name of a lock is the number of the group in the statement's own list and the text of the key.
INSERT's list has every group of the table, UPDATE's only those that share a column with the SET list, numbered anew.

The locks are asked for in row-exclusive mode, which is compatible with itself, so `lock_key` grants them to
everybody.  What does stop a second writer is the table lock: `acquire_eq_none_iff_heldAgainst`.
-/

namespace MiniDb

structure Column where
  isPrimary : Bool
  isUnique : Bool
  deriving DecidableEq, Repr

structure IndexEntry where
  keyColumns : List ℕ
  isUnique : Bool
  deriving DecidableEq, Repr

/-- What INSERT and UPDATE read of a table's schema and of its catalog entries. -/
structure TableDef where
  columns : List Column
  indexes : List IndexEntry
  deriving DecidableEq, Repr

namespace TableDef

/-- The unique groups: the primary and unique columns one by one, then the unique indexes. -/
def uniqueGroups (t : TableDef) : List (List ℕ) :=
  (t.columns.zipIdx.filterMap fun (col, c) =>
    if col.isPrimary || col.isUnique then some [c] else none) ++
  (t.indexes.filter IndexEntry.isUnique).map IndexEntry.keyColumns

/-- INSERT locks the whole table when a primary or unique column has no unique index of its own. -/
def needTableLock (t : TableDef) : Bool :=
  t.columns.zipIdx.any fun (col, c) =>
    (col.isPrimary || col.isUnique) &&
      !t.indexes.any fun index => index.isUnique && index.keyColumns == [c]

end TableDef

def groupIntersectsColumns (group cols : List ℕ) : Bool :=
  group.any fun c => cols.contains c

/-- An INSERT with its rows and the slots found for them, or an UPDATE with the columns of its SET
list and its rows: the old version and the new values. -/
inductive Writer (V : Type*) where
  | insert (rows : List (List V × RecordId))
  | update (modifiedCols : List ℕ) (rows : List (RecordId × List V))

/-- The hash of a string (FNV-1a over its bytes). -/
def hashString (s : String) : UInt64 :=
  s.toUTF8.data.toList.foldl (fun h b => (h ^^^ b.toUInt64) * 1099511628211) 1469598103934665603

def logicalLockKey (tableId : ℕ) (name : String) : UInt64 :=
  (.ofNat tableId * (1099511628211 : UInt64) ^^^ hashString name) ^^^
    (0xD15EA5E5D15EA5E5 : UInt64)

/-- The record that stands for a key name in `lock_key`. -/
def keyLock (tableId : ℕ) (name : String) : RecordId :=
  recordLock tableId ⟨(logicalLockKey tableId name).toNat, 0⟩

/-- The name of a key lock: the number of the group and the text of the key. -/
def lockName (g : ℕ) (key : String) : String := toString g ++ "|" ++ key

/-- A lock a statement asks for while it works on a row. -/
inductive RowLock where
  | key (name : String)
  | record (rid : RecordId)

section

-- Values enter only through whether they are NULL and through `encode_value_key`.
variable {V : Type*} (isNull : V → Bool) (encodeValueKey : V → String)

/-- `make_projected_values_key`; a NULL or a missing column gives no key. -/
def makeProjectedValuesKey (values : List V) (columns : List ℕ) : Option String :=
  (columns.mapM fun c => values[c]?.bind fun v =>
    if isNull v then none else some (encodeValueKey v)).map fun parts =>
      toString columns.length ++ "|" ++ String.join parts

/-- The names a statement locks for a row, by its own list of groups. -/
def lockNames (groups : List (List ℕ)) (values : List V) : List String :=
  groups.zipIdx.filterMap fun (group, g) =>
    (makeProjectedValuesKey isNull encodeValueKey values group).map (lockName g)

namespace Writer

/-- The unique groups the statement looks at; UPDATE keeps those that its SET list touches. -/
def uniqueGroups (t : TableDef) : Writer V → List (List ℕ)
  | .insert _ => t.uniqueGroups
  | .update modifiedCols _ =>
    t.uniqueGroups.filter fun group => groupIntersectsColumns group modifiedCols

def rows : Writer V → List (List V)
  | .insert rows => rows.map Prod.fst
  | .update _ rows => rows.map Prod.snd

def rowLocks (t : TableDef) : Writer V → List RowLock
  | .insert rows => rows.flatMap fun (values, rid) =>
    (lockNames isNull encodeValueKey t.uniqueGroups values).map RowLock.key ++ [.record rid]
  | .update modifiedCols rows => rows.flatMap fun (rid, values) =>
    .record rid :: (lockNames isNull encodeValueKey
      ((Writer.update modifiedCols rows).uniqueGroups t) values).map RowLock.key

/-- The statement writes the key to a unique group that it looks at. -/
def Writes (t : TableDef) (w : Writer V) (group : List ℕ) (key : String) : Prop :=
  group ∈ w.uniqueGroups t ∧
    ∃ values ∈ w.rows, makeProjectedValuesKey isNull encodeValueKey values group = some key

end Writer

end

namespace LockTables

open LockManager

section

variable (L : LockTables)

/-- `lock_key` and `lock_record`, as the statements call them. -/
def lockRow (txnId tableId : ℕ) : RowLock → LockResult
  | .key name => L.records.lockRecord txnId (keyLock tableId name) .rowExclusive
  | .record rid => L.records.lockRecord txnId (recordLock tableId rid) .rowExclusive

/-- The statement goes on only with every lock granted. -/
def lockRows (txnId tableId : ℕ) : LockTables → List RowLock → Option LockTables
  | L, [] => some L
  | L, lock :: locks =>
    match L.lockRow txnId tableId lock with
    | .granted lm => lockRows txnId tableId { L with records := lm } locks
    | _ => none

/-- INSERT's attempt to lock the whole table; it goes on whatever comes of it. -/
def tryLockTable (txnId tableId : ℕ) : LockTables :=
  match LockManager.lockTable (L.tables tableId) txnId .exclusive with
  | .granted requests => L.setTable tableId requests
  | _ => L

/-- The transaction holds the lock of that name. -/
def HoldsKey (txnId tableId : ℕ) (name : String) : Prop :=
  ∃ req ∈ L.records.recordLocks (keyLock tableId name), req.txnId = txnId ∧ req.granted = true

/-- Another transaction holds the table in exclusive or access-exclusive mode. -/
def HeldAgainst (txnId tableId : ℕ) : Prop :=
  ∃ req ∈ L.tables tableId, req.granted = true ∧ req.txnId ≠ txnId ∧
    LockMode.exclusive.rank ≤ req.mode.rank

end

instance (L : LockTables) (txnId tableId : ℕ) (name : String) : Decidable (L.HoldsKey txnId tableId name) :=
  inferInstanceAs (Decidable (∃ req ∈ L.records.recordLocks (keyLock tableId name),
    req.txnId = txnId ∧ req.granted = true))

instance (L : LockTables) (txnId tableId : ℕ) : Decidable (L.HeldAgainst txnId tableId) :=
  inferInstanceAs (Decidable (∃ req ∈ L.tables tableId, req.granted = true ∧ req.txnId ≠ txnId ∧
    LockMode.exclusive.rank ≤ req.mode.rank))

end LockTables

section

variable {V : Type*} (isNull : V → Bool) (encodeValueKey : V → String)

/-- The locks a statement of a transaction takes: the table in row-exclusive mode, INSERT's attempt
at the whole table, then the rows'.  `none` says that the statement waits or fails at one of them,
so that it does not get past its key locks. -/
def Writer.acquire (t : TableDef) (L : LockTables) (txnId tableId : ℕ) (w : Writer V) : Option LockTables :=
  match LockManager.lockTable (L.tables tableId) txnId .rowExclusive with
  | .granted requests =>
    let L₁ := L.setTable tableId requests
    let L₂ := match w with
      | .insert _ => if t.needTableLock then L₁.tryLockTable txnId tableId else L₁
      | .update _ _ => L₁
    LockTables.lockRows txnId tableId L₂ (w.rowLocks isNull encodeValueKey t)
  | _ => none

/-- The transaction holds the lock that its statement took for the key of the group. -/
def LockTables.Took (t : TableDef) (L : LockTables) (txnId tableId : ℕ) (w : Writer V)
    (group : List ℕ) (key : String) : Prop :=
  w.Writes isNull encodeValueKey t group key ∧
    ∃ g, (w.uniqueGroups t)[g]? = some group ∧ L.HoldsKey txnId tableId (lockName g key)

namespace LockTables

open LockManager

/-- The row locks of a statement are granted, whoever holds locks of the same names. -/
lemma lockRows_isSome (txnId tableId : ℕ) {locks : List RowLock} :
    ∀ {L : LockTables}, OnlyRowExclusive L.records → (lockRows txnId tableId L locks).isSome := by
  induction locks with
  | nil => intro L _; rfl
  | cons lock locks ih =>
    intro L h
    have hone : ∃ lm, L.lockRow txnId tableId lock = .granted lm ∧ OnlyRowExclusive lm := by
      cases lock with
      | key name | record rid => exact lockRecord_rowExclusive h txnId _
    obtain ⟨lm, hlm, hok⟩ := hone
    rw [lockRows, hlm]
    exact ih hok

lemma records_tryLockTable (L : LockTables) (txnId tableId : ℕ) :
    (L.tryLockTable txnId tableId).records = L.records := by
  unfold tryLockTable
  split <;> rfl

/-- A statement gets all its locks exactly if it gets its table lock. -/
lemma acquire_isSome_iff (t : TableDef) {L : LockTables} (h : L.Ok) (txnId tableId : ℕ) (w : Writer V) :
    (w.acquire isNull encodeValueKey t L txnId tableId).isSome ↔ ¬ L.HeldAgainst txnId tableId := by
  rw [HeldAgainst, ← granted_lockTable_rowExclusive_iff (h.tables tableId) txnId]
  unfold Writer.acquire
  cases hlock : lockTable (L.tables tableId) txnId .rowExclusive with
  | granted requests =>
    refine iff_of_true (lockRows_isSome txnId tableId ?_) ⟨requests, rfl⟩
    cases w with
    | insert rows =>
      simp only
      split
      · rw [records_tryLockTable]
        exact h.records
      · exact h.records
    | update modifiedCols rows => exact h.records
  | waiting requests | conflict => exact iff_of_false (by simp) (by rintro ⟨_, ⟨⟩⟩)

/-- **What stops a second writer of a key.**  After any calls of any sessions on the lock manager,
let `txn₁` hold the lock that its INSERT or UPDATE took for a key of a unique group, and let another
transaction's INSERT or UPDATE write the same key to the group.  That statement does not get past
its key locks exactly if some transaction other than its own holds the table in exclusive or
access-exclusive mode; the key lock itself stops nobody. -/
theorem acquire_eq_none_iff_heldAgainst (t : TableDef) {calls : List LockCall} {L : LockTables}
    (hr : runs LockTables.call empty calls = some L) {txn₁ txn₂ tableId : ℕ} (_hne : txn₁ ≠ txn₂)
    {w₁ w₂ : Writer V} {group : List ℕ} {key : String}
    (_htook : L.Took isNull encodeValueKey t txn₁ tableId w₁ group key)
    (_hwrites : w₂.Writes isNull encodeValueKey t group key) :
    w₂.acquire isNull encodeValueKey t L txn₂ tableId = none ↔ L.HeldAgainst txn₂ tableId := by
  have h := acquire_isSome_iff isNull encodeValueKey t (ok_of_runs hr) txn₂ tableId w₂
  rw [← Option.not_isSome_iff_eq_none, h, not_not]

end LockTables

end

/-! ## Two writers of one key -/

/-- A table of one primary-key column, with the unique index made for it. -/
def keyedTable : TableDef := ⟨[⟨true, false⟩], [⟨[0], true⟩]⟩

/-- `encode_value_key` of a value of type `kInt32`. -/
def encodeInt32 (n : ℕ) : String :=
  "1:" ++ toString (toString n).length ++ "#" ++ toString n ++ ";"

/-- INSERT of the key 7, for the slot it is given. -/
def insertSeven (slot : ℕ) : Writer ℕ := .insert [([7], ⟨1, slot⟩)]

/-- The calls of the first transaction's INSERT: the table, its key under both groups, its slot. -/
def firstInsert : List LockCall :=
  [.lockTable 3 1 .rowExclusive, .lockRecord 3 1 ⟨(logicalLockKey 1 (lockName 0 "1|1:1#7;")).toNat, 0⟩,
    .lockRecord 3 1 ⟨(logicalLockKey 1 (lockName 1 "1|1:1#7;")).toNat, 0⟩,
    .lockRecord 3 1 ⟨1, 0⟩]

lemma took_firstInsert {L : LockTables} (hr : runs LockTables.call .empty firstInsert = some L) :
    L.Took (fun _ => false) encodeInt32 keyedTable 3 1 (insertSeven 0) [0] "1|1:1#7;" := by
  refine ⟨⟨by decide, [7], by decide, by decide +kernel⟩, 0, by decide, ?_⟩
  exact of_decide_eq_true (runs_eval
    (f := fun L => decide (L.HoldsKey 3 1 (lockName 0 "1|1:1#7;"))) (by decide +kernel) hr)

lemma writes_insertSeven (slot : ℕ) :
    (insertSeven slot).Writes (fun _ => false) encodeInt32 keyedTable [0] "1|1:1#7;" :=
  ⟨List.mem_cons_self, [7], List.mem_singleton.2 rfl, by decide +kernel⟩

/-- A second insertion of the key of a transaction that has not committed. -/
theorem acquire_after_firstInsert :
    ∃ L, runs LockTables.call .empty firstInsert = some L ∧
      ((insertSeven 1).acquire (fun _ => false) encodeInt32 keyedTable L 4 1 = none ↔ L.HeldAgainst 4 1) := by
  obtain ⟨L, hL⟩ := Option.isSome_iff_exists.1
    (show (runs LockTables.call .empty firstInsert).isSome = true by decide +kernel)
  exact ⟨L, hL, LockTables.acquire_eq_none_iff_heldAgainst _ _ keyedTable hL (by decide)
    (took_firstInsert hL) (writes_insertSeven 1)⟩

/-- The second INSERT of the key gets all its locks while the first transaction holds the key. -/
theorem second_insert_not_stopped :
    ∃ L, runs LockTables.call .empty firstInsert = some L ∧
      L.Took (fun _ => false) encodeInt32 keyedTable 3 1 (insertSeven 0) [0] "1|1:1#7;" ∧
      (insertSeven 1).Writes (fun _ => false) encodeInt32 keyedTable [0] "1|1:1#7;" ∧
      (insertSeven 1).acquire (fun _ => false) encodeInt32 keyedTable L 4 1 ≠ none := by
  obtain ⟨L, hL⟩ := Option.isSome_iff_exists.1
    (show (runs LockTables.call .empty firstInsert).isSome = true by decide +kernel)
  refine ⟨L, hL, took_firstInsert hL, writes_insertSeven 1, ?_⟩
  have hfree : ¬ L.HeldAgainst 4 1 := of_decide_eq_false
    (runs_eval (f := fun L => decide (L.HeldAgainst 4 1)) (by decide +kernel) hL)
  rw [← Option.isSome_iff_ne_none]
  exact (LockTables.acquire_isSome_iff _ _ keyedTable (LockTables.ok_of_runs hL) 4 1 _).2 hfree

end MiniDb
