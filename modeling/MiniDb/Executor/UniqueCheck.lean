import MiniDb.Concurrency.KeyLocks
import MiniDb.Executor.SeqScan

/-!
# The unique check

Before INSERT and UPDATE write a row, they look for another row with the same key.  A group of columns with a unique
index is checked through the index: a version at an address under the key counts if its slot is valid and it is live.
Other groups, and rows with a NULL in the group, are checked against all slots of the heap.

An index entry leads to the slot it was made for and no further, and a HOT update writes a version without entries:
`IndexFinds` says when the check through the index sees all there is.
-/

namespace MiniDb

/-- How the check looks at values: `is_null`, `operator==`, the column types a tree can have, and `fits`. -/
structure RowOps (V : Type*) where
  isNull : V → Bool
  eq : V → V → Bool
  eq_comm : ∀ v w, eq v w = eq w v
  supportsType : ℕ → Bool
  fits : List V → Bool

def tupleLiveForUniqueCheck {β : Type*} (tm : TransactionManager) (current : Option Transaction)
    (tup : Tuple β) : Bool :=
  if tup.xmax = kInvalidTxnId then true
  else
    match current with
    | none => false
    | some txn =>
      if tup.xmax = txn.id then false
      else
        match tm.getTxnState tup.xmax with
        | some state => state != .committed
        | none => decide (txn.snapshotId ≤ tup.xmax)

section

variable {V : Type*} (ops : RowOps V) (d : TableDef)

/-- The comparison of the heap scan: the same values, none of them NULL. -/
def sameOn (row row' : List V) (group : List ℕ) : Bool :=
  group.all fun c =>
    match row[c]?, row'[c]? with
    | some v, some w => !ops.isNull v && !ops.isNull w && ops.eq v w
    | _, _ => false

def buildUniqueIndexKey (row : List V) (columns : List ℕ) : Option (List V) :=
  if columns.isEmpty then none
  else
    (columns.mapM fun c =>
      if c < d.columns.length ∧ ops.supportsType c = true then row[c]?.filter fun v => !ops.isNull v
      else none).filter ops.fits

def indexKey (columns : List ℕ) (row : List V) : List (Option V) := columns.map fun c => row[c]?

/-- `BPlusTree::search`: the addresses under a key. -/
def searchKey (tree : TableIndex (List V) (List (Option V))) (key : List V) : List RecordId :=
  (tree.entries.filter fun en =>
    en.1.length == key.length && (en.1.zip key).all fun p => p.1.any fun v => ops.eq v p.2).map Prod.snd

/-- What the index has under the key of the row, if the group is checked through an index. -/
def indexMatches (trees : List (TableIndex (List V) (List (Option V)))) (row : List V) (group : List ℕ) :
    Option (List RecordId) :=
  (buildUniqueIndexKey ops d row group).bind fun key =>
    ((d.indexes.zip trees).find? fun p => p.1.isUnique && p.1.keyColumns == group).map fun p =>
      searchKey ops p.2 key

/-- `violates_unique_constraints`.  UPDATE leaves out the version that it replaces. -/
def violatesUniqueConstraints (tm : TransactionManager) (current : Option Transaction)
    (heap : HeapFile (List V)) (trees : List (TableIndex (List V) (List (Option V)))) (row : List V)
    (self : Option RecordId) (groups : List (List ℕ)) : Bool :=
  (groups.any fun group => (indexMatches ops d trees row group).any fun found =>
    found.any fun rid => some rid != self && (heap.tupleAt rid).any (tupleLiveForUniqueCheck tm current)) ||
  heap.slotIds.any fun rid => some rid != self && (heap.tupleAt rid).any fun tup =>
    tupleLiveForUniqueCheck tm current tup && groups.any fun group =>
      (indexMatches ops d trees row group).isNone && sameOn ops row tup.row group

/-- The index has the address of every live version with the key, where it is asked at all. -/
def IndexFinds (tm : TransactionManager) (current : Option Transaction) (heap : HeapFile (List V))
    (trees : List (TableIndex (List V) (List (Option V)))) (row : List V) (self : Option RecordId)
    (groups : List (List ℕ)) : Prop :=
  ∀ group ∈ groups, ∀ found ∈ indexMatches ops d trees row group, ∀ rid ∈ heap.slotIds,
    ∀ tup ∈ heap.tupleAt rid, tupleLiveForUniqueCheck tm current tup = true →
      sameOn ops row tup.row group = true → some rid ≠ self → rid ∈ found

instance (tm : TransactionManager) (current : Option Transaction) (heap : HeapFile (List V))
    (trees : List (TableIndex (List V) (List (Option V)))) (row : List V) (self : Option RecordId)
    (groups : List (List ℕ)) : Decidable (IndexFinds ops d tm current heap trees row self groups) :=
  inferInstanceAs (Decidable (∀ group ∈ groups, ∀ found ∈ indexMatches ops d trees row group,
    ∀ rid ∈ heap.slotIds, ∀ tup ∈ heap.tupleAt rid, _))

variable {ops d}

lemma sameOn_comm (row row' : List V) (group : List ℕ) :
    sameOn ops row row' group = sameOn ops row' row group := by
  unfold sameOn
  congr 1
  funext c
  cases row[c]? with
  | none => cases row'[c]? <;> rfl
  | some v =>
    cases row'[c]? with
    | none => rfl
    | some w => simp [ops.eq_comm v w, Bool.and_comm (!ops.isNull v)]

lemma sameOn_congr {row row' other : List V} {group : List ℕ} (h : ∀ c ∈ group, row[c]? = row'[c]?) :
    sameOn ops row other group = sameOn ops row' other group := by
  unfold sameOn
  induction group with
  | nil => rfl
  | cons c group ih =>
    rw [List.all_cons, List.all_cons, h c List.mem_cons_self, ih fun c' hc' => h c' (List.mem_cons_of_mem c hc')]

/-- A row that passes the check, while the index finds what is there, has the key of no live version. -/
lemma not_live_of_not_violates {tm : TransactionManager} {current : Option Transaction}
    {heap : HeapFile (List V)} (hok : heap.HeapOk) {trees : List (TableIndex (List V) (List (Option V)))}
    {row : List V} {self : Option RecordId} {groups : List (List ℕ)}
    (hpass : violatesUniqueConstraints ops d tm current heap trees row self groups = false)
    (hfinds : IndexFinds ops d tm current heap trees row self groups) {group : List ℕ} (hg : group ∈ groups)
    {rid : RecordId} {tup : Tuple (List V)} (htup : heap.tupleAt rid = some tup) (hself : some rid ≠ self)
    (hsame : sameOn ops row tup.row group = true) : tupleLiveForUniqueCheck tm current tup = false := by
  rw [violatesUniqueConstraints, Bool.or_eq_false_iff, List.any_eq_false, List.any_eq_false] at hpass
  have hslot := HeapFile.mem_slotIds_of_tupleAt hok htup
  by_contra hlive
  rw [Bool.not_eq_false] at hlive
  cases hfound : indexMatches ops d trees row group with
  | none =>
    refine hpass.2 rid hslot ?_
    simp only [htup, Option.any_some, hlive, Bool.true_and, Bool.and_eq_true, bne_iff_ne, List.any_eq_true]
    exact ⟨hself, group, hg, by simp [hfound, hsame]⟩
  | some found =>
    have hmem := hfinds group hg found hfound rid hslot tup htup hlive hsame hself
    refine hpass.1 group hg ?_
    simp only [hfound, Option.any_some, List.any_eq_true]
    exact ⟨rid, hmem, by simp [htup, hlive, hself]⟩

end

end MiniDb
