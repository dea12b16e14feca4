import MiniDb.Sql.IndexPath
import MiniDb.Executor.IndexBatch

/-!
# Plans and what they return

A plan is a tree of scans, filters, projections and joins.  `PlanNode.rows` gives the rows that the
executors of a plan return, over a `Storage`: what the scans and the index lookups return for one reader.
`Storage.ofHeap` is a table with its heap and an index, row versions and all; `Storage.ofTables` takes
the tables as lists of rows, with indexes that find each row under its key.

The hash join builds its table from the right input, in memory; sorting, grouping, limits, unions and
subqueries are not modelled.
-/

namespace MiniDb.Sql

inductive JoinType where
  | inner | left
  deriving DecidableEq, Repr

inductive JoinAlgorithm where
  | nestedLoop
  | hash
  | indexLookup (table index : ℕ)
  deriving DecidableEq, Repr

/-- A filter has the output schema of its child. -/
inductive PlanNode where
  | seqScan (table : ℕ) (schema : Schema) (projected : List ℕ) (pushed : Option Expression)
  | indexScan (table index : ℕ) (schema : Schema) (range : KeyRange) (pushed : Option Expression)
  | indexOnlyScan (table index : ℕ) (schema : Schema) (range : KeyRange)
  | filter (predicate : Expression) (child : PlanNode)
  | project (columnIndices : List ℕ) (expressions : List Expression) (schema : Schema)
      (child : PlanNode)
  | join (type : JoinType) (algorithm : JoinAlgorithm) (onCondition : Option Expression)
      (schema : Schema) (left right : PlanNode)
  deriving DecidableEq, Repr

def PlanNode.outputSchema : PlanNode → Schema
  | seqScan _ schema _ _ => schema
  | indexScan _ _ schema _ _ => schema
  | indexOnlyScan _ _ schema _ => schema
  | filter _ child => child.outputSchema
  | project _ _ schema _ => schema
  | join _ _ _ schema _ _ => schema

/-! ## Storage -/

/-- What the scans return for a reader: the rows of a table; by index and range the rows and the keys
of an index-only scan; by index and key the rows of a lookup. -/
structure Storage where
  seqScan : ℕ → List Row
  indexScan : ℕ → KeyRange → List Row
  indexOnlyScan : ℕ → KeyRange → List Value
  lookup : ℕ → Value → List Row

def KeyRange.single (v : Value) : KeyRange := ⟨[v], false, []⟩

/-- The entries that calls of `scan_next` return one after the other: an entry with the address of the
one returned last is passed over. -/
def scanNextAll {κ : Type*} (last : Option RecordId) : List (κ × RecordId) → List (κ × RecordId)
  | [] => []
  | entry :: rest =>
    if last = some entry.2 then scanNextAll last rest
    else entry :: scanNextAll (some entry.2) rest

/-- `IndexLookupJoinExecutor::fetch_inner`: one redirect, and no version chain. -/
def fetchInner {β : Type*} (tm : TransactionManager) (reader : Option Transaction) (h : HeapFile β)
    (rid : RecordId) : Option β :=
  (h.tupleAt (h.visibleSlot rid)).bind fun t =>
    if checkVisible tm reader t then some t.row else none

/-- One table with its heap and one index, for a reader. -/
def Storage.ofHeap (tm : TransactionManager) (txn : Transaction) (h : HeapFile Row)
    (ix : TableIndex Row IndexKey) (listing : ∀ range : KeyRange, RangeListing ix range.contains) : Storage where
  seqScan _ := (MiniDb.seqScan tm (some txn) h).map fun hit => hit.2.row
  indexScan _ range := (indexScanRows ix tm (some txn) h (listing range).entries).map Prod.snd
  indexOnlyScan _ range :=
    (MiniDb.indexOnlyScan ix tm (some txn) h (listing range).entries).map fun key => key.headD .null
  lookup _ v := (scanNextAll none (listing (.single v)).entries).filterMap fun entry =>
    fetchInner tm (some txn) h entry.2

/-- Tables as lists of rows.  An index belongs to a table and finds its rows by their keys. -/
def Storage.ofTables (tables : ℕ → List Row) (indexes : ℕ → ℕ × IndexEntry) : Storage where
  seqScan := tables
  indexScan i range := (tables (indexes i).1).filter fun row =>
    range.contains ((indexes i).2.keyOf row)
  indexOnlyScan i range := ((tables (indexes i).1).filter fun row =>
    range.contains ((indexes i).2.keyOf row)).map fun row => ((indexes i).2.keyOf row).headD .null
  lookup i v := (tables (indexes i).1).filter fun row =>
    (KeyRange.single v).contains ((indexes i).2.keyOf row)

/-! ## Executors -/

/-- `expr_can_eval_on`, which is also `HashJoinExecutor::can_evaluate_on`. -/
def exprCanEvalOn (schema : Schema) : Expression → Bool
  | .literal _ => true
  | .star => true
  | .columnRef table name => (schema.getColumnIndex table name).isSome
  | .binaryOp _ left right => exprCanEvalOn schema left && exprCanEvalOn schema right
  | .unaryOp _ child => exprCanEvalOn schema child
  | .caseWhen cond result rest =>
    exprCanEvalOn schema cond && exprCanEvalOn schema result && exprCanEvalOn schema rest
  | .cast child _ => exprCanEvalOn schema child
  | .subquery => false

/-- `IndexLookupJoinExecutor::can_evaluate_on`, which does not look into CASE. -/
def lookupCanEvaluateOn (schema : Schema) : Expression → Bool
  | .literal _ => true
  | .star => true
  | .columnRef table name => (schema.getColumnIndex table name).isSome
  | .binaryOp _ left right => lookupCanEvaluateOn schema left && lookupCanEvaluateOn schema right
  | .unaryOp _ child => lookupCanEvaluateOn schema child
  | .caseWhen .. => false
  | .cast child _ => lookupCanEvaluateOn schema child
  | .subquery => false

/-- The key expressions of a hash join on `lhs = rhs`, for the left and for the right side. -/
def hashKeys (left right : Schema) (lhs rhs : Expression) : Expression × Expression :=
  if exprCanEvalOn left lhs && exprCanEvalOn right rhs then (lhs, rhs)
  else if exprCanEvalOn right lhs && exprCanEvalOn left rhs then (rhs, lhs)
  else (lhs, rhs)

/-- `setup_keys`: the key expressions of an index lookup join. -/
def setupKeys (outer inner : Schema) (lhs rhs : Expression) : Option (Expression × Expression) :=
  if lookupCanEvaluateOn outer lhs && lookupCanEvaluateOn inner rhs then some (lhs, rhs)
  else if lookupCanEvaluateOn outer rhs && lookupCanEvaluateOn inner lhs then some (rhs, lhs)
  else none

/-- Two join keys match: no NULL, and equal in the order of `Value::compare`. -/
def keysMatch (a b : Value) : Bool := !a.isNull && !b.isNull && a.compare b == .eq

/-- The columns that a scan with a projection decodes. -/
def projectRow (projected : List ℕ) (row : Row) : Row :=
  if projected = [] then row else projected.map row.getValue

section

variable (fns : ScalarFns)

/-- The predicate that a scan evaluates on its rows. -/
def passesPushed (schema : Schema) (pushed : Option Expression) (row : Row) : Bool :=
  pushed.all fun e => passes fns schema row e

/-- `NestedLoopJoinExecutor`'s test of two rows. -/
def onTrue (onCondition : Option Expression) (schema : Schema) (l r : Row) : Bool :=
  onCondition.all fun e => predicateTruth (evaluate fns schema (l ++ r) e) == some true

/-- Each left row with its matches, or with NULLs if it is to be kept and has none. -/
def joinRows (type : JoinType) (schema : Schema) (matching : Row → List Row) (left : List Row) : List Row :=
  left.flatMap fun l =>
    match type, matching l with
    | .left, [] => [l ++ List.replicate (schema.length - l.length) .null]
    | _, rs => rs.map fun r => l ++ r

def kBucketCount : ℕ := 8192

/-- `hash_value`: the bucket of a key, from an unsigned number of 64 bits. -/
def hashValue (key : Value) : ℕ :=
  let h : ℕ := match key with
    | .int32 v => (v % 2 ^ 64).toNat
    | .int64 v => (v % 2 ^ 64).toNat
    | .float x => (fns.floatBits x % 2 ^ 64).toNat
    | .double x => (fns.doubleBits x % 2 ^ 64).toNat
    | .bool b => if b then 1 else 0
    | .varchar s => s.foldl (fun h c => (h * 31 + c.toNat) % 2 ^ 64) 0
    | _ => 0
  h % kBucketCount

/-- `build_hash_table`: a row with a key goes to the front of the bucket of its key. -/
def buildBuckets (keyOf : Row → Value) (rows : List Row) : ℕ → List Row :=
  rows.foldl (fun buckets r =>
    if (keyOf r).isNull then buckets
    else Function.update buckets (hashValue fns (keyOf r)) (r :: buckets (hashValue fns (keyOf r)))) fun _ => []

/-- The rows that a hash join finds for a left row: those of the bucket of its key that match. -/
def hashMatching (leftSchema rightSchema : Schema) (lhs rhs : Expression) (right : List Row) (l : Row) :
    List Row :=
  let keys := hashKeys leftSchema rightSchema lhs rhs
  let probeKey := evaluate fns leftSchema l keys.1
  if probeKey.isNull then []
  else (buildBuckets fns (fun r => evaluate fns rightSchema r keys.2) right (hashValue fns probeKey)).filter fun r =>
    keysMatch probeKey (evaluate fns rightSchema r keys.2)

/-- The rows that an index lookup finds for an outer row. -/
def lookupMatching (outerSchema innerSchema : Schema) (projected : List ℕ)
    (outerKey innerKey : Expression) (lookup : Value → List Row) (l : Row) : List Row :=
  let key := evaluate fns outerSchema l outerKey
  if key.isNull then []
  else ((lookup key).map (projectRow projected)).filter fun r =>
    keysMatch (evaluate fns innerSchema r innerKey) key

/-- The columns that the index lookup join takes over from the scan it replaces. -/
def PlanNode.lookupProjection : PlanNode → List ℕ
  | seqScan _ _ projected _ => projected
  | _ => []

/-- The rows that a plan returns, as the executors that `ExecutorFactory::create` builds for it find
them. -/
def PlanNode.rows (st : Storage) : PlanNode → List Row
  | seqScan table schema projected pushed =>
    ((st.seqScan table).map (projectRow projected)).filter (passesPushed fns schema pushed)
  | indexScan _ index schema range pushed =>
    (st.indexScan index range).filter (passesPushed fns schema pushed)
  | indexOnlyScan _ index _ range => (st.indexOnlyScan index range).map fun v => [v]
  | filter predicate child =>
    (child.rows st).filter fun row => passes fns child.outputSchema row predicate
  | project columnIndices expressions _ child =>
    (child.rows st).map fun row =>
      columnIndices.map row.getValue ++
        expressions.map fun e => evaluate fns child.outputSchema row e
  | join type algorithm onCondition schema left right =>
    match algorithm, onCondition with
    | .indexLookup _ index, some (.binaryOp (.cmp .eq) lhs rhs) =>
      match setupKeys left.outputSchema right.outputSchema lhs rhs with
      | some (outerKey, innerKey) =>
        joinRows type schema (lookupMatching fns left.outputSchema right.outputSchema
          right.lookupProjection outerKey innerKey (st.lookup index)) (left.rows st)
      | none => []
    | .indexLookup _ _, _ => []
    | .hash, some (.binaryOp (.cmp .eq) lhs rhs) =>
      joinRows type schema (hashMatching fns left.outputSchema right.outputSchema lhs rhs
        (right.rows st)) (left.rows st)
    | _, _ =>
      joinRows type schema (fun l => (right.rows st).filter (onTrue fns onCondition schema l))
        (left.rows st)

end

end MiniDb.Sql
