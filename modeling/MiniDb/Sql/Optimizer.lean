import MiniDb.Sql.Plan

/-!
# The optimizer

`optimizeNode` rewrites a plan from the inputs up.  A filter over a join is split: conjuncts that can be evaluated on
the left input alone go below the join, and for an inner join so do those for the right input; the join is then
optimized again.  A filter over a scan becomes an index scan or a predicate of the scan.  A projection over a
sequential scan becomes the projection of the scan; over an index scan, if it asks for the key and nothing else, it
becomes an index-only scan.

Costs are not modelled: the two verdicts that the choice of a join algorithm takes from them are parameters.  The
recursion is bounded by a depth.
-/

namespace MiniDb.Sql

structure Optimizer where
  castTo : Value → TypeId → Value
  tables : ℕ → Option TableEntry
  enableIndexscan : Bool
  enableIndexonlyscan : Bool
  enableHashjoin : Bool
  /-- Is the index lookup join the cheapest? -/
  lookupCheaper : JoinType → Option Expression → PlanNode → PlanNode → Bool
  /-- Is the hash join cheaper than the nested loop? -/
  hashCheaper : JoinType → Option Expression → PlanNode → PlanNode → Bool

def exprContainsSubquery : Expression → Bool
  | .subquery => true
  | .binaryOp .inSubquery _ _ => true
  | .binaryOp .notInSubquery _ _ => true
  | .binaryOp .exists _ _ => true
  | .binaryOp .notExists _ _ => true
  | .binaryOp _ left right => exprContainsSubquery left || exprContainsSubquery right
  | .unaryOp _ child => exprContainsSubquery child
  | .caseWhen cond result rest =>
    exprContainsSubquery cond || exprContainsSubquery result || exprContainsSubquery rest
  | .cast child _ => exprContainsSubquery child
  | _ => false

def combineConjuncts : List Expression → Option Expression
  | [] => none
  | e :: es => some (es.foldl (fun acc c => .binaryOp .and acc c) e)

/-- A predicate added to the one that a scan has. -/
def addPushed (pushed : Option Expression) (predicate : Expression) : Expression :=
  match pushed with
  | none => predicate
  | some p => .binaryOp .and p predicate

def extractJoinKeyIndices (left right : Schema) : Option Expression → Option (ℕ × ℕ)
  | some (.binaryOp (.cmp .eq) (.columnRef t₁ n₁) (.columnRef t₂ n₂)) =>
    match left.getColumnIndex t₁ n₁, right.getColumnIndex t₂ n₂ with
    | some l, some r => some (l, r)
    | _, _ =>
      match left.getColumnIndex t₂ n₂, right.getColumnIndex t₁ n₁ with
      | some l, some r => some (l, r)
      | _, _ => none
  | _ => none

/-- `is_hashable_equi_join`; there are only inner and left joins. -/
def isHashableEquiJoin : Option Expression → Bool
  | some (.binaryOp (.cmp .eq) _ _) => true
  | _ => false

namespace Optimizer

variable (o : Optimizer)

def getIndex (table index : ℕ) : Option IndexEntry :=
  (o.tables table).bind fun t => t.indexes.find? fun entry => entry.indexId == index

/-! ## Joins -/

/-- The table and the index for an index lookup join: the right input is a sequential scan, with an
index on the column of the join. -/
def lookupIndex (onCondition : Option Expression) (left right : PlanNode) : Option (ℕ × ℕ) :=
  match right with
  | .seqScan table schema _ _ =>
    (extractJoinKeyIndices left.outputSchema schema onCondition).bind fun (_, rightKey) =>
      (o.tables table).bind fun t =>
        (hasUsableIndex t rightKey).map fun index => (table, index.indexId)
  | _ => none

section

variable (type : JoinType)

def joinAlgorithm (onCondition : Option Expression) (left right : PlanNode) : JoinAlgorithm :=
  match o.lookupIndex onCondition left right with
  | some (table, index) =>
    if o.lookupCheaper type onCondition left right then .indexLookup table index
    else if o.enableHashjoin && isHashableEquiJoin onCondition &&
        o.hashCheaper type onCondition left right then .hash
    else .nestedLoop
  | none =>
    if o.enableHashjoin && isHashableEquiJoin onCondition &&
        o.hashCheaper type onCondition left right then .hash
    else .nestedLoop

/-- The join case of `optimize_node`, on inputs that are optimized. -/
def optimizeJoin (onCondition : Option Expression) (schema : Schema) (left right : PlanNode) : PlanNode :=
  .join type (o.joinAlgorithm type onCondition left right) onCondition schema left right

/-! ## Filters -/

/-- The end of `optimize_filter`: over a scan, the filter becomes an index scan or a predicate of the
scan, unless it has subqueries.  The index scan takes nothing over from the sequential scan. -/
def optimizeScanFilter (predicate : Expression) (child : PlanNode) : PlanNode :=
  match child with
  | .seqScan table schema projected pushed =>
    let path := if o.enableIndexscan then
      (o.tables table).bind fun t => chooseIndexPath o.castTo t schema predicate true else none
    match path with
    | some path =>
      if path.satisfied then .indexScan table path.index.indexId schema path.range none
      else if exprContainsSubquery predicate then
        .filter predicate (.indexScan table path.index.indexId schema path.range none)
      else .indexScan table path.index.indexId schema path.range (some predicate)
    | none =>
      if exprContainsSubquery predicate then .filter predicate child
      else .seqScan table schema projected (some (addPushed pushed predicate))
  | .indexScan table index schema range pushed =>
    if exprContainsSubquery predicate then .filter predicate child
    else .indexScan table index schema range (some (addPushed pushed predicate))
  | _ => .filter predicate child

def leftConjuncts (left right : Schema) (predicate : Expression) : List Expression :=
  (splitConjuncts predicate).filter fun c => exprCanEvalOn left c && !exprCanEvalOn right c

/-- The conjuncts for the right input; below a left join there are none. -/
def rightConjuncts (left right : Schema) (predicate : Expression) : List Expression :=
  (splitConjuncts predicate).filter fun c =>
    !(exprCanEvalOn left c && !exprCanEvalOn right c) &&
      (type == .inner && exprCanEvalOn right c && !exprCanEvalOn left c)

/-- The conjuncts that stay above the join. -/
def residualConjuncts (left right : Schema) (predicate : Expression) : List Expression :=
  (splitConjuncts predicate).filter fun c =>
    !(exprCanEvalOn left c && !exprCanEvalOn right c) &&
      !(type == .inner && exprCanEvalOn right c && !exprCanEvalOn left c)

end

/-- An input of a join with the conjuncts pushed down to it. -/
def pushDown (opt : PlanNode → PlanNode) (predicate : Option Expression) (input : PlanNode) : PlanNode :=
  match predicate with
  | none => input
  | some e => opt (.filter e input)

/-- `optimize_filter`, with the optimizer for what lies below. -/
def optimizeFilter (opt : PlanNode → PlanNode) (predicate : Expression) (child : PlanNode) : PlanNode :=
  match opt child with
  | .join type algorithm onCondition schema left right =>
    let joined := opt (.join type algorithm onCondition schema
      (pushDown opt (combineConjuncts (leftConjuncts left.outputSchema right.outputSchema predicate)) left)
      (pushDown opt (combineConjuncts (rightConjuncts type left.outputSchema right.outputSchema predicate)) right))
    match combineConjuncts (residualConjuncts type left.outputSchema right.outputSchema predicate) with
    | none => joined
    | some residual => o.optimizeScanFilter residual joined
  | child' => o.optimizeScanFilter predicate child'

/-! ## Projections -/

/-- The columns that a projection of plain columns asks for. -/
def plainColumns (columnIndices : List ℕ) (expressions : List Expression) (schema : Schema) : Option (List ℕ) :=
  if expressions = [] then some columnIndices
  else if columnIndices = [] then
    expressions.mapM fun e =>
      match e with
      | .columnRef table name => schema.getColumnIndex table name
      | _ => none
  else none

/-- Does the projection ask for the key of a single-column index, and nothing else? -/
def projectsIndexKey (table : Option TableEntry) (index : Option IndexEntry)
    (columnIndices : List ℕ) (expressions : List Expression) : Bool :=
  index.any fun entry => entry.valid &&
    match entry.keyColumns, columnIndices, expressions with
    | [key], [c], [] => key == c
    | [key], [], [.columnRef t n] => table.any fun t' => t'.schema.getColumnIndex t n == some key
    | _, _, _ => false

/-- The projection case of `optimize_node`, on a child that is optimized. -/
def optimizeProject (columnIndices : List ℕ) (expressions : List Expression) (schema : Schema)
    (child : PlanNode) : PlanNode :=
  match child with
  | .seqScan table scanSchema projected (some predicate) =>
    .project columnIndices expressions schema
      (.filter predicate (.seqScan table scanSchema projected none))
  | .seqScan table scanSchema projected none =>
    match plainColumns columnIndices expressions scanSchema with
    | some columns =>
      if columns.length = schema.length ∧ 0 < schema.length then .seqScan table schema columns none
      else .project columnIndices expressions schema (.seqScan table scanSchema projected none)
    | none => .project columnIndices expressions schema (.seqScan table scanSchema projected none)
  | .indexScan table index scanSchema range pushed =>
    if o.enableIndexonlyscan &&
        projectsIndexKey (o.tables table) (o.getIndex table index) columnIndices expressions then
      .indexOnlyScan table index schema range
    else .project columnIndices expressions schema (.indexScan table index scanSchema range pushed)
  | _ => .project columnIndices expressions schema child

def optimizeNode : ℕ → PlanNode → PlanNode
  | 0, plan => plan
  | depth + 1, .filter predicate child => o.optimizeFilter (optimizeNode depth) predicate child
  | depth + 1, .project columnIndices expressions schema child =>
    o.optimizeProject columnIndices expressions schema (optimizeNode depth child)
  | depth + 1, .join type _ onCondition schema left right =>
    o.optimizeJoin type onCondition schema (optimizeNode depth left) (optimizeNode depth right)
  | _ + 1, plan => plan

end Optimizer

end MiniDb.Sql
