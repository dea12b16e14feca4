import MiniDb.Sql.Value

/-!
# Expressions and their evaluation

`evaluate` is the recursive evaluator.  A predicate is compiled where that is possible (`compilable`), and
`compiledValue` is what the compiled program computes; where it is not, the two shortcuts of `fastEvaluate` are tried
first.  `passes` puts the three together.  A predicate that does not evaluate to a BOOL is an error of the query; the
validator lets none through, and `passes` takes it as not passing.

A CASE expression is a chain of `caseWhen` with the ELSE part at its end, a missing operand is the literal NULL.
Arithmetic, LIKE, LENGTH and casts enter as parameters.
-/

namespace MiniDb.Sql

structure Column where
  name : String
  tableName : String
  type : TypeId
  isDropped : Bool
  deriving DecidableEq, Repr

abbrev Schema := List Column

/-- Does the column answer to this name?  A reference without a table is one with an empty table. -/
def Column.answersTo (col : Column) (table name : String) : Bool :=
  !col.isDropped && col.name == name &&
    (table == "" || col.tableName == "" || col.tableName == table)

def Schema.getColumnIndex (schema : Schema) (table name : String) : Option ℕ :=
  schema.findIdx? fun col => col.answersTo table name

abbrev Row := List Value

def Row.getValue (row : Row) (c : ℕ) : Value := row.getD c .null

inductive ArithOp where
  | add | sub | mul | div | mod
  deriving DecidableEq, Repr

inductive BinaryOp where
  | cmp (op : CmpOp)
  | and
  | or
  | arith (op : ArithOp)
  | isNull
  | isNotNull
  | like
  | coalesce
  | nullif
  | inSubquery
  | notInSubquery
  | exists
  | notExists
  | other
  deriving DecidableEq, Repr

inductive UnaryOp where
  | neg | not | isNull | isNotNull | length | other
  deriving DecidableEq, Repr

inductive Expression where
  | literal (v : Value)
  | columnRef (table name : String)
  | binaryOp (op : BinaryOp) (left right : Expression)
  | unaryOp (op : UnaryOp) (child : Expression)
  | star
  | subquery
  | caseWhen (cond result rest : Expression)
  | cast (child : Expression) (target : TypeId)
  deriving DecidableEq, Repr

/-- What executors do with values beyond comparing them. -/
structure ScalarFns where
  arith : ArithOp → Value → Value → Value
  neg : Value → Value
  like : Value → Value → Bool
  length : Value → Value
  castTo : Value → TypeId → Value
  /-- the bits of a FLOAT and of a DOUBLE, as a signed integer -/
  floatBits : FloatNum → ℤ
  doubleBits : FloatNum → ℤ

/-- Functions that have no result. -/
def ScalarFns.null : ScalarFns where
  arith _ _ _ := .null
  neg _ := .null
  like _ _ := false
  length _ := .null
  castTo _ _ := .null
  floatBits _ := 0
  doubleBits _ := 0

section

variable (fns : ScalarFns) (schema : Schema) (row : Row)

/-- The value of a column of the row; NULL if there is no such column. -/
def columnValue (table name : String) : Value :=
  ((schema.getColumnIndex table name).map row.getValue).getD .null

/-- AND in three-valued logic; an operand that is not a BOOL makes it NULL. -/
def andValue (left right : Value) : Value :=
  match predicateTruth left, predicateTruth right with
  | some l, some r =>
    if left.isNull || right.isNull then
      if !left.isNull && !l then .bool false
      else if !right.isNull && !r then .bool false
      else .null
    else .bool (l && r)
  | _, _ => .null

/-- OR in three-valued logic. -/
def orValue (left right : Value) : Value :=
  match predicateTruth left, predicateTruth right with
  | some l, some r =>
    if left.isNull || right.isNull then
      if !left.isNull && l then .bool true
      else if !right.isNull && r then .bool true
      else .null
    else .bool (l || r)
  | _, _ => .null

def binaryValue (op : BinaryOp) (left right : Value) : Value :=
  match op with
  | .cmp c => if left.isNull || right.isNull then .null else compareResult fns.castTo c left right
  | .and => andValue left right
  | .or => orValue left right
  | .arith a => if left.isNull || right.isNull then .null else fns.arith a left right
  | .isNull => .bool left.isNull
  | .isNotNull => .bool !left.isNull
  | .like => if left.isNull || right.isNull then .null else .bool (fns.like left right)
  | .coalesce => if !left.isNull then left else right
  | .nullif =>
    if left.isNull || right.isNull then .null
    else if left.compare right = .eq then .null else left
  | _ => .null

def unaryValue (op : UnaryOp) (child : Value) : Value :=
  match op with
  | .neg => if child.isNull then .null else fns.neg child
  | .not => if child.isNull then .null else ((predicateTruth child).map (.bool !·)).getD .null
  | .isNull => .bool child.isNull
  | .isNotNull => .bool !child.isNull
  | .length => if child.typeId = .varchar then fns.length child else .null
  | .other => .null

def evaluate : Expression → Value
  | .literal v => v
  | .columnRef table name => columnValue schema row table name
  | .binaryOp op left right => binaryValue fns op (evaluate left) (evaluate right)
  | .unaryOp op child => unaryValue fns op (evaluate child)
  | .star => .null
  | .subquery => .null
  | .caseWhen cond result rest =>
    match predicateTruth (evaluate cond) with
    | none => .null
    | some true => evaluate result
    | some false => evaluate rest
  | .cast child target =>
    let v := evaluate child
    if v.isNull then .null else fns.castTo v target

/-- `CompiledPredicate::compile` succeeds. -/
def compilable : Expression → Bool
  | .literal _ => true
  | .columnRef table name => (schema.getColumnIndex table name).isSome
  | .binaryOp (.cmp _) left right => compilable left && compilable right
  | .binaryOp .and left right => compilable left && compilable right
  | .binaryOp .or left right => compilable left && compilable right
  | .unaryOp .not child => compilable child
  | .unaryOp .isNull child => compilable child
  | .unaryOp .isNotNull child => compilable child
  | _ => false

/-- The value that the compiled program leaves for a node, or none for an error. -/
def compiledValue : Expression → Option Value
  | .literal v => some v
  | .columnRef table name => some (columnValue schema row table name)
  | .binaryOp (.cmp op) left right => do
    let l ← compiledValue left
    let r ← compiledValue right
    if l.isNull || r.isNull then some .null
    else some (.bool (op.holds (sqlCompareValues fns.castTo l r)))
  | .binaryOp .and left right => do
    let l ← compiledValue left
    let r ← compiledValue right
    let lb ← predicateTruth l
    let rb ← predicateTruth r
    if (!l.isNull && !lb) || (!r.isNull && !rb) then some (.bool false)
    else if l.isNull || r.isNull then some .null
    else some (.bool (lb && rb))
  | .binaryOp .or left right => do
    let l ← compiledValue left
    let r ← compiledValue right
    let lb ← predicateTruth l
    let rb ← predicateTruth r
    if (!l.isNull && lb) || (!r.isNull && rb) then some (.bool true)
    else if l.isNull || r.isNull then some .null
    else some (.bool (lb || rb))
  | .unaryOp .not child => do
    let c ← compiledValue child
    let cb ← predicateTruth c
    some (if c.isNull then .null else .bool !cb)
  | .unaryOp .isNull child => (compiledValue child).map fun c => .bool c.isNull
  | .unaryOp .isNotNull child => (compiledValue child).map fun c => .bool !c.isNull
  | _ => none

/-- The operator with its sides exchanged. -/
def CmpOp.swap : CmpOp → CmpOp
  | .eq => .eq
  | .ne => .ne
  | .lt => .gt
  | .gt => .lt
  | .le => .ge
  | .ge => .le

/-- `ExpressionEvaluator::fast_evaluate`, for a column and a literal, and for a column tested for
NULL. -/
def fastEvaluate : Expression → Option Value
  | .binaryOp op (.columnRef table name) (.literal lit) =>
    (schema.getColumnIndex table name).bind fun idx =>
      if (row.getValue idx).isNull then some .null
      else
        match op with
        | .cmp c => some (compareResult fns.castTo c (row.getValue idx) lit)
        | _ => none
  | .binaryOp op (.literal lit) (.columnRef table name) =>
    (schema.getColumnIndex table name).bind fun idx =>
      if (row.getValue idx).isNull then some .null
      else
        match op with
        | .cmp c => some (compareResult fns.castTo c.swap (row.getValue idx) lit)
        | _ => none
  | .unaryOp .isNull (.columnRef table name) =>
    (schema.getColumnIndex table name).map fun idx => .bool (row.getValue idx).isNull
  | .unaryOp .isNotNull (.columnRef table name) =>
    (schema.getColumnIndex table name).map fun idx => .bool !(row.getValue idx).isNull
  | _ => none

/-- Does the row pass the predicate of a filter or a scan? -/
def passes (e : Expression) : Bool :=
  if compilable schema e then
    ((compiledValue fns schema row e).bind predicateTruth).getD false
  else
    (predicateTruth ((fastEvaluate fns schema row e).getD (evaluate fns schema row e))).getD false

end

/-! ## Conjuncts -/

def splitConjuncts : Expression → List Expression
  | .binaryOp .and left right => splitConjuncts left ++ splitConjuncts right
  | e => [e]

section

variable {fns : ScalarFns} {schema : Schema} {row : Row}

end

end MiniDb.Sql
