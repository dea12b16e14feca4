import MiniDb.Sql.Expression

/-!
# Index path selection

For a predicate over one table, `chooseIndexPath` looks for conjuncts that compare a column with a literal, and turns
them into a range of keys of an index: equalities on a prefix of the columns of a composite index; an equality; a lower
and an upper bound next to each other; one bound, with the smallest or largest value of the type at the other end.  If
the range stands for the whole predicate, the predicate is dropped; otherwise all of it is kept.
-/

namespace MiniDb.Sql

open List Option Expression

structure IndexEntry where
  indexId : ℕ
  keyColumns : List ℕ
  valid : Bool
  deriving DecidableEq, Repr

/-- `index_key_from_tuple`. -/
def IndexEntry.keyOf (index : IndexEntry) (row : Row) : IndexKey := index.keyColumns.map row.getValue

structure TableEntry where
  schema : Schema
  indexes : List IndexEntry
  deriving Repr

structure KeyRange where
  searchKey : IndexKey
  isRange : Bool
  rangeHigh : IndexKey
  deriving DecidableEq, Repr

namespace KeyRange

def high (r : KeyRange) : IndexKey := if r.isRange then r.rangeHigh else r.searchKey

/-- The test of `range_scan_batch` on a stored key: a search key with fewer columns than the index is a
prefix, otherwise the key has to lie between the two ends. -/
def contains (r : KeyRange) (key : IndexKey) : Bool :=
  if r.searchKey.compare r.high == .eq && 0 < r.searchKey.length &&
      r.searchKey.length < key.length then
    (key.slotStartsWith r.searchKey).getD (key.startsWith r.searchKey)
  else key.slotCompare r.high != .gt && key.slotCompare r.searchKey != .lt

end KeyRange

/-! ## The conjuncts that an index can serve -/

section

variable (castTo : Value → TypeId → Value) (schema : Schema)

/-- `cast_literal_for_column`: only dates are cast. -/
def castLiteralForColumn (v : Value) (target : TypeId) : Option Value :=
  if v.isNull || v.typeId = target then some v
  else if !target.isDatetime then some v
  else if (castTo v target).isNull then none
  else some (castTo v target)

/-- The column and the literal of a comparison of the two. -/
def columnAndKey (table name : String) (lit : Value) : Option (ℕ × Value) :=
  (schema.getColumnIndex table name).bind fun idx =>
    (schema[idx]?).bind fun col =>
      (castLiteralForColumn castTo lit col.type).map fun key => (idx, key)

def extractIndexEqPredicate : Expression → Option (ℕ × Value)
  | .binaryOp (.cmp .eq) (.columnRef table name) (.literal lit) =>
    columnAndKey castTo schema table name lit
  | .binaryOp (.cmp .eq) (.literal lit) (.columnRef table name) =>
    columnAndKey castTo schema table name lit
  | _ => none

/-- An equality found in a predicate. -/
structure EqMatch where
  column : ℕ
  key : Value
  coversWholeExpr : Bool

def findIndexEqPredicate : Expression → Option EqMatch
  | .binaryOp .and left right =>
    ((findIndexEqPredicate left).or (findIndexEqPredicate right)).map fun m =>
      { m with coversWholeExpr := false }
  | e => (extractIndexEqPredicate castTo schema e).map fun (c, key) => ⟨c, key, true⟩

/-- `collect_eq_literals`, in the order of the conjuncts. -/
def collectEqLiterals : Expression → List EqMatch
  | .binaryOp .and left right => collectEqLiterals left ++ collectEqLiterals right
  | e => ((extractIndexEqPredicate castTo schema e).map fun (c, key) => ⟨c, key, true⟩).toList

/-- The equalities for the first columns of an index; of two on one column the later counts. -/
def prefixMatches (eqs : List EqMatch) : List ℕ → List EqMatch
  | [] => []
  | c :: cs =>
    match eqs.reverse.find? fun m => m.column == c with
    | none => []
    | some m => m :: prefixMatches eqs cs

def buildCompositePrefixKey (predicate : Expression) (index : IndexEntry) : Option (List EqMatch) :=
  if index.keyColumns.length ≤ 1 then none
  else
    match prefixMatches (collectEqLiterals castTo schema predicate) index.keyColumns with
    | [] => none
    | m :: ms => some (m :: ms)

structure Bound where
  column : ℕ
  key : Value
  isLower : Bool
  inclusive : Bool

/-- The bound that `column op key` is. -/
def Bound.ofOp (column : ℕ) (key : Value) : CmpOp → Option Bound
  | .ge => some ⟨column, key, true, true⟩
  | .gt => some ⟨column, key, true, false⟩
  | .le => some ⟨column, key, false, true⟩
  | .lt => some ⟨column, key, false, false⟩
  | _ => none

def extractIndexBoundPredicate : Expression → Option Bound
  | .binaryOp (.cmp op) (.columnRef table name) (.literal lit) =>
    (columnAndKey castTo schema table name lit).bind fun (c, key) => Bound.ofOp c key op
  | .binaryOp (.cmp op) (.literal lit) (.columnRef table name) =>
    (columnAndKey castTo schema table name lit).bind fun (c, key) => Bound.ofOp c key op.swap
  | _ => none

structure RangeMatch where
  column : ℕ
  low : Value
  high : Value
  coversWholeExpr : Bool

/-- A lower and an upper bound on one column. -/
def pairBounds (left right : Expression) : Option RangeMatch :=
  (extractIndexBoundPredicate castTo schema left).bind fun l =>
    (extractIndexBoundPredicate castTo schema right).bind fun r =>
      if l.column = r.column ∧ l.isLower ≠ r.isLower then
        some ⟨l.column, if l.isLower then l.key else r.key, if l.isLower then r.key else l.key,
          l.inclusive && r.inclusive⟩
      else none

def extractIndexRangePredicate : Expression → Option RangeMatch
  | .binaryOp .and left right =>
    (pairBounds castTo schema left right).or
      (((extractIndexRangePredicate left).or (extractIndexRangePredicate right)).map fun m =>
        { m with coversWholeExpr := false })
  | _ => none

end

def minKeyForType : TypeId → Value
  | .int32 => .int32 (-2147483648)
  | .int64 => .int64 (-9223372036854775808)
  | .timestamp => .timestamp (-9223372036854775808)
  | .datetime => .datetime (-9223372036854775808)
  | .float => .float (.rat (-(16777215 * 2 ^ 104)))
  | .double => .double (.rat (-(9007199254740991 * 2 ^ 971)))
  | .bool => .bool false
  | .varchar => .varchar []
  | .null => .null

def maxKeyForType : TypeId → Value
  | .int32 => .int32 2147483647
  | .int64 => .int64 9223372036854775807
  | .timestamp => .timestamp 9223372036854775807
  | .datetime => .datetime 9223372036854775807
  | .float => .float (.rat (16777215 * 2 ^ 104))
  | .double => .double (.rat (9007199254740991 * 2 ^ 971))
  | .bool => .bool true
  | .varchar => .varchar [255, 255, 255, 255]
  | .null => .null

/-- The range of keys chosen, and whether the predicate is dropped. -/
structure IndexPath where
  index : IndexEntry
  range : KeyRange
  satisfied : Bool

section

variable (castTo : Value → TypeId → Value) (table : TableEntry) (schema : Schema)

/-- `has_usable_index`; keys of every type are supported. -/
def hasUsableIndex (column : ℕ) : Option IndexEntry :=
  if column < table.schema.length then
    table.indexes.find? fun index => index.valid && index.keyColumns == [column]
  else none

section

variable (predicate : Expression)

/-- The first composite index with equalities for its first columns. -/
def compositePath : Option IndexPath :=
  table.indexes.findSome? fun index =>
    if index.valid then
      (buildCompositePrefixKey castTo schema predicate index).map fun ms =>
        ⟨index, ⟨ms.map EqMatch.key, false, []⟩, false⟩
    else none

/-- A single bound, with the other end from the type of the column. -/
def boundMatch : Option RangeMatch :=
  (extractIndexBoundPredicate castTo schema predicate).bind fun b =>
    (table.schema[b.column]?).map fun col =>
      ⟨b.column, if b.isLower then b.key else minKeyForType col.type,
        if b.isLower then maxKeyForType col.type else b.key, b.inclusive⟩

/-- The range on a single column: an equality, two bounds or one.  The flag says whether it is a range
and not one key. -/
def columnMatch : Option (RangeMatch × Bool) :=
  match findIndexEqPredicate castTo schema predicate with
  | some m => some (⟨m.column, m.key, .null, m.coversWholeExpr⟩, false)
  | none =>
    ((extractIndexRangePredicate castTo schema predicate).or
      (boundMatch castTo table schema predicate)).map fun m => (m, true)

end

/-- What `choose_index_path` does at one predicate, if there is an index for it. -/
def columnPath (wholePredicate : Bool) (m : RangeMatch) (isRange : Bool) : Option IndexPath :=
  (hasUsableIndex table m.column).map fun index =>
    ⟨index, ⟨[m.low], isRange, [m.high]⟩, wholePredicate && m.coversWholeExpr⟩

def chooseIndexPath : Expression → Bool → Option IndexPath
  | .binaryOp .and left right, wholePredicate =>
    (compositePath castTo table schema (.binaryOp .and left right)).or <|
      (columnMatch castTo table schema (.binaryOp .and left right)).bind fun (m, isRange) =>
        (columnPath table wholePredicate m isRange).or
          ((chooseIndexPath left false).or (chooseIndexPath right false))
  | predicate, wholePredicate =>
    (compositePath castTo table schema predicate).or <|
      (columnMatch castTo table schema predicate).bind fun (m, isRange) =>
        columnPath table wholePredicate m isRange

end

end MiniDb.Sql
