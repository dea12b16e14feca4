import Mathlib.Tactic
import MiniDb.Sql.Expression
import MiniDb.Sql.TupleKey

/-!
# IN and NOT IN with a subquery

`SubqueryInExecutor` keeps the values of the subquery by their keys.  The type is part of a key, so that it does
not find the BIGINT 1 among INTs, which the evaluator takes to be equal; and it passes over every NULL, also if
there is nothing to compare it with.  A test becomes such an executor only if it is a whole filter: within a larger
predicate the evaluator takes it to be NULL.

A key is taken as the value it stands for (`inSet_eq_keys`), the subquery as its result.
-/

namespace MiniDb.Sql

open List Value

variable {ρ τ π : Type*} {fns : ScalarFns}

/-- TRUE, FALSE or NULL. -/
def IsTruth (v : Value) : Prop := v = .null ∨ ∃ b, v = .bool b

lemma filter_eq_filter_iff {l : List ρ} {p q : ρ → Bool} : l.filter p = l.filter q ↔ ∀ x ∈ l, p x = q x := by
  refine ⟨fun h x hx => ?_, filter_congr⟩
  have hmem : x ∈ l.filter p ↔ x ∈ l.filter q := by rw [h]
  simpa only [mem_filter, hx, true_and, ← Bool.eq_iff_iff] using hmem

/-! ## One test -/

structure SubqueryTest where
  negate : Bool
  left : Expression
  result : List Value

namespace SubqueryTest

variable (fns) (schema : Schema) (t : SubqueryTest) (row : Row)

/-- `in_set`, with the keys of the subquery. -/
def inSet (keys : List Value) (v : Value) : Bool := if v.isNull then false else keys.contains v

/-- Values other than floating-point numbers are found by their keys. -/
lemma inSet_eq_keys (floatText : Value → List UInt8) (keys : List Value) {v : Value} (hv : v.NotFloat) :
    inSet keys v =
    if v.isNull then false else (keys.map (encodeValueKey floatText)).contains (encodeValueKey floatText v) := by
  have hmem : encodeValueKey floatText v ∈ keys.map (encodeValueKey floatText) ↔ v ∈ keys := by
    refine ⟨fun h => ?_, mem_map_of_mem⟩
    obtain ⟨w, hw, hkey⟩ := mem_map.1 h
    rwa [(encodeValueKey_append_inj hv (congrArg (· ++ []) hkey.symm)).1]
  rw [inSet, Bool.eq_iff_iff.2 (contains_iff_mem.trans (hmem.symm.trans contains_iff_mem.symm))]

/-- The loop of `SubqueryInExecutor::next`: is the row returned? -/
def emits : Bool :=
  let keys := t.result.filter fun v => !v.isNull
  let hasNulls := t.result.any fun v => v.isNull
  let leftVal := evaluate fns schema row t.left
  if leftVal.isNull then false
  else if t.negate then (if hasNulls then false else !inSet keys leftVal)
  else inSet keys leftVal

/-- What the evaluator says of `x = s`. -/
def equal (x s : Value) : Value := binaryValue fns (.cmp .eq) x s

/-- `x IN S` in SQL: TRUE if some value is equal, FALSE if all of them are not, and NULL else. -/
def isIn (x : Value) (S : List Value) : Value :=
  if S.any fun s => equal fns x s = .bool true then .bool true
  else if S.all fun s => equal fns x s = .bool false then .bool false
  else .null

def truth : Value :=
  let found := isIn fns (evaluate fns schema row t.left) t.result
  if t.negate then unaryValue fns .not found else found

/-- A value of the result that is equal to the tested one, or for NOT IN is not known to differ from it, is there
in its type as well; and for NOT IN, NULL is compared with something. -/
def Keyed : Prop :=
  let x := evaluate fns schema row t.left
  if t.negate then
    if x = .null then t.result ≠ []
    else .null ∈ t.result ∨ x ∈ t.result ∨ ∀ s ∈ t.result, equal fns x s = .bool false
  else ∀ s ∈ t.result, equal fns x s = .bool true → x ∈ t.result

variable {fns schema t row}

lemma equal_self {x : Value} (h : x ≠ .null) : equal fns x x = .bool true := by
  have hself : ∀ q : FloatNum, q.ieeeCompare q = .eq := by
    intro q
    cases q <;> simp [FloatNum.ieeeCompare, FloatNum.less]
  cases x <;> first
    | exact absurd rfl h
    | simp [equal, binaryValue, Value.isNull, compareResult, sqlCompareValues, datetimeOperands, Value.typeId,
        TypeId.isDatetime, TypeId.isNumericLike, Value.compare, hself, CmpOp.holds, Value.micros]

lemma equal_null (x : Value) : equal fns .null x = .null ∧ equal fns x .null = .null := by
  simp [equal, binaryValue, isNull]

lemma emits_eq_true : emits fns schema t row = true ↔ evaluate fns schema row t.left ≠ .null ∧
    if t.negate then .null ∉ t.result ∧ evaluate fns schema row t.left ∉ t.result
    else evaluate fns schema row t.left ∈ t.result := by
  simp only [emits, inSet, isNull, beq_iff_eq]
  split_ifs <;> simp_all

lemma truth_eq_true : truth fns schema t row = .bool true ↔
    if t.negate then ∀ s ∈ t.result, equal fns (evaluate fns schema row t.left) s = .bool false
    else ∃ s ∈ t.result, equal fns (evaluate fns schema row t.left) s = .bool true := by
  simp only [truth, isIn, any_eq_true, all_eq_true, decide_eq_true_eq]
  split_ifs with hneg hany hall hany hall
  · obtain ⟨s, hs, heq⟩ := hany
    exact iff_of_false (by simp [unaryValue, isNull, predicateTruth]) fun h => by simp [h s hs] at heq
  · exact iff_of_true rfl hall
  · exact iff_of_false (by simp [unaryValue, isNull]) hall
  · exact iff_of_true rfl hany
  · exact iff_of_false (by simp) hany
  · exact iff_of_false id hany

/-- A row is returned exactly if the test is true of it, where the values are `Keyed`, and only there. -/
lemma emits_iff : (emits fns schema t row = true ↔ truth fns schema t row = .bool true) ↔ t.Keyed fns schema row := by
  rw [emits_eq_true, truth_eq_true, Keyed]
  generalize evaluate fns schema row t.left = x
  by_cases hx : x = .null
  · subst hx
    simp only [equal_null]
    split_ifs <;> simp [eq_nil_iff_forall_not_mem]
  · have hself : equal fns x x = .bool true := equal_self hx
    simp only [hx, ne_eq, not_false_eq_true, true_and, if_false]
    split_ifs
    · have hnull : .null ∈ t.result → ¬ ∀ s ∈ t.result, equal fns x s = .bool false :=
        fun h hall => by simpa [equal_null] using hall _ h
      have hmem : x ∈ t.result → ¬ ∀ s ∈ t.result, equal fns x s = .bool false :=
        fun h hall => by simpa [hself] using hall x h
      tauto
    · exact ⟨fun h s hs heq => h.2 ⟨s, hs, heq⟩, fun h => ⟨fun hx => ⟨x, hx, hself⟩, fun ⟨s, hs, heq⟩ => h s hs heq⟩⟩

/-- **IN and NOT IN**: the rows returned are those for which the test is true, if the values of the result are
`Keyed` for every row, and only then. -/
theorem rows_eq_iff (t : SubqueryTest) (rows : List Row) :
    rows.filter (t.emits fns schema) = rows.filter (fun row => t.truth fns schema row = .bool true) ↔
      ∀ row ∈ rows, t.Keyed fns schema row := by
  rw [filter_eq_filter_iff]
  refine forall₂_congr fun row _ => ?_
  rw [Bool.eq_iff_iff, decide_eq_true_iff, emits_iff]

/-- `WHERE a IN (SELECT b FROM u)`, with an INT 1 in `a` and a BIGINT 1 in `b`. -/
theorem not_rows_eq_bigint :
    [[Value.int32 1]].filter (emits .null [⟨"a", "t", .int32, false⟩] ⟨false, .columnRef "" "a", [.int64 1]⟩) ≠
      [[Value.int32 1]].filter fun row =>
        truth .null [⟨"a", "t", .int32, false⟩] ⟨false, .columnRef "" "a", [.int64 1]⟩ row = .bool true := by
  decide

end SubqueryTest

/-! ## Tests within a predicate -/

/-- A WHERE clause with subquery tests and other predicates. -/
inductive Where (τ π : Type*) where
  | test (t : τ)
  | pred (p : π)
  | and (left right : Where τ π)
  | or (left right : Where τ π)
  | not (child : Where τ π)

namespace Where

/-- The value of the clause, with those of its tests and predicates. -/
def value (fns : ScalarFns) (test : τ → Value) (pred : π → Value) : Where τ π → Value
  | .test t => test t
  | .pred p => pred p
  | .and left right => andValue (left.value fns test pred) (right.value fns test pred)
  | .or left right => orValue (left.value fns test pred) (right.value fns test pred)
  | .not child => unaryValue fns .not (child.value fns test pred)

/-- `expr_contains_subquery`. -/
def containsSubquery : Where τ π → Bool
  | .test _ => true
  | .pred _ => false
  | .and left right | .or left right => left.containsSubquery || right.containsSubquery
  | .not child => child.containsSubquery

def splitConjuncts : Where τ π → List (Where τ π)
  | .and left right => left.splitConjuncts ++ right.splitConjuncts
  | w => [w]

def combineConjuncts : List (Where τ π) → Option (Where τ π)
  | [] => none
  | w :: ws => some (ws.foldl .and w)

/-- The conjuncts that `optimize_filter` moves below a join: those that one input suffices for, which is never one
with a subquery.  Over anything else nothing is moved. -/
def moved (w : Where τ π) : Option (Where τ π → Bool) → List (Where τ π)
  | none => []
  | some movable => w.splitConjuncts.filter fun c => !c.containsSubquery && movable c

/-- What stays in the filter.  The predicate is only taken apart over a join. -/
def residual (w : Where τ π) : Option (Where τ π → Bool) → Option (Where τ π)
  | none => some w
  | some movable => combineConjuncts (w.splitConjuncts.filter fun c => !(!c.containsSubquery && movable c))

section

variable (fns : ScalarFns) (schema : Schema) (pred : π → Row → Value) (w : Where SubqueryTest π)
  (join : Option (Where SubqueryTest π → Bool))

/-- The value that the evaluator gives: every test is NULL. -/
def evaluate (w : Where τ π) (pred : π → Value) : Value := w.value fns (fun _ => .null) pred

def truth (row : Row) : Value := w.value fns (SubqueryTest.truth fns schema · row) (pred · row)

end

variable {w : Where τ π} {test test' : τ → Value} {pred : π → Value} {join : Option (Where τ π → Bool)}

/-- A value that stays, or becomes known. -/
def Refines (a b : Value) : Prop := a = b ∨ a = .null ∧ IsTruth b

section

variable {a a' b b' : Value}

lemma Refines.not (ha : Refines a a') : Refines (unaryValue fns .not a) (unaryValue fns .not a') := by
  rcases ha with rfl | ⟨rfl, rfl | ⟨b, rfl⟩⟩
  · exact .inl rfl
  · exact .inl rfl
  · exact .inr ⟨rfl, .inr ⟨!b, rfl⟩⟩

end

variable {schema : Schema} {row : Row}

end Where

end MiniDb.Sql
