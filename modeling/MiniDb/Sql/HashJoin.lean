import Mathlib.Data.List.GetD
import MiniDb.Core.Pairing
import MiniDb.Index.SlotKey
import MiniDb.Sql.InSubquery
import MiniDb.Sql.Optimizer

/-!
# Hash joins and nested loops

A nested loop evaluates `=` on the joined row, and a hash join compares its keys by `Value::compare`, which takes
values of two types to be different.  Nothing else tells the two apart: `hashJoin_perm_nestedLoop_iff`.

The argument has three parts.

**Expressions on one side of a join.**  An expression that can be evaluated on the left input has the same value on
the joined row (`evaluate_append`).

**Buckets.**  Equal keys have equal hashes, so what a probe finds in its bucket are all the right rows that match,
and no others (`hashMatching_perm`).

**Partners.**  Rows of one width are told apart in the joined row, so that two joins return the same rows exactly if
they give the same partners to each left row (`flatMap_pair_perm_iff`).
-/

namespace MiniDb.Sql

open List SubqueryTest

/-! ## Expressions on the left input of a join -/

section

variable {fns : ScalarFns} {schema right : Schema} {row r : Row} {e : Expression}

lemma getColumnIndex_append {table name : String} (h : (schema.getColumnIndex table name).isSome = true) :
    Schema.getColumnIndex (schema ++ right) table name = schema.getColumnIndex table name := by
  obtain ⟨idx, hidx⟩ := Option.isSome_iff_exists.1 h
  rw [Schema.getColumnIndex, findIdx?_append]
  rw [Schema.getColumnIndex] at hidx ⊢
  rw [hidx]
  rfl

section

variable (hw : row.length = schema.length)
include hw

lemma columnValue_append {table name : String} (h : (schema.getColumnIndex table name).isSome = true) :
    columnValue (schema ++ right) (row ++ r) table name = columnValue schema row table name := by
  obtain ⟨idx, hidx⟩ := Option.isSome_iff_exists.1 h
  have hlt : idx < row.length := by
    rw [hw]
    exact (findIdx?_eq_some_iff_getElem.1 hidx).1
  rw [columnValue, columnValue, getColumnIndex_append h, hidx, Option.map_some, Option.map_some,
    Row.getValue, Row.getValue, getD_append _ _ _ _ hlt]

lemma evaluate_append (he : exprCanEvalOn schema e = true) :
    evaluate fns (schema ++ right) (row ++ r) e = evaluate fns schema row e := by
  induction e with
  | literal v => rfl
  | columnRef table name => exact columnValue_append hw he
  | binaryOp op left right ihl ihr =>
    obtain ⟨hl, hr⟩ := Bool.and_eq_true_iff.1 he
    rw [evaluate, evaluate, ihl hl, ihr hr]
  | unaryOp op child ih | cast child target ih => rw [evaluate, evaluate, ih he]
  | star => rfl
  | subquery => rfl
  | caseWhen cond result rest ihc ihr ihs =>
    obtain ⟨hcr, hs⟩ := Bool.and_eq_true_iff.1 he
    obtain ⟨hc, hr⟩ := Bool.and_eq_true_iff.1 hcr
    rw [evaluate, evaluate, ihc hc, ihr hr, ihs hs]

end

end

/-! ## Buckets -/

section

variable {fns : ScalarFns} {keyOf : Row → Value}

/-- Keys that match are the same, and so are their buckets. -/
lemma keysMatch_eq_true {x y : Value} : keysMatch x y = true ↔ x.isNull = false ∧ x = y := by
  simp only [keysMatch, Bool.and_eq_true, Bool.not_eq_true', beq_iff_eq, Value.compare_eq_eq_iff]
  constructor
  · rintro ⟨⟨hx, -⟩, heq⟩
    exact ⟨hx, heq⟩
  · rintro ⟨hx, rfl⟩
    exact ⟨⟨hx, hx⟩, rfl⟩

/-- A bucket has the rows with a key of its hash, the last one first. -/
lemma buildBuckets_eq (rows : List Row) (h : ℕ) : buildBuckets fns keyOf rows h =
    (rows.filter fun r => !(keyOf r).isNull && hashValue fns (keyOf r) == h).reverse := by
  induction rows using List.reverseRecOn with
  | nil => rfl
  | append_singleton rows r ih =>
    rw [buildBuckets, foldl_append, filter_append, reverse_append, ← ih]
    simp only [foldl_cons, foldl_nil]
    cases hnull : (keyOf r).isNull with
    | true => simp [hnull, buildBuckets]
    | false =>
      by_cases heq : hashValue fns (keyOf r) = h
      · subst heq
        simp [hnull, buildBuckets]
      · simp [hnull, heq, Function.update_of_ne (Ne.symm heq), buildBuckets]

/-- **A probe finds the rows that match**, with all others of the bucket passed over. -/
lemma hashMatching_perm {leftSchema rightSchema : Schema} {lhs rhs a b : Expression}
    (hkeys : hashKeys leftSchema rightSchema lhs rhs = (a, b)) (rows : List Row) (l : Row) :
    (hashMatching fns leftSchema rightSchema lhs rhs rows l).Perm
      (rows.filter fun r => keysMatch (evaluate fns leftSchema l a) (evaluate fns rightSchema r b)) := by
  simp only [hashMatching, hkeys]
  split
  · next hnull => simp [keysMatch, hnull]
  · rw [buildBuckets_eq, filter_reverse, filter_filter]
    refine (reverse_perm _).trans (Perm.of_eq (filter_congr fun r _ => ?_))
    -- a row that matches has the key of the probe, and with it the hash
    refine Bool.eq_iff_iff.2 ((Bool.and_eq_true_iff).trans (and_iff_left_of_imp fun hmatch => ?_))
    obtain ⟨hnull, heq⟩ := keysMatch_eq_true.1 hmatch
    simp [← heq, hnull]

end

/-! ## Partners -/

/-- What a join puts to the right of a left row: its matches, or NULLs if it is to be kept and has
none. -/
def partners (type : JoinType) (schema : Schema) (matching : Row → List Row) (l : Row) : List Row :=
  match type, matching l with
  | .left, [] => [List.replicate (schema.length - l.length) .null]
  | _, rs => rs

lemma joinRows_eq (type : JoinType) (schema : Schema) (matching : Row → List Row) (left : List Row) :
    joinRows type schema matching left =
      left.flatMap fun l => (partners type schema matching l).map fun r => l ++ r := by
  refine congrArg (fun f => left.flatMap f) (funext fun l => ?_)
  cases type <;> cases hm : matching l <;> simp [partners, hm]

/-- Matches in another order are partners in another order. -/
lemma partners_perm {type : JoinType} {schema : Schema} {matching matching' : Row → List Row} {l : Row}
    (h : (matching l).Perm (matching' l)) :
    (partners type schema matching l).Perm (partners type schema matching' l) := by
  cases type with
  | inner => exact h
  | left =>
    cases hm : matching l with
    | nil =>
      rw [hm] at h
      have hm' := h.nil_eq
      simp [partners, hm, ← hm']
    | cons r rs =>
      cases hm' : matching' l with
      | nil =>
        rw [hm, hm'] at h
        exact absurd h.eq_nil (List.cons_ne_nil r rs)
      | cons r' rs' =>
        simpa [partners, hm, hm'] using h

/-! ## Joins on one equality -/

/-- `a = b`, or `b = a`. -/
def eqCondition (swapped : Bool) (a b : Expression) : Expression :=
  if swapped then .binaryOp (.cmp .eq) b a else .binaryOp (.cmp .eq) a b

def equiJoin (type : JoinType) (algorithm : JoinAlgorithm) (swapped : Bool) (a b : Expression)
    (left right : PlanNode) : PlanNode :=
  .join type algorithm (some (eqCondition swapped a b)) (left.outputSchema ++ right.outputSchema) left right

/-- `a` can be evaluated on the left rows, and `b` is a column that only the right rows have. -/
def JoinsOn (left right : Schema) (a b : Expression) : Prop :=
  exprCanEvalOn left a = true ∧ ∃ table name, b = .columnRef table name ∧
    left.getColumnIndex table name = none ∧ (right.getColumnIndex table name).isSome = true

variable {fns : ScalarFns} {left right : Schema} {a b : Expression} {l r : Row}

lemma keysMatch_iff {x y : Value} (swapped : Bool) : keysMatch x y = true ↔
    predicateTruth (if swapped then equal fns y x else equal fns x y) = some true ∧ x = y := by
  rw [keysMatch_eq_true, and_congr_left_iff]
  rintro rfl
  by_cases hnull : x = .null
  · simp [hnull, Value.isNull, (equal_null .null).1, predicateTruth]
  · simp [hnull, Value.isNull, equal_self hnull, predicateTruth]

section

variable (h : JoinsOn left right a b)
include h

lemma JoinsOn.hashKeys_eq (swapped : Bool) : ∃ lhs rhs, eqCondition swapped a b = .binaryOp (.cmp .eq) lhs rhs ∧
    hashKeys left right lhs rhs = (a, b) := by
  obtain ⟨ha, table, name, rfl, hnone, hsome⟩ := h
  cases swapped
  · exact ⟨_, _, rfl, by simp [hashKeys, ha, exprCanEvalOn, hsome]⟩
  · exact ⟨_, _, rfl, by simp [hashKeys, ha, exprCanEvalOn, hnone, hsome]⟩

lemma JoinsOn.evaluate_eq (hw : l.length = left.length) (swapped : Bool) :
    evaluate fns (left ++ right) (l ++ r) (eqCondition swapped a b) =
      if swapped then equal fns (evaluate fns right r b) (evaluate fns left l a)
      else equal fns (evaluate fns left l a) (evaluate fns right r b) := by
  obtain ⟨ha, table, name, rfl, hnone, hsome⟩ := h
  have hleft : evaluate fns (left ++ right) (l ++ r) a = evaluate fns left l a := evaluate_append hw ha
  have hright : columnValue (left ++ right) (l ++ r) table name = columnValue right r table name := by
    obtain ⟨j, hj⟩ := Option.isSome_iff_exists.1 hsome
    have hindex : Schema.getColumnIndex (left ++ right) table name = some (j + left.length) := by
      rw [Schema.getColumnIndex] at hnone hj ⊢
      rw [findIdx?_append, hnone, hj]
      rfl
    rw [columnValue, columnValue, hindex, hj]
    show (l ++ r).getD (j + left.length) .null = r.getD j .null
    rw [← hw, getD_append_right _ _ _ _ (Nat.le_add_left _ _), Nat.add_sub_cancel]
  cases swapped <;> simp [eqCondition, evaluate, hleft, hright, equal]

end

lemma mem_partners {type : JoinType} {schema : Schema} {matching : Row → List Row} :
    (r ∈ matching l → r ∈ partners type schema matching l) ∧
      (r ∈ partners type schema matching l → r ∈ matching l ∨ ∀ j, r.getValue j = .null) := by
  cases type with
  | inner => exact ⟨id, .inl⟩
  | left =>
    cases hm : matching l with
    | nil => simp +contextual [partners, hm, Row.getValue]
    | cons r' rs => simp +contextual [partners, hm]

/-- **A hash join returns the rows of the nested loop** exactly if values for which `=` is true are the same, with
their types. -/
theorem hashJoin_perm_nestedLoop_iff (fns : ScalarFns) (st : Storage) (type : JoinType) (left right : PlanNode)
    {a b : Expression} (hon : JoinsOn left.outputSchema right.outputSchema a b) (swapped : Bool)
    (hwidth : ∀ l ∈ left.rows fns st, l.length = left.outputSchema.length) :
    ((equiJoin type .hash swapped a b left right).rows fns st).Perm
        ((equiJoin type .nestedLoop swapped a b left right).rows fns st) ↔
      ∀ l ∈ left.rows fns st, ∀ r ∈ right.rows fns st,
        onTrue fns (some (eqCondition swapped a b)) (left.outputSchema ++ right.outputSchema) l r = true →
          evaluate fns left.outputSchema l a = evaluate fns right.outputSchema r b := by
  obtain ⟨lhs, rhs, hcondition, hkeys⟩ := hon.hashKeys_eq swapped
  have hmatch : ∀ l ∈ left.rows fns st, ∀ r,
      keysMatch (evaluate fns left.outputSchema l a) (evaluate fns right.outputSchema r b) = true ↔
        onTrue fns (some (eqCondition swapped a b)) (left.outputSchema ++ right.outputSchema) l r = true ∧
          evaluate fns left.outputSchema l a = evaluate fns right.outputSchema r b := by
    intro l hl r
    rw [onTrue, Option.all_some, beq_iff_eq, hon.evaluate_eq (hwidth l hl), keysMatch_iff swapped]
  rw [equiJoin, equiJoin, hcondition]
  rw [hcondition] at hmatch
  change (joinRows _ _ (hashMatching _ _ _ _ _ _) _).Perm (joinRows _ _ _ _) ↔ _
  rw [joinRows_eq, joinRows_eq, flatMap_pair_perm_iff (pairsApart_append hwidth)]
  refine forall₂_congr fun l hl => ?_
  have hprobe : (partners type (left.outputSchema ++ right.outputSchema)
        (hashMatching fns left.outputSchema right.outputSchema lhs rhs (right.rows fns st)) l).Perm
      (partners type (left.outputSchema ++ right.outputSchema) (fun l => (right.rows fns st).filter fun r =>
        keysMatch (evaluate fns left.outputSchema l a) (evaluate fns right.outputSchema r b)) l) :=
    partners_perm (hashMatching_perm hkeys (right.rows fns st) l)
  rw [hprobe.congr_left]
  constructor
  · intro hperm r hr htrue
    rcases mem_partners.2 (hperm.mem_iff.2 (mem_partners.1 (mem_filter.2 ⟨hr, htrue⟩))) with hfound | hnull
    · exact ((hmatch l hl r).1 (mem_filter.1 hfound).2).2
    · -- a left row without a match was given NULLs, which `=` does not take to be equal
      have hnull : evaluate fns right.outputSchema r b = .null := by
        obtain ⟨-, table, name, rfl, -, hsome⟩ := hon
        obtain ⟨j, hj⟩ := Option.isSome_iff_exists.1 hsome
        simp [evaluate, columnValue, hj, hnull]
      rw [onTrue, Option.all_some, ← hcondition, hon.evaluate_eq (hwidth l hl), hnull, (equal_null _).1,
        (equal_null _).2, ite_self] at htrue
      cases htrue
  · intro h
    refine partners_perm (List.Perm.of_eq (filter_congr fun r hr => Bool.eq_iff_iff.2 ?_))
    rw [hmatch l hl r, and_iff_left_iff_imp]
    exact h r hr

def leftScan : PlanNode := .seqScan 1 [⟨"a", "t1", .int32, false⟩] [] none

def rightScan : PlanNode :=
  .seqScan 2 [⟨"b", "t2", .int32, false⟩, ⟨"c", "t2", .int32, false⟩] [] none

/-- The rows of `SELECT * FROM t1 LEFT JOIN t2 ON t1.a = t2.b`. -/
def leftJoinRows (tables : ℕ → List Row) (algorithm : JoinAlgorithm) : List Row :=
  (equiJoin .left algorithm false (.columnRef "t1" "a") (.columnRef "t2" "b") leftScan rightScan).rows .null
    (.ofTables tables fun _ => (2, ⟨1, [0], true⟩))

/-- Keys that come twice on both sides, a key without a partner, NULLs, and two keys of one bucket. -/
def repeatedKeys (t : ℕ) : List Row :=
  if t = 1 then [[.int32 1], [.int32 1], [.int32 2], [.null], [.int32 8193]]
  else [[.int32 1, .int32 7], [.null, .int32 8], [.int32 8193, .int32 9], [.int32 1, .int32 10]]

/-- All of them are INTs, and the two joins agree. -/
theorem hashJoin_perm_nestedLoop_int :
    (leftJoinRows repeatedKeys .hash).Perm (leftJoinRows repeatedKeys .nestedLoop) :=
  (hashJoin_perm_nestedLoop_iff .null _ .left leftScan rightScan ⟨rfl, "t2", "b", rfl, rfl, rfl⟩ false
    (by decide +kernel)).2 (by decide +kernel)

def mixedTables (t : ℕ) : List Row := if t = 1 then [[.int32 1]] else [[.int64 1, .null]]

/-- An INT 1 in `a` and a BIGINT 1 in `b`. -/
theorem not_hashJoin_perm_nestedLoop_bigint :
    ¬ (leftJoinRows mixedTables .hash).Perm (leftJoinRows mixedTables .nestedLoop) := by
  decide +kernel

end MiniDb.Sql
