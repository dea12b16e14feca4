import MiniDb.Sql.TupleKey

/-!
# Chains of UNION and UNION ALL

The parser reads `A op B op C` as `A op (B op C)`, so that each UNION removes the duplicates of what stands
to its right.  From left to right it would be those of what stands to its left.  The two differ in the rows
before the first UNION and in those after the last one (`chain_perm_iff`).
-/

namespace MiniDb.Sql

open List

variable {α : Type*}

/-! ## The code -/

/-- A SELECT, by its rows, and what is joined to it. -/
inductive SelectStmt (α : Type*) where
  | body (rows : List α)
  | union (rows : List α) (all : Bool) (rhs : SelectStmt α)

/-- `parse_select`, on a SELECT and the operators and SELECTs that follow it. -/
def parseSelect (rows : List α) : List (Bool × List α) → SelectStmt α
  | [] => .body rows
  | (all, next) :: rest => .union rows all (parseSelect next rest)

section

variable [DecidableEq α]

/-- A row is put into the buffer of `UnionExecutor` if its key has not been seen. -/
def keepUnseen (buffer : List α) (row : α) : List α := if row ∈ buffer then buffer else buffer ++ [row]

/-- Rows without floating-point numbers are the same if their keys are. -/
lemma keepUnseen_eq_keys (floatText : Value → List UInt8) (buffer : List (List Value)) {row : List Value}
    (h : ∀ v ∈ row, v.NotFloat) : keepUnseen buffer row =
      if makeTupleKey floatText row ∈ buffer.map (makeTupleKey floatText) then buffer else buffer ++ [row] := by
  have hmem : row ∈ buffer ↔ makeTupleKey floatText row ∈ buffer.map (makeTupleKey floatText) := by
    refine ⟨mem_map_of_mem, fun hmem => ?_⟩
    obtain ⟨other, hother, hkey⟩ := mem_map.1 hmem
    rwa [(makeTupleKey_eq_iff floatText h).1 hkey.symm]
  simp only [keepUnseen, hmem]

/-- `UnionExecutor`. -/
def unionRows (all : Bool) (left right : List α) : List α :=
  if all then left ++ right else right.foldl keepUnseen (left.foldl keepUnseen [])

/-- What the plan of a statement emits: `plan_select` puts the plan of `union_rhs` to the right. -/
def SelectStmt.rows : SelectStmt α → List α
  | .body rows => rows
  | .union rows all rhs => unionRows all rows rhs.rows

/-- The operators from left to right. -/
def leftToRight (acc : List α) : List (Bool × List α) → List α
  | [] => acc
  | (true, next) :: rest => leftToRight (acc ++ next) rest
  | (false, next) :: rest => leftToRight (acc ++ next).dedup rest

end

/-! ## Before the first UNION and after the last -/

def hasUnion (ops : List (Bool × List α)) : Bool := ops.any fun op => !op.1

/-- All rows of the SELECTs that follow. -/
def restRows (ops : List (Bool × List α)) : List α := ops.flatMap (·.2)

/-- The rows before the left side of the first UNION. -/
def before (rows : List α) : List (Bool × List α) → List α
  | (true, next) :: rest => rows ++ before next rest
  | _ => []

/-- The rows after the right side of the last UNION. -/
def after : List (Bool × List α) → List α
  | [] => []
  | _ :: rest => if hasUnion rest then after rest else restRows rest

variable {rows acc : List α} {ops : List (Bool × List α)} {x : α}

@[simp] lemma restRows_cons (op : Bool × List α) : restRows (op :: ops) = op.2 ++ restRows ops := rfl

variable [DecidableEq α]

lemma count_eq_min {l l' : List α} (hn : l.Nodup) (hmem : ∀ x, x ∈ l ↔ x ∈ l') :
    count x l = min 1 (count x l') := by
  by_cases hx : x ∈ l
  · have hpos := count_pos_iff.2 ((hmem x).1 hx)
    rw [count_eq_one_of_mem hn hx]
    omega
  · rw [count_eq_zero_of_not_mem hx, count_eq_zero_of_not_mem (mt (hmem x).2 hx)]
    rfl

lemma foldl_keepUnseen (rows : List α) (h : acc.Nodup) :
    (rows.foldl keepUnseen acc).Nodup ∧ ∀ x, x ∈ rows.foldl keepUnseen acc ↔ x ∈ acc ∨ x ∈ rows := by
  induction rows generalizing acc with
  | nil => simpa using h
  | cons r rows ih =>
    rw [foldl_cons, keepUnseen]
    split_ifs with hr
    · refine ⟨(ih h).1, fun x => ?_⟩
      rw [(ih h).2, mem_cons]
      grind
    · have hn : (acc ++ [r]).Nodup := by simpa [nodup_append] using ⟨h, fun a ha heq => hr (heq ▸ ha)⟩
      refine ⟨(ih hn).1, fun x => ?_⟩
      rw [(ih hn).2, mem_append, mem_singleton, mem_cons, or_assoc]

lemma count_unionRows (left right : List α) (x : α) :
    count x (unionRows false left right) = min 1 (count x (left ++ right)) := by
  rw [unionRows, if_neg Bool.false_ne_true, ← foldl_append]
  obtain ⟨hn, hmem⟩ := foldl_keepUnseen (left ++ right) nodup_nil
  exact count_eq_min hn fun x => (hmem x).trans (by simp)

lemma count_rows_pos (rows : List α) (ops : List (Bool × List α)) (x : α) :
    0 < count x (parseSelect rows ops).rows ↔ 0 < count x (rows ++ restRows ops) := by
  induction ops generalizing rows with
  | nil => simp [parseSelect, SelectStmt.rows, restRows]
  | cons op ops ih =>
    obtain ⟨all, next⟩ := op
    have ih := ih next
    rw [parseSelect, SelectStmt.rows]
    simp only [restRows_cons, count_append] at ih ⊢
    cases all with
    | true =>
      rw [unionRows, if_pos rfl, count_append]
      omega
    | false =>
      rw [count_unionRows, count_append]
      omega

/-- Of the rows from the first UNION on the code emits each one once. -/
lemma count_rows_parseSelect (h : hasUnion ops = true) (x : α) : count x (parseSelect rows ops).rows =
    count x (before rows ops) + min 1 (count x (rows ++ restRows ops) - count x (before rows ops)) := by
  induction ops generalizing rows with
  | nil => cases h
  | cons op ops ih =>
    obtain ⟨all, next⟩ := op
    rw [parseSelect, SelectStmt.rows]
    cases all with
    | true =>
      rw [unionRows, if_pos rfl, before, count_append, ih (by simpa [hasUnion] using h)]
      simp only [restRows_cons, count_append]
      omega
    | false =>
      have hpos := count_rows_pos next ops x
      rw [count_unionRows]
      simp only [before, restRows_cons, count_append, count_nil] at hpos ⊢
      omega

lemma leftToRight_of_not_hasUnion (h : hasUnion ops = false) : leftToRight acc ops = acc ++ restRows ops := by
  induction ops generalizing acc with
  | nil => simp [leftToRight, restRows]
  | cons op ops ih =>
    obtain ⟨all, next⟩ := op
    cases all with
    | true => rw [leftToRight, ih (by simpa [hasUnion] using h), restRows_cons, append_assoc]
    | false => cases h

lemma rows_parseSelect_of_not_hasUnion (h : hasUnion ops = false) :
    (parseSelect rows ops).rows = rows ++ restRows ops := by
  induction ops generalizing rows with
  | nil => simp [parseSelect, SelectStmt.rows, restRows]
  | cons op ops ih =>
    obtain ⟨all, next⟩ := op
    cases all with
    | true => rw [parseSelect, SelectStmt.rows, ih (by simpa [hasUnion] using h)]; rfl
    | false => cases h

lemma count_after_le (ops : List (Bool × List α)) (x : α) : count x (after ops) ≤ count x (restRows ops) := by
  induction ops with
  | nil => exact Nat.zero_le _
  | cons op ops ih =>
    rw [after, restRows_cons, count_append]
    split_ifs <;> omega

lemma count_before_add_after (rows : List α) (h : hasUnion ops = true) (x : α) :
    count x (before rows ops) + count x (after ops) ≤ count x (rows ++ restRows ops) := by
  induction ops generalizing rows with
  | nil => cases h
  | cons op ops ih =>
    obtain ⟨all, next⟩ := op
    cases all with
    | true =>
      have hops : hasUnion ops = true := by simpa [hasUnion] using h
      have ih := ih next hops
      rw [before, after, if_pos hops]
      simp only [restRows_cons, count_append] at ih ⊢
      omega
    | false =>
      have hle := count_after_le ((false, next) :: ops) x
      simp only [before, count_nil, count_append]
      omega

/-- Of the rows up to the last UNION, from left to right, each one is left once. -/
lemma count_leftToRight (h : hasUnion ops = true) (x : α) : count x (leftToRight acc ops) =
    count x (after ops) + min 1 (count x (acc ++ restRows ops) - count x (after ops)) := by
  induction ops generalizing acc with
  | nil => cases h
  | cons op ops ih =>
    obtain ⟨all, next⟩ := op
    have hle := count_after_le ops x
    have hdedup : count x (acc ++ next).dedup = min 1 (count x (acc ++ next)) :=
      count_eq_min (nodup_dedup _) fun _ => mem_dedup
    rw [after]
    cases hops : hasUnion ops with
    | true =>
      cases all with
      | true =>
        rw [leftToRight, ih hops, if_pos rfl, restRows_cons, append_assoc]
      | false =>
        rw [leftToRight, ih hops, if_pos rfl]
        simp only [restRows_cons, count_append] at hdedup ⊢
        omega
    | false =>
      cases all with
      | true => simp_all [hasUnion]
      | false =>
        rw [leftToRight, leftToRight_of_not_hasUnion hops, if_neg Bool.false_ne_true]
        simp only [restRows_cons, count_append] at hdedup ⊢
        omega

/-- **UNION chains**: the rows are those that the operators give from left to right, if there is no UNION, or if
each row occurs as often before the first as after the last, or only once at all; and only then. -/
theorem chain_perm_iff (rows : List α) (ops : List (Bool × List α)) :
    (parseSelect rows ops).rows.Perm (leftToRight rows ops) ↔ hasUnion ops = false ∨
      ∀ x, count x (before rows ops) = count x (after ops) ∨ count x (rows ++ restRows ops) = 1 := by
  cases h : hasUnion ops with
  | false => simp [rows_parseSelect_of_not_hasUnion h, leftToRight_of_not_hasUnion h]
  | true =>
    rw [perm_iff_count]
    simp only [count_rows_parseSelect h, count_leftToRight h, Bool.true_eq_false, false_or]
    refine forall_congr' fun x => ?_
    have hle := count_before_add_after rows h x
    omega

/-- `SELECT 1 UNION SELECT 1 UNION ALL SELECT 1`. -/
theorem not_chain_perm_ones :
    ¬ (parseSelect [1] [(false, [1]), (true, [1])]).rows.Perm (leftToRight [1] [(false, [1]), (true, [1])]) := by
  decide

end MiniDb.Sql
