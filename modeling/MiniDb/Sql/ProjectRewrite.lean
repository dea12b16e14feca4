import MiniDb.Sql.Optimizer
import MiniDb.Database.EngineInv

/-!
# Projections over index scans

A projection of the key over an index scan becomes an index-only scan.  The predicate that the index scan
has is not taken over.  `rows_optimizeProject_perm_iff` says when the rows are still the same: every entry
of the range that the index-only scan emits has to lead to a row that the reader sees and that passes the
predicate.
-/

namespace MiniDb.Sql

open List Option Engine

section

variable {fns : ScalarFns} {tm : TransactionManager} {txn : Transaction} {h : HeapFile Row}
  {ix : TableIndex Row IndexKey}

/-- The entry leads to a row that passes the predicate. -/
def leadsToPassing (fns : ScalarFns) (tm : TransactionManager) (txn : Transaction) (h : HeapFile Row)
    (ix : TableIndex Row IndexKey) (schema : Schema) (pushed : Option Expression)
    (entry : IndexKey × RecordId) : Bool :=
  (ix.probe tm (some txn) h (fun _ => true) entry).any fun hit => passesPushed fns schema pushed hit.2

lemma leadsToPassing_iff {schema : Schema} {pushed : Option Expression} {entry : IndexKey × RecordId} :
    leadsToPassing fns tm txn h ix schema pushed entry = true ↔
      ∃ rid t, LeadsTo ix tm txn h entry rid ∧ h.tupleAt rid = some t ∧
        passesPushed fns schema pushed t.row = true := by
  rw [leadsToPassing, Option.any_eq_true]
  constructor
  · rintro ⟨hit, hp, hpass⟩
    obtain ⟨t, ht, hrow, -⟩ := probe_spec hp
    exact ⟨hit.1, t, probe_eq_some_iff.1 ⟨hit.2, hp⟩, ht, hrow ▸ hpass⟩
  · rintro ⟨rid, t, hlead, ht, hpass⟩
    obtain ⟨row, hp⟩ := probe_eq_some_iff.2 hlead
    obtain ⟨t', ht', hrow, -⟩ := probe_spec hp
    cases ht.symm.trans ht'
    exact ⟨_, hp, hrow ▸ hpass⟩

/-- The projected rows of an index scan, by the entries handed over. -/
lemma map_filter_indexScanRows (schema : Schema) (pushed : Option Expression)
    (listing : List (IndexKey × RecordId)) {f : Row → Row} {g : IndexKey → Row} (hfg : ∀ row, f row = g (ix.key row)) :
    ((((indexScanRows ix tm (some txn) h listing).map Prod.snd).filter (passesPushed fns schema pushed)).map f) =
      ((handed listing).filter (leadsToPassing fns tm txn h ix schema pushed)).map fun entry => g entry.1 := by
  rw [indexScanRows, TableIndex.scan]
  induction handed listing with
  | nil => rfl
  | cons entry rest ih =>
    cases hp : ix.probe tm (some txn) h (fun _ => true) entry with
    | none => simp [hp, leadsToPassing, ih]
    | some hit =>
      obtain ⟨t, -, hrow, -, hk⟩ := probe_spec hp
      rw [filterMap_cons_some hp, map_cons]
      by_cases hpass : passesPushed fns schema pushed hit.2 = true
      · rw [filter_cons_of_pos hpass, map_cons, ih, filter_cons_of_pos
          (by simp [leadsToPassing, hp, hpass]), map_cons, hfg, ← hrow, hk]
      · rw [filter_cons_of_neg hpass, ih, filter_cons_of_neg (by simp [leadsToPassing, hp, hpass])]

/-- A projection that asks for the key gives the key. -/
lemma project_eq_of_projectsIndexKey {table : TableEntry} {entry : IndexEntry}
    {columnIndices : List ℕ} {expressions : List Expression} {schema : Schema}
    (hproj : Optimizer.projectsIndexKey (some table) (some entry) columnIndices expressions = true)
    (hschema : ∀ t n, .columnRef t n ∈ expressions →
      schema.getColumnIndex t n = table.schema.getColumnIndex t n) (row : Row) :
    columnIndices.map row.getValue ++ expressions.map (fun e => evaluate fns schema row e) =
      [(entry.keyOf row).headD .null] := by
  rw [Optimizer.projectsIndexKey, any_some, Bool.and_eq_true] at hproj
  obtain ⟨-, hproj⟩ := hproj
  split at hproj
  · next key c hkey =>
    rw [beq_iff_eq] at hproj
    subst hproj
    simp [IndexEntry.keyOf, hkey]
  · next key t n hkey =>
    rw [any_some, beq_iff_eq] at hproj
    have hidx := (hschema t n (mem_singleton_self _)).trans hproj
    simp [IndexEntry.keyOf, hkey, evaluate, columnValue, hidx]
  · cases hproj

end

/-- **When the rewrite of a projection over an index scan keeps the rows**: if it becomes an index-only
scan, every entry that this emits (its page is all-visible, or it leads to a version that the reader
sees) leads to a version that the reader sees and that passes the predicate of the index scan. -/
theorem rows_optimizeProject_perm_iff (fns : ScalarFns) (o : Optimizer) (tm : TransactionManager)
    (txn : Transaction) (h : HeapFile Row) (ix : TableIndex Row IndexKey)
    (listing : ∀ range : KeyRange, RangeListing ix range.contains) {table index : ℕ}
    {tableEntry : TableEntry} {entry : IndexEntry} (htable : o.tables table = some tableEntry)
    (hindex : o.getIndex table index = some entry) (hkey : ix.key = entry.keyOf)
    (columnIndices : List ℕ) (expressions : List Expression) (schema scanSchema : Schema)
    (hschema : ∀ t n, .columnRef t n ∈ expressions →
      scanSchema.getColumnIndex t n = tableEntry.schema.getColumnIndex t n)
    (range : KeyRange) (pushed : Option Expression) (depth : ℕ) :
    ((o.optimizeNode (depth + 1) (.project columnIndices expressions schema
        (.indexScan table index scanSchema range pushed))).rows fns
          (.ofHeap tm txn h ix listing)).Perm
      ((PlanNode.project columnIndices expressions schema (.indexScan table index scanSchema range pushed)).rows fns
          (.ofHeap tm txn h ix listing)) ↔
      (o.enableIndexonlyscan = true →
        Optimizer.projectsIndexKey (some tableEntry) (some entry) columnIndices expressions = true →
          ∀ e ∈ handed (listing range).entries,
            (h.vm e.2.pageId).visible = true ∨ (∃ rid, LeadsTo ix tm txn h e rid) →
              ∃ rid t, LeadsTo ix tm txn h e rid ∧ h.tupleAt rid = some t ∧
                passesPushed fns scanSchema pushed t.row = true) := by
  have hchild : o.optimizeNode depth (.indexScan table index scanSchema range pushed) =
      .indexScan table index scanSchema range pushed := by cases depth <;> rfl
  rw [Optimizer.optimizeNode, hchild, Optimizer.optimizeProject, htable, hindex]
  by_cases hboth : (o.enableIndexonlyscan && Optimizer.projectsIndexKey (some tableEntry)
      (some entry) columnIndices expressions) = true
  · rw [if_pos hboth]
    obtain ⟨henable, hproj⟩ := Bool.and_eq_true_iff.1 hboth
    have hproject : ∀ row : Row, columnIndices.map row.getValue ++
        expressions.map (fun e => evaluate fns scanSchema row e) = [(ix.key row).headD .null] := by
      intro row
      rw [hkey]
      exact project_eq_of_projectsIndexKey hproj hschema row
    -- both plans emit keys of entries handed over, one under a weaker test than the other
    have horiginal : (PlanNode.project columnIndices expressions schema
        (.indexScan table index scanSchema range pushed)).rows fns (.ofHeap tm txn h ix listing) =
        ((handed (listing range).entries).filter
          (leadsToPassing fns tm txn h ix scanSchema pushed)).map fun e => [e.1.headD .null] :=
      map_filter_indexScanRows (f := fun row => columnIndices.map row.getValue ++
          expressions.map fun e => evaluate fns scanSchema row e)
        (g := fun key => [key.headD .null]) scanSchema pushed (listing range).entries hproject
    have honly : (PlanNode.indexOnlyScan table index schema range).rows fns
        (.ofHeap tm txn h ix listing) =
        ((handed (listing range).entries).filter fun e => (h.vm e.2.pageId).visible ||
          (ix.probe tm (some txn) h (fun _ => true) e).isSome).map fun e => [e.1.headD .null] := by
      change ((indexOnlyScan ix tm (some txn) h (listing range).entries).map
        fun key => key.headD .null).map (fun v => [v]) = _
      rw [indexOnlyScan_eq, List.map_map, List.map_map]
      rfl
    have hweak : ∀ e, leadsToPassing fns tm txn h ix scanSchema pushed e = true →
        ((h.vm e.2.pageId).visible || (ix.probe tm (some txn) h (fun _ => true) e).isSome) = true := by
      intro e he
      obtain ⟨hit, hp, -⟩ := (any_eq_true _ _).1 he
      rw [hp, isSome_some, Bool.or_true]
    rw [horiginal, honly, map_filter_perm_iff hweak]
    simp only [henable, hproj, true_implies, Bool.or_eq_true, probe_isSome_iff, leadsToPassing_iff]
  · rw [if_neg hboth]
    refine iff_of_true (List.Perm.refl _) fun henable hproj => ?_
    exact absurd (Bool.and_eq_true_iff.2 ⟨henable, hproj⟩) hboth

/-- `t (a INT, b INT)` with an index on `a`. -/
def abTable : TableEntry :=
  ⟨[⟨"a", "t", .int32, false⟩, ⟨"b", "t", .int32, false⟩], [⟨1, [0], true⟩]⟩

def abOptimizer : Optimizer where
  castTo _ _ := .null
  tables t := if t = 1 then some abTable else none
  enableIndexscan := true
  enableIndexonlyscan := true
  enableHashjoin := true
  lookupCheaper _ _ _ _ := true
  hashCheaper _ _ _ _ := true

/-- `a = 1 AND b = 2`. -/
def abPredicate : Expression :=
  .binaryOp .and (.binaryOp (.cmp .eq) (.columnRef "" "a") (.literal (.int32 1)))
    (.binaryOp (.cmp .eq) (.columnRef "" "b") (.literal (.int32 2)))

/-- The plan of `SELECT a FROM t WHERE a = 1 AND b = 2`. -/
def abPlan : PlanNode :=
  .project [] [.columnRef "" "a"] [⟨"a", "t", .int32, false⟩]
    (.indexScan 1 1 abTable.schema (.single (.int32 1)) (some abPredicate))

/-- Transaction 1 inserts the row (1, 2). -/
def insertMatching : List (Action Row) :=
  [.txn .begin] ++ insertStmt 1 [.int32 1, .int32 2] 40 1

def matchingIndex : TableIndex Row IndexKey := ⟨IndexEntry.keyOf ⟨1, [0], true⟩, [([.int32 1], ⟨1, 0⟩)]⟩

/-- The row passes the filter, so both plans return it. -/
theorem rows_kept_when_all_pass :
    ∃ e txn, runs Engine.step (Engine.init (TxnSystem.init 4 1 (some TxnStatusLog.empty))
        [IndexEntry.keyOf ⟨1, [0], true⟩]) insertMatching = some e ∧ e.running 1 = some txn ∧
      ((abOptimizer.optimizeNode 2 abPlan).rows .null
          (.ofHeap e.sys.tm txn e.heap matchingIndex fun range => .inOrder _ range.contains)).Perm
        (abPlan.rows .null (.ofHeap e.sys.tm txn e.heap matchingIndex fun range => .inOrder _ range.contains)) := by
  obtain ⟨e, he, hrun⟩ : ∃ e, runs step (init (TxnSystem.init 4 1 (some
      TxnStatusLog.empty)) [IndexEntry.keyOf ⟨1, [0], true⟩]) insertMatching = some e ∧
      ((e.running 1).map fun txn => (handed (RangeListing.inOrder matchingIndex (KeyRange.single
        (.int32 1)).contains).entries).all (leadsToPassing .null e.sys.tm txn e.heap matchingIndex
        abTable.schema (some abPredicate))) = some true := exists_run (by decide +kernel)
  obtain ⟨txn, htxn, hall⟩ := map_eq_some_iff.1 hrun
  refine ⟨e, txn, he, htxn, ?_⟩
  refine (rows_optimizeProject_perm_iff .null abOptimizer e.sys.tm txn e.heap matchingIndex
    (fun range => .inOrder _ range.contains) (rfl : abOptimizer.tables 1 = some abTable) rfl rfl [] _
    _ _ (fun _ _ _ => rfl) _ _ 1).2 fun _ _ entry hentry _ => ?_
  exact leadsToPassing_iff.1 (all_eq_true.1 hall entry hentry)

/-- Transaction 1 inserts the rows (1, 2) and (1, 3) and commits; transaction 3 begins. -/
def insertTwo : List (Action Row) :=
  [.txn .begin] ++ insertStmt 1 [.int32 1, .int32 2] 40 1 ++
    insertStmt 1 [.int32 1, .int32 3] 40 2 ++ commitTxn 1 ++
    [.txn (.finish 1), .txn .begin]

/-- The index-only scan returns a row for the row (1, 3) as well. -/
theorem residual_predicate_lost :
    ∃ e txn ix, runs Engine.step (Engine.init (TxnSystem.init 4 1 (some TxnStatusLog.empty))
        [IndexEntry.keyOf ⟨1, [0], true⟩]) insertTwo = some e ∧ e.running 3 = some txn ∧
      ix ∈ e.table.indexes ∧ ∀ fns : ScalarFns,
        ¬ ((abOptimizer.optimizeNode 2 abPlan).rows fns
            (.ofHeap e.sys.tm txn e.heap ix fun range => .inOrder ix range.contains)).Perm
          (abPlan.rows fns (.ofHeap e.sys.tm txn e.heap ix fun range => .inOrder ix range.contains)) := by
  obtain ⟨e, he, hrun⟩ : ∃ e, runs step (init (TxnSystem.init 4 1 (some
      TxnStatusLog.empty)) [IndexEntry.keyOf ⟨1, [0], true⟩]) insertTwo = some e ∧
      ((e.running 3).bind fun txn => e.table.indexes.head?.map fun ix => ((indexScanRows ix e.sys.tm
        (some txn) e.heap (RangeListing.inOrder ix (KeyRange.single (.int32
        1)).contains).entries).map Prod.snd, (indexOnlyScan ix e.sys.tm (some txn) e.heap
        (RangeListing.inOrder ix (KeyRange.single (.int32 1)).contains).entries).length)) = some
        ([[.int32 1, .int32 2], [.int32 1, .int32 3]], 2) := exists_run (by decide +kernel)
  obtain ⟨txn, htxn, hrun⟩ := bind_eq_some_iff.1 hrun
  obtain ⟨ix, hix, hrun⟩ := map_eq_some_iff.1 hrun
  obtain ⟨hscan, honly⟩ := Prod.mk.inj hrun
  refine ⟨e, txn, ix, he, htxn, mem_of_mem_head? hix, fun fns hperm => ?_⟩
  have hlen := hperm.length_eq
  have hoptimized : ((abOptimizer.optimizeNode 2 abPlan).rows fns
      (.ofHeap e.sys.tm txn e.heap ix fun range => .inOrder ix range.contains)).length = 2 := by
    change (((indexOnlyScan ix e.sys.tm (some txn) e.heap _).map _).map _).length = 2
    rw [length_map, length_map, honly]
  have horiginal : (abPlan.rows fns
      (.ofHeap e.sys.tm txn e.heap ix fun range => .inOrder ix range.contains)).length = 1 := by
    change ((((indexScanRows ix e.sys.tm (some txn) e.heap _).map Prod.snd).filter _).map _).length = 1
    rw [hscan]
    rfl
  rw [hoptimized, horiginal] at hlen
  cases hlen

end MiniDb.Sql
