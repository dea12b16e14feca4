import MiniDb.Database.DdlAtomicity

/-!
# DDL and rollbacks

A rollback applies the undo records of the transaction from the last one on.  With no DDL of others since the
transaction began this leads back to the catalog of then (`restores_of_stepOk`).

A dropped table or index gives its name away at once, not when the transaction commits, and `CREATE TABLE` takes no
lock; if another transaction takes the name, `restore_table` writes over it.  As long as nobody touches what an
unfinished transaction has changed, names and entries agree (`consistent_of_stepOk`).
-/

namespace MiniDb

open Catalog DdlSystem

/-- Transactions one after the other: the catalog, its content when the present transaction began, and
the changes of the transaction. -/
structure DdlTxn where
  mem : Catalog
  atBegin : Key → Val
  changes : List DdlChange

variable {l : List (ℕ × DdlChange)} {x : Key → Val} {c : Catalog}

namespace DdlTxn

inductive Action where
  | execute (stmt : DdlStatement)
  | commit
  | rollback

def start (c : Catalog) : DdlTxn := ⟨c, c.content, []⟩

section

variable (s : DdlTxn)

/-- The loop of `rollback` over the undo records. -/
def rolledBack : Catalog := s.changes.foldr (fun change c => c.undoChange change) s.mem

/-- After `commit` and `rollback` the next transaction begins. -/
def step : Action → Option DdlTxn
  | .execute stmt =>
    let (mem, result) := s.mem.execute stmt
    some { s with mem, changes := s.changes ++ (result.map Prod.fst).toList }
  | .commit => some (start s.mem)
  | .rollback => some (start s.rolledBack)

def StepOk : Action → Prop
  | .execute stmt => s.mem.IdsLeft stmt
  | .commit | .rollback => True

instance (s : DdlTxn) : (a : Action) → Decidable (s.StepOk a)
  | .execute stmt => inferInstanceAs (Decidable (s.mem.IdsLeft stmt))
  | .commit | .rollback => isTrue trivial

/-- A rollback leads back to where the transaction began. -/
def Restores : Prop := s.rolledBack.content = s.atBegin

def Inv : Prop := Holds s.atBegin (s.changes.map fun change => (0, change)) s.mem

end

lemma popLast_concat {change : DdlChange} : popLast 0 (l ++ [(0, change)]) = some (change, l) := by
  induction l with
  | nil => rfl
  | cons a l ih => rw [List.cons_append, popLast, ih]

lemma holds_rolledBack {changes : List DdlChange} (h : Holds x (changes.map fun change => (0, change)) c) :
    Holds x [] (changes.foldr (fun change c => c.undoChange change) c) := by
  induction changes using List.reverseRecOn generalizing c with
  | nil => exact h
  | append_singleton changes change ih =>
    rw [List.map_append] at h
    obtain ⟨hmade, hvalid, hundo⟩ := h.pop popLast_concat
    obtain ⟨hrest, _⟩ := hundo _ (h.wellFormed.undoChange_editsTo hmade hvalid)
    rw [List.foldr_append]
    exact ih hrest

variable {s s' : DdlTxn} {a : Action}

lemma Inv.restores (h : s.Inv) : s.Restores := funext (holds_rolledBack h).content

lemma Inv.step (h : s.Inv) (hok : s.StepOk a) (hs : s.step a = some s') : s'.Inv := by
  cases a with
  | execute stmt =>
    have hspec := h.wellFormed.execute_spec hok
    obtain ⟨⟨mem, result⟩, hresult⟩ : ∃ r, s.mem.execute stmt = r := ⟨_, rfl⟩
    simp only [DdlTxn.step, hresult, Option.some.injEq] at hs hspec
    subst hs
    cases result with
    | none =>
      rw [Inv, Option.map_none, Option.toList_none, List.append_nil]
      exact h.of_editsTo_nil hspec
    | some p =>
      obtain ⟨hedits, hfits, hvalid⟩ := hspec
      rw [Inv, Option.map_some, Option.toList_some, List.map_append]
      refine h.concat hedits hfits hvalid fun a ha hne => absurd ?_ hne
      obtain ⟨_, _, rfl⟩ := List.mem_map.1 ha
      rfl
  | commit =>
    cases hs
    exact .nil h.wellFormed
  | rollback =>
    cases hs
    exact .nil (holds_rolledBack h).wellFormed

/-- **Rollback restores the catalog**, from wherever a transaction began, as long as its statements do
not run out of ids. -/
theorem restores_of_stepOk {c : Catalog} (h : c.WellFormed) (actions : List Action)
    (hok : StepsMeet step StepOk (start c) actions) : Always step Restores (start c) actions :=
  always_of_invariant (I := Inv) (fun _ _ _ h hok hs => h.step hok hs) (fun _ h => h.restores) (.nil h) hok

/-- The table is dropped, made again with another column and an index, and altered. -/
theorem restores_table_again :
    Always step Restores (start .empty)
      [.execute (.createTable "t" [plainColumn "a"]), .commit, .execute (.dropTable "t"),
        .execute (.createTable "t" [plainColumn "b"]), .execute (.createIndex "i" "t" ["b"] false .done),
        .execute (.addColumn "t" (plainColumn "c") false), .execute (.renameColumn "t" "b" "a"), .rollback] :=
  restores_of_stepOk wellFormed_empty _ (by decide +kernel)

/-- The counter of the tables is about to wrap. -/
def lastTableId : Catalog := { Catalog.empty with nextTableId := 2 ^ 32 - 1 }

/-- The second table gets the id 0, which the caller takes for a failure: no undo record is made. -/
theorem not_restores_lastTableId :
    lastTableId.WellFormed ∧ ¬ Always step Restores (start lastTableId)
      [.execute (.createTable "t" [plainColumn "a"]), .execute (.createTable "u" [plainColumn "a"])] := by
  refine ⟨⟨wellFormed_empty.tableName, wellFormed_empty.indexName, wellFormed_empty.tableOf,
    fun _ hid => absurd hid (AList.notMem_empty _), wellFormed_empty.indexId, ⟨by decide, by decide⟩, by decide,
    by decide⟩, fun h => ?_⟩
  obtain ⟨s, ⟨hleft, hbegin⟩, hrestores⟩ := h.eval (R := fun s =>
    (s.rolledBack.content (.table 0)).schema = [plainColumn "a"] ∧ (s.atBegin (.table 0)).schema = [])
    (by decide +kernel)
  rw [hrestores, hbegin] at hleft
  cases hleft

end DdlTxn

/-! ## Several transactions -/

/-- Names and entries agree in both directions, and every index is on a table that is there and on
columns of it. -/
structure Catalog.Consistent (c : Catalog) : Prop where
  tableNames : NamesAgree TableEntry.tableName c.nameToTableId c.tableEntries
  indexNames : NamesAgree IndexEntry.indexName c.nameToIndexId c.indexEntries
  indexed : ∀ iid e, c.indexEntries.lookup iid = some e →
    ∃ table, c.tableEntries.lookup e.tableId = some table ∧ ∀ p ∈ e.keyColumns, p < table.schema.length

namespace DdlSystem

lemma HoldsColumns.consistent (h : HoldsColumns x l c) : c.Consistent := by
  refine ⟨h.wellFormed.tableName, h.wellFormed.indexName, fun iid e he => ?_⟩
  obtain ⟨table, htable⟩ := Option.isSome_iff_exists.1 (AList.lookup_isSome.2 (h.wellFormed.tableOf iid e he))
  exact ⟨table, htable, columnsFit_iff.2 h.columns iid e table he htable⟩

/-- **The catalog is consistent** in every state of every run whose statements touch no object of an
unfinished transaction of others. -/
theorem consistent_of_stepOk (reread : Schema → Schema) (actions : List Action)
    (hok : StepsMeet (step reread) (StepOk reread) init actions) :
    Always (step reread) (fun s => s.mem.Consistent) init actions :=
  always_of_invariant (I := Inv) (fun _ _ _ h hok hs => h.step hok hs) (fun _ h => h.mem.consistent) inv_init hok

/-- Two transactions at a time: one drops an index and rolls back, the other makes a table and commits. -/
theorem consistent_two_transactions :
    Always (step id) (fun s => s.mem.Consistent) init
      [.begin, .execute 1 (.createTable "t" [plainColumn "a"]) false, .save 1, .mark 1,
        .execute 1 (.createIndex "i" "t" ["a"] false .done) false, .save 1, .mark 1, .commit 1,
        .begin, .execute 3 (.dropIndex "i") false, .save 3, .mark 3,
        .begin, .execute 4 (.createTable "u" [plainColumn "a"]) false, .save 4, .mark 4, .commit 4,
        .abort 3, .undo 3, .save 3] :=
  consistent_of_stepOk id _ (by decide +kernel)

/-- The name of a table that is dropped is taken before the rollback. -/
def nameTakenRun : List Action :=
  [.begin, .execute 1 (.createTable "t" [plainColumn "a"]) false, .save 1, .mark 1, .commit 1,
    .begin, .execute 3 (.dropTable "t") false, .save 3, .mark 3,
    .begin, .execute 4 (.createTable "t" [plainColumn "a"]) false, .save 4, .mark 4, .commit 4,
    .abort 3, .undo 3]

/-- The table of the other transaction is not found by its name any more. -/
theorem not_consistent_nameTaken : ¬ Always (step id) (fun s => s.mem.Consistent) init nameTakenRun := by
  intro h
  obtain ⟨s, ⟨hentry, hname⟩, hconsistent⟩ := h.eval (R := fun s => s.mem.tableEntries.lookup 11 =
    some ⟨"t", [plainColumn "a"]⟩ ∧ s.mem.nameToTableId.lookup "t" = some 10) (by decide +kernel)
  have hfound := hconsistent.tableNames.lookup_name hentry
  rw [hname] at hfound
  cases hfound

end DdlSystem

end MiniDb
