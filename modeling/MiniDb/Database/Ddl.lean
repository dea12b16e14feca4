import MiniDb.Catalog.Catalog
import MiniDb.Storage.DiskManager

/-!
# DDL statements and the page ids of their objects

The pages of a table or an index are numbered from its id, and the file of a page is chosen by that number alone: 1 is
the catalog, below 1000 is a heap file, and the rest are B+ tree files.  The ids come from two independent counters, so
that after 990 tables the counter of the tables runs into the indexes.  `pagesApart_iff` says that this is all that can
go wrong, with rollbacks, restarts and reloads of the catalog in any order.

A `CREATE INDEX` is two steps, the entry and the end of its build, which may fail.  Undo records are kept per
transaction, newest first, and are undone one at a time.
-/

namespace MiniDb

open List Option Catalog AList

/-- `DdlUndoInfo`, with the kind of the record. -/
inductive DdlUndo where
  | createTable (name : String) (autoIndexIds : List ℕ)
  | dropTable (tableId : ℕ) (name : String) (savedSchema : Schema) (savedIndexes : List (ℕ × Catalog.IndexEntry))
  | createIndex (indexId : ℕ)
  | dropIndex (indexId : ℕ) (entry : Catalog.IndexEntry)

namespace Catalog

/-- The loop body of `undo_create_table`, and `undo_create_index`. -/
def undoIndex (c : Catalog) (indexId : ℕ) : Catalog :=
  match c.indexEntries.lookup indexId with
  | some entry => (c.dropIndex entry.indexName).1
  | none => c

/-- `undo_create_table`, `undo_drop_table`, `undo_create_index` and `undo_drop_index`. -/
def undoDdl (c : Catalog) : DdlUndo → Catalog
  | .createTable name autoIndexIds => ((autoIndexIds.foldl undoIndex c).dropTable name).1
  | .dropTable tableId name schema indexes =>
    indexes.foldl (fun c e => c.restoreIndex e.1 e.2) (c.restoreTable tableId name schema)
  | .createIndex indexId => c.undoIndex indexId
  | .dropIndex indexId entry => c.restoreIndex indexId entry

/-- The calls of `create_index` for the primary and unique columns of a new table. -/
def autoIndexCalls (name : String) (tableId : ℕ) (schema : Schema) : List IndexCall :=
  schema.zipIdx.filterMap fun (col, i) =>
    if col.isPrimary || col.isUnique then
      some ⟨name ++ "_" ++ col.name ++ (if col.isPrimary then "_pkey" else "_key"), tableId, [i], true⟩
    else none

/-- The loop of `Database::create_table` over these calls, with the ids of the indexes made. -/
def createIndexes (c : Catalog) : List IndexCall → Catalog × List ℕ
  | [] => (c, [])
  | call :: calls =>
    let (c, id) := c.createIndex call
    let (c, ids) := c.createIndexes calls
    (c, if id = 0 then ids else id :: ids)

/-- The call that `Database::create_index` makes, if the name is free, the table and the columns are there, and a
B+ tree can hold the columns. -/
def indexCall (c : Catalog) (name tableName : String) (columns : List String) (unique : Bool) :
    Option IndexCall := do
  let (tid, table) ← c.getTable tableName
  if (c.nameToIndexId.lookup name).isSome then none
  else
    let keyCols ← columns.mapM fun col => do
      let pos ← table.schema.getColumnIndex col
      if (table.schema[pos]?).any Column.indexable then some pos else none
    return ⟨name, tid, keyCols, unique⟩

end Catalog

/-- The catalog, its file, and what the running transactions have to undo. -/
structure Ddl where
  catalog : Catalog
  file : Catalog.File
  undo : List (ℕ × DdlUndo)
  building : Option (ℕ × ℕ × String)

namespace Ddl

inductive Action where
  /-- `Database::create_table` -/
  | createTable (txn : ℕ) (name : String) (schema : Schema)
  /-- `Database::drop_table` -/
  | dropTable (txn : ℕ) (name : String)
  /-- `Database::create_index`, to the call of the catalog -/
  | createIndex (txn : ℕ) (name tableName : String) (columns : List String) (unique : Bool)
  /-- the rest of `Database::create_index`: the bulk load succeeds or fails -/
  | finishIndex (loaded : Bool)
  /-- `Database::drop_index` -/
  | dropIndex (txn : ℕ) (name : String)
  /-- one record of a rollback, of the transaction or to a savepoint -/
  | undoLast (txn : ℕ)
  /-- the undo records of a transaction that committed are dropped -/
  | commit (txn : ℕ)
  /-- `save_catalog`, at shutdown and by other statements -/
  | save
  /-- a restart, with the `CREATE TABLE` and `CREATE INDEX` that recovery undoes -/
  | restart (tables : List String) (indexes : List ℕ)

def init : Ddl := ⟨.empty, empty.save, [], none⟩

section

variable (d : Ddl)

def createTable (txn : ℕ) (name : String) (schema : Schema) : Ddl :=
  let (c, tid) := d.catalog.createTable name schema
  if tid = 0 then { d with catalog := c }
  else
    let (c, ids) := c.createIndexes (autoIndexCalls name tid schema)
    { d with catalog := c, file := c.save, undo := (txn, .createTable name ids) :: d.undo }

def dropTable (txn : ℕ) (name : String) : Ddl :=
  match d.catalog.getTable name with
  | none => d
  | some (tid, table) =>
    let c := (d.catalog.dropTable name).1
    { d with
      catalog := c, file := c.save
      undo := (txn, .dropTable tid name table.schema (d.catalog.getIndexes tid)) :: d.undo }

def createIndex (txn : ℕ) (call : IndexCall) : Ddl :=
  let (c, id) := d.catalog.createIndex call
  if id = 0 then { d with catalog := c } else { d with catalog := c, building := some (txn, id, call.name) }

def dropIndex (txn : ℕ) (name : String) : Ddl :=
  match d.catalog.nameToIndexId.lookup name with
  | none => d
  | some id =>
    match d.catalog.indexEntries.lookup id with
    | none => d
    | some entry =>
      let c := (d.catalog.dropIndex name).1
      { d with catalog := c, file := c.save, undo := (txn, .dropIndex id entry) :: d.undo }

def step (reread : Schema → Schema) (d : Ddl) : Action → Option Ddl
  | .createTable txn name schema => some (d.createTable txn name schema)
  | .dropTable txn name => some (d.dropTable txn name)
  | .createIndex txn name tableName columns unique =>
    if d.building.isSome then none
    else match d.catalog.indexCall name tableName columns unique with
      | none => some d
      | some call => some (d.createIndex txn call)
  | .finishIndex loaded => do
      let (txn, id, name) ← d.building
      if loaded then
        return { d with file := d.catalog.save, undo := (txn, .createIndex id) :: d.undo, building := none }
      else return { d with catalog := (d.catalog.dropIndex name).1, building := none }
  | .dropIndex txn name => some (d.dropIndex txn name)
  | .undoLast txn => do
      let (_, info) ← d.undo.find? fun u => u.1 = txn
      let c := d.catalog.undoDdl info
      return { d with catalog := c, file := c.save, undo := d.undo.eraseP fun u => u.1 = txn }
  | .commit txn => some { d with undo := d.undo.filter fun u => u.1 ≠ txn }
  | .save => some { d with file := d.catalog.save }
  | .restart tables indexes => do
      let c ← load reread d.file
      let c := (tables.map fun name => .createTable name []).foldl undoDdl c
      let c := (indexes.map DdlUndo.createIndex).foldl undoDdl c
      return ⟨c, if tables = [] ∧ indexes = [] then d.file else c.save, [], none⟩

/-! ## Pages -/

def HeapPage (pid : ℕ) : Prop :=
  ∃ tid ∈ d.catalog.tableEntries, ∃ n < 2 ^ 32, pid = makePageId tid n

def IndexPage (pid : ℕ) : Prop :=
  ∃ iid ∈ d.catalog.indexEntries, ∃ n < 2 ^ 32, pid = makePageId iid n

/-- The page is in a heap file. -/
def InHeapFile (pid : ℕ) : Prop := ∃ tableId, pageToPath pid = .heap tableId

/-- Pages of different objects are different, and the pages of tables are the ones in heap files. -/
structure PagesApart (d : Ddl) : Prop where
  tables : ∀ t ∈ d.catalog.tableEntries, ∀ t' ∈ d.catalog.tableEntries, t ≠ t' →
    ∀ n < 2 ^ 32, ∀ n' < 2 ^ 32, makePageId t n ≠ makePageId t' n'
  indexes : ∀ pid, d.HeapPage pid → ¬ d.IndexPage pid
  files : ∀ pid, d.HeapPage pid ∨ d.IndexPage pid → (InHeapFile pid ↔ d.HeapPage pid)

/-- A number whose pages are in a heap file. -/
def IsHeapId (id : ℕ) : Prop := id ≠ 1 ∧ id < 1000

instance (id : ℕ) : Decidable (IsHeapId id) := inferInstanceAs (Decidable (_ ∧ _))

/-- The call of `create_index` draws no number of a heap file. -/
def IndexDrawOk (c : Catalog) (call : IndexCall) : Prop :=
  c.canCreateIndex call → ¬ IsHeapId c.nextIndexId

/-- The condition on a statement: an id that it draws is on the right side. -/
def DrawOk : Action → Prop
  | .createTable _ name schema =>
    d.catalog.canCreateTable name schema → IsHeapId d.catalog.nextTableId ∧
      (d.catalog.nextTableId ≠ 0 → StepsMeet (total fun c call => (c.createIndex call).1) IndexDrawOk
        (d.catalog.createTable name schema).1
        (autoIndexCalls name d.catalog.nextTableId schema))
  | .createIndex _ name tableName columns unique =>
    ∀ call ∈ d.catalog.indexCall name tableName columns unique, IndexDrawOk d.catalog call
  | _ => True

end

section

variable {d d' : Ddl} {id n : ℕ}

lemma inHeapFile_makePageId (hid : id < 2 ^ 32) (hn : n < 2 ^ 32) :
    InHeapFile (makePageId id n) ↔ IsHeapId id := by
  rw [InHeapFile, pageToPath, fileIdFromPage_makePageId hid hn, DataFile.ofFileId, IsHeapId]
  split_ifs with hone hlt
  · simp [hone]
  · simp [hone, hlt]
  · simp [hlt]

lemma eq_of_makePageId_eq {id' n' : ℕ} (hn : n < 2 ^ 32) (hn' : n' < 2 ^ 32)
    (h : makePageId id n = makePageId id' n') : id = id' := by
  simp only [makePageId] at h
  omega

def TableIdOk (id : ℕ) : Prop := id < 2 ^ 32 ∧ IsHeapId id

def IndexIdOk (id : ℕ) : Prop := id < 2 ^ 32 ∧ ¬ IsHeapId id

lemma pagesApart_of_idsIn (h : d.catalog.IdsIn TableIdOk IndexIdOk) : d.PagesApart := by
  have hapart : ∀ pid, d.HeapPage pid → ¬ d.IndexPage pid := by
    rintro pid ⟨tid, htid, n, hn, rfl⟩ ⟨iid, hiid, n', hn', heq⟩
    obtain rfl := eq_of_makePageId_eq hn hn' heq
    exact (h.index _ hiid).2 (h.table _ htid).2
  refine ⟨fun t _ t' _ hne n hn n' hn' heq => hne (eq_of_makePageId_eq hn hn' heq), hapart, ?_⟩
  rintro pid (hpage | hpage)
  · refine iff_of_true ?_ hpage
    obtain ⟨tid, htid, n, hn, rfl⟩ := hpage
    exact (inHeapFile_makePageId (h.table _ htid).1 hn).2 (h.table _ htid).2
  · refine iff_of_false ?_ fun hheap => hapart pid hheap hpage
    obtain ⟨iid, hiid, n, hn, rfl⟩ := hpage
    rw [inHeapFile_makePageId (h.index _ hiid).1 hn]
    exact (h.index _ hiid).2

lemma PagesApart.isHeapId (h : d.PagesApart) (hid : id < 2 ^ 32) (hmem : id ∈ d.catalog.tableEntries) :
    IsHeapId id := by
  have hpage : d.HeapPage (makePageId id 0) := ⟨id, hmem, 0, Nat.two_pow_pos 32, rfl⟩
  exact (inHeapFile_makePageId hid (Nat.two_pow_pos 32)).1 ((h.files _ (.inl hpage)).2 hpage)

lemma PagesApart.not_isHeapId (h : d.PagesApart) (hid : id < 2 ^ 32) (hmem : id ∈ d.catalog.indexEntries) :
    ¬ IsHeapId id := by
  intro hheap
  have hpage : d.IndexPage (makePageId id 0) := ⟨id, hmem, 0, Nat.two_pow_pos 32, rfl⟩
  have hfile := (inHeapFile_makePageId hid (Nat.two_pow_pos 32)).2 hheap
  exact h.indexes _ ((h.files _ (.inr hpage)).1 hfile) hpage

end

end Ddl

/-! ## The ids along a run -/

namespace Catalog

section

variable {T I : ℕ → Prop} {c : Catalog}

/-- The ids in an undo record. -/
def UndoIdsIn (T I : ℕ → Prop) : DdlUndo → Prop
  | .createTable _ _ => True
  | .dropTable tableId _ _ indexes => T tableId ∧ ∀ e ∈ indexes, I e.1
  | .createIndex _ => True
  | .dropIndex indexId _ => I indexId

lemma Keeps.undoIndex (h : c.Keeps T I) (indexId : ℕ) : (c.undoIndex indexId).Keeps T I := by
  rw [Catalog.undoIndex]
  cases c.indexEntries.lookup indexId with
  | none => exact h
  | some entry => exact h.dropIndex entry.indexName

lemma Keeps.undoDdl (h : c.Keeps T I) {info : DdlUndo} (hinfo : UndoIdsIn T I info) :
    (c.undoDdl info).Keeps T I := by
  cases info with
  | createTable name ids => exact Keeps.dropTable (List.foldlRecOn _ _ h fun _ hc id _ => hc.undoIndex id) name
  | dropTable tableId name schema indexes =>
    refine List.foldlRecOn _ _ (h.restoreTable hinfo.1 name schema) fun _ hc e he => ?_
    exact hc.restoreIndex (hinfo.2 e he) e.2
  | createIndex indexId => exact h.undoIndex indexId
  | dropIndex indexId entry => exact h.restoreIndex hinfo entry

lemma mem_getIndexes {tableId : ℕ} {e : ℕ × Catalog.IndexEntry} (he : e ∈ c.getIndexes tableId) :
    e.1 ∈ c.indexEntries := by
  obtain ⟨entry, hentry, heq⟩ := mem_filterMap.1 he
  split_ifs at heq
  cases heq
  have hmem : entry.1 ∈ c.indexEntries := mem_map_of_mem hentry
  exact hmem

variable {call : IndexCall} {id : ℕ} {calls : List IndexCall}

lemma mem_createIndex (h : id ∈ c.indexEntries) : id ∈ (c.createIndex call).1.indexEntries := by
  rw [createIndex]
  split_ifs
  · exact (mem_insert _).2 (.inr h)
  · exact h

lemma nextIndexId_mem_createIndex (h : c.canCreateIndex call) :
    c.nextIndexId ∈ (c.createIndex call).1.indexEntries := by
  rw [createIndex, if_pos h]
  exact (mem_insert _).2 (.inl rfl)

lemma mem_createIndexes (h : id ∈ c.indexEntries) : id ∈ (c.createIndexes calls).1.indexEntries := by
  induction calls generalizing c with
  | nil => exact h
  | cons call calls ih => exact ih (mem_createIndex h)

lemma Keeps.createIndexes (h : c.Keeps T I) (hI : StepsMeet (total fun c call => (Catalog.createIndex c call).1)
      (fun c call => c.canCreateIndex call → c.nextIndexId < 2 ^ 32 → I c.nextIndexId) c calls) :
    (c.createIndexes calls).1.Keeps T I := by
  induction calls generalizing c with
  | nil => exact h
  | cons call calls ih => exact ih (h.createIndex fun hcan => hI.1 hcan h.fit.index) (hI.2 _ rfl)

end

end Catalog

namespace Ddl

/-- Every id in the catalog, in its file and in the undo records is on the right side. -/
structure Inv (d : Ddl) : Prop where
  catalog : d.catalog.Keeps TableIdOk IndexIdOk
  file : d.file.Keeps TableIdOk IndexIdOk
  undo : ∀ u ∈ d.undo, Catalog.UndoIdsIn TableIdOk IndexIdOk u.2

section

variable {reread : Schema → Schema} {d d' : Ddl} {a : Action}

lemma inv_init : Inv init :=
  ⟨keeps_empty, keeps_empty.save, fun _ hu => absurd hu not_mem_nil⟩

variable {c : Catalog} {txn : ℕ} {name : String} {schema : Schema} {call : IndexCall}

section

variable (h : d.Inv)
include h

/-- A statement that leaves a good catalog, saves it and adds a good undo record. -/
lemma Inv.record (hc : c.Keeps TableIdOk IndexIdOk) (txn : ℕ) (info : DdlUndo)
    (hinfo : Catalog.UndoIdsIn TableIdOk IndexIdOk info) (building : Option (ℕ × ℕ × String)) :
    Inv ⟨c, c.save, (txn, info) :: d.undo, building⟩ := by
  refine ⟨hc, hc.save, fun u hu => ?_⟩
  rcases mem_cons.1 hu with rfl | hu
  · exact hinfo
  · exact h.undo u hu

lemma Inv.createTable (hok : d.DrawOk (.createTable txn name schema)) :
    (d.createTable txn name schema).Inv := by
  have hc : (d.catalog.createTable name schema).1.Keeps TableIdOk IndexIdOk :=
    h.catalog.createTable fun hcan => ⟨h.catalog.fit.table, (hok hcan).1⟩
  simp only [Ddl.createTable]
  split_ifs with hzero
  · exact ⟨hc, h.file, h.undo⟩
  · refine h.record (hc.createIndexes ?_) txn (.createTable _ _) trivial _
    by_cases hcan : d.catalog.canCreateTable name schema
    · have hid : (d.catalog.createTable name schema).2 = d.catalog.nextTableId := by
        rw [Catalog.createTable, if_pos hcan]
      rw [hid] at hzero ⊢
      exact ((hok hcan).2 hzero).mono fun _ _ hdraw hcan hfit => ⟨hfit, hdraw hcan⟩
    · exact absurd (by rw [Catalog.createTable, if_neg hcan]) hzero

lemma Inv.dropTable (txn : ℕ) (name : String) : (d.dropTable txn name).Inv := by
  rw [Ddl.dropTable]
  rcases hget : d.catalog.getTable name with _ | ⟨tid, table⟩
  · exact h
  · refine h.record (h.catalog.dropTable name) txn (.dropTable tid _ _ _) ⟨?_, fun e he => ?_⟩ _
    · simp only [getTable, bind_eq_bind, bind_eq_some_iff] at hget
      obtain ⟨tid', -, entry, hlookup, heq⟩ := hget
      cases heq
      exact h.catalog.ids.table tid (lookup_isSome.1 (by rw [hlookup]; rfl))
    · exact h.catalog.ids.index e.1 (mem_getIndexes he)

lemma Inv.dropIndex (txn : ℕ) (name : String) : (d.dropIndex txn name).Inv := by
  rw [Ddl.dropIndex]
  cases d.catalog.nameToIndexId.lookup name with
  | none => exact h
  | some id =>
    dsimp only
    cases hlookup : d.catalog.indexEntries.lookup id with
    | none => exact h
    | some entry =>
      refine h.record (h.catalog.dropIndex name) txn (.dropIndex id entry) ?_ _
      exact h.catalog.ids.index id (lookup_isSome.1 (by rw [hlookup]; rfl))

lemma Inv.createIndex (hok : IndexDrawOk d.catalog call) : (d.createIndex txn call).Inv := by
  have hc : (d.catalog.createIndex call).1.Keeps TableIdOk IndexIdOk :=
    h.catalog.createIndex fun hcan => ⟨h.catalog.fit.index, hok hcan⟩
  simp only [Ddl.createIndex]
  split_ifs
  · exact ⟨hc, h.file, h.undo⟩
  · exact ⟨hc, h.file, h.undo⟩

lemma Inv.restart {tables : List String} {indexes : List ℕ}
    (hs : step reread d (.restart tables indexes) = some d') : d'.Inv := by
  simp only [step, bind_eq_bind, bind_eq_some_iff] at hs
  obtain ⟨c, hload, hs⟩ := hs
  cases hs
  have hc : c.Keeps TableIdOk IndexIdOk := .load h.file hload
  have hundone : ∀ infos : List DdlUndo, (∀ info ∈ infos, Catalog.UndoIdsIn TableIdOk IndexIdOk info) →
      ∀ c : Catalog, c.Keeps TableIdOk IndexIdOk →
      (infos.foldl undoDdl c).Keeps TableIdOk IndexIdOk :=
    fun infos hinfos c hc => List.foldlRecOn _ _ hc fun _ hc info hinfo => hc.undoDdl (hinfos info hinfo)
  have htables := hundone (tables.map fun name => .createTable name []) (by simp [Catalog.UndoIdsIn]) c hc
  have hindexes := hundone (indexes.map .createIndex) (by simp [Catalog.UndoIdsIn]) _ htables
  refine ⟨hindexes, ?_, fun _ hu => absurd hu not_mem_nil⟩
  split_ifs
  · exact h.file
  · exact hindexes.save

lemma Inv.step (hok : d.DrawOk a) (hs : Ddl.step reread d a = some d') : d'.Inv := by
  cases a with
  | createTable txn name schema =>
    cases hs
    exact h.createTable hok
  | dropTable txn name =>
    cases hs
    exact h.dropTable txn name
  | createIndex txn name tableName columns unique =>
    simp only [Ddl.step] at hs
    split_ifs at hs
    cases hcall : d.catalog.indexCall name tableName columns unique with
    | none =>
      rw [hcall] at hs
      cases hs
      exact h
    | some call =>
      rw [hcall] at hs
      cases hs
      exact h.createIndex (hok call hcall)
  | finishIndex loaded =>
    simp only [Ddl.step, bind_eq_bind, bind_eq_some_iff] at hs
    obtain ⟨⟨txn, id, name⟩, -, hs⟩ := hs
    cases loaded with
    | true =>
      cases hs
      exact h.record h.catalog txn (.createIndex id) trivial none
    | false =>
      cases hs
      exact ⟨h.catalog.dropIndex name, h.file, h.undo⟩
  | dropIndex txn name =>
    cases hs
    exact h.dropIndex txn name
  | undoLast txn =>
    simp only [Ddl.step, bind_eq_bind, bind_eq_some_iff] at hs
    obtain ⟨⟨txn', info⟩, hfind, hs⟩ := hs
    cases hs
    have hc := h.catalog.undoDdl (h.undo _ (mem_of_find?_eq_some hfind))
    exact ⟨hc, hc.save, fun u hu => h.undo u (mem_of_mem_eraseP hu)⟩
  | commit txn =>
    cases hs
    exact ⟨h.catalog, h.file, fun u hu => h.undo u (mem_of_mem_filter hu)⟩
  | save =>
    cases hs
    exact ⟨h.catalog, h.catalog.save, h.undo⟩
  | restart tables indexes => exact h.restart hs

/-! ## Draws on the wrong side -/

omit h in
lemma tableEntries_createIndexes (c : Catalog) (calls : List IndexCall) :
    (c.createIndexes calls).1.tableEntries = c.tableEntries := by
  induction calls generalizing c with
  | nil => rfl
  | cons call calls ih =>
    rw [Catalog.createIndexes, ih, Catalog.createIndex]
    split_ifs
    · rfl
    · rfl

omit h in
/-- A call that draws on the wrong side leaves its index behind. -/
lemma exists_index_isHeapId (hc : c.CountersFit) {calls : List IndexCall}
    (h : ¬ StepsMeet (total fun c call => (Catalog.createIndex c call).1) IndexDrawOk c calls) :
    ∃ id ∈ (c.createIndexes calls).1.indexEntries, id < 2 ^ 32 ∧ IsHeapId id := by
  induction calls generalizing c with
  | nil => exact absurd trivial h
  | cons call calls ih =>
    by_cases hdraw : IndexDrawOk c call
    · have hkeeps : Catalog.Keeps (fun _ => True) (fun _ => True) c :=
        ⟨⟨fun _ _ => trivial, fun _ _ => trivial⟩, hc⟩
      refine ih (hkeeps.createIndex fun _ => trivial).fit fun hm => h ⟨hdraw, ?_⟩
      intro c' hs
      cases hs
      exact hm
    · simp only [IndexDrawOk, Classical.not_imp, not_not] at hdraw
      have hmem := Catalog.nextIndexId_mem_createIndex hdraw.1
      have hstays : c.nextIndexId ∈ ((c.createIndex call).1.createIndexes calls).1.indexEntries :=
        Catalog.mem_createIndexes hmem
      exact ⟨c.nextIndexId, hstays, hc.index, hdraw.2⟩

omit h in
lemma catalog_createTable (hcan : d.catalog.canCreateTable name schema) :
    (d.createTable txn name schema).catalog = if d.catalog.nextTableId = 0 then (d.catalog.createTable name schema).1
      else ((d.catalog.createTable name schema).1.createIndexes
        (autoIndexCalls name d.catalog.nextTableId schema)).1 := by
  have hid : (d.catalog.createTable name schema).2 = d.catalog.nextTableId := by
    rw [Catalog.createTable, if_pos hcan]
  simp only [Ddl.createTable, hid]
  split_ifs
  · rfl
  · rfl

lemma not_pagesApart_createTable (hbad : ¬ d.DrawOk (.createTable txn name schema)) :
    ¬ (d.createTable txn name schema).PagesApart := by
  intro hapart
  simp only [DrawOk, Classical.not_imp] at hbad
  obtain ⟨hcan, hbad⟩ := hbad
  have hfit : (d.catalog.createTable name schema).1.CountersFit :=
    (Catalog.Keeps.createTable (T := fun _ => True) (I := fun _ => True)
      ⟨⟨fun _ _ => trivial, fun _ _ => trivial⟩, h.catalog.fit⟩ fun _ => trivial).fit
  have hmem : d.catalog.nextTableId ∈ (d.createTable txn name schema).catalog.tableEntries := by
    have hput : d.catalog.nextTableId ∈ (d.catalog.createTable name schema).1.tableEntries := by
      rw [Catalog.createTable, if_pos hcan]
      exact (mem_insert _).2 (.inl rfl)
    rw [catalog_createTable hcan]
    split_ifs
    · exact hput
    · rw [tableEntries_createIndexes]
      exact hput
  refine hbad ⟨hapart.isHeapId h.catalog.fit.table hmem, fun hzero => ?_⟩
  by_contra hm
  obtain ⟨id, hid, hlt, hheap⟩ := exists_index_isHeapId hfit hm
  refine hapart.not_isHeapId hlt ?_ hheap
  rw [catalog_createTable hcan, if_neg hzero]
  exact hid

lemma not_pagesApart_createIndex (hbad : ¬ IndexDrawOk d.catalog call) :
    ¬ (d.createIndex txn call).PagesApart := by
  intro hapart
  simp only [IndexDrawOk, Classical.not_imp, not_not] at hbad
  refine hapart.not_isHeapId h.catalog.fit.index ?_ hbad.2
  have hcatalog : (d.createIndex txn call).catalog = (d.catalog.createIndex call).1 := by
    simp only [Ddl.createIndex]
    split_ifs
    · rfl
    · rfl
  rw [hcatalog]
  exact nextIndexId_mem_createIndex hbad.1

lemma not_pagesApart_of_step (hbad : ¬ d.DrawOk a) (hs : Ddl.step reread d a = some d') : ¬ d'.PagesApart := by
  cases a with
  | createTable txn name schema =>
    cases hs
    exact not_pagesApart_createTable h hbad
  | createIndex txn name tableName columns unique =>
    simp only [DrawOk, not_forall] at hbad
    obtain ⟨call, hcall, hbad⟩ := hbad
    simp only [Ddl.step, mem_def.1 hcall] at hs
    split_ifs at hs
    cases hs
    exact not_pagesApart_createIndex h hbad
  | dropTable txn name | finishIndex loaded | dropIndex txn name | undoLast txn | commit txn | save
  | restart tables indexes => exact absurd trivial hbad

end

end

/-- **When pages are apart.**  In a run from a new database, pages of tables and indexes are apart and in
the right files in every state, if and only if every id that a statement of the run draws is on its
side of the files: below 1000 (and not 1) for a table, from 1000 on (or 1) for an index. -/
theorem pagesApart_iff (reread : Schema → Schema) (actions : List Action) (d : Ddl)
    (hr : runs (step reread) init actions = some d) :
    Always (step reread) PagesApart init actions ↔ StepsMeet (step reread) DrawOk init actions :=
  always_iff_stepsMeet (I := Inv) (fun _ _ _ h hok hs => h.step hok hs)
    (fun _ h => pagesApart_of_idsIn h.catalog.ids) (fun _ _ _ h hbad hs => not_pagesApart_of_step h hbad hs)
    inv_init hr

/-- A table with a primary key is dropped, its transaction rolls back, and the table is back. -/
theorem pagesApart_drop_rollback : Always (step id) PagesApart init
    [.createTable 1 "t" [{ name := "a", isPrimary := true, isUnique := false, textBytes := 0 }],
      .commit 1, .dropTable 3 "t", .undoLast 3] := by
  refine (pagesApart_iff id _ _ (some_get (by decide +kernel)).symm).2 ?_
  have hcreate : DrawOk init (.createTable 1 "t"
      [{ name := "a", isPrimary := true, isUnique := false, textBytes := 0 }]) := by
    refine fun _ => ⟨by decide, fun _ => ?_⟩
    exact ⟨fun _ => by decide, fun _ _ => trivial⟩
  exact ⟨hcreate, fun _ _ => ⟨trivial, fun _ _ => ⟨trivial, fun _ _ => ⟨trivial, fun _ _ => trivial⟩⟩⟩⟩

def exampleSchema : Schema := [{ name := "a", isPrimary := false, isUnique := false, textBytes := 0 }]

/-- A table is created and dropped, some times. -/
def tableRounds (rounds : ℕ) : List Action :=
  (List.replicate rounds [.createTable 1 "t" exampleSchema, .dropTable 1 "t"]).flatten

lemma catalog_createTable_example {d : Ddl} {next : ℕ} (hnext : next ≠ 0)
    (hd : d.catalog = ⟨∅, ∅, ∅, ∅, next, 1000⟩) :
    (d.createTable 1 "t" exampleSchema).catalog = ⟨singleton "t" next,
      singleton next ⟨"t", exampleSchema⟩, ∅, ∅, (next + 1) % 2 ^ 32, 1000⟩ := by
  have hcan : d.catalog.canCreateTable "t" exampleSchema := by
    rw [hd]
    rfl
  rw [catalog_createTable hcan, if_neg (by rwa [hd]), hd]
  rfl

lemma erase_singleton {κ : Type*} {β : κ → Type*} [DecidableEq κ] (a : κ) (b : β a) :
    (singleton a b).erase a = ∅ :=
  ext (kerase_cons_eq rfl)

/-- A round leaves no table and takes one id. -/
lemma runs_tableRounds (rounds next : ℕ) (hnext : next ≠ 0) (hfit : next + rounds < 2 ^ 32) (d : Ddl)
    (hd : d.catalog = ⟨∅, ∅, ∅, ∅, next, 1000⟩) :
    ∃ d', runs (step id) d (tableRounds rounds) = some d' ∧ d'.catalog = ⟨∅, ∅, ∅, ∅, next + rounds, 1000⟩ := by
  induction rounds generalizing next d with
  | zero => exact ⟨d, rfl, hd⟩
  | succ rounds ih =>
    have hround : ((d.createTable 1 "t" exampleSchema).dropTable 1 "t").catalog = ⟨∅, ∅, ∅, ∅, next + 1, 1000⟩ := by
      have hget : (d.createTable 1 "t" exampleSchema).catalog.getTable "t" = some (next, ⟨"t", exampleSchema⟩) := by
        rw [catalog_createTable_example hnext hd]
        simp [getTable, AList.lookup]
      rw [dropTable, hget]
      simp only [catalog_createTable_example hnext hd, Nat.mod_eq_of_lt (show next + 1 < 2 ^ 32 by omega)]
      simp [Catalog.dropTable, AList.lookup, Catalog.dropIndexesForTable, Catalog.getIndexes, erase_singleton]
    obtain ⟨d', hruns, hcatalog⟩ := ih (next + 1) (by omega) (by omega) _ hround
    refine ⟨d', hruns, ?_⟩
    rw [hcatalog, Nat.add_right_comm, Nat.add_assoc]

/-- After 990 rounds the table has the id 1000, and its pages are in a B+ tree file. -/
theorem not_pagesApart_manyTables : ¬ Always (step id) PagesApart init
    (tableRounds 990 ++ [.createTable 1 "t" exampleSchema]) := by
  intro h
  obtain ⟨d, hruns, hcatalog⟩ := runs_tableRounds 990 10 (by decide) (by decide) init rfl
  have hlast : PagesApart (d.createTable 1 "t" exampleSchema) :=
    h.last (runs_append_eq_some.2 ⟨d, hruns, rfl⟩)
  have hmem : 1000 ∈ (d.createTable 1 "t" exampleSchema).catalog.tableEntries := by
    rw [catalog_createTable_example (by decide) hcatalog]
    exact mem_singleton_self 1000
  exact absurd (hlast.isHeapId (by decide) hmem) (by decide)

end Ddl

end MiniDb
