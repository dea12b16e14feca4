import Mathlib.Data.List.AList
import Mathlib.Tactic
import MiniDb.Common.Defs

/-!
# The catalog

The tables and indexes of a database, by id and by name.  Ids come from two counters, which start at 10 for tables
and at 1000 for indexes; a dropped object is put back under its old id when its transaction rolls back.

`IdsIn` says of which kind the ids in a catalog are, and there is one lemma for each operation.

The hash maps are association lists without duplicate keys.  A schema is what the catalog looks at of it;
`Schema::deserialize` after `Schema::serialize` is a parameter of `load`.
-/

namespace MiniDb

/-- A column, as far as the catalog and the DDL statements look at it; `textBytes` is the length of its
texts other than the name, `indexable` the answer of `btree_supports_type` for its type. -/
structure Catalog.Column where
  name : String
  isPrimary : Bool
  isUnique : Bool
  textBytes : ℕ
  notNull : Bool := false
  hasDefault : Bool := false
  indexable : Bool := true
  isDropped : Bool := false
  deriving DecidableEq, Repr

abbrev Schema := List Catalog.Column

def Schema.serializedSize (schema : Schema) : ℕ :=
  4 + (schema.map fun col => 14 + col.name.utf8ByteSize + col.textBytes).sum

def Schema.getColumnIndex (schema : Schema) (name : String) : Option ℕ :=
  schema.findIdx? fun col => !col.isDropped && col.name == name

structure TableEntry where
  tableName : String
  schema : Schema
  deriving DecidableEq, Repr

structure Catalog.IndexEntry where
  indexName : String
  tableId : ℕ
  keyColumns : List ℕ
  isUnique : Bool
  deriving DecidableEq, Repr

def isParserArtifactName (name : String) : Bool :=
  name == "" || name == "unexpected token" || name == "unexpected keyword"

def sanitizeSchema (schema : Schema) : Schema := schema.filter fun col => !isParserArtifactName col.name

structure Catalog where
  nameToTableId : AList fun _ : String => ℕ
  tableEntries : AList fun _ : ℕ => TableEntry
  nameToIndexId : AList fun _ : String => ℕ
  indexEntries : AList fun _ : ℕ => Catalog.IndexEntry
  nextTableId : ℕ
  nextIndexId : ℕ

/-- The arguments of `create_index`. -/
structure IndexCall where
  name : String
  tableId : ℕ
  keyColumns : List ℕ
  unique : Bool
  deriving DecidableEq, Repr

variable {tid iid : ℕ} {reread : Schema → Schema}

namespace Catalog

/-- `Catalog()`. -/
def empty : Catalog := ⟨∅, ∅, ∅, ∅, 10, 1000⟩

section

variable (c : Catalog)

section

variable (name : String)

/-- The tests of `create_table`. -/
def canCreateTable (schema : Schema) : Bool :=
  !isParserArtifactName name && !(sanitizeSchema schema).isEmpty &&
    (c.nameToTableId.lookup name).isNone

/-- `create_table`, with the id, or 0. -/
def createTable (schema : Schema) : Catalog × ℕ :=
  if c.canCreateTable name schema then
    ({ c with
        tableEntries := c.tableEntries.insert c.nextTableId ⟨name, sanitizeSchema schema⟩
        nameToTableId := c.nameToTableId.insert name c.nextTableId
        nextTableId := (c.nextTableId + 1) % 2 ^ 32 },
      c.nextTableId)
  else (c, 0)

/-- `get_table`, by name. -/
def getTable : Option (ℕ × TableEntry) := do
  let tid ← c.nameToTableId.lookup name
  let entry ← c.tableEntries.lookup tid
  return (tid, entry)

def getIndexes (tableId : ℕ) : List (ℕ × IndexEntry) :=
  c.indexEntries.entries.filterMap fun e => if e.2.tableId = tableId then some (e.1, e.2) else none

def dropIndex : Catalog × Bool :=
  match c.nameToIndexId.lookup name with
  | none => (c, false)
  | some iid =>
    ({ c with
        indexEntries := c.indexEntries.erase iid
        nameToIndexId := c.nameToIndexId.erase name }, true)

/-- `drop_indexes_for_table`: the loop does what `drop_index` does. -/
def dropIndexesForTable (tableId : ℕ) : Catalog :=
  ((c.getIndexes tableId).map fun e => e.2.indexName).foldl (fun c name => (c.dropIndex name).1) c

def dropTable : Catalog × Bool :=
  match c.nameToTableId.lookup name with
  | none => (c, false)
  | some tid =>
    let c := c.dropIndexesForTable tid
    ({ c with
        tableEntries := c.tableEntries.erase tid
        nameToTableId := c.nameToTableId.erase name }, true)

end

/-- The tests of `create_index`. -/
def canCreateIndex (call : IndexCall) : Bool :=
  match c.tableEntries.lookup call.tableId with
  | none => false
  | some table =>
    !isParserArtifactName call.name && !call.keyColumns.isEmpty &&
      (c.nameToIndexId.lookup call.name).isNone &&
      call.keyColumns.all fun k => decide (k < table.schema.length)

/-- The entry that `create_index` and `restore_index` make. -/
def putIndex (indexId : ℕ) (entry : IndexEntry) : Catalog :=
  { c with
    indexEntries := c.indexEntries.insert indexId entry
    nameToIndexId := c.nameToIndexId.insert entry.indexName indexId }

/-- `create_index`, with the id, or 0. -/
def createIndex (call : IndexCall) : Catalog × ℕ :=
  if c.canCreateIndex call then
    ({ c.putIndex c.nextIndexId ⟨call.name, call.tableId, call.keyColumns, call.unique⟩ with
        nextIndexId := (c.nextIndexId + 1) % 2 ^ 32 },
      c.nextIndexId)
  else (c, 0)

def restoreTable (tableId : ℕ) (name : String) (schema : Schema) : Catalog :=
  { c with
    tableEntries := c.tableEntries.insert tableId ⟨name, schema⟩
    nameToTableId := c.nameToTableId.insert name tableId
    nextTableId := if c.nextTableId ≤ tableId then (tableId + 1) % 2 ^ 32 else c.nextTableId }

def restoreIndex (indexId : ℕ) (entry : IndexEntry) : Catalog :=
  { c.putIndex indexId entry with
    nextIndexId := if c.nextIndexId ≤ indexId then (indexId + 1) % 2 ^ 32 else c.nextIndexId }

/-! ## The catalog file -/

structure File where
  nextTableId : ℕ
  nextIndexId : ℕ
  tables : List (ℕ × TableEntry)
  indexes : List (ℕ × IndexEntry)

def save : File where
  nextTableId := c.nextTableId
  nextIndexId := c.nextIndexId
  tables := c.tableEntries.entries.map fun e => (e.1, e.2)
  indexes := c.indexEntries.entries.map fun e => (e.1, e.2)

/-- A table entry that `load` reads to its end. -/
def File.TableReadable (entry : TableEntry) : Prop :=
  entry.tableName.utf8ByteSize ≤ 2 ^ 20 ∧ entry.schema.serializedSize ≤ 2 ^ 20

instance (entry : TableEntry) : Decidable (File.TableReadable entry) :=
  inferInstanceAs (Decidable (_ ∧ _))

/-- One table of the file. -/
def loadTable (reread : Schema → Schema) (c : Catalog) (e : ℕ × TableEntry) : Catalog :=
  let schema := sanitizeSchema (reread e.2.schema)
  if isParserArtifactName e.2.tableName || schema.isEmpty then c
  else
    { c with
      tableEntries := c.tableEntries.insert e.1 ⟨e.2.tableName, schema⟩
      nameToTableId := c.nameToTableId.insert e.2.tableName e.1 }

/-- One index of the file: its table has to be there, and its key columns in the table. -/
def loadIndex (e : ℕ × IndexEntry) : Catalog :=
  match c.tableEntries.lookup e.2.tableId with
  | none => c
  | some table =>
    if !isParserArtifactName e.2.indexName && !e.2.keyColumns.isEmpty &&
        e.2.keyColumns.all fun k => decide (k < table.schema.length) then
      c.putIndex e.1 e.2
    else c

end

/-- An index entry that `load` reads to its end; the loop stops at the first other one. -/
def File.indexReadable (e : ℕ × IndexEntry) : Bool :=
  decide (e.2.indexName.utf8ByteSize ≤ 2 ^ 20) && decide (e.2.keyColumns.length ≤ 1024)

/-- `load`, into a fresh catalog, of a file whose tables can all be read: behind a table that cannot be
read to its end the reader is out of step with the file. -/
def load (reread : Schema → Schema) (file : File) : Option Catalog :=
  let c := { empty with nextTableId := file.nextTableId, nextIndexId := file.nextIndexId }
  if 1000000 < file.tables.length then some c
  else if ∀ e ∈ file.tables, File.TableReadable e.2 then
    let c := file.tables.foldl (loadTable reread) c
    if 1000000 < file.indexes.length then some c
    else some ((file.indexes.takeWhile File.indexReadable).foldl loadIndex c)
  else none

/-! ## The ids in a catalog -/

/-- The ids of the tables meet `T` and those of the indexes meet `I`. -/
structure IdsIn (T I : ℕ → Prop) (c : Catalog) : Prop where
  table : ∀ id ∈ c.tableEntries, T id
  index : ∀ id ∈ c.indexEntries, I id

/-- The counters are 32-bit numbers. -/
structure CountersFit (c : Catalog) : Prop where
  table : c.nextTableId < 2 ^ 32
  index : c.nextIndexId < 2 ^ 32

/-- Same kind of ids, and counters that fit, whatever else the operation changes. -/
structure Keeps (T I : ℕ → Prop) (c : Catalog) : Prop where
  ids : c.IdsIn T I
  fit : c.CountersFit

section

variable {T I : ℕ → Prop} {c : Catalog} {name : String}

lemma keeps_empty : Keeps T I empty :=
  ⟨⟨fun _ h => absurd h (AList.notMem_empty _), fun _ h => absurd h (AList.notMem_empty _)⟩, ⟨by decide, by decide⟩⟩

lemma Keeps.dropIndex (h : c.Keeps T I) (name : String) : (c.dropIndex name).1.Keeps T I := by
  rw [Catalog.dropIndex]
  cases c.nameToIndexId.lookup name with
  | none => exact h
  | some iid =>
    refine ⟨⟨h.ids.table, fun id hid => h.ids.index id ?_⟩, ⟨h.fit.table, h.fit.index⟩⟩
    exact (AList.mem_erase.1 hid).2

lemma Keeps.dropTable (h : c.Keeps T I) (name : String) : (c.dropTable name).1.Keeps T I := by
  rw [Catalog.dropTable]
  cases c.nameToTableId.lookup name with
  | none => exact h
  | some tid =>
    have hd : (c.dropIndexesForTable tid).Keeps T I :=
      List.foldlRecOn _ _ h fun _ hc name _ => hc.dropIndex name
    refine ⟨⟨fun id hid => hd.ids.table id ?_, hd.ids.index⟩, ⟨hd.fit.table, hd.fit.index⟩⟩
    exact (AList.mem_erase.1 hid).2

lemma IdsIn.insertTable (h : c.IdsIn T I) (htid : T tid) (entry : TableEntry) :
    ∀ id ∈ c.tableEntries.insert tid entry, T id := by
  intro id hid
  rcases (AList.mem_insert _).1 hid with rfl | hid
  · exact htid
  · exact h.table id hid

lemma IdsIn.putIndex (h : c.IdsIn T I) (hiid : I iid) (entry : IndexEntry) :
    (c.putIndex iid entry).IdsIn T I := by
  refine ⟨h.table, fun id hid => ?_⟩
  rcases (AList.mem_insert _).1 hid with rfl | hid
  · exact hiid
  · exact h.index id hid

section

variable (h : c.Keeps T I)
include h

lemma Keeps.createTable {schema : Schema}
    (hT : c.canCreateTable name schema → T c.nextTableId) : (c.createTable name schema).1.Keeps T I := by
  rw [Catalog.createTable]
  split_ifs with hcan
  · exact ⟨⟨h.ids.insertTable (hT hcan) _, h.ids.index⟩, ⟨Nat.mod_lt _ (Nat.two_pow_pos 32), h.fit.index⟩⟩
  · exact h

lemma Keeps.createIndex {call : IndexCall}
    (hI : c.canCreateIndex call → I c.nextIndexId) : (c.createIndex call).1.Keeps T I := by
  rw [Catalog.createIndex]
  split_ifs with hcan
  · have hput := h.ids.putIndex (hI hcan) ⟨call.name, call.tableId, call.keyColumns, call.unique⟩
    exact ⟨⟨hput.table, hput.index⟩, ⟨h.fit.table, Nat.mod_lt _ (Nat.two_pow_pos 32)⟩⟩
  · exact h

lemma Keeps.restoreTable (htid : T tid) (name : String) (schema : Schema) :
    (c.restoreTable tid name schema).Keeps T I := by
  refine ⟨⟨h.ids.insertTable htid _, h.ids.index⟩, ⟨?_, h.fit.index⟩⟩
  simp only [Catalog.restoreTable]
  split_ifs
  · exact Nat.mod_lt _ (Nat.two_pow_pos 32)
  · exact h.fit.table

lemma Keeps.restoreIndex (hiid : I iid) (entry : IndexEntry) : (c.restoreIndex iid entry).Keeps T I := by
  have hput := h.ids.putIndex hiid entry
  refine ⟨⟨hput.table, hput.index⟩, ⟨h.fit.table, ?_⟩⟩
  simp only [Catalog.restoreIndex]
  split_ifs
  · exact Nat.mod_lt _ (Nat.two_pow_pos 32)
  · exact h.fit.index

lemma Keeps.loadTable {e : ℕ × TableEntry} (he : T e.1) : (c.loadTable reread e).Keeps T I := by
  simp only [Catalog.loadTable]
  split_ifs
  · exact h
  · exact ⟨⟨h.ids.insertTable he _, h.ids.index⟩, ⟨h.fit.table, h.fit.index⟩⟩

lemma Keeps.loadIndex {e : ℕ × IndexEntry} (he : I e.1) : (c.loadIndex e).Keeps T I := by
  rw [Catalog.loadIndex]
  cases c.tableEntries.lookup e.2.tableId with
  | none => exact h
  | some table =>
    dsimp only
    split_ifs
    · exact ⟨h.ids.putIndex he e.2, ⟨h.fit.table, h.fit.index⟩⟩
    · exact h

end

/-- What is said of a catalog, for a file. -/
structure File.Keeps (T I : ℕ → Prop) (file : File) : Prop where
  table : ∀ e ∈ file.tables, T e.1
  index : ∀ e ∈ file.indexes, I e.1
  nextTableId : file.nextTableId < 2 ^ 32
  nextIndexId : file.nextIndexId < 2 ^ 32

lemma Keeps.save (h : c.Keeps T I) : c.save.Keeps T I where
  table := by
    rintro e he
    obtain ⟨entry, hentry, rfl⟩ := List.mem_map.1 he
    exact h.ids.table entry.1 (List.mem_map_of_mem hentry)
  index := by
    rintro e he
    obtain ⟨entry, hentry, rfl⟩ := List.mem_map.1 he
    exact h.ids.index entry.1 (List.mem_map_of_mem hentry)
  nextTableId := h.fit.table
  nextIndexId := h.fit.index

lemma Keeps.load {file : File} (h : file.Keeps T I) (hl : load reread file = some c) : c.Keeps T I := by
  have hids : IdsIn T I empty := keeps_empty.ids
  have hempty : Keeps T I { empty with nextTableId := file.nextTableId, nextIndexId := file.nextIndexId } :=
    ⟨⟨hids.table, hids.index⟩, ⟨h.nextTableId, h.nextIndexId⟩⟩
  have htables : Keeps T I (file.tables.foldl (Catalog.loadTable reread) _) :=
    List.foldlRecOn _ _ hempty fun _ hc e he => hc.loadTable (h.table e he)
  simp only [Catalog.load] at hl
  split_ifs at hl
  · cases hl
    exact hempty
  · cases hl
    exact htables
  · cases hl
    exact List.foldlRecOn _ _ htables fun _ hc e he => hc.loadIndex (h.index e (List.takeWhile_subset _ he))

end

end Catalog

end MiniDb
