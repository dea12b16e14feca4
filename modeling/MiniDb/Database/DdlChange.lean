import MiniDb.Catalog.Content
import MiniDb.Database.Ddl

/-!
# DDL statements as changes that can be taken back

`Catalog.execute` gives the change that a DDL statement makes to the catalog and its record for the log;
`Catalog.undoChange` is what `apply_undo_record` does with the change at run time, and `Catalog.reverse` what the
recovery does with the record alone.

* `execute_spec` — a statement makes the edit of its change, and the edit can be taken back.
* `undoChange_editsTo` — undoing at run time takes the edit back, for every kind of statement.
* `reverse_editsTo` — the recovery takes it back for the four kinds that it can reverse.
-/

namespace MiniDb

open List Option Edit Schema AList

/-- How the scan of the rows and the bulk load of `Database::create_index` end. -/
inductive IndexBuild where
  | done | scanFails | loadFails
  deriving DecidableEq

/-- The DDL calls of `Database`.  What depends on the rows of the table is given with the call. -/
inductive DdlStatement where
  | createTable (name : String) (schema : Schema)
  | dropTable (name : String)
  | createIndex (name tableName : String) (columns : List String) (unique : Bool) (build : IndexBuild)
  | dropIndex (name : String)
  | addColumn (tableName : String) (column : Catalog.Column) (liveRows : Bool)
  | dropColumn (tableName columnName : String)
  | renameColumn (tableName oldName newName : String)

inductive DdlOp where
  | createTable | dropTable | createIndex | dropIndex | alterAddColumn | alterDropColumn | alterRenameColumn
  deriving DecidableEq

/-- What `log_ddl` writes. -/
structure DdlRecord where
  op : DdlOp
  tableId : ℕ
  aux : ℕ
  name : String
  deriving DecidableEq

/-- The length of the payload.  At most `0xffff` bytes of the name are written; a record with so long a name is not
read again, so that the name can stand here as it is. -/
def DdlRecord.dataLen (record : DdlRecord) : ℕ := 11 + min record.name.utf8ByteSize 0xffff

/-- What a statement has done, with what its undo record keeps. -/
inductive DdlChange where
  | createTable (tid : ℕ) (table : TableEntry) (autoIndexes : List (ℕ × Catalog.IndexEntry))
  | dropTable (tid : ℕ) (table : TableEntry) (savedIndexes : List (ℕ × Catalog.IndexEntry))
  | createIndex (iid : ℕ) (entry : Catalog.IndexEntry)
  | dropIndex (iid : ℕ) (entry : Catalog.IndexEntry)
  | addColumn (tid pos : ℕ) (column : Catalog.Column)
  | dropColumn (tid pos : ℕ)
  | renameColumn (tid pos : ℕ) (oldName newName : String)

namespace Schema

def removeColumn (pos : ℕ) (schema : Schema) : Schema := schema.eraseIdx pos

/-- The flag that `DROP COLUMN` sets. -/
def setDropped (pos : ℕ) (dropped : Bool) (schema : Schema) : Schema :=
  schema.modify pos fun col => { col with isDropped := dropped }

def renameColumn (pos : ℕ) (name : String) (schema : Schema) : Schema :=
  schema.modify pos fun col => { col with name := name }

lemma removeColumn_append (schema : Schema) (col : Catalog.Column) :
    removeColumn schema.length (schema ++ [col]) = schema := by
  rw [removeColumn, eraseIdx_append_of_length_le le_rfl, Nat.sub_self]
  exact append_nil schema

variable {pos : ℕ} {schema : Schema}

lemma modify_modify {f g : Catalog.Column → Catalog.Column}
    (h : ∀ col ∈ schema[pos]?, g (f col) = col) : (schema.modify pos f).modify pos g = schema := by
  refine ext_getElem? fun i => ?_
  rw [getElem?_modify, getElem?_modify]
  by_cases hi : pos = i
  · subst hi
    cases hcol : schema[pos]? with
    | none => rfl
    | some col => simp [h col hcol]
  · simp [hi]

lemma getColumnIndex_eq_some {name : String} (h : schema.getColumnIndex name = some pos) :
    ∀ col ∈ schema[pos]?, col.isDropped = false ∧ col.name = name := by
  intro col hcol
  have hof := of_findIdx?_eq_some h
  rw [mem_def.1 hcol] at hof
  simpa using hof

end Schema

/-- The entry that `create_index` makes. -/
def IndexCall.entry (call : IndexCall) : Catalog.IndexEntry :=
  ⟨call.name, call.tableId, call.keyColumns, call.unique⟩

namespace Catalog

/-- The indexes that the loop of `Database::create_table` makes. -/
def autoIndexes (c : Catalog) : List IndexCall → List (ℕ × IndexEntry)
  | [] => []
  | call :: calls =>
    let (c, id) := c.createIndex call
    if id = 0 then c.autoIndexes calls
    else (id, call.entry) :: c.autoIndexes calls

section

variable (c : Catalog)

/-- `get_index`, by name. -/
def getIndex (name : String) : Option (ℕ × IndexEntry) := do
  let iid ← c.nameToIndexId.lookup name
  let entry ← c.indexEntries.lookup iid
  return (iid, entry)

/-- A DDL call up to `save_catalog`: the catalog in memory, and the change and its record if the call
succeeds. -/
def execute : DdlStatement → Catalog × Option (DdlChange × DdlRecord)
  | .createTable name schema =>
    let (c, tid) := c.createTable name schema
    if tid = 0 then (c, none)
    else
      let calls := autoIndexCalls name tid schema
      ((c.createIndexes calls).1, some (.createTable tid ⟨name, sanitizeSchema schema⟩ (c.autoIndexes calls),
          ⟨.createTable, tid, 0, name⟩))
  | .dropTable name =>
    match c.getTable name with
    | none => (c, none)
    | some (tid, table) =>
      ((c.dropTable name).1,
        some (.dropTable tid ⟨name, table.schema⟩ (c.getIndexes tid), ⟨.dropTable, tid, 0, name⟩))
  | .createIndex name tableName columns unique build =>
    match c.indexCall name tableName columns unique with
    | none => (c, none)
    | some call =>
      let (c', iid) := c.createIndex call
      match build with
      | .scanFails => (c, none)
      | .loadFails => if iid = 0 then (c', none) else ((c'.dropIndex call.name).1, none)
      | .done =>
        if iid = 0 then (c', none)
        else (c', some (.createIndex iid call.entry, ⟨.createIndex, call.tableId, iid, name⟩))
  | .dropIndex name =>
    match c.getIndex name with
    | none => (c, none)
    | some (iid, entry) =>
      ((c.dropIndex name).1, some (.dropIndex iid entry, ⟨.dropIndex, entry.tableId, iid, name⟩))
  | .addColumn tableName column liveRows =>
    match c.getTable tableName with
    | none => (c, none)
    | some (tid, table) =>
      if (table.schema.getColumnIndex column.name).isSome ||
          column.notNull && !column.hasDefault && liveRows then (c, none)
      else
        (c.alterTable tid fun schema => schema ++ [column], some (.addColumn tid table.schema.length column,
            ⟨.alterAddColumn, tid, table.schema.length, tableName ++ "." ++ column.name⟩))
  | .dropColumn tableName columnName =>
    match c.getTable tableName with
    | none => (c, none)
    | some (tid, table) =>
      match table.schema.getColumnIndex columnName with
      | none => (c, none)
      | some pos =>
        if (c.getIndexes tid).any fun a => a.2.keyColumns.contains pos then (c, none)
        else
          (c.alterTable tid (setDropped pos true), some (.dropColumn tid pos,
              ⟨.alterDropColumn, tid, pos, tableName ++ "." ++ columnName⟩))
  | .renameColumn tableName oldName newName =>
    match c.getTable tableName with
    | none => (c, none)
    | some (tid, table) =>
      match table.schema.getColumnIndex oldName with
      | none => (c, none)
      | some pos =>
        if (table.schema.getColumnIndex newName).isSome then (c, none)
        else
          (c.alterTable tid (renameColumn pos newName), some (.renameColumn tid pos oldName newName,
              ⟨.alterRenameColumn, tid, pos, tableName ++ "." ++ oldName ++ "->" ++ newName⟩))

/-- The DDL part of `apply_undo_record`. -/
def undoChange : DdlChange → Catalog
  | .createTable _ table autoIndexes => c.undoDdl (.createTable table.tableName (autoIndexes.map Prod.fst))
  | .dropTable tid table savedIndexes => c.undoDdl (.dropTable tid table.tableName table.schema savedIndexes)
  | .createIndex iid _ => c.undoDdl (.createIndex iid)
  | .dropIndex iid entry => c.undoDdl (.dropIndex iid entry)
  | .addColumn tid pos _ => c.alterTable tid (removeColumn pos)
  | .dropColumn tid pos => c.alterTable tid (setDropped pos false)
  | .renameColumn tid pos oldName _ => c.alterTable tid (renameColumn pos oldName)

/-- What the recovery does with the record of a transaction that has no commit record in the log. -/
def reverse (r : DdlRecord) : Catalog :=
  match r.op with
  | .createTable => c.undoDdl (.createTable r.name [])
  | .createIndex => c.undoDdl (.createIndex r.aux)
  | .alterAddColumn => c.alterTable r.tableId (removeColumn r.aux)
  | .alterDropColumn => c.alterTable r.tableId (setDropped r.aux false)
  | .dropTable | .dropIndex | .alterRenameColumn => c

end

end Catalog

namespace DdlChange

open Catalog

/-- The change as an edit of the content of the catalog. -/
def edit : DdlChange → Edit Key Val
  | .createTable tid table autoIndexes => tableEdit tid table ++ indexEdits autoIndexes
  | .dropTable tid table savedIndexes => (tableEdit tid table ++ indexEdits savedIndexes).inverse
  | .createIndex iid entry => indexEdit iid entry
  | .dropIndex iid entry => (indexEdit iid entry).inverse
  | .addColumn tid pos column => schemaEdit tid (fun schema => schema ++ [column]) (.removeColumn pos)
  | .dropColumn tid pos => schemaEdit tid (.setDropped pos true) (.setDropped pos false)
  | .renameColumn tid pos oldName newName =>
    schemaEdit tid (.renameColumn pos newName) (.renameColumn pos oldName)

/-- What holds of the entries in a change. -/
def Valid : DdlChange → Prop
  | .createTable tid _ autoIndexes =>
    (autoIndexes.map Prod.fst).Nodup ∧ ∀ a ∈ autoIndexes, a.2.tableId = tid
  | .dropTable tid _ savedIndexes =>
    tid + 1 < 2 ^ 32 ∧ (savedIndexes.map Prod.fst).Nodup ∧
      (savedIndexes.map fun a => a.2.indexName).Nodup ∧
        ∀ a ∈ savedIndexes, a.2.tableId = tid ∧ a.1 + 1 < 2 ^ 32
  | .dropIndex iid _ => iid + 1 < 2 ^ 32
  | _ => True

/-- The record is one from which the recovery can reverse the change. -/
def ReversedBy (r : DdlRecord) : DdlChange → Prop
  | .createTable _ table _ => r.op = .createTable ∧ r.name = table.tableName
  | .createIndex iid _ => r.op = .createIndex ∧ r.aux = iid
  | .addColumn tid pos _ => r.op = .alterAddColumn ∧ r.tableId = tid ∧ r.aux = pos
  | .dropColumn tid pos => r.op = .alterDropColumn ∧ r.tableId = tid ∧ r.aux = pos
  | .dropTable .. | .dropIndex .. | .renameColumn .. => False

instance (r : DdlRecord) : (change : DdlChange) → Decidable (ReversedBy r change)
  | .createTable .. | .createIndex .. => inferInstanceAs (Decidable (_ ∧ _))
  | .addColumn .. | .dropColumn .. => inferInstanceAs (Decidable (_ ∧ _ ∧ _))
  | .dropTable .. | .dropIndex .. | .renameColumn .. => isFalse id

end DdlChange

variable {schema : Schema} {f : Schema → Schema}

namespace Catalog

/-- No table, index or id is there. -/
def Val.absent : Val → Bool
  | .noTable | .index none | .id none => true
  | _ => false

/-- Changing the columns of the table, if one is there, does nothing. -/
def Val.SchemaFixed (f : Schema → Schema) : Val → Prop
  | .table entry _ => f entry.schema = entry.schema
  | _ => True

instance (f : Schema → Schema) : (v : Val) → Decidable (v.SchemaFixed f)
  | .table entry _ => inferInstanceAs (Decidable (f entry.schema = entry.schema))
  | .noTable | .orphan | .index _ | .id _ => isTrue trivial

/-- Nothing is there that the recovery would change for this record. -/
def Idle (r : DdlRecord) (x : Key → Val) : Prop :=
  match r.op with
  | .createTable => (x (.tableName r.name)).absent
  | .createIndex => (x (.index r.aux)).absent
  | .alterAddColumn => (x (.table r.tableId)).SchemaFixed (removeColumn r.aux)
  | .alterDropColumn => (x (.table r.tableId)).SchemaFixed (setDropped r.aux false)
  | .dropTable | .dropIndex | .alterRenameColumn => True

instance (r : DdlRecord) (x : Key → Val) : Decidable (Idle r x) :=
  match h : r.op with
  | .createTable | .createIndex => decidable_of_iff (_ = true) (by rw [Idle, h])
  | .alterAddColumn | .alterDropColumn => decidable_of_iff (Val.SchemaFixed _ _) (by rw [Idle, h])
  | .dropTable | .dropIndex | .alterRenameColumn => isTrue (by rw [Idle, h]; trivial)

/-- The id counters do not run out at this statement. -/
def IdsLeft (c : Catalog) : DdlStatement → Prop
  | .createTable _ schema => c.nextTableId + 1 < 2 ^ 32 ∧ c.nextIndexId + schema.length < 2 ^ 32
  | .createIndex .. => c.nextIndexId + 1 < 2 ^ 32
  | _ => True

instance (c : Catalog) : (stmt : DdlStatement) → Decidable (c.IdsLeft stmt)
  | .createTable .. => inferInstanceAs (Decidable (_ ∧ _))
  | .createIndex .. => inferInstanceAs (Decidable (_ < _))
  | .dropTable _ | .dropIndex _ | .addColumn .. | .dropColumn .. | .renameColumn .. => isTrue trivial

section

variable {c c' : Catalog} {tid iid : ℕ} {name : String} {table : TableEntry} {entry : IndexEntry} {call : IndexCall}
  {k : Key} {v : Val}

/-! ## Statements -/

lemma WellFormed.lookup_nextTableId (h : c.WellFormed) : c.tableEntries.lookup c.nextTableId = none := by
  rw [lookup_eq_none]
  exact fun hmem => lt_irrefl _ (h.tableId _ hmem)

lemma WellFormed.lookup_nextIndexId (h : c.WellFormed) : c.indexEntries.lookup c.nextIndexId = none := by
  rw [lookup_eq_none]
  exact fun hmem => lt_irrefl _ (h.indexId _ hmem)

lemma table_of_canCreateIndex (hcan : c.canCreateIndex call) :
    call.tableId ∈ c.tableEntries ∧ c.nameToIndexId.lookup call.name = none := by
  rw [canCreateIndex] at hcan
  split at hcan
  · cases hcan
  · rename_i t ht
    simp only [Bool.and_eq_true, isNone_iff_eq_none] at hcan
    exact ⟨lookup_isSome.1 (by rw [ht]; rfl), hcan.1.2⟩

lemma WellFormed.createIndex_spec (h : c.WellFormed) (hcan : c.canCreateIndex call)
    (hlt : c.nextIndexId + 1 < 2 ^ 32) :
    EditsTo (indexEdit c.nextIndexId call.entry) c (c.createIndex call).1 ∧
      (indexEdit c.nextIndexId call.entry).Fits c.content ∧ (c.createIndex call).2 = c.nextIndexId ∧
      (c.createIndex call).1.nextIndexId = c.nextIndexId + 1 := by
  obtain ⟨htable, hname⟩ := table_of_canCreateIndex hcan
  have hfree := h.lookup_nextIndexId
  rw [createIndex, if_pos hcan, Nat.mod_eq_of_lt hlt]
  exact ⟨h.putIndex_editsTo htable hfree hname hlt (max_eq_right (Nat.le_succ _)).symm,
    indexEdit_fits htable hfree hname, rfl, rfl⟩

lemma autoIndexes_cons (c : Catalog) (call : IndexCall) (calls : List IndexCall) :
    c.autoIndexes (call :: calls) =
      if (c.createIndex call).2 = 0 then (c.createIndex call).1.autoIndexes calls
      else ((c.createIndex call).2, call.entry) :: (c.createIndex call).1.autoIndexes calls := rfl

lemma WellFormed.createIndexes_spec (h : c.WellFormed) {calls : List IndexCall}
    (hlt : c.nextIndexId + calls.length < 2 ^ 32) :
    EditsTo (indexEdits (c.autoIndexes calls)) c (c.createIndexes calls).1 ∧
      (indexEdits (c.autoIndexes calls)).Fits c.content ∧ ((c.autoIndexes calls).map Prod.fst).Nodup ∧
      ∀ a ∈ c.autoIndexes calls, c.nextIndexId ≤ a.1 ∧ ∃ call ∈ calls, a.2 = call.entry := by
  induction calls generalizing c with
  | nil => exact ⟨h.editsTo_nil, fun _ => rfl, nodup_nil, fun _ ha => nomatch ha⟩
  | cons call calls ih =>
    rw [length_cons] at hlt
    by_cases hcan : c.canCreateIndex call
    · obtain ⟨hedits, hfits, hid, hnext⟩ := h.createIndex_spec hcan (by omega)
      obtain ⟨hedits', hfits', hnodup, hge⟩ := ih hedits.wellFormed (by omega)
      have hne : (c.createIndex call).2 ≠ 0 := hid ▸ h.indexPos.ne'
      have hauto : c.autoIndexes (call :: calls) =
          (c.nextIndexId, call.entry) :: (c.createIndex call).1.autoIndexes calls := by
        rw [autoIndexes_cons, if_neg hne, hid]
      rw [hauto, indexEdits_cons]
      refine ⟨hedits.append hedits', hfits.append ?_, ?_, ?_⟩
      · rw [← funext hedits.content]
        exact hfits'
      · rw [map_cons, nodup_cons]
        refine ⟨fun hmem => ?_, hnodup⟩
        obtain ⟨a, ha, heq⟩ := mem_map.1 hmem
        have := (hge a ha).1
        omega
      · rintro a (_ | ⟨_, ha⟩)
        · exact ⟨le_rfl, call, mem_cons_self, rfl⟩
        · obtain ⟨hle, call', hcall', heq⟩ := hge a ha
          exact ⟨by omega, call', mem_cons_of_mem call hcall', heq⟩
    · have heq : c.createIndex call = (c, 0) := if_neg hcan
      have hauto : c.autoIndexes (call :: calls) = c.autoIndexes calls := by
        rw [autoIndexes_cons, heq, if_pos rfl]
      have hcreate : (c.createIndexes (call :: calls)).1 = (c.createIndexes calls).1 := by
        rw [createIndexes, heq]
      rw [hauto, hcreate]
      obtain ⟨hedits, hfits, hnodup, hge⟩ := ih h (by omega)
      refine ⟨hedits, hfits, hnodup, fun a ha => ?_⟩
      obtain ⟨hle, call', hcall', heq⟩ := hge a ha
      exact ⟨hle, call', mem_cons_of_mem call hcall', heq⟩

lemma length_autoIndexCalls_le (schema : Schema) : (autoIndexCalls name tid schema).length ≤ schema.length := by
  exact (length_filterMap_le ..).trans_eq length_zipIdx

lemma tableId_of_mem_autoIndexCalls (h : call ∈ autoIndexCalls name tid schema) : call.tableId = tid := by
  obtain ⟨⟨col, i⟩, _, heq⟩ := mem_filterMap.1 h
  dsimp only at heq
  split at heq
  · exact (congrArg IndexCall.tableId (some.inj heq)).symm
  · cases heq

/-- What a call makes of the catalog. -/
def Spec (c : Catalog) : Catalog × Option (DdlChange × DdlRecord) → Prop
  | (c', none) => EditsTo [] c c'
  | (c', some (change, _)) => EditsTo change.edit c c' ∧ change.edit.Fits c.content ∧ change.Valid

lemma WellFormed.execute_createTable (h : c.WellFormed)
    (hids : c.IdsLeft (.createTable name schema)) : c.Spec (c.execute (.createTable name schema)) := by
  obtain ⟨htid, hiid⟩ := hids
  by_cases hcan : c.canCreateTable name schema
  · have hname : c.nameToTableId.lookup name = none := by
      simp only [canCreateTable, Bool.and_eq_true, isNone_iff_eq_none] at hcan
      exact hcan.2
    have hput := h.putTable_editsTo h.lookup_nextTableId (show c.nameToTableId.lookup
      (TableEntry.mk name (sanitizeSchema schema)).tableName = none from hname) htid
      (max_eq_right (Nat.le_succ _)).symm
    have hcreate : c.createTable name schema =
        ({ c.putTable c.nextTableId ⟨name, sanitizeSchema schema⟩ with nextTableId := c.nextTableId + 1 },
          c.nextTableId) := by
      rw [createTable, if_pos hcan, Nat.mod_eq_of_lt htid]
      rfl
    have hlen : (autoIndexCalls name c.nextTableId schema).length ≤ schema.length := length_autoIndexCalls_le schema
    obtain ⟨hedits, hfits, hnodup, hcalls⟩ :=
      hput.wellFormed.createIndexes_spec (lt_of_le_of_lt (Nat.add_le_add_left hlen _) hiid)
    simp only [execute, hcreate, if_neg h.tablePos.ne']
    refine ⟨hput.append hedits, Edit.Fits.append ?_ ?_, hnodup, fun a ha => ?_⟩
    · exact tableEdit_fits (content_noTable h.lookup_nextTableId) (congrArg Val.id hname)
    · rw [← funext hput.content]
      exact hfits
    · obtain ⟨_, call, hcall, heq⟩ := hcalls a ha
      rw [heq]
      exact tableId_of_mem_autoIndexCalls hcall
  · have hcreate : c.createTable name schema = (c, 0) := if_neg hcan
    simp only [execute, hcreate, if_true]
    exact h.editsTo_nil

lemma getTable_eq_some (hget : c.getTable name = some (tid, table)) :
    c.nameToTableId.lookup name = some tid ∧ c.tableEntries.lookup tid = some table := by
  simp only [getTable, bind_eq_bind, bind_eq_some_iff, Option.pure_def, Option.some.injEq, Prod.mk.injEq] at hget
  obtain ⟨tid', htid, e, he, rfl, rfl⟩ := hget
  exact ⟨htid, he⟩

section

variable (h : c.WellFormed)
include h

lemma WellFormed.tableId_lt (htable : c.tableEntries.lookup tid = some table) : tid + 1 < 2 ^ 32 :=
  lt_of_le_of_lt (h.tableId tid (lookup_isSome.1 (by rw [htable]; rfl))) h.fit.table

lemma WellFormed.indexId_lt (hentry : c.indexEntries.lookup iid = some entry) : iid + 1 < 2 ^ 32 :=
  lt_of_le_of_lt (h.indexId iid (lookup_isSome.1 (by rw [hentry]; rfl))) h.fit.index

lemma WellFormed.nodup_names : ((c.getIndexes tid).map fun a => a.2.indexName).Nodup := by
  have hnodup : (c.getIndexes tid).Nodup := nodup_getIndexes.of_map
  refine hnodup.map_on fun a ha b hb heq => ?_
  obtain ⟨ha, _⟩ := mem_getIndexes_iff.1 ha
  obtain ⟨hb, _⟩ := mem_getIndexes_iff.1 hb
  have hid : a.1 = b.1 := by
    have hname := h.indexName.lookup_name ha
    rw [heq, h.indexName.lookup_name hb] at hname
    exact (some.inj hname).symm
  rw [hid, hb] at ha
  exact Prod.ext hid (some.inj ha).symm

lemma WellFormed.execute_dropTable : c.Spec (c.execute (.dropTable name)) := by
  rw [execute]
  cases hget : c.getTable name with
  | none => exact h.editsTo_nil
  | some t =>
    obtain ⟨tid, table⟩ := t
    obtain ⟨hname, htable⟩ := getTable_eq_some hget
    obtain ⟨e, he, rfl⟩ := (h.tableName name tid).1 hname
    rw [htable] at he
    cases he
    refine ⟨h.dropTable_editsTo htable, h.dropTable_fits htable, h.tableId_lt htable, nodup_getIndexes,
      h.nodup_names, fun a ha => ?_⟩
    obtain ⟨hentry, htid⟩ := mem_getIndexes_iff.1 ha
    exact ⟨htid, h.indexId_lt hentry⟩

lemma WellFormed.execute_createIndex {tableName : String} {columns : List String} {unique : Bool}
    {build : IndexBuild}
    (hids : c.IdsLeft (.createIndex name tableName columns unique build)) :
    c.Spec (c.execute (.createIndex name tableName columns unique build)) := by
  rw [execute]
  cases c.indexCall name tableName columns unique with
  | none => exact h.editsTo_nil
  | some call =>
    dsimp only
    by_cases hcan : c.canCreateIndex call
    · obtain ⟨hedits, hfits, hid, _⟩ := h.createIndex_spec hcan hids
      have hne : (c.createIndex call).2 ≠ 0 := hid ▸ h.indexPos.ne'
      cases build with
      | done =>
        dsimp only
        rw [if_neg hne, hid]
        exact ⟨hedits, hfits, trivial⟩
      | scanFails => exact h.editsTo_nil
      | loadFails =>
        -- the entry that was just made is dropped again
        rw [if_neg hne]
        have hentry : (c.createIndex call).1.indexEntries.lookup c.nextIndexId = some call.entry := by
          rw [createIndex, if_pos hcan]
          exact lookup_insert _
        have hdrop := hedits.wellFormed.dropIndex_editsTo hentry
        refine ⟨fun k => (hdrop.content k).trans ?_, hdrop.wellFormed⟩
        rw [hedits.content, act_inverse]
        exact hfits k
    · have heq : c.createIndex call = (c, 0) := if_neg hcan
      rw [heq]
      cases build <;> exact h.editsTo_nil

lemma WellFormed.execute_dropIndex : c.Spec (c.execute (.dropIndex name)) := by
  rw [execute]
  cases hget : c.getIndex name with
  | none => exact h.editsTo_nil
  | some a =>
    simp only [getIndex, bind_eq_bind, bind_eq_some_iff, Option.pure_def, Option.some.injEq] at hget
    obtain ⟨_, hname, _, hentry, rfl, rfl⟩ := hget
    obtain ⟨e, he, rfl⟩ := (h.indexName name _).1 hname
    rw [hentry] at he
    cases he
    exact ⟨h.dropIndex_editsTo hentry, h.indexEdit_inverse_fits hentry, h.indexId_lt hentry⟩

lemma WellFormed.execute_addColumn {column : Column} {liveRows : Bool} :
    c.Spec (c.execute (.addColumn name column liveRows)) := by
  rw [execute]
  cases hget : c.getTable name with
  | none => exact h.editsTo_nil
  | some t =>
    obtain ⟨tid, table⟩ := t
    dsimp only
    split_ifs
    · exact h.editsTo_nil
    · exact ⟨h.alterTable_editsTo .., schemaEdit_fits (getTable_eq_some hget).2
        (removeColumn_append table.schema column), trivial⟩

/-- **A statement makes the edit of its change**, and the edit can be taken back; a call that fails
leaves the content as it was. -/
lemma WellFormed.execute_spec {stmt : DdlStatement} (hids : c.IdsLeft stmt) : c.Spec (c.execute stmt) := by
  cases stmt with
  | createTable name schema => exact h.execute_createTable hids
  | dropTable name => exact h.execute_dropTable
  | createIndex name tableName columns unique build => exact h.execute_createIndex hids
  | dropIndex name => exact h.execute_dropIndex
  | addColumn tableName column liveRows => exact h.execute_addColumn
  | dropColumn tableName columnName | renameColumn tableName columnName newName =>
    rw [execute]
    cases hget : c.getTable tableName with
    | none => exact h.editsTo_nil
    | some t =>
      obtain ⟨tid, table⟩ := t
      cases hpos : table.schema.getColumnIndex columnName with
      | none =>
        simp only [hpos]
        exact h.editsTo_nil
      | some pos =>
        simp only [hpos]
        split_ifs
        · exact h.editsTo_nil
        · refine ⟨h.alterTable_editsTo .., schemaEdit_fits (getTable_eq_some hget).2 ?_, trivial⟩
          -- a column that is found has its name and is not dropped
          refine modify_modify fun col hcol => ?_
          obtain ⟨hdropped, rfl⟩ := getColumnIndex_eq_some hpos col hcol
          first | rfl | rw [← hdropped]

end

/-! ## Key columns -/

/-- The key columns of every index are columns of its table. -/
def ColumnsFit (c : Catalog) : Prop :=
  ∀ iid e table, c.indexEntries.lookup iid = some e → c.tableEntries.lookup e.tableId = some table →
    ∀ p ∈ e.keyColumns, p < table.schema.length

def Val.ColumnsIn : Val → Prop
  | .table table indexes => ∀ i e, indexes i = some e → ∀ p ∈ e.keyColumns, p < table.schema.length
  | _ => True

lemma columnsFit_iff : c.ColumnsFit ↔ ∀ k, (c.content k).ColumnsIn := by
  constructor
  · intro h k
    cases k with
    | table tid =>
      cases htable : c.tableEntries.lookup tid with
      | none => exact content_noTable htable ▸ trivial
      | some table =>
        rw [content_table htable]
        intro i e he
        obtain ⟨he, htid⟩ := filter_eq_some_iff.1 he
        exact h i e table he (of_decide_eq_true htid ▸ htable)
    | index iid | tableName name | indexName name => trivial
  · intro h iid e table he htable
    have hk := h (.table e.tableId)
    rw [content_table htable] at hk
    exact hk iid e (by simp [indexesOf, he])

section

variable (h : c.ColumnsFit)
include h

lemma ColumnsFit.createIndex (call : IndexCall) : (c.createIndex call).1.ColumnsFit := by
  rw [Catalog.createIndex]
  split_ifs with hcan
  · intro iid e table he htable
    rw [putIndex, lookup_insert_ite] at he
    split_ifs at he
    · cases he
      intro p hp
      rw [canCreateIndex, show c.tableEntries.lookup call.tableId = some table from htable] at hcan
      simp only [Bool.and_eq_true, List.all_eq_true, decide_eq_true_eq] at hcan
      exact hcan.2 p hp
    · exact h iid e table he htable
  · exact h

lemma ColumnsFit.createIndexes (calls : List IndexCall) : (c.createIndexes calls).1.ColumnsFit := by
  induction calls generalizing c with
  | nil => exact h
  | cons call calls ih => exact ih (h.createIndex call)

lemma ColumnsFit.createTable (hwf : c.WellFormed) (name : String) (schema : Schema) :
    (c.createTable name schema).1.ColumnsFit := by
  rw [Catalog.createTable]
  split_ifs
  · -- no index is on the new id yet
    intro iid e table he htable
    rw [lookup_insert_ne (hwf.tableId _ (hwf.tableOf iid e he)).ne] at htable
    exact h iid e table he htable
  · exact h

lemma ColumnsFit.dropIndex (name : String) : (c.dropIndex name).1.ColumnsFit := by
  rw [Catalog.dropIndex]
  split
  · exact h
  · intro iid e table he
    rw [lookup_erase_ite] at he
    split_ifs at he
    exact h iid e table he

lemma ColumnsFit.dropTable (name : String) : (c.dropTable name).1.ColumnsFit := by
  rw [Catalog.dropTable]
  split
  · exact h
  · rename_i tid _
    have hdrop : (c.dropIndexesForTable tid).ColumnsFit :=
      foldlRecOn _ _ h fun c hc name _ => hc.dropIndex name
    intro iid e table he htable
    rw [lookup_erase_ite] at htable
    split_ifs at htable
    exact hdrop iid e table he htable

lemma ColumnsFit.alterTable (hf : ∀ schema, schema.length ≤ (f schema).length) :
    (c.alterTable tid f).ColumnsFit := by
  rw [Catalog.alterTable]
  split
  · exact h
  · rename_i old hold
    intro iid e table he htable p hp
    rw [lookup_insert_ite] at htable
    split_ifs at htable with htid
    · cases htable
      exact (h iid e old he (htid ▸ hold) p hp).trans_le (hf old.schema)
    · exact h iid e table he htable p hp

lemma ColumnsFit.execute (hwf : c.WellFormed) (stmt : DdlStatement) : (c.execute stmt).1.ColumnsFit := by
  cases stmt with
  | createTable name schema =>
    have hcreate := h.createTable hwf name schema
    simp only [Catalog.execute]
    split_ifs
    · exact hcreate
    · exact hcreate.createIndexes _
  | dropTable name =>
    rw [Catalog.execute]
    split
    · exact h
    · exact h.dropTable name
  | createIndex name tableName columns unique build =>
    rw [Catalog.execute]
    split
    · exact h
    · rename_i call _
      have hcreate := h.createIndex call
      cases build with
      | scanFails => exact h
      | loadFails =>
        dsimp only
        split_ifs
        · exact hcreate
        · exact hcreate.dropIndex call.name
      | done =>
        dsimp only
        split_ifs <;> exact hcreate
  | dropIndex name =>
    rw [Catalog.execute]
    split
    · exact h
    · exact h.dropIndex name
  | addColumn tableName column liveRows =>
    rw [Catalog.execute]
    repeat' split
    all_goals first | exact h | exact h.alterTable fun schema => by simp
  | dropColumn tableName columnName =>
    rw [Catalog.execute]
    repeat' split
    all_goals first | exact h | exact h.alterTable fun schema => by simp [setDropped]
  | renameColumn tableName oldName newName =>
    rw [Catalog.execute]
    repeat' split
    all_goals first | exact h | exact h.alterTable fun schema => by simp [renameColumn]

end

/-! ## Taking changes back -/

/-- The catalog has the change in it, as the last one of what it concerns. -/
def Made (change : DdlChange) (c : Catalog) : Prop :=
  ∃ x : Key → Val, ∀ k, c.content k = change.edit.act k (x k)

variable {autos l : List (ℕ × IndexEntry)}

lemma act_indexEdits_of_notMem (h : iid ∉ l.map Prod.fst) : (indexEdits l).act (.index iid) v = v := by
  refine act_of_notMem fun hk => h ?_
  obtain ⟨op, hop, heq⟩ := mem_map.1 hk
  obtain ⟨a, ha, hop⟩ := mem_flatMap.1 hop
  refine mem_map.2 ⟨a, ha, ?_⟩
  simp only [indexEdit, mem_cons, not_mem_nil, or_false] at hop
  rcases hop with rfl | rfl | rfl
  · cases heq
  · cases heq
    rfl
  · cases heq

lemma act_indexEdits_index (hnodup : (l.map Prod.fst).Nodup)
    (hmem : (iid, entry) ∈ l) : (indexEdits l).act (.index iid) v = .index (some entry) := by
  induction l generalizing v with
  | nil => cases hmem
  | cons a l ih =>
    rw [map_cons, nodup_cons] at hnodup
    rw [indexEdits_cons, act_append]
    rcases mem_cons.1 hmem with rfl | hmem
    · rw [act_indexEdits_of_notMem hnodup.1]
      simp [indexEdit, act]
    · exact ih hnodup.2 hmem

lemma undo_indexEdits_index (hmem : (iid, entry) ∈ l) : (indexEdits l).undo (.index iid) v = .index none ∧
      (indexEdits l).undo (.indexName entry.indexName) v = .id none := by
  induction l with
  | nil => cases hmem
  | cons a l ih =>
    rw [indexEdits_cons, undo_append, undo_append]
    rcases mem_cons.1 hmem with rfl | hmem
    · simp [indexEdit, undo]
    · rw [(ih hmem).1, (ih hmem).2]
      simp [indexEdit, undo]

lemma act_indexEdits_table (f : ℕ → Option IndexEntry) :
    ∃ g, (indexEdits l).act (.table tid) (.table table f) = .table table g ∧
      ∀ i e, g i = some e → (i, e) ∈ l ∨ f i = some e := by
  induction l generalizing f with
  | nil => exact ⟨f, rfl, fun i e he => .inr he⟩
  | cons a l ih =>
    rw [indexEdits_cons, act_append]
    by_cases htid : a.2.tableId = tid
    · have hact : (indexEdit a.1 a.2).act (.table tid) (.table table f) =
          .table table (Function.update f a.1 (some a.2)) := by
        simp [indexEdit, act, htid, Val.setIndex]
      rw [hact]
      obtain ⟨g, hg, hmem⟩ := ih (Function.update f a.1 (some a.2))
      refine ⟨g, hg, fun i e he => ?_⟩
      rcases hmem i e he with hmem | hf
      · exact .inl (mem_cons_of_mem a hmem)
      · rcases update_eq_some hf with ⟨rfl, ⟨⟩⟩ | ⟨-, hf⟩
        · exact .inl mem_cons_self
        · exact .inr hf
    · have hact : (indexEdit a.1 a.2).act (.table tid) (.table table f) = .table table f := by
        simp [indexEdit, act, htid]
      rw [hact]
      obtain ⟨g, hg, hmem⟩ := ih f
      refine ⟨g, hg, fun i e he => (hmem i e he).imp_left (mem_cons_of_mem a)⟩

lemma lookup_of_content_table {t : TableEntry} {g : ℕ → Option IndexEntry}
    (h : c.content (.table tid) = .table t g) : c.tableEntries.lookup tid = some t ∧ c.indexesOf tid = g := by
  rw [content] at h
  cases htable : c.tableEntries.lookup tid with
  | none =>
    rw [htable] at h
    cases h
  | some e =>
    rw [htable] at h
    cases h
    exact ⟨rfl, rfl⟩

lemma Made.createTable (hmade : Made (.createTable tid table autos) c) (hnodup : (autos.map Prod.fst).Nodup) :
    c.tableEntries.lookup tid = some table ∧ (∀ a ∈ autos, c.indexEntries.lookup a.1 = some a.2) ∧
      ∀ i e, c.indexEntries.lookup i = some e → e.tableId = tid → (i, e) ∈ autos := by
  obtain ⟨x, hx⟩ := hmade
  have hx' : ∀ k, c.content k = (indexEdits autos).act k ((tableEdit tid table).act k (x k)) := by
    intro k
    rw [hx, DdlChange.edit, act_append]
  obtain ⟨g, hg, hmem⟩ : ∃ g, (indexEdits autos).act (.table tid) (.table table fun _ => none) = .table table g ∧
      ∀ i e, g i = some e → (i, e) ∈ autos ∨ none = some e := act_indexEdits_table fun _ => none
  have htable : c.content (.table tid) = .table table g := by
    rw [hx', ← hg]
    simp [tableEdit, act]
  obtain ⟨hlookup, hindexes⟩ := lookup_of_content_table htable
  refine ⟨hlookup, fun a ha => ?_, fun i e he htid => ?_⟩
  · have hindex := hx' (.index a.1)
    rw [act_indexEdits_index hnodup ha] at hindex
    exact Val.index.inj hindex
  · have hof : g i = some e := by
      rw [← hindexes, indexesOf, he, filter_some, if_pos (decide_eq_true htid)]
    exact (hmem i e hof).resolve_right (by simp)

lemma getIndexes_perm (hnodup : (autos.map Prod.fst).Nodup)
    (hof : ∀ a ∈ autos, c.indexEntries.lookup a.1 = some a.2 ∧ a.2.tableId = tid)
    (hall : ∀ i e, c.indexEntries.lookup i = some e → e.tableId = tid → (i, e) ∈ autos) :
    (c.getIndexes tid).Perm autos := by
  refine (perm_ext_iff_of_nodup nodup_getIndexes.of_map hnodup.of_map).2 fun a => ?_
  rw [mem_getIndexes_iff]
  exact ⟨fun ⟨he, htid⟩ => hall a.1 a.2 he htid, hof a⟩

section

variable (h : c.WellFormed)
include h

lemma WellFormed.undo_createTable
    (hmade : Made (.createTable tid table autos) c) (hnodup : (autos.map Prod.fst).Nodup) :
    EditsTo (tableEdit tid table ++ indexEdits autos).inverse c
      (c.undoDdl (.createTable table.tableName (autos.map Prod.fst))) := by
  obtain ⟨htable, hautos, hall⟩ := hmade.createTable hnodup
  obtain ⟨hedits, htables, _, hlookup⟩ := h.foldl_dropIndex_editsTo hnodup hautos
    (f := fun c a => c.undoIndex a.1) fun c a ha => by rw [undoIndex, ha]
  have hnone : (autos.foldl (fun c a => c.undoIndex a.1) c).getIndexes tid = [] := by
    refine eq_nil_iff_forall_not_mem.2 fun a ha => ?_
    obtain ⟨he, htid⟩ := mem_getIndexes_iff.1 ha
    rw [hlookup] at he
    split_ifs at he with hmem
    exact hmem (mem_map_of_mem (hall a.1 a.2 he htid))
  have hdrop := hedits.wellFormed.dropTable_editsTo (htables ▸ htable)
  rw [hnone, show indexEdits [] = [] from rfl, append_nil] at hdrop
  rw [inverse_append, undoDdl, foldl_map]
  exact hedits.append hdrop

lemma WellFormed.undo_dropTable {saved : List (ℕ × IndexEntry)}
    (hmade : Made (.dropTable tid table saved) c) (hvalid : (DdlChange.dropTable tid table saved).Valid) :
    EditsTo (tableEdit tid table ++ indexEdits saved) c
      (c.undoDdl (.dropTable tid table.tableName table.schema saved)) := by
  obtain ⟨x, hx⟩ := hmade
  obtain ⟨hlt, hids, hnames, hsaved⟩ := hvalid
  have hx' : ∀ k, c.content k = (tableEdit tid table).undo k ((indexEdits saved).undo k (x k)) := by
    intro k
    rw [hx, DdlChange.edit, act_inverse, undo_append]
  have htid : c.tableEntries.lookup tid = none := by
    have hcontent := hx' (.table tid)
    cases htable : c.tableEntries.lookup tid with
    | none => rfl
    | some e =>
      rw [content_table htable] at hcontent
      simp [tableEdit, undo] at hcontent
  have hname : c.nameToTableId.lookup table.tableName = none := by
    have hcontent := hx' (.tableName table.tableName)
    simpa [content, tableEdit, undo] using hcontent
  have hput := h.putTable_editsTo htid hname hlt (max_of_restore hlt)
  have hmem : tid ∈ (c.restoreTable tid table.tableName table.schema).tableEntries :=
    (mem_insert _).2 (.inl rfl)
  refine hput.append (hput.wellFormed.foldl_restoreIndex_editsTo hmem hids hnames fun a ha => ?_)
  obtain ⟨hof, hfit⟩ := hsaved a ha
  refine ⟨hof, hfit, ?_, ?_⟩
  · have hcontent := hx' (.index a.1)
    rw [(undo_indexEdits_index ha).1] at hcontent
    simpa [content, tableEdit, Edit.undo, Catalog.putTable] using hcontent
  · have hcontent := hx' (.indexName a.2.indexName)
    rw [(undo_indexEdits_index ha).2] at hcontent
    simpa [content, tableEdit, Edit.undo, Catalog.putTable] using hcontent

lemma WellFormed.undo_createIndex (hmade : Made (.createIndex iid entry) c) :
    EditsTo (indexEdit iid entry).inverse c (c.undoDdl (.createIndex iid)) := by
  obtain ⟨x, hx⟩ := hmade
  have hentry : c.indexEntries.lookup iid = some entry := by
    have hcontent := hx (.index iid)
    simpa [content, DdlChange.edit, indexEdit, act] using hcontent
  rw [undoDdl, undoIndex, hentry]
  exact h.dropIndex_editsTo hentry

lemma WellFormed.undo_dropIndex (hmade : Made (.dropIndex iid entry) c) (hlt : iid + 1 < 2 ^ 32) :
    EditsTo (indexEdit iid entry) c (c.undoDdl (.dropIndex iid entry)) := by
  obtain ⟨x, hx⟩ := hmade
  simp only [DdlChange.edit, act_inverse] at hx
  have hiid : c.indexEntries.lookup iid = none := by
    have hcontent := hx (.index iid)
    simpa [content, indexEdit, undo] using hcontent
  have hname : c.nameToIndexId.lookup entry.indexName = none := by
    have hcontent := hx (.indexName entry.indexName)
    simpa [content, indexEdit, undo] using hcontent
  have htable : entry.tableId ∈ c.tableEntries := by
    -- taking an index out does not leave a key without a table
    have hcontent := hx (.table entry.tableId)
    by_contra hnot
    rw [content_noTable (lookup_eq_none.2 hnot)] at hcontent
    simp only [indexEdit, undo, if_true, reduceCtorEq, if_false] at hcontent
    cases hv : x (.table entry.tableId) <;> rw [hv] at hcontent <;> cases hcontent
  rw [undoDdl, restoreIndex, max_of_restore hlt]
  exact h.putIndex_editsTo htable hiid hname hlt rfl

variable {change : DdlChange} {r : DdlRecord}

/-- **Undoing at run time takes the edit back.** -/
lemma WellFormed.undoChange_editsTo (hmade : Made change c)
    (hvalid : change.Valid) : EditsTo change.edit.inverse c (c.undoChange change) := by
  cases change with
  | createTable tid table autos => exact h.undo_createTable hmade hvalid.1
  | dropTable tid table saved =>
    refine (h.undo_dropTable hmade hvalid).congr fun k v => ?_
    rw [DdlChange.edit, act_inverse, undo_inverse]
  | createIndex iid entry => exact h.undo_createIndex hmade
  | dropIndex iid entry =>
    refine (h.undo_dropIndex hmade hvalid).congr fun k v => ?_
    rw [DdlChange.edit, act_inverse, undo_inverse]
  | addColumn tid pos column => exact h.alterTable_editsTo tid (removeColumn pos) fun schema => schema ++ [column]
  | dropColumn tid pos | renameColumn tid pos oldName newName => exact h.alterTable_editsTo ..

/-- **The recovery takes the edit back**, from a record that it can reverse the change by. -/
lemma WellFormed.reverse_editsTo (hmade : Made change c) (hvalid : change.Valid) (hr : change.ReversedBy r) :
    EditsTo change.edit.inverse c (c.reverse r) := by
  obtain ⟨op, tableId, aux, name⟩ := r
  cases change with
  | createTable tid table autos =>
    obtain ⟨rfl, rfl⟩ := hr
    obtain ⟨htable, hautos, hall⟩ := hmade.createTable hvalid.1
    refine (h.dropTable_editsTo htable).congr fun k v => ?_
    rw [DdlChange.edit, act_inverse, act_inverse, undo_append, undo_append,
      undo_indexEdits_perm (getIndexes_perm hvalid.1 (fun a ha => ⟨hautos a ha, hvalid.2 a ha⟩) hall)]
  | dropTable tid table saved | dropIndex iid entry | renameColumn tid pos oldName newName => exact hr.elim
  | createIndex iid entry =>
    obtain ⟨rfl, rfl⟩ := hr
    exact h.undo_createIndex hmade
  | addColumn tid pos column =>
    obtain ⟨rfl, rfl, rfl⟩ := hr
    exact h.alterTable_editsTo tableId (removeColumn aux) fun schema => schema ++ [column]
  | dropColumn tid pos =>
    obtain ⟨rfl, rfl, rfl⟩ := hr
    exact h.alterTable_editsTo ..

lemma WellFormed.alterTable_of_fixed
    (hfixed : (c.content (.table tid)).SchemaFixed f) : EditsTo [] c (c.alterTable tid f) := by
  have hedits := h.alterTable_editsTo tid f f
  refine ⟨fun k => ?_, hedits.wellFormed⟩
  rw [hedits.content]
  simp only [schemaEdit, act]
  split_ifs with hk
  · subst hk
    cases hv : c.content (.table tid) with
    | table e indexes =>
      rw [hv] at hfixed
      exact congrArg (fun s => Val.table { e with schema := s } indexes) hfixed
    | noTable | orphan | index e | id i => rfl
  · rfl

/-- A record that concerns nothing that is there changes nothing. -/
lemma WellFormed.reverse_idle (hr : Idle r c.content) : EditsTo [] c (c.reverse r) := by
  obtain ⟨op, tableId, aux, name⟩ := r
  cases op with
  | createTable =>
    have hname : c.nameToTableId.lookup name = none := by
      cases hlookup : c.nameToTableId.lookup name with
      | none => rfl
      | some tid =>
        simp only [Idle, content, hlookup] at hr
        cases hr
    simp only [reverse, undoDdl, foldl_nil, dropTable, hname]
    exact h.editsTo_nil
  | createIndex =>
    have hlookup : c.indexEntries.lookup aux = none := by
      cases hlookup : c.indexEntries.lookup aux with
      | none => rfl
      | some e =>
        simp only [Idle, content, hlookup] at hr
        cases hr
    simp only [reverse, undoDdl, undoIndex, hlookup]
    exact h.editsTo_nil
  | alterAddColumn | alterDropColumn => exact h.alterTable_of_fixed hr
  | dropTable | dropIndex | alterRenameColumn => exact h.editsTo_nil

end

end

end Catalog

end MiniDb
