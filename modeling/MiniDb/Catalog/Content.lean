import Mathlib.Data.List.TakeWhile
import Mathlib.Order.MinMax
import MiniDb.Catalog.Catalog
import MiniDb.Core.Reversal

/-!
# The content of the catalog

`Catalog.content` is the catalog as a function of keys: the tables and indexes by id, and the names.
The value of a table has its indexes in it, since dropping the table by name drops them all.

* `EditsTo e c c'` — the catalog `c'` is well-formed and has the content of `c` after the edit `e`.
  There is one such lemma for each operation of the catalog.
* `tableEdit_fits`, `indexEdit_fits`, … — when the edit can be taken back.
-/

namespace MiniDb

open Function List Catalog

namespace Catalog

/-- What the catalog has values for. -/
inductive Key where
  | table (id : ℕ)
  | index (id : ℕ)
  | tableName (name : String)
  | indexName (name : String)
  deriving DecidableEq

inductive Val where
  /-- the entry of a table, and the entries of its indexes -/
  | table (entry : TableEntry) (indexes : ℕ → Option IndexEntry)
  | noTable
  /-- an index was to be changed where no table is; no catalog has this value -/
  | orphan
  | index (entry : Option IndexEntry)
  | id (id : Option ℕ)

open Val

namespace Val

def setIndex (indexId : ℕ) (entry : Option IndexEntry) : Val → Val
  | .table t indexes => .table t (Function.update indexes indexId entry)
  | _ => .orphan

def mapSchema (f : Schema → Schema) : Val → Val
  | .table entry indexes => .table { entry with schema := f entry.schema } indexes
  | v => v

end Val

/-- The entries of the indexes of a table. -/
def indexesOf (c : Catalog) (tid iid : ℕ) : Option IndexEntry :=
  (c.indexEntries.lookup iid).filter fun e => e.tableId = tid

def content (c : Catalog) : Key → Val
  | .table tid => (c.tableEntries.lookup tid).elim .noTable fun e => .table e (c.indexesOf tid)
  | .index iid => .index (c.indexEntries.lookup iid)
  | .tableName name => .id (c.nameToTableId.lookup name)
  | .indexName name => .id (c.nameToIndexId.lookup name)

lemma lookup_insert_ite {α β : Type*} [DecidableEq α] (s : AList fun _ : α => β) (a a' : α) (b : β) :
    (s.insert a b).lookup a' = if a' = a then some b else s.lookup a' := by
  split_ifs with h
  · rw [h, AList.lookup_insert]
  · rw [AList.lookup_insert_ne h]

lemma lookup_erase_ite {α β : Type*} [DecidableEq α] (s : AList fun _ : α => β) (a a' : α) :
    (s.erase a).lookup a' = if a' = a then none else s.lookup a' := by
  split_ifs with h
  · rw [h, AList.lookup_erase]
  · rw [AList.lookup_erase_ne h]

/-- The map from names to ids is the one that the entries with their names give. -/
def NamesAgree {β : Type*} (nameOf : β → String) (ids : AList fun _ : String => ℕ)
    (entries : AList fun _ : ℕ => β) : Prop :=
  ∀ name id, ids.lookup name = some id ↔ ∃ e, entries.lookup id = some e ∧ nameOf e = name

section

variable {β : Type*} {nameOf : β → String} {ids : AList fun _ : String => ℕ}
  {entries : AList fun _ : ℕ => β} {id : ℕ} {e : β}

section

variable (h : NamesAgree nameOf ids entries)
include h

lemma NamesAgree.lookup_name (he : entries.lookup id = some e) : ids.lookup (nameOf e) = some id :=
  (h (nameOf e) id).2 ⟨e, he, rfl⟩

lemma NamesAgree.insert (hid : entries.lookup id = none) (hname : ids.lookup (nameOf e) = none) :
    NamesAgree nameOf (ids.insert (nameOf e) id) (entries.insert id e) := by
  intro name id'
  rw [lookup_insert_ite, lookup_insert_ite]
  by_cases hid' : id' = id
  · subst hid'
    simp only [if_pos, Option.some.injEq, exists_eq_left']
    split_ifs with hn
    · exact iff_of_true rfl hn.symm
    · rw [h name id', hid]
      exact iff_of_false (fun ⟨_, he, _⟩ => nomatch he) (Ne.symm hn)
  · split_ifs with hn
    · refine iff_of_false (fun heq => hid' (Option.some.inj heq).symm) fun hex => ?_
      rw [← h name id', hn, hname] at hex
      cases hex
    · exact h name id'

lemma NamesAgree.erase (he : entries.lookup id = some e) :
    NamesAgree nameOf (ids.erase (nameOf e)) (entries.erase id) := by
  intro name id'
  rw [lookup_erase_ite, lookup_erase_ite]
  by_cases hid' : id' = id
  · subst hid'
    rw [if_pos rfl]
    refine iff_of_false (fun heq => ?_) fun ⟨_, he, _⟩ => nomatch he
    split_ifs at heq with hn
    obtain ⟨e', he', rfl⟩ := (h name id').1 heq
    rw [he] at he'
    cases he'
    exact hn rfl
  · split_ifs with hn
    · refine iff_of_false (fun heq => nomatch heq) fun hex => hid' ?_
      rw [← h name id', hn, h.lookup_name he] at hex
      exact (Option.some.inj hex).symm
    · exact h name id'

end

end

/-- Names and entries agree, every index is one of a table, and the counters are above the ids. -/
structure WellFormed (c : Catalog) : Prop where
  tableName : NamesAgree TableEntry.tableName c.nameToTableId c.tableEntries
  indexName : NamesAgree IndexEntry.indexName c.nameToIndexId c.indexEntries
  tableOf : ∀ iid e, c.indexEntries.lookup iid = some e → e.tableId ∈ c.tableEntries
  tableId : ∀ tid ∈ c.tableEntries, tid < c.nextTableId
  indexId : ∀ iid ∈ c.indexEntries, iid < c.nextIndexId
  fit : c.CountersFit
  tablePos : 0 < c.nextTableId
  indexPos : 0 < c.nextIndexId

/-! ## Edits -/

def tableEdit (tid : ℕ) (entry : TableEntry) : Edit Key Val :=
  [(.table tid, fun _ => .table entry fun _ => none, fun _ => .noTable),
    (.tableName entry.tableName, fun _ => .id (some tid), fun _ => .id none)]

def indexEdit (iid : ℕ) (entry : IndexEntry) : Edit Key Val :=
  [(.table entry.tableId, setIndex iid (some entry), setIndex iid none),
    (.index iid, fun _ => .index (some entry), fun _ => .index none),
    (.indexName entry.indexName, fun _ => .id (some iid), fun _ => .id none)]

def indexEdits (indexes : List (ℕ × IndexEntry)) : Edit Key Val :=
  indexes.flatMap fun a => indexEdit a.1 a.2

def schemaEdit (tid : ℕ) (f g : Schema → Schema) : Edit Key Val :=
  [(.table tid, mapSchema f, mapSchema g)]

/-- The catalog `c'` is `c` after the edit. -/
structure EditsTo (e : Edit Key Val) (c c' : Catalog) : Prop where
  content : ∀ k, c'.content k = e.act k (c.content k)
  wellFormed : c'.WellFormed

section

variable {c c' c'' : Catalog} {e e' : Edit Key Val} {tid iid : ℕ} {name : String}
  {table : TableEntry} {entry : IndexEntry} {k : Key} {v : Val}

lemma EditsTo.append (h : EditsTo e c c') (h' : EditsTo e' c' c'') : EditsTo (e ++ e') c c'' where
  content k := by rw [h'.content, h.content, Edit.act_append]
  wellFormed := h'.wellFormed

lemma EditsTo.congr (h : EditsTo e c c') (heq : ∀ k v, e.act k v = e'.act k v) : EditsTo e' c c' where
  content k := by rw [h.content, heq]
  wellFormed := h.wellFormed

lemma WellFormed.editsTo_nil (h : c.WellFormed) : EditsTo [] c c := ⟨fun _ => rfl, h⟩

lemma indexesOf_eq_none (hnone : ∀ iid e, c.indexEntries.lookup iid = some e → e.tableId ≠ tid) :
    c.indexesOf tid = fun _ => none := by
  funext iid
  rw [indexesOf, Option.filter_eq_none_iff]
  intro e he
  simpa using hnone iid e he

lemma content_table (htable : c.tableEntries.lookup tid = some table) :
    c.content (.table tid) = .table table (c.indexesOf tid) := by
  rw [content, htable]
  rfl

lemma content_noTable (htable : c.tableEntries.lookup tid = none) : c.content (.table tid) = .noTable := by
  rw [content, htable]
  rfl

/-! ### Tables -/

/-- The entries that `create_table` and `restore_table` make. -/
def putTable (c : Catalog) (tid : ℕ) (table : TableEntry) : Catalog :=
  { c with
    tableEntries := c.tableEntries.insert tid table
    nameToTableId := c.nameToTableId.insert table.tableName tid }

lemma content_putTable (hnone : ∀ iid e, c.indexEntries.lookup iid = some e → e.tableId ≠ tid) (k : Key) :
    (c.putTable tid table).content k = (tableEdit tid table).act k (c.content k) := by
  cases k with
  | table tid' =>
    simp only [content, putTable, lookup_insert_ite, tableEdit, Edit.act, Key.table.injEq, reduceCtorEq,
      if_false, @eq_comm _ tid']
    split_ifs with heq
    · subst heq
      exact congrArg (Val.table table) (indexesOf_eq_none hnone)
    · rfl
  | index iid | indexName n => simp [content, putTable, tableEdit, Edit.act]
  | tableName n =>
    simp only [content, putTable, lookup_insert_ite, tableEdit, Edit.act, Key.tableName.injEq, reduceCtorEq,
      if_false, @eq_comm _ n]
    split_ifs <;> rfl

variable {next : ℕ} {l : List (ℕ × IndexEntry)}

lemma WellFormed.putTable (h : c.WellFormed) (htid : c.tableEntries.lookup tid = none)
    (hname : c.nameToTableId.lookup table.tableName = none) (hlt : tid + 1 < 2 ^ 32)
    (hnext : next = max c.nextTableId (tid + 1)) : { c.putTable tid table with nextTableId := next }.WellFormed where
  tableName := h.tableName.insert htid hname
  indexName := h.indexName
  tableOf iid e he := (AList.mem_insert _).2 (.inr (h.tableOf iid e he))
  tableId t ht := by
    rw [hnext]
    rcases (AList.mem_insert _).1 ht with rfl | ht
    · exact lt_max_of_lt_right (Nat.lt_succ_self t)
    · exact lt_max_of_lt_left (h.tableId t ht)
  indexId := h.indexId
  fit := ⟨hnext ▸ max_lt h.fit.table hlt, h.fit.index⟩
  tablePos := hnext ▸ lt_max_of_lt_left h.tablePos
  indexPos := h.indexPos

/-- The entries that `drop_table` takes out at its end. -/
def eraseTable (c : Catalog) (tid : ℕ) (name : String) : Catalog :=
  { c with
    tableEntries := c.tableEntries.erase tid
    nameToTableId := c.nameToTableId.erase name }

lemma WellFormed.eraseTable_editsTo (h : c.WellFormed) (htable : c.tableEntries.lookup tid = some table)
    (hnone : ∀ iid e, c.indexEntries.lookup iid = some e → e.tableId ≠ tid) :
    EditsTo (tableEdit tid table).inverse c (c.eraseTable tid table.tableName) where
  content k := by
    rw [Edit.act_inverse]
    cases k with
    | table tid' =>
      simp only [content, eraseTable, lookup_erase_ite, tableEdit, Edit.undo, Key.table.injEq,
        reduceCtorEq, if_false, @eq_comm _ tid']
      split_ifs <;> rfl
    | index iid | indexName n => simp [content, eraseTable, tableEdit, Edit.undo]
    | tableName n =>
      simp only [content, eraseTable, lookup_erase_ite, tableEdit, Edit.undo, Key.tableName.injEq,
        reduceCtorEq, if_false, @eq_comm _ n]
      split_ifs <;> rfl
  wellFormed :=
    { tableName := h.tableName.erase htable
      indexName := h.indexName
      tableOf iid e he := AList.mem_erase.2 ⟨hnone iid e he, h.tableOf iid e he⟩
      tableId t ht := h.tableId t (AList.mem_erase.1 ht).2
      indexId := h.indexId
      fit := ⟨h.fit.table, h.fit.index⟩
      tablePos := h.tablePos
      indexPos := h.indexPos }

/-! ### Indexes -/

lemma indexesOf_putIndex (hnone : c.indexEntries.lookup iid = none) (tid : ℕ) :
    (c.putIndex iid entry).indexesOf tid =
      if entry.tableId = tid then update (c.indexesOf tid) iid (some entry) else c.indexesOf tid := by
  funext i
  rw [indexesOf, putIndex, lookup_insert_ite]
  by_cases hi : i = iid
  · subst hi
    by_cases htid : entry.tableId = tid
    · simp [htid, Option.filter_some]
    · simp [htid, Option.filter_some, indexesOf, hnone]
  · split_ifs <;> simp [hi, indexesOf]

lemma content_putIndex (htable : entry.tableId ∈ c.tableEntries) (hnone : c.indexEntries.lookup iid = none)
    (k : Key) : (c.putIndex iid entry).content k = (indexEdit iid entry).act k (c.content k) := by
  cases k with
  | table tid =>
    simp only [content, indexesOf_putIndex hnone, indexEdit, Edit.act, Key.table.injEq, reduceCtorEq, if_false]
    split_ifs with htid
    · subst htid
      obtain ⟨t, ht⟩ := Option.isSome_iff_exists.1 (AList.lookup_isSome.2 htable)
      simp [putIndex, ht, setIndex]
    · rfl
  | index i =>
    simp only [content, putIndex, lookup_insert_ite, indexEdit, Edit.act, Key.index.injEq, reduceCtorEq,
      if_false, @eq_comm _ i]
    split_ifs <;> rfl
  | tableName n => simp [content, putIndex, indexEdit, Edit.act]
  | indexName n =>
    simp only [content, putIndex, lookup_insert_ite, indexEdit, Edit.act, Key.indexName.injEq, reduceCtorEq,
      if_false, @eq_comm _ n]
    split_ifs <;> rfl

lemma WellFormed.putIndex_editsTo (h : c.WellFormed) (htable : entry.tableId ∈ c.tableEntries)
    (hiid : c.indexEntries.lookup iid = none) (hname : c.nameToIndexId.lookup entry.indexName = none)
    (hlt : iid + 1 < 2 ^ 32) (hnext : next = max c.nextIndexId (iid + 1)) :
    EditsTo (indexEdit iid entry) c { c.putIndex iid entry with nextIndexId := next } where
  content k := by
    rw [← content_putIndex htable hiid]
    cases k <;> rfl
  wellFormed :=
    { tableName := h.tableName
      indexName := h.indexName.insert hiid hname
      tableOf i e he := by
        simp only [putIndex, lookup_insert_ite] at he
        split_ifs at he
        · cases he
          exact htable
        · exact h.tableOf i e he
      tableId := h.tableId
      indexId i hi := by
        rw [hnext]
        rcases (AList.mem_insert _).1 hi with rfl | hi
        · exact lt_max_of_lt_right (Nat.lt_succ_self i)
        · exact lt_max_of_lt_left (h.indexId i hi)
      fit := ⟨h.fit.table, hnext ▸ max_lt h.fit.index hlt⟩
      tablePos := h.tablePos
      indexPos := hnext ▸ lt_max_of_lt_left h.indexPos }

/-- The entries that `drop_index` takes out. -/
def eraseIndex (c : Catalog) (iid : ℕ) (name : String) : Catalog :=
  { c with indexEntries := c.indexEntries.erase iid, nameToIndexId := c.nameToIndexId.erase name }

lemma dropIndex_eq (h : c.nameToIndexId.lookup name = some iid) :
    (c.dropIndex name).1 = c.eraseIndex iid name := by
  rw [dropIndex, h]
  rfl

lemma indexesOf_eraseIndex (hentry : c.indexEntries.lookup iid = some entry) (tid : ℕ) :
    (c.eraseIndex iid name).indexesOf tid =
      if entry.tableId = tid then update (c.indexesOf tid) iid none else c.indexesOf tid := by
  funext i
  rw [indexesOf, eraseIndex, lookup_erase_ite]
  by_cases hi : i = iid
  · subst hi
    by_cases htid : entry.tableId = tid
    · simp [htid]
    · simp [htid, Option.filter_some, indexesOf, hentry]
  · split_ifs <;> simp [hi, indexesOf]

lemma WellFormed.dropIndex_editsTo (h : c.WellFormed) (hentry : c.indexEntries.lookup iid = some entry) :
    EditsTo (indexEdit iid entry).inverse c (c.dropIndex entry.indexName).1 := by
  rw [dropIndex_eq (h.indexName.lookup_name hentry)]
  refine ⟨fun k => ?_, ?_⟩
  · rw [Edit.act_inverse]
    cases k with
    | table tid =>
      simp only [content, indexesOf_eraseIndex hentry, indexEdit, Edit.undo, Key.table.injEq, reduceCtorEq, if_false]
      split_ifs with htid
      · subst htid
        obtain ⟨t, ht⟩ := Option.isSome_iff_exists.1 (AList.lookup_isSome.2 (h.tableOf iid entry hentry))
        simp [eraseIndex, ht, setIndex]
      · rfl
    | index i =>
      simp only [content, eraseIndex, lookup_erase_ite, indexEdit, Edit.undo, Key.index.injEq, reduceCtorEq,
        if_false, @eq_comm _ i]
      split_ifs <;> rfl
    | tableName n => simp [content, eraseIndex, indexEdit, Edit.undo]
    | indexName n =>
      simp only [content, eraseIndex, lookup_erase_ite, indexEdit, Edit.undo, Key.indexName.injEq,
        reduceCtorEq, if_false, @eq_comm _ n]
      split_ifs <;> rfl
  · exact
      { tableName := h.tableName
        indexName := h.indexName.erase hentry
        tableOf i e he := by
          rw [eraseIndex, lookup_erase_ite] at he
          split_ifs at he
          exact h.tableOf i e he
        tableId := h.tableId
        indexId i hi := h.indexId i (AList.mem_erase.1 hi).2
        fit := ⟨h.fit.table, h.fit.index⟩
        tablePos := h.tablePos
        indexPos := h.indexPos }

/-! ### Lists of indexes -/

lemma indexEdits_cons (a : ℕ × IndexEntry) (l : List (ℕ × IndexEntry)) :
    indexEdits (a :: l) = indexEdit a.1 a.2 ++ indexEdits l := flatMap_cons

lemma indexEdits_append (l l' : List (ℕ × IndexEntry)) :
    indexEdits (l ++ l') = indexEdits l ++ indexEdits l' := flatMap_append

lemma indexEdits_singleton (a : ℕ × IndexEntry) : indexEdits [a] = indexEdit a.1 a.2 :=
  append_nil _

/-- It does not matter which index is taken out first. -/
lemma undo_indexEdit_comm (a b : ℕ × IndexEntry) : (indexEdit a.1 a.2).undo k ((indexEdit b.1 b.2).undo k v) =
      (indexEdit b.1 b.2).undo k ((indexEdit a.1 a.2).undo k v) := by
  cases k with
  | table tid =>
    simp only [indexEdit, Edit.undo, reduceCtorEq, if_false]
    split_ifs <;> try rfl
    cases v with
    | table t indexes =>
      simp only [setIndex, table.injEq, true_and]
      by_cases hab : a.1 = b.1
      · rw [hab]
      · exact update_comm (Ne.symm hab) ..
    | noTable | orphan | index e | id i => rfl
  | index i | indexName n =>
    simp only [indexEdit, Edit.undo, reduceCtorEq, if_false]
    split_ifs <;> rfl
  | tableName n => simp [indexEdit, Edit.undo]

lemma undo_indexEdits_perm {l' : List (ℕ × IndexEntry)} (h : l.Perm l') :
    (indexEdits l).undo k v = (indexEdits l').undo k v := by
  induction h generalizing v with
  | nil => rfl
  | cons a _ ih => rw [indexEdits_cons, indexEdits_cons, Edit.undo_append, Edit.undo_append, ih]
  | swap a b l =>
    simp only [indexEdits_cons, Edit.undo_append]
    exact undo_indexEdit_comm b a
  | trans _ _ ih ih' => rw [ih, ih']

/-- Taking indexes out, one after the other, by whatever loop. -/
lemma WellFormed.foldl_dropIndex_editsTo (h : c.WellFormed)
    (hnodup : (l.map Prod.fst).Nodup) (hl : ∀ a ∈ l, c.indexEntries.lookup a.1 = some a.2)
    {f : Catalog → ℕ × IndexEntry → Catalog}
    (hf : ∀ c a, c.indexEntries.lookup a.1 = some a.2 → f c a = (c.dropIndex a.2.indexName).1) :
    EditsTo (indexEdits l).inverse c (l.foldl f c) ∧
      (l.foldl f c).tableEntries = c.tableEntries ∧ (l.foldl f c).nameToTableId = c.nameToTableId ∧
      ∀ i, (l.foldl f c).indexEntries.lookup i = if i ∈ l.map Prod.fst then none else c.indexEntries.lookup i := by
  induction l generalizing c with
  | nil => exact ⟨h.editsTo_nil, rfl, rfl, fun i => by simp⟩
  | cons a l ih =>
    have ha := hl a mem_cons_self
    have hdrop := h.dropIndex_editsTo ha
    have heq := dropIndex_eq (h.indexName.lookup_name ha)
    rw [map_cons, nodup_cons] at hnodup
    have hl' : ∀ b ∈ l, (c.dropIndex a.2.indexName).1.indexEntries.lookup b.1 = some b.2 := by
      intro b hb
      have hne : b.1 ≠ a.1 := fun hba => hnodup.1 (hba ▸ mem_map_of_mem hb)
      rw [heq, eraseIndex, lookup_erase_ite, if_neg hne]
      exact hl b (mem_cons_of_mem a hb)
    obtain ⟨hedits, htables, hnames, hlookup⟩ := ih hdrop.wellFormed hnodup.2 hl'
    rw [foldl_cons, hf c a ha]
    refine ⟨(hdrop.append hedits).congr fun k v => ?_, htables.trans (by rw [heq]; rfl),
      hnames.trans (by rw [heq]; rfl),
      fun i => ?_⟩
    · rw [Edit.act_append, Edit.act_inverse, Edit.act_inverse, Edit.act_inverse,
        undo_indexEdits_perm (perm_append_singleton a l).symm, indexEdits_append, Edit.undo_append,
        indexEdits_singleton]
    · rw [hlookup, heq, eraseIndex, lookup_erase_ite, map_cons]
      by_cases hia : i = a.1
      · simp [hia]
      · simp only [hia, if_false, mem_cons, false_or]

lemma mem_getIndexes_iff {a : ℕ × IndexEntry} :
    a ∈ c.getIndexes tid ↔ c.indexEntries.lookup a.1 = some a.2 ∧ a.2.tableId = tid := by
  obtain ⟨i, e⟩ := a
  have hlookup : c.indexEntries.lookup i = some e ↔ (⟨i, e⟩ : Σ _ : ℕ, IndexEntry) ∈ c.indexEntries.entries :=
    AList.mem_lookup_iff
  rw [getIndexes, mem_filterMap, hlookup]
  constructor
  · rintro ⟨b, hb, heq⟩
    split_ifs at heq with htid
    cases heq
    exact ⟨hb, htid⟩
  · rintro ⟨hmem, htid⟩
    exact ⟨⟨i, e⟩, hmem, if_pos htid⟩

lemma nodup_getIndexes : ((c.getIndexes tid).map Prod.fst).Nodup := by
  have hsub : ((c.getIndexes tid).map Prod.fst).Sublist c.indexEntries.keys := by
    rw [getIndexes, AList.keys, keys]
    induction c.indexEntries.entries with
    | nil => exact .slnil
    | cons a l ih =>
      rw [filterMap_cons]
      split
      · exact ih.cons a.1
      · rename_i heq
        split_ifs at heq
        cases heq
        exact ih.cons_cons a.1
  exact hsub.nodup c.indexEntries.nodupKeys

section

variable (h : c.WellFormed)
include h

/-- `drop_table`: the indexes of the table, then the table. -/
lemma WellFormed.dropTable_editsTo (htable : c.tableEntries.lookup tid = some table) :
    EditsTo (tableEdit tid table ++ indexEdits (c.getIndexes tid)).inverse c (c.dropTable table.tableName).1 := by
  have hname := h.tableName.lookup_name htable
  obtain ⟨hedits, htables, _, hlookup⟩ := h.foldl_dropIndex_editsTo nodup_getIndexes
    (fun a ha => (mem_getIndexes_iff.1 ha).1) (f := fun c a => (c.dropIndex a.2.indexName).1) fun _ _ _ => rfl
  have hnone : ∀ i e, ((c.getIndexes tid).foldl (fun c a => (c.dropIndex a.2.indexName).1) c).indexEntries.lookup i =
      some e → e.tableId ≠ tid := by
    intro i e he htid
    rw [hlookup] at he
    split_ifs at he with hi
    exact hi (mem_map.2 ⟨(i, e), mem_getIndexes_iff.2 ⟨he, htid⟩, rfl⟩)
  have herase := hedits.wellFormed.eraseTable_editsTo (by rw [htables]; exact htable) hnone
  rw [Edit.inverse_append]
  have heq : (c.dropTable table.tableName).1 =
      ((c.getIndexes tid).foldl (fun c a => (c.dropIndex a.2.indexName).1) c).eraseTable tid table.tableName := by
    simp only [dropTable, hname, dropIndexesForTable, foldl_map]
    rfl
  rw [heq]
  exact hedits.append herase

omit h in
lemma max_of_restore {id : ℕ} (hlt : id + 1 < 2 ^ 32) :
    (if next ≤ id then (id + 1) % 2 ^ 32 else next) = max next (id + 1) := by
  split_ifs with hle
  · rw [Nat.mod_eq_of_lt hlt, max_eq_right (Nat.le_succ_of_le hle)]
  · rw [max_eq_left (not_le.1 hle)]

/-- `restore_table`, and what `create_table` does to the entries. -/
lemma WellFormed.putTable_editsTo (htid : c.tableEntries.lookup tid = none)
    (hname : c.nameToTableId.lookup table.tableName = none) (hlt : tid + 1 < 2 ^ 32)
    (hnext : next = max c.nextTableId (tid + 1)) :
    EditsTo (tableEdit tid table) c { c.putTable tid table with nextTableId := next } where
  content k := by
    rw [← content_putTable fun i e he heq => ?_]
    · cases k <;> rfl
    · have hmem := h.tableOf i e he
      rw [heq, ← AList.lookup_isSome, htid] at hmem
      cases hmem
  wellFormed := h.putTable htid hname hlt hnext

lemma WellFormed.foldl_restoreIndex_editsTo (htable : tid ∈ c.tableEntries)
    (hids : (l.map Prod.fst).Nodup) (hnames : (l.map fun a => a.2.indexName).Nodup)
    (hl : ∀ a ∈ l, a.2.tableId = tid ∧ a.1 + 1 < 2 ^ 32 ∧ c.indexEntries.lookup a.1 = none ∧
      c.nameToIndexId.lookup a.2.indexName = none) :
    EditsTo (indexEdits l) c (l.foldl (fun c a => c.restoreIndex a.1 a.2) c) := by
  induction l generalizing c with
  | nil => exact h.editsTo_nil
  | cons a l ih =>
    obtain ⟨htid, hlt, hfree, hname⟩ := hl a mem_cons_self
    have hput := h.putIndex_editsTo (htid ▸ htable) hfree hname hlt rfl
    have heq : c.restoreIndex a.1 a.2 = { c.putIndex a.1 a.2 with nextIndexId := max c.nextIndexId (a.1 + 1) } := by
      rw [restoreIndex, max_of_restore hlt]
    rw [map_cons, nodup_cons] at hids hnames
    rw [foldl_cons, indexEdits_cons, heq]
    refine hput.append (ih hput.wellFormed htable hids.2 hnames.2 fun b hb => ?_)
    obtain ⟨htid', hlt', hfree', hname'⟩ := hl b (mem_cons_of_mem a hb)
    have hid : b.1 ≠ a.1 := fun hba => hids.1 (hba ▸ mem_map_of_mem hb)
    have hn : b.2.indexName ≠ a.2.indexName := fun hba =>
      hnames.1 (mem_map.2 ⟨b, hb, hba⟩)
    refine ⟨htid', hlt', ?_, ?_⟩
    · simpa only [putIndex, lookup_insert_ite, if_neg hid] using hfree'
    · simpa only [putIndex, lookup_insert_ite, if_neg hn] using hname'

/-! ### Columns -/

/-- The schema of a table is changed in place. -/
def alterTable (c : Catalog) (tid : ℕ) (f : Schema → Schema) : Catalog :=
  match c.tableEntries.lookup tid with
  | none => c
  | some e => { c with tableEntries := c.tableEntries.insert tid { e with schema := f e.schema } }

lemma WellFormed.alterTable_editsTo (tid : ℕ) (f g : Schema → Schema) :
    EditsTo (schemaEdit tid f g) c (c.alterTable tid f) := by
  rw [alterTable]
  cases htable : c.tableEntries.lookup tid with
  | none =>
    refine ⟨fun k => ?_, h⟩
    simp only [schemaEdit, Edit.act]
    split_ifs with hk
    · subst hk
      simp [content, htable, mapSchema]
    · rfl
  | some e =>
    have hmem : ∀ t, t ∈ c.tableEntries.insert tid { e with schema := f e.schema } ↔ t ∈ c.tableEntries := by
      intro t
      rw [AList.mem_insert, or_iff_right_iff_imp]
      rintro rfl
      rw [← AList.lookup_isSome, htable]
      rfl
    refine ⟨fun k => ?_, ?_⟩
    · cases k with
      | table t =>
        simp only [content, schemaEdit, Edit.act, lookup_insert_ite, Key.table.injEq, @eq_comm _ t]
        split_ifs with ht
        · subst ht
          simp only [mapSchema, htable, Option.elim_some]
          rfl
        · rfl
      | index i | tableName n | indexName n => simp [content, schemaEdit, Edit.act]
    · refine ⟨fun n t => ?_, h.indexName, fun i e he => (hmem _).2 (h.tableOf i e he),
        fun t ht => h.tableId t ((hmem t).1 ht), h.indexId, ⟨h.fit.table, h.fit.index⟩, h.tablePos, h.indexPos⟩
      rw [h.tableName n t, lookup_insert_ite]
      split_ifs with ht
      · subst ht
        simp [htable]
      · rfl

/-! ### Edits that can be taken back -/

omit h in
lemma tableEdit_fits {x : Key → Val} (htable : x (.table tid) = .noTable)
    (hname : x (.tableName table.tableName) = .id none) : (tableEdit tid table).Fits x := by
  refine Edit.fits_of_nodup (by simp [tableEdit, Edit.keys]) ?_
  simp [tableEdit, htable, hname]

omit h in
lemma indexEdit_fits (htable : entry.tableId ∈ c.tableEntries) (hiid : c.indexEntries.lookup iid = none)
    (hname : c.nameToIndexId.lookup entry.indexName = none) : (indexEdit iid entry).Fits c.content := by
  obtain ⟨t, ht⟩ := Option.isSome_iff_exists.1 (AList.lookup_isSome.2 htable)
  refine Edit.fits_of_nodup (by simp [indexEdit, Edit.keys]) ?_
  simp only [indexEdit, forall_mem_cons]
  refine ⟨?_, by rw [content, hiid], by rw [content, hname], fun _ hc => absurd hc not_mem_nil⟩
  simp only [content_table ht, setIndex, update_idem, table.injEq, true_and]
  refine update_eq_self_iff.2 ?_
  rw [indexesOf, hiid]
  rfl

lemma WellFormed.indexEdit_inverse_fits (hentry : c.indexEntries.lookup iid = some entry) :
    (indexEdit iid entry).inverse.Fits c.content := by
  obtain ⟨t, ht⟩ := Option.isSome_iff_exists.1 (AList.lookup_isSome.2 (h.tableOf iid entry hentry))
  refine Edit.fits_of_nodup (by simp [indexEdit, Edit.inverse, Edit.keys]) ?_
  simp only [indexEdit, Edit.inverse, map_cons, map_nil, mem_reverse, forall_mem_cons]
  refine ⟨?_, by rw [content, hentry], by rw [content, h.indexName.lookup_name hentry],
    fun _ hc => absurd hc not_mem_nil⟩
  simp only [content_table ht, setIndex, update_idem, table.injEq, true_and]
  simp [indexesOf, hentry, Option.filter_some]

lemma WellFormed.indexEdits_inverse_fits
    (hnodup : (l.map Prod.fst).Nodup) (hl : ∀ a ∈ l, c.indexEntries.lookup a.1 = some a.2) :
    (indexEdits l).inverse.Fits c.content := by
  induction l with
  | nil => exact fun _ => rfl
  | cons a l ih =>
    rw [map_cons, nodup_cons] at hnodup
    have hrest : ∀ b ∈ l, c.indexEntries.lookup b.1 = some b.2 := fun b hb => hl b (mem_cons_of_mem a hb)
    obtain ⟨hedits, _, _, hlookup⟩ := h.foldl_dropIndex_editsTo hnodup.2 hrest
      (f := fun c a => (c.dropIndex a.2.indexName).1) fun _ _ _ => rfl
    have ha := (hlookup a.1).trans ((if_neg hnodup.1).trans (hl a mem_cons_self))
    rw [indexEdits_cons, Edit.inverse_append]
    refine (ih hnodup.2 hrest).append ?_
    rw [← funext hedits.content]
    exact hedits.wellFormed.indexEdit_inverse_fits ha

lemma WellFormed.dropTable_fits (htable : c.tableEntries.lookup tid = some table) :
    (tableEdit tid table ++ indexEdits (c.getIndexes tid)).inverse.Fits c.content := by
  have hl := fun a (ha : a ∈ c.getIndexes tid) => (mem_getIndexes_iff.1 ha).1
  obtain ⟨hedits, htables, hnames, hlookup⟩ := h.foldl_dropIndex_editsTo nodup_getIndexes hl
    (f := fun c a => (c.dropIndex a.2.indexName).1) fun _ _ _ => rfl
  rw [Edit.inverse_append]
  refine (h.indexEdits_inverse_fits nodup_getIndexes hl).append ?_
  rw [← funext hedits.content]
  refine Edit.fits_of_nodup (by simp [tableEdit, Edit.inverse, Edit.keys]) ?_
  simp only [tableEdit, Edit.inverse, map_cons, map_nil, mem_reverse, forall_mem_cons]
  refine ⟨?_, by rw [content, hnames, h.tableName.lookup_name htable], fun _ hc => absurd hc not_mem_nil⟩
  rw [content_table (htables ▸ htable), indexesOf_eq_none]
  intro i e he htid
  rw [hlookup] at he
  split_ifs at he with hi
  exact hi (mem_map.2 ⟨(i, e), mem_getIndexes_iff.2 ⟨he, htid⟩, rfl⟩)

end

lemma schemaEdit_fits {f g : Schema → Schema} (htable : c.tableEntries.lookup tid = some table)
    (hgf : g (f table.schema) = table.schema) : (schemaEdit tid f g).Fits c.content := by
  refine Edit.fits_of_nodup (by simp [schemaEdit, Edit.keys]) ?_
  simp [schemaEdit, content_table htable, mapSchema, hgf]

end

/-! ## Reading the catalog file back -/

/-- The reader takes everything in the file as it is. -/
@[mk_iff]
structure File.Readable (reread : Schema → Schema) (file : File) : Prop where
  tables_le : file.tables.length ≤ 1000000
  indexes_le : file.indexes.length ≤ 1000000
  table : ∀ e ∈ file.tables, File.TableReadable e.2 ∧ sanitizeSchema (reread e.2.schema) = e.2.schema ∧
    isParserArtifactName e.2.tableName = false ∧ e.2.schema ≠ []
  index : ∀ e ∈ file.indexes, File.indexReadable e = true ∧ isParserArtifactName e.2.indexName = false ∧
    e.2.keyColumns ≠ []
  keys : ∀ e ∈ file.indexes, ∀ t ∈ file.tables, t.1 = e.2.tableId →
    ∀ key ∈ e.2.keyColumns, key < t.2.schema.length

instance (reread : Schema → Schema) (file : File) : Decidable (file.Readable reread) :=
  decidable_of_iff' _ (File.readable_iff reread file)

section

variable {β : Type*} {nameOf : β → String} {ids : AList fun _ : String => ℕ}
  {entries : AList fun _ : ℕ => β}

/-- The loops of `load` over entries that it keeps. -/
def putAll (nameOf : β → String) : List (ℕ × β) → (AList fun _ : String => ℕ) → (AList fun _ : ℕ => β) →
      (AList fun _ : String => ℕ) × AList fun _ : ℕ => β
  | [], ids, entries => (ids, entries)
  | e :: l, ids, entries => putAll nameOf l (ids.insert (nameOf e.2) e.1) (entries.insert e.1 e.2)

section

variable (h : NamesAgree nameOf ids entries)
include h

lemma putAll_spec {l : List (ℕ × β)} (hnew : ∀ e ∈ l, entries.lookup e.1 = none ∧ ids.lookup (nameOf e.2) = none)
    (hids : (l.map Prod.fst).Nodup) (hnames : (l.map fun e => nameOf e.2).Nodup) :
    NamesAgree nameOf (putAll nameOf l ids entries).1 (putAll nameOf l ids entries).2 ∧
      ∀ i e, (putAll nameOf l ids entries).2.lookup i = some e ↔ (i, e) ∈ l ∨ entries.lookup i = some e := by
  induction l generalizing ids entries with
  | nil => exact ⟨h, fun i e => by simp [putAll]⟩
  | cons a l ih =>
    obtain ⟨hid, hname⟩ := hnew a mem_cons_self
    rw [map_cons, nodup_cons] at hids hnames
    obtain ⟨hagree, hlookup⟩ := ih (h.insert hid hname) (fun b hb => by
      have hne : b.1 ≠ a.1 := fun hba => hids.1 (hba ▸ mem_map_of_mem hb)
      have hne' : nameOf b.2 ≠ nameOf a.2 := fun hba => hnames.1 (mem_map.2 ⟨b, hb, hba⟩)
      rw [lookup_insert_ite, lookup_insert_ite, if_neg hne, if_neg hne']
      exact hnew b (mem_cons_of_mem a hb)) hids.2 hnames.2
    refine ⟨hagree, fun i e => ?_⟩
    rw [putAll, hlookup, lookup_insert_ite, mem_cons]
    by_cases hi : i = a.1
    · subst hi
      rw [if_pos rfl, hid, Option.some.injEq]
      constructor
      · rintro (hmem | rfl)
        · exact .inl (.inr hmem)
        · exact .inl (.inl rfl)
      · rintro ((heq | hmem) | hnone)
        · exact .inr (congrArg Prod.snd heq).symm
        · exact .inl hmem
        · cases hnone
    · rw [if_neg hi, or_assoc, or_iff_right (fun heq => hi (congrArg Prod.fst heq))]

lemma NamesAgree.nodup_names : ((entries.entries.map fun e => (e.1, e.2)).map fun e : ℕ × β => nameOf e.2).Nodup := by
  have hnodup : (entries.entries.map fun e => (e.1, e.2)).Nodup := by
    refine List.Nodup.of_map (f := Prod.fst) ?_
    rw [map_map]
    exact entries.nodupKeys
  refine hnodup.map_on fun a ha b hb heq => ?_
  obtain ⟨⟨i, e⟩, hmem, rfl⟩ := mem_map.1 ha
  obtain ⟨⟨i', e'⟩, hmem', rfl⟩ := mem_map.1 hb
  have hlookup : entries.lookup i = some e := AList.mem_lookup_iff.2 hmem
  have hlookup' : entries.lookup i' = some e' := AList.mem_lookup_iff.2 hmem'
  have hname := h.lookup_name hlookup
  rw [show nameOf e = nameOf e' from heq, h.lookup_name hlookup'] at hname
  cases hname
  rw [hlookup] at hlookup'
  cases hlookup'
  rfl

/-- All entries of a map, put into an empty one. -/
lemma NamesAgree.putAll :
    (∀ name, (Catalog.putAll nameOf (entries.entries.map fun e => (e.1, e.2)) ∅ ∅).1.lookup name = ids.lookup name) ∧
      ∀ i, (Catalog.putAll nameOf (entries.entries.map fun e => (e.1, e.2)) ∅ ∅).2.lookup i = entries.lookup i := by
  have hempty : NamesAgree nameOf (∅ : AList fun _ : String => ℕ) (∅ : AList fun _ : ℕ => β) := by
    intro name id
    simp
  have hids : ((entries.entries.map fun e => (e.1, e.2)).map Prod.fst).Nodup := by
    rw [map_map]
    exact entries.nodupKeys
  obtain ⟨hagree, hlookup⟩ := putAll_spec hempty (fun e _ => ⟨AList.lookup_empty _, AList.lookup_empty _⟩) hids
    h.nodup_names
  have hentries : ∀ i, (Catalog.putAll nameOf (entries.entries.map fun e => (e.1, e.2)) ∅ ∅).2.lookup i =
      entries.lookup i := by
    intro i
    refine Option.ext fun e => ?_
    have hmem : (i, e) ∈ entries.entries.map (fun e => (e.1, e.2)) ↔ entries.lookup i = some e := by
      rw [mem_map]
      constructor
      · rintro ⟨⟨i', e'⟩, hmem, heq⟩
        cases heq
        exact AList.mem_lookup_iff.2 hmem
      · exact fun he => ⟨⟨i, e⟩, AList.mem_lookup_iff.1 he, rfl⟩
    rw [hlookup, hmem, AList.lookup_empty]
    simp
  refine ⟨fun name => Option.ext fun id => ?_, hentries⟩
  rw [hagree name id, h name id]
  simp [hentries]

end

end

section

variable {c c' : Catalog} {reread : Schema → Schema}

structure Same (c c' : Catalog) : Prop where
  tables : ∀ tid, c'.tableEntries.lookup tid = c.tableEntries.lookup tid
  indexes : ∀ iid, c'.indexEntries.lookup iid = c.indexEntries.lookup iid
  tableNames : ∀ name, c'.nameToTableId.lookup name = c.nameToTableId.lookup name
  indexNames : ∀ name, c'.nameToIndexId.lookup name = c.nameToIndexId.lookup name
  nextTableId : c'.nextTableId = c.nextTableId
  nextIndexId : c'.nextIndexId = c.nextIndexId

lemma Same.editsTo (h : Same c c') (hwf : c.WellFormed) : EditsTo [] c c' where
  content k := by
    cases k with
    | table tid =>
      have hindexes : c'.indexesOf tid = c.indexesOf tid := by
        funext iid
        rw [indexesOf, indexesOf, h.indexes]
      show c'.content _ = c.content _
      rw [content, content, h.tables, hindexes]
    | index iid => exact congrArg index (h.indexes iid)
    | tableName name => exact congrArg Val.id (h.tableNames name)
    | indexName name => exact congrArg Val.id (h.indexNames name)
  wellFormed :=
    { tableName name tid := by
        rw [h.tableNames, h.tables]
        exact hwf.tableName name tid
      indexName name iid := by
        rw [h.indexNames, h.indexes]
        exact hwf.indexName name iid
      tableOf iid e he := by
        rw [← AList.lookup_isSome, h.tables, AList.lookup_isSome]
        exact hwf.tableOf iid e (h.indexes iid ▸ he)
      tableId tid htid := by
        rw [← AList.lookup_isSome, h.tables, AList.lookup_isSome] at htid
        exact h.nextTableId ▸ hwf.tableId tid htid
      indexId iid hiid := by
        rw [← AList.lookup_isSome, h.indexes, AList.lookup_isSome] at hiid
        exact h.nextIndexId ▸ hwf.indexId iid hiid
      fit := ⟨h.nextTableId ▸ hwf.fit.table, h.nextIndexId ▸ hwf.fit.index⟩
      tablePos := h.nextTableId ▸ hwf.tablePos
      indexPos := h.nextIndexId ▸ hwf.indexPos }

lemma foldl_loadTable {l : List (ℕ × TableEntry)} (h : ∀ e ∈ l, sanitizeSchema (reread e.2.schema) = e.2.schema ∧
      isParserArtifactName e.2.tableName = false ∧ e.2.schema ≠ []) (c : Catalog) :
    l.foldl (loadTable reread) c = { c with
        nameToTableId := (putAll TableEntry.tableName l c.nameToTableId c.tableEntries).1
        tableEntries := (putAll TableEntry.tableName l c.nameToTableId c.tableEntries).2 } := by
  induction l generalizing c with
  | nil => rfl
  | cons e l ih =>
    obtain ⟨hschema, hname, hne⟩ := h e mem_cons_self
    have hload : loadTable reread c e = { c with
          tableEntries := c.tableEntries.insert e.1 e.2
          nameToTableId := c.nameToTableId.insert e.2.tableName e.1 } := by
      simp [loadTable, hschema, hname, hne]
    rw [foldl_cons, hload, ih fun e' he' => h e' (mem_cons_of_mem e he')]
    rfl

lemma foldl_loadIndex {l : List (ℕ × IndexEntry)} (c : Catalog)
    (h : ∀ e ∈ l, isParserArtifactName e.2.indexName = false ∧ e.2.keyColumns ≠ [] ∧
      ∃ t, c.tableEntries.lookup e.2.tableId = some t ∧ ∀ key ∈ e.2.keyColumns, key < t.schema.length) :
    l.foldl loadIndex c = { c with
        nameToIndexId := (putAll IndexEntry.indexName l c.nameToIndexId c.indexEntries).1
        indexEntries := (putAll IndexEntry.indexName l c.nameToIndexId c.indexEntries).2 } := by
  induction l generalizing c with
  | nil => rfl
  | cons e l ih =>
    obtain ⟨hname, hne, t, ht, hkeys⟩ := h e mem_cons_self
    have hload : loadIndex c e = c.putIndex e.1 e.2 := by
      have hall : (e.2.keyColumns.all fun k => decide (k < t.schema.length)) = true :=
        all_eq_true.2 fun key hkey => decide_eq_true (hkeys key hkey)
      simp [loadIndex, ht, hname, hall, hne]
    rw [foldl_cons, hload, ih (c.putIndex e.1 e.2) fun e' he' => h e' (mem_cons_of_mem e he')]
    rfl

def fresh (nextTableId nextIndexId : ℕ) : Catalog := ⟨∅, ∅, ∅, ∅, nextTableId, nextIndexId⟩

lemma load_eq_of_readable {file : File} (hread : file.Readable reread) :
    load reread file = some (file.indexes.foldl loadIndex
      (file.tables.foldl (loadTable reread) (fresh file.nextTableId file.nextIndexId))) := by
  have htake : file.indexes.takeWhile File.indexReadable = file.indexes :=
    takeWhile_eq_self_iff.2 fun e he => (hread.index e he).1
  rw [load, if_neg (not_lt.2 hread.tables_le), if_pos fun e he => (hread.table e he).1]
  simp only [if_neg (not_lt.2 hread.indexes_le), htake]
  rfl

/-- **A catalog is read back as it was saved**, if the reader takes everything in the file. -/
lemma WellFormed.load_save (h : c.WellFormed) (hread : c.save.Readable reread) :
    ∃ c', load reread c.save = some c' ∧ EditsTo [] c c' := by
  have htables := foldl_loadTable (fun e he => (hread.table e he).2) (fresh c.nextTableId c.nextIndexId)
  obtain ⟨htableNames, htableEntries⟩ := h.tableName.putAll
  obtain ⟨hindexNames, hindexEntries⟩ := h.indexName.putAll
  have hof : ∀ e ∈ c.save.indexes, isParserArtifactName e.2.indexName = false ∧ e.2.keyColumns ≠ [] ∧
      ∃ t, (c.save.tables.foldl (loadTable reread)
          (fresh c.nextTableId c.nextIndexId)).tableEntries.lookup e.2.tableId = some t ∧
        ∀ key ∈ e.2.keyColumns, key < t.schema.length := by
    intro e he
    obtain ⟨_, hname, hne⟩ := hread.index e he
    obtain ⟨⟨i, entry⟩, hmem, rfl⟩ := mem_map.1 he
    have hlookup : c.indexEntries.lookup i = some entry := AList.mem_lookup_iff.2 hmem
    obtain ⟨t, ht⟩ := Option.isSome_iff_exists.1 (AList.lookup_isSome.2 (h.tableOf i entry hlookup))
    have htmem : (entry.tableId, t) ∈ c.save.tables :=
      mem_map.2 ⟨⟨entry.tableId, t⟩, AList.mem_lookup_iff.1 ht, rfl⟩
    refine ⟨hname, hne, t, ?_, hread.keys (i, entry) he (entry.tableId, t) htmem rfl⟩
    rw [htables]
    exact (htableEntries entry.tableId).trans ht
  refine ⟨_, load_eq_of_readable hread, Same.editsTo ?_ h⟩
  show Same c (c.save.indexes.foldl loadIndex
    (c.save.tables.foldl (loadTable reread) (fresh c.nextTableId c.nextIndexId)))
  rw [foldl_loadIndex _ hof, htables]
  exact ⟨htableEntries, hindexEntries, htableNames, hindexNames, rfl, rfl⟩

end

end Catalog

end MiniDb
