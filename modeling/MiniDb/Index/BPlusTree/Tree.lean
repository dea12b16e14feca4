import Mathlib.Logic.Function.Basic
import Mathlib.Order.Defs.LinearOrder
import MiniDb.Common.Defs
import MiniDb.Core.BinarySearch

/-!
# The B+ tree

Pages are numbered from 1, and 0 is no page.  A leaf has entries and the number of the next leaf; an internal page has
keys and one child more than keys.  An insertion goes down from the root, or takes the leaf of the last insertion if
the new key appends to it (the hot leaf), and splits what is too large on the way back up.  A removal takes an empty
leaf out of the chain and out of its parent, and then writes all separators anew; pages are not merged.

The tree compares keys by `compare_slot_key`, with the decoded keys where that gives up; this is the order of
`TreeKey`.  `IndexKey::compare`, used for the hot leaf and in `remove_from_leaf`, is `decodedCompare`.  Pages can
always be fetched.  The source follows links with a limit on the number of pages and a set of those seen, against
damaged files; the model has the limit.
-/

namespace MiniDb

open Function

/-- Keys as the tree uses them. -/
class TreeKey (κ : Type*) extends LinearOrder κ where
  fits : κ → Bool
  /-- No columns at all, as a key object has before it is set. -/
  isEmpty : κ → Bool
  hasNull : κ → Bool
  decodedCompare : κ → κ → Ordering
  decodedCompare_eq_iff : ∀ a b, decodedCompare a b = .eq ↔ a = b

def kIndexMaxKeys : ℕ := 57

def kMaxPageChainHops : ℕ := 1000000

inductive IndexPage (κ : Type*) where
  | leaf (entries : List (κ × RecordId)) (next : ℕ)
  | internal (keys : List κ) (children : List ℕ)
  deriving DecidableEq

namespace IndexPage

variable {κ : Type*}

def entries : IndexPage κ → List (κ × RecordId)
  | leaf es _ => es
  | internal _ _ => []

def next : IndexPage κ → ℕ
  | leaf _ n => n
  | internal _ _ => 0

def children : IndexPage κ → List ℕ
  | leaf _ _ => []
  | internal _ cs => cs

/-- The number of keys, as the page header has it. -/
def numKeys : IndexPage κ → ℕ
  | leaf es _ => es.length
  | internal ks _ => ks.length

end IndexPage

abbrev Pages (κ : Type*) := ℕ → IndexPage κ

structure BPlusTree (κ : Type*) where
  pages : Pages κ
  rootPageId : ℕ
  nextPageNum : ℕ
  hotLeafId : ℕ
  hotLeafFirstKey : Option κ
  hotLeafParentId : ℕ

namespace BPlusTree

variable {κ : Type*}

def setPage (t : BPlusTree κ) (id : ℕ) (page : IndexPage κ) : BPlusTree κ :=
  { t with pages := Function.update t.pages id page }

variable {t : BPlusTree κ} {id : ℕ} {page : IndexPage κ}

lemma setPage_self : (t.setPage id page).pages id = page := update_self _ _ _

lemma setPage_of_ne {z : ℕ} (h : z ≠ id) : (t.setPage id page).pages z = t.pages z := update_of_ne h _ _

@[simp] lemma setPage_rootPageId : (t.setPage id page).rootPageId = t.rootPageId := rfl

def empty : BPlusTree κ := ⟨fun _ => .internal [] [], 0, 1, 0, none, 0⟩

section

variable (t : BPlusTree κ)

/-- `create`: page numbers start again. -/
def create : BPlusTree κ :=
  { t.setPage 1 (.leaf [] 0) with rootPageId := 1, nextPageNum := 2 }

lemma create_pages : t.create.pages = update t.pages 1 (.leaf [] 0) := rfl

/-! ## Going down and along -/

/-- From a page down to a leaf, by the child that is chosen among the keys; with the page above. -/
def descend (pages : Pages κ) (choose : List κ → ℕ) : ℕ → ℕ → ℕ → Option (ℕ × ℕ)
  | 0, _, _ => none
  | hops + 1, current, parent =>
    if current = 0 then none
    else
      match pages current with
      | .leaf _ _ => some (current, parent)
      | .internal ks cs => descend pages choose hops (cs.getD (choose ks) 0) current

def leftmostLeaf : ℕ :=
  ((descend t.pages (fun _ => 0) kMaxPageChainHops t.rootPageId 0).map Prod.fst).getD 0

def firstKeyInSubtree (pages : Pages κ) (id : ℕ) : Option κ :=
  (descend pages (fun _ => 0) kMaxPageChainHops id 0).bind fun (leaf, _) =>
    (pages leaf).entries.head?.map Prod.fst

/-- The search of `find_parent` through the pages. -/
def findParentLoop (pages : Pages κ) (child : ℕ) : ℕ → List ℕ → ℕ
  | 0, _ => 0
  | _ + 1, [] => 0
  | hops + 1, current :: stack =>
    match pages current with
    | .leaf _ _ => findParentLoop pages child hops stack
    | .internal _ cs =>
      if child ∈ cs then current
      else findParentLoop pages child hops (cs.filter (· ≠ 0) ++ stack)

def findParent (child : ℕ) : ℕ :=
  if t.rootPageId = child then 0 else findParentLoop t.pages child kMaxPageChainHops [t.rootPageId]

/-- The pages of `split_leaf`: the upper half of the entries goes to a new leaf, the next in the chain. -/
def divideLeaf (id : ℕ) : BPlusTree κ :=
  let es := (t.pages id).entries
  let mid := es.length / 2
  let t' := { t.setPage t.nextPageNum (.leaf (es.drop mid) (t.pages id).next) with
    nextPageNum := t.nextPageNum + 1 }
  t'.setPage id (.leaf (es.take mid) t.nextPageNum)

/-- The pages of `split_internal`: the upper half of the keys and children goes to a new page, but for the
key in the middle. -/
def divideInternal (id : ℕ) (keys : List κ) (children : List ℕ) : BPlusTree κ :=
  let mid := keys.length / 2
  let t := { t.setPage t.nextPageNum (.internal (keys.drop (mid + 1)) (children.drop (mid + 1))) with
    nextPageNum := t.nextPageNum + 1 }
  t.setPage id (.internal (keys.take mid) (children.take (mid + 1)))

end

section

variable {t : BPlusTree κ} {id : ℕ}

lemma divideInternal_spec (h : t.nextPageNum ≠ id) (keys : List κ) (children : List ℕ) :
    (t.divideInternal id keys children).pages id =
      .internal (keys.take (keys.length / 2)) (children.take (keys.length / 2 + 1)) ∧
    (t.divideInternal id keys children).pages t.nextPageNum =
      .internal (keys.drop (keys.length / 2 + 1)) (children.drop (keys.length / 2 + 1)) ∧
    ∀ z, z ≠ id → z ≠ t.nextPageNum → (t.divideInternal id keys children).pages z = t.pages z :=
  ⟨update_self _ _ _, (update_of_ne h _ _).trans (update_self _ _ _),
    fun _ hz hz' => (update_of_ne hz _ _).trans (update_of_ne hz' _ _)⟩

lemma divideLeaf_spec (h : t.nextPageNum ≠ id) :
    (t.divideLeaf id).pages id =
      .leaf ((t.pages id).entries.take ((t.pages id).entries.length / 2)) t.nextPageNum ∧
    (t.divideLeaf id).pages t.nextPageNum =
      .leaf ((t.pages id).entries.drop ((t.pages id).entries.length / 2)) (t.pages id).next ∧
    ∀ z, z ≠ id → z ≠ t.nextPageNum → (t.divideLeaf id).pages z = t.pages z :=
  ⟨update_self _ _ _, (update_of_ne h _ _).trans (update_self _ _ _),
    fun _ hz hz' => (update_of_ne hz _ _).trans (update_of_ne hz' _ _)⟩

end

variable [TreeKey κ]

section

variable (t : BPlusTree κ)

section

variable (key : κ)

def findLeafWithParent : Option (ℕ × ℕ) :=
  descend t.pages (partitionPoint fun k => decide (k ≤ key)) kMaxPageChainHops t.rootPageId 0

def findLeafLowerBound : Option ℕ :=
  (descend t.pages (partitionPoint fun k => decide (k < key)) kMaxPageChainHops t.rootPageId 0).map
    Prod.fst

/-- The loop of `search` along the leaves. -/
def searchChain (pages : Pages κ) (key : κ) : ℕ → ℕ → List RecordId
  | 0, _ => []
  | hops + 1, leaf =>
    if leaf = 0 then []
    else
      let upTo := (pages leaf).entries.takeWhile fun e => decide (e.1 ≤ key)
      let hits := (upTo.filter fun e => decide (e.1 = key)).map Prod.snd
      if upTo.length < (pages leaf).entries.length then hits
      else hits ++ searchChain pages key hops (pages leaf).next

/-- `search`, for a key with all columns. -/
def search : List RecordId :=
  if t.rootPageId = 0 then []
  else
    match t.findLeafLowerBound key with
    | none => []
    | some leaf => searchChain t.pages key kMaxPageChainHops leaf

/-! ## Insertion -/

/-- `insert_into_parent`, and `split_internal` for a parent that is then too large. -/
def insertIntoParent : ℕ → BPlusTree κ → ℕ → κ → ℕ → ℕ → BPlusTree κ
  | 0, t, _, _, _, _ => t
  | fuel + 1, t, parentId, key, left, right =>
    if parentId = 0 then
      { t.setPage t.nextPageNum (.internal [key] [left, right]) with
        rootPageId := t.nextPageNum, nextPageNum := t.nextPageNum + 1 }
    else
      match t.pages parentId with
      | .leaf _ _ => t
      | .internal ks cs =>
        let pos := ks.findIdx fun k => decide (key < k)
        let keys := ks.insertIdx pos key
        let children := cs.insertIdx (pos + 1) right
        let t := t.setPage parentId (.internal keys children)
        if ks.length + 1 > kIndexMaxKeys then
          insertIntoParent fuel (t.divideInternal parentId keys children) (t.findParent parentId)
            (keys.getD (keys.length / 2) key) parentId t.nextPageNum
        else t

def splitLeaf (leafId parentId : ℕ) : BPlusTree κ :=
  let es := (t.pages leafId).entries
  match (es.drop (es.length / 2)).head? with
  | none => t.divideLeaf leafId
  | some e => insertIntoParent t.nextPageNum (t.divideLeaf leafId) parentId e.1 leafId t.nextPageNum

/-- The position of a new key in a leaf: after the keys that are not larger. -/
def insertPos (es : List (κ × RecordId)) (key : κ) : ℕ :=
  if es.getLast?.all fun e => decide (e.1 ≤ key) then es.length
  else partitionPoint (fun e => decide (e.1 ≤ key)) es

def insertIntoLeaf (es : List (κ × RecordId)) (key : κ) (rid : RecordId) : List (κ × RecordId) :=
  es.insertIdx (insertPos es key) (key, rid)

/-- May the leaf of the last insertion be taken? -/
def hotUsable : Bool :=
  t.hotLeafId ≠ 0 &&
    t.hotLeafFirstKey.any (fun k => !TreeKey.isEmpty k && TreeKey.decodedCompare key k != .lt) &&
    match t.pages t.hotLeafId with
    | .internal _ _ => false
    | .leaf es next =>
      es.getLast?.any (fun e => decide (e.1 ≤ key)) &&
        (next = 0 || (t.pages next).entries.head?.any fun e => decide (key < e.1))

/-- The leaf for a new key, with the page above. -/
def targetLeaf : Option (ℕ × ℕ) :=
  if t.hotUsable key then some (t.hotLeafId, t.hotLeafParentId) else t.findLeafWithParent key

/-- The entry put into a leaf, and the leaf split if it is then too large; a leaf that is not split is the
hot leaf of the next insertion. -/
def insertAt (leafId parentId : ℕ) (key : κ) (rid : RecordId) : BPlusTree κ :=
  let es := insertIntoLeaf (t.pages leafId).entries key rid
  let t' := t.setPage leafId (.leaf es (t.pages leafId).next)
  if es.length > kIndexMaxKeys then
    splitLeaf { t' with hotLeafId := 0, hotLeafFirstKey := none, hotLeafParentId := 0 }
      leafId parentId
  else
    { t' with
      hotLeafId := leafId
      hotLeafFirstKey := es.head?.map Prod.fst
      hotLeafParentId := parentId }

/-- `insert`; none if it returns false. -/
def insert (rid : RecordId) : Option (BPlusTree κ) :=
  if TreeKey.fits key then
    let t := if t.rootPageId = 0 then t.create else t
    (t.targetLeaf key).map fun (leafId, parentId) => t.insertAt leafId parentId key rid
  else none

end

/-! ## Removal -/

/-- A record id without a page stands for any. -/
def ridMatches (rid current : RecordId) : Bool := rid.pageId = 0 || current = rid

/-- The loop of `remove` along the leaves: the leaf that has the entry. -/
def removeChain (pages : Pages κ) (key : κ) (rid : RecordId) : ℕ → ℕ → Option ℕ
  | 0, _ => none
  | fuel + 1, leaf =>
    if leaf = 0 then none
    else
      let es := (pages leaf).entries
      let upTo := es.takeWhile fun e => decide (e.1 ≤ key)
      if upTo.any fun e => decide (e.1 = key) && ridMatches rid e.2 then some leaf
      else if upTo.length < es.length then none
      else removeChain pages key rid fuel (pages leaf).next

/-- The leaf before a leaf in the chain, 0 if there is none. -/
def prevLeaf (pages : Pages κ) (leafId : ℕ) : ℕ → ℕ → ℕ → Option ℕ
  | 0, prev, cur => if cur = leafId then some prev else none
  | hops + 1, prev, cur =>
    if cur = leafId then some prev
    else if cur = 0 then none
    else prevLeaf pages leafId hops cur (pages cur).next

section

variable (leafId : ℕ)

/-- The first part of `unlink_empty_leaf`: the leaf is taken out of the chain. -/
def unlinkFromChain : BPlusTree κ :=
  match prevLeaf t.pages leafId kMaxPageChainHops 0 t.leftmostLeaf with
  | none => t
  | some prev =>
    if prev = 0 then t else t.setPage prev (.leaf (t.pages prev).entries (t.pages leafId).next)

/-- The second part of `unlink_empty_leaf`: the leaf is taken out of its parent, unless it is the only
child there.  A root with one child left is given up for that child. -/
def unlinkFromParent : BPlusTree κ :=
  let parentId := t.findParent leafId
  if parentId = 0 then t
  else
    match t.pages parentId with
    | .leaf _ _ => t
    | .internal ks cs =>
      if leafId ∈ cs ∧ ks.length ≠ 0 then
        let idx := cs.idxOf leafId
        let children := cs.eraseIdx idx
        let t := t.setPage parentId (.internal (ks.eraseIdx (idx - 1)) children)
        if ks.length = 1 ∧ t.rootPageId = parentId then { t with rootPageId := children.getD 0 0 }
        else t
      else t

def unlinkEmptyLeaf : BPlusTree κ :=
  (t.unlinkFromChain leafId).unlinkFromParent leafId

def refreshInternalSeparators : ℕ → Pages κ → ℕ → Pages κ
  | 0, pages, _ => pages
  | fuel + 1, pages, id =>
    match pages id with
    | .leaf _ _ => pages
    | .internal ks cs =>
      let pages := cs.foldl (fun ps c => refreshInternalSeparators fuel ps c) pages
      Function.update pages id (.internal (List.zipWith (fun k c => (firstKeyInSubtree pages c).getD k) ks cs.tail) cs)

/-- The separator of a leaf whose first entry is gone. -/
def updateSeparator : BPlusTree κ :=
  match t.pages (t.findParent leafId), (t.pages leafId).entries.head? with
  | .internal ks cs, some e =>
    if t.findParent leafId ≠ 0 ∧ leafId ∈ cs.tail then
      t.setPage (t.findParent leafId) (.internal (ks.set (cs.tail.idxOf leafId) e.1) cs)
    else t
  | _, _ => t

def dropLeaf : BPlusTree κ :=
  if t.rootPageId = leafId then { t with rootPageId := 0 } else t.unlinkEmptyLeaf leafId

def refreshed : BPlusTree κ :=
  if t.rootPageId = 0 then t
  else { t with pages := refreshInternalSeparators t.nextPageNum t.pages t.rootPageId }

def removeFromLeaf (key : κ) (rid : RecordId) : Option (BPlusTree κ) :=
  let es := (t.pages leafId).entries
  let hit := fun e : κ × RecordId => TreeKey.decodedCompare e.1 key == .eq && ridMatches rid e.2
  if es.any hit then
    let i := es.findIdx hit
    let t := t.setPage leafId (.leaf (es.eraseIdx i) (t.pages leafId).next)
    let t := if i = 0 ∧ es.length > 1 then t.updateSeparator leafId else t
    let t := if es.length = 1 then t.dropLeaf leafId else t
    some t.refreshed
  else none

end

/-- `remove`; none if it returns false. -/
def remove (key : κ) (rid : RecordId) : Option (BPlusTree κ) :=
  if t.rootPageId = 0 then none
  else
    (t.findLeafLowerBound key).bind fun leaf =>
      (removeChain t.pages key rid t.nextPageNum leaf).bind fun leafId =>
        t.removeFromLeaf leafId key rid

/-! ## Bulk loading -/

/-- The leaves of a bulk load, each with as many entries as fit.  The first has the number `id`, the others
get new numbers.  The result has the next number and the leaves with their first keys. -/
def bulkLeaves : ℕ → Pages κ → ℕ → ℕ → List (κ × RecordId) → Pages κ × ℕ × List (ℕ × κ)
  | 0, pages, _, next, _ => (pages, next, [])
  | _ + 1, pages, _, next, [] => (pages, next, [])
  | fuel + 1, pages, id, next, e :: es =>
    if (e :: es).length ≤ kIndexMaxKeys then
      (Function.update pages id (.leaf (e :: es) 0), next, [(id, e.1)])
    else
      let page := .leaf ((e :: es).take kIndexMaxKeys) next
      let (pages, next', level) := bulkLeaves fuel (Function.update pages id page) next (next + 1)
        ((e :: es).drop kIndexMaxKeys)
      (pages, next', (id, e.1) :: level)

/-- The pages above the pages of a level, each with as many children as fit. -/
def bulkLevel : ℕ → Pages κ → ℕ → List (ℕ × κ) → Pages κ × ℕ × List (ℕ × κ)
  | 0, pages, next, _ => (pages, next, [])
  | _ + 1, pages, next, [] => (pages, next, [])
  | fuel + 1, pages, next, c :: level =>
    let group := level.take kIndexMaxKeys
    let page := .internal (group.map Prod.snd) (c.1 :: group.map Prod.fst)
    let (pages, next', above) := bulkLevel fuel (Function.update pages next page) (next + 1)
      (level.drop kIndexMaxKeys)
    (pages, next', (next, c.2) :: above)

/-- Level upon level, until there is one page. -/
def bulkLevels : ℕ → Pages κ → ℕ → List (ℕ × κ) → Pages κ × ℕ × ℕ
  | 0, pages, next, _ => (pages, next, 0)
  | fuel + 1, pages, next, level =>
    match level with
    | [] => (pages, next, 0)
    | [c] => (pages, next, c.1)
    | level =>
      let (pages, next, above) := bulkLevel level.length pages next level
      bulkLevels fuel pages next above

/-- `bulk_load_sorted`; none if it returns false.  The tree that is there is not looked at, but for the
number of its root, unless a key has a NULL. -/
def bulkLoadSorted (es : List (κ × RecordId)) : Option (BPlusTree κ) :=
  if es.any fun e => TreeKey.hasNull e.1 then
    es.foldlM (fun t e => t.insert e.1 e.2) t
  else if es.all fun e => TreeKey.fits e.1 then
    let t := if t.rootPageId = 0 then t.create else t
    let t := { t with hotLeafId := 0, hotLeafFirstKey := none, hotLeafParentId := 0 }
    if es = [] then some t
    else
      let (pages, next, level) := bulkLeaves es.length t.pages t.rootPageId t.nextPageNum es
      let (pages, next, root) := bulkLevels level.length pages next level
      some { t with pages := pages, rootPageId := root, nextPageNum := next }
  else none

end

end BPlusTree

end MiniDb
