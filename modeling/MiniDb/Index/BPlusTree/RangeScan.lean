import MiniDb.Executor.IndexBatch
import MiniDb.Index.BPlusTree.Runs

/-!
# Range scans and searches for some of the columns

Everything that reads the tree goes from a leaf along the chain, and takes an entry, passes over it or ends there, as
the key of the entry says (`ScanStep`).  `scanEntries_eq_filter` says when the entries taken are all that should be:
none of them comes after an entry at which the scan ends.

* `searchKey_exact_iff` — a search for the first columns of a key, in a tree that operations in order have made.
  Where it starts there may be keys that are smaller in the order of the tree; it ends there if one of them is larger
  in the order of `IndexKey::compare`.
* `batches_exact_iff` — a range in batches.  A batch leaves out what has the address of the last entry of the batch
  before (`skip_rid`), although the cursor is already past that entry.
-/

namespace MiniDb

open List TreeKey

variable {A B : List ℕ} {l : ℕ}

namespace BPlusTree

/-- What a scan does with an entry. -/
inductive ScanStep where
  | take | skip | stop
  deriving DecidableEq

section

variable {κ : Type*} (visit : κ → ScanStep)

/-- The entries of a leaf that are taken, and whether the scan ends there. -/
def scanEntries : List (κ × RecordId) → List (κ × RecordId) × Bool
  | [] => ([], false)
  | e :: es =>
    match visit e.1 with
    | .take => (e :: (scanEntries es).1, (scanEntries es).2)
    | .skip => scanEntries es
    | .stop => ([], true)

def scanChain (pages : Pages κ) : ℕ → ℕ → List (κ × RecordId)
  | 0, _ => []
  | hops + 1, leaf =>
    if leaf = 0 then []
    else
      let (hits, ended) := scanEntries visit (pages leaf).entries
      if ended then hits else hits ++ scanChain pages hops (pages leaf).next

/-- A scan from the leaf that a descent has found. -/
def scanFrom (t : BPlusTree κ) (leaf : Option ℕ) : List (κ × RecordId) :=
  if t.rootPageId = 0 then [] else scanChain visit t.pages kMaxPageChainHops (leaf.getD 0)

variable {visit}

lemma scanEntries_append (es es' : List (κ × RecordId)) : scanEntries visit (es ++ es') =
    if (scanEntries visit es).2 then scanEntries visit es
    else ((scanEntries visit es).1 ++ (scanEntries visit es').1, (scanEntries visit es').2) := by
  induction es with
  | nil => rfl
  | cons e es ih =>
    rw [cons_append, scanEntries, scanEntries]
    cases visit e.1 with
    | stop => rfl
    | skip => exact ih
    | take =>
      rw [ih]
      split_ifs <;> rfl

lemma scanChain_eq {pages : Pages κ} {ls : List ℕ} {hops : ℕ} (hchain : Chained pages ls)
    (hpos : ∀ l ∈ ls, l ≠ 0) (hlen : ls.length ≤ hops) :
    scanChain visit pages hops (ls.headD 0) = (scanEntries visit (entriesOf pages ls)).1 := by
  induction ls generalizing hops with
  | nil => cases hops <;> rfl
  | cons l ls ih =>
    obtain ⟨hops, rfl⟩ := Nat.exists_eq_succ_of_ne_zero (Nat.ne_zero_of_lt hlen)
    rw [headD_cons, scanChain, if_neg (hpos l mem_cons_self), entriesOf_cons,
      scanEntries_append, hchain.1, ih hchain.2 (fun l' hl' => hpos l' (mem_cons_of_mem l hl'))
        (Nat.le_of_succ_le_succ hlen)]
    dsimp only
    split_ifs <;> rfl

/-- Everything is taken that should be, if it does not come after the end. -/
lemma scanEntries_eq_filter {es : List (κ × RecordId)}
    (h : es.Pairwise fun e e' => visit e.1 = .stop → visit e'.1 ≠ .take) :
    (scanEntries visit es).1 = es.filter fun e => visit e.1 = .take := by
  induction es with
  | nil => rfl
  | cons e es ih =>
    obtain ⟨hfirst, hrest⟩ := pairwise_cons.1 h
    rw [scanEntries]
    cases hv : visit e.1 with
    | take | skip => simp [hv, ih hrest]
    | stop =>
      have hnone : es.filter (fun e => decide (visit e.1 = .take)) = [] :=
        filter_eq_nil_iff.2 fun e' he' => by simpa using hfirst e' he' hv
      simp [hv, hnone]

lemma length_scanEntries_le (es : List (κ × RecordId)) : (scanEntries visit es).1.length ≤ es.length := by
  induction es with
  | nil => exact le_rfl
  | cons e es ih =>
    rw [scanEntries]
    cases visit e.1 with
    | take => exact Nat.succ_le_succ ih
    | skip => exact ih.trans (Nat.le_succ _)
    | stop => exact Nat.zero_le _

/-- A walk takes no more than what is on as many pages as it has hops. -/
lemma length_scanChain_le {pages : Pages κ} (hfit : PagesFit pages) (hops leaf : ℕ) :
    (scanChain visit pages hops leaf).length ≤ kIndexMaxKeys * hops := by
  induction hops generalizing leaf with
  | zero => exact le_rfl
  | succ hops ih =>
    have hleaf : (scanEntries visit (pages leaf).entries).1.length ≤ kIndexMaxKeys :=
      (length_scanEntries_le _).trans (hfit leaf)
    rw [scanChain, Nat.mul_succ]
    split_ifs with h0
    · exact Nat.zero_le _
    · dsimp only
      split_ifs
      · exact hleaf.trans (Nat.le_add_left _ _)
      · rw [length_append, Nat.add_comm]
        exact Nat.add_le_add (ih _) hleaf

lemma scanEntries_eq_nil {e : κ × RecordId} {es es' : List (κ × RecordId)}
    (hes : ∀ e' ∈ es, visit e'.1 ≠ .take) (he : visit e.1 = .stop) : (scanEntries visit (es ++ e :: es')).1 = [] := by
  induction es with
  | nil => rw [nil_append, scanEntries, he]
  | cons a es ih =>
    have hrest := ih fun e' he' => hes e' (mem_cons_of_mem a he')
    rw [cons_append, scanEntries]
    cases ha : visit a.1 with
    | take => exact absurd ha (hes a mem_cons_self)
    | skip => exact hrest
    | stop => rfl

end

/-! ## Where a scan starts -/

section

variable {κ : Type*}

def stored (t : BPlusTree κ) : List (κ × RecordId) :=
  entriesOf t.pages (leafChain t.pages t.nextPageNum t.leftmostLeaf)

lemma stored_eq {t : BPlusTree κ} {ls : List ℕ} (hleft : t.leftmostLeaf = ls.headD 0)
    (hchain : Chained t.pages ls) (hpos : ∀ l ∈ ls, l ≠ 0) (hlen : ls.length < t.nextPageNum) :
    t.stored = entriesOf t.pages ls := by
  rw [stored, hleft, hchain.leafChain_eq hpos hlen]

variable [TreeKey κ]

/-- The leaf `l` where a scan from `key` starts, with the leaves to its left and right. -/
structure StartsAt (t : BPlusTree κ) (key : κ) (A : List ℕ) (l : ℕ) (B : List ℕ) : Prop where
  found : t.findLeafLowerBound key = some l
  root : t.rootPageId ≠ 0
  chained : Chained t.pages (l :: B)
  ascending : Ascending (entriesOf t.pages (A ++ l :: B))
  stored_eq : t.stored = entriesOf t.pages (A ++ l :: B)
  left : ∀ e ∈ entriesOf t.pages A, e.1 < key
  right : ∀ e ∈ entriesOf t.pages B, key ≤ e.1
  pos : ∀ z ∈ l :: B, z ≠ 0
  length_lt : (l :: B).length < t.nextPageNum
  length_le : (l :: B).length ≤ kMaxPageChainHops

lemma Holds.startsAt {t : BPlusTree κ} {S : List (κ × RecordId)} (h : Holds t S) (hw : t.WalksEnd) (key : κ) :
    t.stored.Perm S ∧ (t.rootPageId = 0 ∧ t.stored = [] ∨ ∃ A l B, StartsAt t key A l B) := by
  rcases h with ⟨d, hI, -, hperm⟩ | ⟨h0 | ⟨hp, hpos, hused⟩, -, rfl⟩
  · have hq : ∀ a b : κ, a ≤ b → decide (b < key) = true → decide (a < key) = true :=
      fun a b hab hb => decide_eq_true (lt_of_le_of_lt hab (of_decide_eq_true hb))
    obtain ⟨hd, hhops⟩ := hw d hI.toCoherent
    obtain ⟨l, p, A, B, R, hdesc, hreach, -⟩ :=
      hI.descend hd hq fun ks hks => partitionPoint_eq hks
    have hlen := hI.length_leaves_lt
    have hne : ∀ z ∈ leaves t.pages d t.rootPageId, z ≠ 0 := fun z hz =>
      hI.pos z (leaves_subset_nodes hz)
    have hstored := stored_eq (leftmostLeaf_eq hI.toCoherent hd) hI.chained hne hlen
    have hleaves := hreach.spine.leaves_eq
    rw [leaves_zero, append_assoc, singleton_append] at hleaves
    have hasc := hI.ascending
    have hchain := hI.chained
    rw [entries, hleaves] at hasc
    rw [hleaves] at hchain hne hlen hhops
    refine ⟨hstored ▸ hperm, .inr ⟨A, l, B, ?_, hI.pos _ self_mem_nodes, hchain.right, hasc,
      hleaves ▸ hstored, fun e he => of_decide_eq_true (hreach.left e he),
      fun e he => not_lt.1 (of_decide_eq_false (hreach.right e he)),
      fun z hz => hne z (mem_append_right A hz), ?_, ?_⟩⟩
    · rw [findLeafLowerBound, hdesc]
      rfl
    · rw [length_append] at hlen
      omega
    · rw [length_append] at hhops
      omega
  · have hnil : t.stored = [] := by
      have hleft : t.leftmostLeaf = 0 := by
        have hhops : kMaxPageChainHops = 999999 + 1 := rfl
        rw [leftmostLeaf, hhops, descend, if_pos h0]
        rfl
      rw [stored, hleft]
      cases t.nextPageNum <;> rfl
    exact ⟨hnil ▸ .refl _, .inl ⟨h0, hnil⟩⟩
  · have hchain : Chained t.pages [t.rootPageId] := ⟨congrArg IndexPage.next hp, trivial⟩
    have hne : ∀ l ∈ [t.rootPageId], l ≠ 0 := by simpa using hpos.ne'
    have hlen : [t.rootPageId].length < t.nextPageNum := by simp; omega
    have hstored : t.stored = entriesOf t.pages [t.rootPageId] :=
      stored_eq (by rw [leftmostLeaf, descend_root hp hpos]; rfl) hchain hne hlen
    have hnil : entriesOf t.pages [t.rootPageId] = [] := by simp [hp, IndexPage.entries]
    refine ⟨by rw [hstored, hnil], .inr ⟨[], t.rootPageId, [], ?_, hpos.ne', hchain, ?_, hstored,
      by simp, by simp, hne, hlen, (by decide : 1 ≤ kMaxPageChainHops)⟩⟩
    · rw [findLeafLowerBound, descend_root hp hpos]
      rfl
    · rw [nil_append, hnil]
      exact List.Pairwise.nil

variable {t : BPlusTree κ} {key : κ} {A B : List ℕ} {l : ℕ}

section

variable (h : StartsAt t key A l B)
include h

/-- What a scan takes is what the leaves from its start hold. -/
lemma StartsAt.scanFrom_eq (visit : κ → ScanStep) : scanFrom visit t (t.findLeafLowerBound key) =
      (scanEntries visit (entriesOf t.pages (l :: B))).1 := by
  rw [scanFrom, if_neg h.root, h.found, Option.getD_some,
    ← scanChain_eq h.chained h.pos h.length_le, headD_cons]

lemma StartsAt.mem_first {e : κ × RecordId}
    (he : e ∈ entriesOf t.pages (l :: B)) (hlt : e.1 < key) : e ∈ (t.pages l).entries := by
  exact (mem_append.1 he).resolve_right fun he => absurd hlt (not_lt.2 (h.right e he))

lemma StartsAt.filter_stored {p : κ → Bool} (hp : ∀ k, k < key → p k = false) :
    t.stored.filter (fun e => p e.1) = (entriesOf t.pages (l :: B)).filter fun e => p e.1 := by
  rw [h.stored_eq, entriesOf_append, filter_append, append_left_eq_self]
  exact filter_eq_nil_iff.2 fun e he => by simp [hp e.1 (h.left e he)]

lemma StartsAt.ascending_right : Ascending (entriesOf t.pages (l :: B)) := by
  have hasc := h.ascending
  rw [entriesOf_append] at hasc
  exact (ascending_append.1 hasc).2.1

end

end

/-! ## Searches for the first columns -/

/-- What `search` does with an entry. -/
def searchVisit (key k : SlotKey) : ScanStep :=
  if key.width < k.width then
    if k.startsWith key then .take
    else if decodedCompare k key = .gt then .stop
    else .skip
  else if k = key then .take
  else if key < k then .stop
  else .skip

/-- `search`, for a key of any number of columns. -/
def searchKey (t : BPlusTree SlotKey) (key : SlotKey) : List RecordId :=
  (scanFrom (searchVisit key) t (t.findLeafLowerBound key)).map Prod.snd

variable {key k : SlotKey}

lemma searchVisit_eq_take_iff : searchVisit key k = .take ↔ k.startsWith key = true := by
  rw [searchVisit]
  by_cases hlen : key.width < k.width
  · rw [if_pos hlen]
    split_ifs with hstart <;> simp [hstart]
  · rw [if_neg hlen, SlotKey.startsWith_iff_eq (not_lt.1 hlen)]
    split_ifs with heq <;> simp [heq]

lemma searchVisit_eq_stop (h : searchVisit key k = .stop) : k.startsWith key = false ∧
      (key ≤ k ∨ key.width < k.width ∧ decodedCompare k key = .gt) := by
  refine ⟨Bool.eq_false_iff.2 fun hstart => ?_, ?_⟩
  · rw [searchVisit_eq_take_iff.2 hstart] at h
    cases h
  · rw [searchVisit] at h
    split_ifs at h with hlen hstart hgt heq hlt
    · exact .inr ⟨hlen, hgt⟩
    · exact .inl hlt.le

lemma not_startsWith_of_lt (h : k < key) : k.startsWith key = false :=
  Bool.eq_false_iff.2 fun hstart => absurd h (not_lt.2 (SlotKey.le_of_startsWith hstart))

/-- The search does not end in its first leaf before it comes to the keys that it is for. -/
def GetsThere (t : BPlusTree SlotKey) (key : SlotKey) : Prop :=
  ∀ leaf ∈ t.findLeafLowerBound key, ∀ e ∈ (t.pages leaf).entries,
    key.width < e.1.width → e.1 < key → decodedCompare e.1 key ≠ .gt

instance (t : BPlusTree SlotKey) (key : SlotKey) : Decidable (GetsThere t key) :=
  inferInstanceAs (Decidable (∀ leaf ∈ t.findLeafLowerBound key, ∀ e ∈ (t.pages leaf).entries,
    key.width < e.1.width → e.1 < key → decodedCompare e.1 key ≠ .gt))

section

variable {t : BPlusTree SlotKey} {key : SlotKey} {A B : List ℕ} {l : ℕ}

lemma StartsAt.searchKey_eq (h : StartsAt t key A l B)
    (hget : GetsThere t key ∨ ∀ e ∈ t.stored, e.1.startsWith key = false) :
    t.searchKey key = (t.stored.filter fun e => e.1.startsWith key).map Prod.snd := by
  have hpair : (entriesOf t.pages (l :: B)).Pairwise fun e e' =>
      searchVisit key e.1 = .stop → searchVisit key e'.1 ≠ .take := by
    refine h.ascending_right.imp_of_mem fun {e e'} he he' hle hstop htake => ?_
    obtain ⟨hno, hwhy⟩ := searchVisit_eq_stop hstop
    have hstart := searchVisit_eq_take_iff.1 htake
    have hlt : e.1 < key := not_le.1 fun hge =>
      Bool.false_ne_true (hno.symm.trans (SlotKey.startsWith_of_between hge hle hstart))
    rcases hget with hget | hnone
    · obtain ⟨hlen, hgt⟩ := hwhy.resolve_left (not_le.2 hlt)
      exact hget _ h.found e (h.mem_first he hlt) hlen hlt hgt
    · have hmem : e' ∈ t.stored := by
        rw [h.stored_eq, entriesOf_append]
        exact mem_append_right _ he'
      exact Bool.false_ne_true ((hnone e' hmem).symm.trans hstart)
  rw [searchKey, h.scanFrom_eq, scanEntries_eq_filter hpair, h.filter_stored fun k hk => not_startsWith_of_lt hk]
  simp [searchVisit_eq_take_iff]

lemma StartsAt.searchKey_eq_nil (h : StartsAt t key A l B) (hget : ¬ GetsThere t key) :
    t.searchKey key = [] := by
  rw [GetsThere] at hget
  push Not at hget
  obtain ⟨leaf, hleaf, e, he, hlen, hlt, hgt⟩ := hget
  obtain rfl : l = leaf := Option.some.inj (h.found.symm.trans hleaf)
  have hstop : searchVisit key e.1 = .stop := by
    rw [searchVisit, if_pos hlen, if_neg (by simp [not_startsWith_of_lt hlt]), if_pos hgt]
  have hmem : e ∈ entriesOf t.pages (l :: B) := by
    exact mem_append_left _ he
  obtain ⟨es, es', hsplit⟩ := append_of_mem hmem
  have hasc := h.ascending_right
  rw [hsplit] at hasc
  have hes : ∀ e' ∈ es, searchVisit key e'.1 ≠ .take := fun e' he' htake => by
    have hle := (ascending_append.1 hasc).2.2 e' he' e mem_cons_self
    have hno := not_startsWith_of_lt (hle.trans_lt hlt)
    exact Bool.false_ne_true (hno.symm.trans (searchVisit_eq_take_iff.1 htake))
  rw [searchKey, h.scanFrom_eq, hsplit, scanEntries_eq_nil hes hstop]
  rfl

/-- In a tree that is in order, a search for the first columns finds the entries whose keys start with them, unless
it ends before the first of them. -/
lemma Holds.searchKey_perm_iff {S : List (SlotKey × RecordId)} (h : Holds t S) (hw : t.WalksEnd)
    (key : SlotKey) :
    (t.searchKey key).Perm ((S.filter fun e => e.1.startsWith key).map Prod.snd) ↔
      GetsThere t key ∨ ∀ e ∈ S, e.1.startsWith key = false := by
  obtain ⟨hperm, hcase⟩ := h.startsAt hw key
  have hmem : (∀ e ∈ S, e.1.startsWith key = false) ↔ ∀ e ∈ t.stored, e.1.startsWith key = false := by
    simp only [hperm.mem_iff]
  have hfilter := (hperm.filter fun e => e.1.startsWith key).map Prod.snd
  rw [hmem]
  constructor
  · intro hfound
    rcases hcase with ⟨-, hnil⟩ | ⟨A, l, B, hst⟩
    · exact .inr (by simp [hnil])
    · by_cases hget : GetsThere t key
      · exact .inl hget
      · rw [hst.searchKey_eq_nil hget] at hfound
        have hnone := (hfound.trans hfilter.symm).nil_eq
        rw [eq_comm, map_eq_nil_iff, filter_eq_nil_iff] at hnone
        exact .inr fun e he => Bool.eq_false_iff.2 (hnone e he)
  · intro hget
    rcases hcase with ⟨h0, hnil⟩ | ⟨A, l, B, hst⟩
    · rw [searchKey, scanFrom, if_pos h0]
      simpa [hnil] using hfilter
    · rw [hst.searchKey_eq hget]
      exact hfilter

/-- **A search for the first columns**, in a tree that a run of operations in order has made and no walk over which
comes to the limit on its hops, finds the entries whose keys start with them, unless it ends before the first of
them. -/
theorem searchKey_exact_iff {ops : List (TreeOp SlotKey)} (hm : StepsMeet step OpOk fresh ops)
    (hr : runs step fresh ops = some t) (hw : t.WalksEnd) : ∃ S, Contents ops.reverse S ∧
      ∀ key : SlotKey, (t.searchKey key).Perm ((S.filter fun e => e.1.startsWith key).map Prod.snd) ↔
        GetsThere t key ∨ ∀ e ∈ S, e.1.startsWith key = false := by
  obtain ⟨S, hS, h⟩ := Holds.fresh.runs .nil hm hr
  rw [append_nil] at hS
  exact ⟨S, hS, h.searchKey_perm_iff hw⟩

end

/-! ## Trees that insertions make -/

def inserts (es : List (SlotKey × RecordId)) : List (TreeOp SlotKey) := es.map fun e => .insert e.1 e.2

lemma holds_inserts {es : List (SlotKey × RecordId)} {t : BPlusTree SlotKey}
    (hm : StepsMeet step OpOk fresh (inserts es)) (hr : runs step fresh (inserts es) = some t) :
    Holds t es.reverse := by
  obtain ⟨S, hS, h⟩ := Holds.fresh.runs .nil hm hr
  rw [append_nil, inserts, ← map_reverse] at hS
  exact contents_insertRun hS ▸ h

def nullLast : List (SlotKey × RecordId) :=
  [([.int32 7, .int32 1], ⟨1, 0⟩), ([.null, .int32 1], ⟨1, 1⟩)]

/-- Keys with two columns in two leaves, one of them with a NULL, and one key taken out again. -/
def pairsAndNull : List (TreeOp SlotKey) :=
  inserts (((List.range 60).map fun i : ℕ => ([.int32 (i / 4), .int32 i], ⟨1, i⟩)) ++ [([.null, .int32 1], ⟨1, 60⟩)]) ++
    [.remove [.int32 7, .int32 29] ⟨1, 29⟩]

/-- Three of the keys start with 7. -/
theorem searchKey_exact_iff_seven : ∃ t, runs step fresh pairsAndNull = some t ∧
    t.searchKey (intKey 7) = [⟨1, 28⟩, ⟨1, 30⟩, ⟨1, 31⟩] ∧ ∃ S, Contents pairsAndNull.reverse S ∧
      (t.searchKey (intKey 7)).Perm ((S.filter fun e => e.1.startsWith (intKey 7)).map Prod.snd) := by
  obtain ⟨t, ht, hnext, hget, hfound⟩ : ∃ t, runs step fresh pairsAndNull = some t ∧
      t.nextPageNum = 4 ∧ decide (GetsThere t (intKey 7)) = true ∧
        t.searchKey (intKey 7) = [⟨1, 28⟩, ⟨1, 30⟩, ⟨1, 31⟩] := exists_run (by decide +kernel)
  have hroom : t.nextPageNum ≤ kMaxPageChainHops := by
    rw [hnext]
    decide +kernel
  obtain ⟨S, hS, hiff⟩ := searchKey_exact_iff (by decide +kernel) ht (walksEnd_of_le hroom)
  exact ⟨t, ht, hfound, S, hS, (hiff _).2 (.inl (of_decide_eq_true hget))⟩

/-- A search for NULL comes to the key with 7 first, and ends there. -/
theorem not_searchKey_exact_null : ¬ ∀ t, runs step fresh (inserts nullLast) = some t →
    (t.searchKey [.null]).Perm
      ((nullLast.filter fun e => e.1.startsWith [.null]).map Prod.snd) := by
  intro h
  obtain ⟨t, ht, hfound⟩ : ∃ t, runs step fresh (inserts nullLast) = some t ∧
      t.searchKey [.null] = [] := exists_run (by decide +kernel)
  have hlen := (h t ht).length_eq
  rw [hfound] at hlen
  revert hlen
  decide +kernel

/-! ## Ranges -/

section

variable {κ : Type*} [TreeKey κ]

/-- What `range_search` does with an entry. -/
def boundsVisit (low high k : κ) : ScanStep :=
  if high < k then .stop else if k < low then .skip else .take

def rangeSearch (t : BPlusTree κ) (low high : κ) : List RecordId :=
  (scanFrom (boundsVisit low high) t (t.findLeafLowerBound low)).map Prod.snd

/-- The entries of a range, in the order of the leaves. -/
def inRange (t : BPlusTree κ) (low high : κ) : List (κ × RecordId) :=
  t.stored.filter fun e => decide (low ≤ e.1 ∧ e.1 ≤ high)

variable {low high k : κ} {t : BPlusTree κ}

lemma boundsVisit_eq_take_iff : boundsVisit low high k = .take ↔ low ≤ k ∧ k ≤ high := by
  rw [boundsVisit]
  split_ifs with h h' <;> simp_all [not_lt, not_le]

lemma boundsVisit_eq_stop (h : boundsVisit low high k = .stop) : high < k := by
  rw [boundsVisit] at h
  split_ifs at h with hlt
  exact hlt

lemma StartsAt.scan_bounds (h : StartsAt t low A l B) (high : κ) :
    (scanEntries (boundsVisit low high) (entriesOf t.pages (l :: B))).1 = t.inRange low high := by
  have hsmall : ∀ k, k < low → decide (low ≤ k ∧ k ≤ high) = false := fun k hk =>
    decide_eq_false fun hle => absurd hk (not_lt.2 hle.1)
  rw [scanEntries_eq_filter, inRange, h.filter_stored hsmall]
  · simp [boundsVisit_eq_take_iff]
  · refine h.ascending_right.imp fun {e e'} hle hstop htake => ?_
    exact absurd (boundsVisit_eq_take_iff.1 htake).2 (not_le.2 ((boundsVisit_eq_stop hstop).trans_le hle))

/-- **A range search** returns what is stored in the range, in order. -/
theorem Holds.rangeSearch_eq {S : List (κ × RecordId)} (h : Holds t S) (hw : t.WalksEnd) (low high : κ) :
    t.rangeSearch low high = (t.inRange low high).map Prod.snd := by
  obtain ⟨-, ⟨h0, hnil⟩ | ⟨A, l, B, hst⟩⟩ := h.startsAt hw low
  · rw [rangeSearch, scanFrom, if_pos h0, inRange, hnil]
    rfl
  · rw [rangeSearch, hst.scanFrom_eq, hst.scan_bounds]

end

/-- A range search returns the contents in the range, in the order of the keys. -/
def FindsRange (t : BPlusTree SlotKey) (ops : List (TreeOp SlotKey)) (low high : SlotKey) : Prop :=
  ∃ S es, Contents ops.reverse S ∧ es.Perm (S.filter fun e => decide (low ≤ e.1 ∧ e.1 ≤ high)) ∧ Ascending es ∧
    t.rangeSearch low high = es.map Prod.snd

/-- **A range search finds what was inserted and not removed**, in order. -/
theorem rangeSearch_of_run {ops : List (TreeOp SlotKey)} {t : BPlusTree SlotKey}
    (hm : StepsMeet step OpOk fresh ops)
    (hr : runs step fresh ops = some t) (hroom : t.nextPageNum ≤ kMaxPageChainHops) (low high : SlotKey) :
    FindsRange t ops low high := by
  obtain ⟨S, hS, h⟩ := Holds.fresh.runs .nil hm hr
  rw [append_nil] at hS
  obtain ⟨hperm, hcase⟩ := h.startsAt (walksEnd_of_le hroom) low
  have hasc : Ascending t.stored := by
    rcases hcase with ⟨-, hnil⟩ | ⟨A, l, B, hst⟩
    · rw [hnil]
      exact .nil
    · exact hst.stored_eq ▸ hst.ascending
  exact ⟨S, _, hS, hperm.filter _, hasc.filter _, h.rangeSearch_eq (walksEnd_of_le hroom) low high⟩

/-- After a split and removals. -/
theorem rangeSearch_of_run_split : ∃ t, runs step fresh splitAndRemove = some t ∧
    FindsRange t splitAndRemove (intKey 1) (intKey 5) := by
  obtain ⟨t, ht, hroom⟩ : ∃ t, runs step fresh splitAndRemove = some t ∧ t.nextPageNum ≤ 4 :=
    exists_run (by decide +kernel)
  exact ⟨t, ht, rangeSearch_of_run (by decide +kernel) ht (hroom.trans (by decide +kernel)) _ _⟩

/-- The tree is in order, and a search and a range search return the matching entries of a list. -/
def Loaded (t : BPlusTree SlotKey) (es : List (SlotKey × RecordId)) : Prop :=
  Structured t ∧
    (∀ key, (t.search key).Perm ((es.filter fun e => decide (e.1 = key)).map Prod.snd)) ∧
    ∀ low high, (t.rangeSearch low high).Perm
      ((es.filter fun e => decide (low ≤ e.1 ∧ e.1 ≤ high)).map Prod.snd)

lemma Holds.loaded {t : BPlusTree SlotKey} {es : List (SlotKey × RecordId)} (h : Holds t es) (hw : t.WalksEnd) :
    Loaded t es := by
  refine ⟨h.structured, h.search hw, fun low high => ?_⟩
  rw [h.rangeSearch_eq hw]
  exact ((h.startsAt hw low).1.filter _).map _

section

variable {es : List (SlotKey × RecordId)} (hfits : ∀ e ∈ es, TreeKey.fits e.1 = true)
include hfits

/-- What a bulk load makes of sorted entries without NULLs. -/
lemma exists_bulkLoadSorted (hno : ∀ e ∈ es, hasNull e.1 = false) (hasc : Ascending es) :
    ∃ t, fresh.bulkLoadSorted es = some t ∧ Holds t es ∧ PagesFit t.pages ∧
      (es.length ≤ kIndexMaxKeys * kMaxPageChainHops → t.WalksEnd) := by
  have hpages : PagesFit (fresh : BPlusTree SlotKey).pages :=
    PagesFit.update (fun _ => Nat.zero_le _) 1 (Nat.zero_le _)
  have hroot : (fresh : BPlusTree SlotKey).rootPageId ≠ 0 := Nat.one_ne_zero
  rw [bulkLoadSorted, if_neg (by simpa using hno), if_pos (all_eq_true.2 hfits), if_neg hroot]
  dsimp only
  by_cases hnil : es = []
  · subst hnil
    exact ⟨_, if_pos rfl, Holds.fresh.clearHot, hpages, fun _ => walksEnd_of_le (by decide : 2 ≤ kMaxPageChainHops)⟩
  · rw [if_neg hnil]
    refine ⟨_, rfl, and_left_comm.1 ⟨(hpages.bulkLeaves _ _ _ _).bulkLevels _ _ _, ?_⟩⟩
    exact holds_of_bulkLevels (t := fresh) Nat.one_pos Nat.one_lt_two hnil hasc rfl rfl ⟨rfl, rfl, rfl⟩ rfl

/-- **A bulk load** of sorted entries.  Without NULLs a tree is made of them exactly if there are not more leaves than
a walk has hops; with NULLs it is if the entries can be inserted one after the other. -/
theorem bulkLoad_exact (hsorted : es.Pairwise fun e e' => TreeKey.decodedCompare e.1 e'.1 ≠ .gt) :
    ((∀ e ∈ es, hasNull e.1 = false) → ((∃ t, fresh.bulkLoadSorted es = some t ∧ Loaded t es) ↔
        es.length ≤ kIndexMaxKeys * kMaxPageChainHops)) ∧
      ((∃ e ∈ es, hasNull e.1 = true) → insertsOk fresh es = true →
        ∃ t, fresh.bulkLoadSorted es = some t ∧ Loaded t es) := by
  refine ⟨fun hno => ?_, fun hnull hok => ?_⟩
  · have hasc : Ascending es := hsorted.imp_of_mem fun he he' hle =>
      SlotKey.le_of_decodedCompare (hno _ he) (hno _ he') hle
    obtain ⟨t, ht, hholds, hfit, hwalks⟩ := exists_bulkLoadSorted hfits hno hasc
    refine ⟨fun hload => not_lt.1 fun hlong => ?_, fun hlen => ⟨t, ht, hholds.loaded (hwalks hlen)⟩⟩
    obtain ⟨t', ht', -, -, hrange⟩ := hload
    cases ht.symm.trans ht'
    have hne : es ≠ [] := ne_nil_of_length_pos (Nat.zero_lt_of_lt hlong)
    -- the range from the first key to the last is everything
    have hall : es.filter (fun e => decide ((es.head hne).1 ≤ e.1 ∧ e.1 ≤ (es.getLast hne).1)) = es :=
      filter_eq_self.2 fun e he => decide_eq_true
        ⟨hasc.rel_head_of_rel_head_head he le_rfl, hasc.rel_getLast_of_rel_getLast_getLast he le_rfl⟩
    have hlength := (hrange (es.head hne).1 (es.getLast hne).1).length_eq
    rw [hall, length_map, rangeSearch, length_map, scanFrom] at hlength
    have hle : es.length ≤ kIndexMaxKeys * kMaxPageChainHops := by
      rw [← hlength]
      split_ifs
      · exact Nat.zero_le _
      · exact length_scanChain_le hfit _ _
    exact absurd hlong (not_lt.2 hle)
  · have hany : (es.any fun e => hasNull e.1) = true := any_eq_true.2 hnull
    obtain ⟨t, ht, hwalks⟩ := Holds.fresh.exists_foldlM (walksEnd_of_le (by decide : 2 ≤ kMaxPageChainHops)) hok hfits
    rw [bulkLoadSorted, if_pos hany]
    have hholds := Holds.fresh.foldlM_insert hok ht
    rw [append_nil] at hholds
    exact ⟨t, ht, hholds.loaded hwalks⟩

end

/-- A hundred entries in two leaves, and sixty with two NULLs among them. -/
theorem bulkLoad_exact_hundred : (∃ t, fresh.bulkLoadSorted
      ((List.range 100).map fun i : ℕ => (intKey i, RecordId.mk 1 i)) = some t ∧
      Loaded t ((List.range 100).map fun i : ℕ => (intKey i, RecordId.mk 1 i))) ∧
    ∃ t, fresh.bulkLoadSorted ((([.null], ⟨1, 0⟩) : SlotKey × RecordId) :: ([.null], ⟨1, 1⟩) ::
        (List.range 58).map fun i : ℕ => (intKey i, RecordId.mk 2 i)) = some t ∧
      Loaded t (([.null], ⟨1, 0⟩) :: ([.null], ⟨1, 1⟩) ::
        (List.range 58).map fun i : ℕ => (intKey i, RecordId.mk 2 i)) :=
  ⟨((bulkLoad_exact (by decide +kernel) (by decide +kernel)).1 (by decide +kernel)).2 (by decide +kernel),
    (bulkLoad_exact (by decide +kernel) (by decide +kernel)).2 (by decide +kernel) (by decide +kernel)⟩

def pairKey (v w : Sql.Value) : SlotKey := [v, w]

/-- Entries sorted with NULL first, which are inserted one after the other. -/
def nullsFirst : List (SlotKey × RecordId) :=
  (List.replicate 58 (pairKey (.int32 1) .null) ++
    List.replicate 29 (pairKey (.int32 1) (.int32 1)) ++ [pairKey (.int32 2) .null]).mapIdx
      fun i key => (key, RecordId.mk 1 i)

/-- Half of the entries with a NULL are not found. -/
theorem not_loaded_nullsFirst : (∀ e ∈ nullsFirst, TreeKey.fits e.1 = true) ∧
    (nullsFirst.Pairwise fun e e' => TreeKey.decodedCompare e.1 e'.1 ≠ .gt) ∧
    ¬ ∃ t, fresh.bulkLoadSorted nullsFirst = some t ∧ Loaded t nullsFirst := by
  refine ⟨by decide +kernel, by decide +kernel, ?_⟩
  rintro ⟨t, ht, -, hfound, -⟩
  have hmiss : ((fresh.bulkLoadSorted nullsFirst).map fun t =>
      (t.search (pairKey (.int32 1) .null)).length) = some 29 := by decide +kernel
  rw [ht, Option.map_some, Option.some.injEq, (hfound _).length_eq] at hmiss
  revert hmiss
  decide +kernel

/-! ## Batches -/

structure Cursor where
  leafId : ℕ
  slotIdx : ℕ

section

variable {κ : Type*} (visit : κ → ScanStep) (skip : Option RecordId)

/-- The loop of `range_scan_batch` over a leaf: what is put into the batch, how many entries were passed, and
whether the range ended. -/
def fillBatch : ℕ → List (κ × RecordId) → List (κ × RecordId) × ℕ × Bool
  | 0, _ => ([], 0, false)
  | _ + 1, [] => ([], 0, false)
  | room + 1, e :: es =>
    if visit e.1 = .stop then ([], 0, true)
    else if visit e.1 = .skip ∨ skip = some e.2 then
      let (batch, passed, ended) := fillBatch (room + 1) es
      (batch, passed + 1, ended)
    else
      let (batch, passed, ended) := fillBatch room es
      (e :: batch, passed + 1, ended)

/-- The loop of `range_scan_batch` along the leaves. -/
def fillFrom (pages : Pages κ) : ℕ → ℕ → Cursor → List (κ × RecordId) × Cursor
  | 0, _, c => ([], c)
  | fuel + 1, room, c =>
    if c.leafId = 0 ∨ room = 0 then ([], c)
    else
      let es := (pages c.leafId).entries
      let (batch, passed, ended) := fillBatch visit skip room (es.drop c.slotIdx)
      if ended then (batch, ⟨0, c.slotIdx + passed⟩)
      else if c.slotIdx + passed < es.length then (batch, ⟨c.leafId, c.slotIdx + passed⟩)
      else
        let (more, c') := fillFrom pages fuel (room - batch.length) ⟨(pages c.leafId).next, 0⟩
        (batch ++ more, c')

/-- What a batch takes of a leaf is what it takes of the entries that are visited in it, and the rest of the
batch comes from what is behind. -/
lemma fillBatch_spec (es es' : List (κ × RecordId)) (room : ℕ) :
    let r := fillBatch visit skip room es
    let q := MiniDb.rangeScanBatch skip (room - r.1.length) (scanEntries visit (es.drop r.2.1 ++ es')).1
    if r.2.2 then MiniDb.rangeScanBatch skip room (scanEntries visit (es ++ es')).1 = (r.1, [])
    else r.2.1 ≤ es.length ∧ (r.2.1 < es.length → r.1.length = room) ∧
      MiniDb.rangeScanBatch skip room (scanEntries visit (es ++ es')).1 = (r.1 ++ q.1, q.2) := by
  induction es generalizing room with
  | nil => cases room <;> simp [fillBatch]
  | cons e es ih =>
    cases room with
    | zero => simp [fillBatch, MiniDb.rangeScanBatch]
    | succ room =>
      rw [fillBatch, cons_append, scanEntries]
      cases hv : visit e.1 with
      | stop => simp [MiniDb.rangeScanBatch]
      | skip => simpa [hv, Nat.succ_le_succ_iff] using ih (room + 1)
      | take =>
        by_cases hskip : skip = some e.2
        · simpa [hv, hskip, MiniDb.rangeScanBatch] using ih (room + 1)
        · have hrest := ih room
          simp only [hskip, MiniDb.rangeScanBatch] at hrest ⊢
          split_ifs at hrest ⊢ <;> simp_all

variable {visit skip}

/-- The cursor is in the first of these leaves. -/
structure Cursor.At (pages : Pages κ) (c : Cursor) (ls : List ℕ) : Prop where
  chained : Chained pages ls
  pos : ∀ l ∈ ls, l ≠ 0
  leaf : c.leafId = ls.headD 0
  slot_le : ∀ l ∈ ls.head?, c.slotIdx ≤ (pages l).entries.length

/-- What is visited from the cursor on. -/
def Cursor.ahead (visit : κ → ScanStep) (pages : Pages κ) (c : Cursor) (ls : List ℕ) : List (κ × RecordId) :=
  (scanEntries visit ((entriesOf pages ls).drop c.slotIdx)).1

/-- **A batch along the leaves** is a batch of what is visited there, and the cursor is left where the rest
begins, or at no leaf at the end of the range. -/
lemma fillFrom_spec {pages : Pages κ} {batch : List (κ × RecordId)} {c' : Cursor} {fuel room : ℕ}
    {c : Cursor} {ls : List ℕ} (hfill : fillFrom visit skip pages fuel room c = (batch, c'))
    (hat : c.At pages ls) (hlen : ls.length < fuel) :
    ∃ rest, MiniDb.rangeScanBatch skip room (c.ahead visit pages ls) = (batch, rest) ∧
      (c'.leafId = 0 ∧ rest = [] ∨ ∃ ls', c'.leafId ≠ 0 ∧ c'.At pages ls' ∧
        ls'.length ≤ ls.length ∧ rest = c'.ahead visit pages ls') := by
  induction fuel generalizing batch room c ls with
  | zero => cases hlen
  | succ fuel ih =>
    rw [fillFrom] at hfill
    cases ls with
    | nil =>
      have h0 : c.leafId = 0 := hat.leaf
      rw [if_pos (.inl h0)] at hfill
      cases hfill
      refine ⟨[], ?_, .inl ⟨h0, rfl⟩⟩
      cases room <;> simp [Cursor.ahead, scanEntries, MiniDb.rangeScanBatch]
    | cons l ls =>
      have hl : c.leafId = l := hat.leaf
      have hne : l ≠ 0 := hat.pos l mem_cons_self
      by_cases hroom : room = 0
      · rw [if_pos (.inr hroom)] at hfill
        cases hfill
        refine ⟨_, ?_, .inr ⟨_, hl ▸ hne, hat, le_rfl, rfl⟩⟩
        rw [hroom, MiniDb.rangeScanBatch]
      rw [if_neg (by simp [hl, hne, hroom]), hl] at hfill
      have hahead : c.ahead visit pages (l :: ls) = (scanEntries visit
          ((pages l).entries.drop c.slotIdx ++ entriesOf pages ls)).1 := by
        rw [Cursor.ahead, entriesOf_cons, drop_append_of_le_length (hat.slot_le l rfl)]
      have hleaf := fillBatch_spec visit skip ((pages l).entries.drop c.slotIdx) (entriesOf pages ls) room
      rw [hahead]
      rcases hb : fillBatch visit skip room ((pages l).entries.drop c.slotIdx) with ⟨b, n, ended⟩
      rw [hb] at hleaf
      simp only [hb] at hfill
      dsimp only at hleaf
      rw [length_drop, drop_drop] at hleaf
      cases ended with
      | true =>
        cases hfill
        exact ⟨[], hleaf, .inl ⟨rfl, rfl⟩⟩
      | false =>
        obtain ⟨hle, hfull, heq⟩ := hleaf
        rw [heq]
        by_cases hlt : c.slotIdx + n < (pages l).entries.length
        · -- the batch is full, and there is more in the leaf
          rw [if_pos hlt] at hfill
          cases hfill
          rw [hfull (by omega), Nat.sub_self, MiniDb.rangeScanBatch, append_nil]
          refine ⟨_, rfl, .inr ⟨l :: ls, hne, ⟨hat.chained, hat.pos, rfl, ?_⟩, le_rfl, ?_⟩⟩
          · rintro _ ⟨⟩
            exact hlt.le
          · rw [Cursor.ahead, entriesOf_cons, drop_append_of_le_length hlt.le]
        · rw [if_neg hlt] at hfill
          have hnext : (⟨(pages l).next, 0⟩ : Cursor).At pages ls :=
            ⟨hat.chained.2, fun l' hl' => hat.pos l' (mem_cons_of_mem l hl'), hat.chained.1, fun _ _ => Nat.zero_le _⟩
          obtain ⟨rfl, rfl⟩ := Prod.mk.inj hfill
          obtain ⟨rest, hbatch, hrest⟩ := ih rfl hnext (Nat.lt_of_succ_lt_succ hlen)
          rw [Cursor.ahead, drop_zero] at hbatch
          rw [drop_eq_nil_of_le (not_lt.1 hlt), nil_append, hbatch]
          refine ⟨rest, rfl, hrest.imp_right ?_⟩
          rintro ⟨ls', h1, h2, h3, h4⟩
          exact ⟨ls', h1, h2, h3.trans (Nat.le_succ _), h4⟩

end

/-- What `range_count` and `range_scan_batch` do with an entry: equal bounds with fewer columns than the key
stand for all keys that start with them. -/
def rangeVisit (low high k : SlotKey) : ScanStep :=
  if low = high ∧ 0 < low.width ∧ low.width < k.width then
    match Sql.IndexKey.slotStartsWith k low with
    | some true => .take
    | some false => if low < k then .stop else .skip
    | none =>
      if k.startsWith low then .take
      else if decodedCompare k low = .gt ∨ low < k then .stop
      else .skip
  else boundsVisit low high k

def rangeCount (t : BPlusTree SlotKey) (low high : SlotKey) (startAtLeftmost : Bool) : ℕ :=
  (scanFrom (rangeVisit low high) t (if startAtLeftmost then some t.leftmostLeaf else t.findLeafLowerBound low)).length

def rangeScanBatch (t : BPlusTree SlotKey) (low high : SlotKey) (c : Cursor)
    (skip : Option RecordId) (capacity : ℕ) (startAtLeftmost : Bool) : List (SlotKey × RecordId) × Cursor :=
  if capacity = 0 ∨ t.rootPageId = 0 then ([], c)
  else
    let start := if startAtLeftmost then t.leftmostLeaf else (t.findLeafLowerBound low).getD 0
    fillFrom (rangeVisit low high) skip t.pages t.nextPageNum capacity
      (if c.leafId = 0 then ⟨start, 0⟩ else c)

/-- Batches until one is empty or the cursor is at no leaf, up to a number of calls. -/
def drain (t : BPlusTree SlotKey) (low high : SlotKey) (capacity : ℕ) :
    ℕ → Cursor → Option RecordId → List (SlotKey × RecordId)
  | 0, _, _ => []
  | calls + 1, c, skip =>
    let (batch, c') := t.rangeScanBatch low high c skip capacity false
    if batch = [] ∨ c'.leafId = 0 then batch
    else batch ++ drain t low high capacity calls c' (batch.getLast?.map Prod.snd)

/-! ## When batches make up the range -/

section

variable {κ : Type*} {skip : Option RecordId} {listing : List (κ × RecordId)} {n capacity : ℕ}

lemma length_rangeScanBatch_of_mem (h : ∃ e ∈ listing.take n, skip = some e.2) :
    ((MiniDb.rangeScanBatch skip n listing).1 ++ (MiniDb.rangeScanBatch skip n listing).2).length < listing.length := by
  induction listing generalizing n with
  | nil => simp at h
  | cons e listing ih =>
    cases n with
    | zero => simp at h
    | succ n =>
      rw [MiniDb.rangeScanBatch]
      by_cases hskip : skip = some e.2
      · rw [if_pos hskip]
        exact Nat.lt_succ_of_le (rangeScanBatch_sublist skip listing (n + 1)).length_le
      · rw [if_neg hskip]
        exact Nat.succ_lt_succ (ih (by simpa [hskip] using h))

lemma rangeScanBatch_nil {rest : List (κ × RecordId)}
    (h : MiniDb.rangeScanBatch skip (n + 1) listing = ([], rest)) : rest = [] := by
  induction listing with
  | nil => exact (Prod.mk.inj h).2.symm
  | cons e listing ih =>
    rw [MiniDb.rangeScanBatch] at h
    split_ifs at h
    · exact ih h
    · cases (Prod.mk.inj h).1

/-- Batches of a list, up to a number of them. -/
def batchesOf (capacity : ℕ) : ℕ → Option RecordId → List (κ × RecordId) → List (κ × RecordId)
  | 0, _, _ => []
  | calls + 1, skip, listing =>
    let r := MiniDb.rangeScanBatch skip capacity listing
    r.1 ++ batchesOf capacity calls (r.1.getLast?.map Prod.snd) r.2

def nthBatch (capacity : ℕ) (listing : List (κ × RecordId)) (k : ℕ) : List (κ × RecordId) :=
  (listing.drop (capacity * k)).take capacity

/-- No entry has the address of the last entry of the batch before. -/
def LastsApart (capacity : ℕ) (listing : List (κ × RecordId)) : Prop :=
  ∀ k, ∀ last ∈ (nthBatch capacity listing k).getLast?,
    ∀ e ∈ nthBatch capacity listing (k + 1), some last.2 ≠ some e.2

lemma lastsApart_iff : LastsApart capacity listing ↔ (∀ e ∈ (listing.drop capacity).take capacity,
      (listing.take capacity).getLast?.map Prod.snd ≠ some e.2) ∧ LastsApart capacity (listing.drop capacity) := by
  have hshift : ∀ k, nthBatch capacity (listing.drop capacity) k = nthBatch capacity listing (k + 1) := fun k => by
    rw [nthBatch, nthBatch, drop_drop, Nat.mul_succ, Nat.add_comm]
  simp only [LastsApart, hshift]
  rw [← Nat.and_forall_add_one]
  refine and_congr_left fun _ => ?_
  simp only [nthBatch, Nat.mul_zero, drop_zero]
  cases (listing.take capacity).getLast? <;> simp

lemma batchesOf_sublist (capacity calls : ℕ) (skip : Option RecordId)
    (listing : List (κ × RecordId)) : (batchesOf capacity calls skip listing).Sublist listing := by
  induction calls generalizing skip listing with
  | zero => exact nil_sublist _
  | succ calls ih =>
    exact ((List.Sublist.refl _).append (ih _ _)).trans (rangeScanBatch_sublist skip listing capacity)

/-- The batches make up the list if nothing is skipped. -/
lemma batchesOf_eq_iff {calls : ℕ} (skip : Option RecordId) (hpos : 0 < capacity)
    (hcalls : listing.length ≤ calls) : batchesOf capacity calls skip listing = listing ↔
      (∀ e ∈ listing.take capacity, skip ≠ some e.2) ∧ LastsApart capacity listing := by
  induction calls generalizing skip listing with
  | zero =>
    obtain rfl := eq_nil_of_length_eq_zero (Nat.le_zero.1 hcalls)
    simp [batchesOf, LastsApart, nthBatch]
  | succ calls ih =>
    rw [batchesOf]
    by_cases hskip : ∀ e ∈ listing.take capacity, skip ≠ some e.2
    · rw [rangeScanBatch_of_not_mem hskip, lastsApart_iff, and_iff_right hskip, ← ih _ (by rw [length_drop]; omega)]
      conv_lhs => rhs; rw [← take_append_drop capacity listing]
      exact append_right_inj _
    · refine iff_of_false (fun heq => ?_) fun h => hskip h.1
      push Not at hskip
      have hlt := length_rangeScanBatch_of_mem hskip
      have hle := congrArg length heq
      have hsub := (batchesOf_sublist capacity calls
        ((MiniDb.rangeScanBatch skip capacity listing).1.getLast?.map Prod.snd)
        (MiniDb.rangeScanBatch skip capacity listing).2).length_le
      rw [length_append] at hlt hle
      omega

end

section

variable {t : BPlusTree SlotKey} {low high : SlotKey} {capacity calls : ℕ}

lemma drain_eq (hpos : 0 < capacity) (hroot : t.rootPageId ≠ 0) {c : Cursor}
    {skip : Option RecordId} {ls : List ℕ} (hat : c.At t.pages ls) (hleaf : c.leafId ≠ 0)
    (hlen : ls.length < t.nextPageNum) : t.drain low high capacity calls c skip =
      batchesOf capacity calls skip (c.ahead (rangeVisit low high) t.pages ls) := by
  induction calls generalizing c skip ls with
  | zero => rfl
  | succ calls ih =>
    have hnil : ∀ skip, batchesOf capacity calls skip ([] : List (SlotKey × RecordId)) = [] :=
      fun skip => sublist_nil.1 (batchesOf_sublist capacity calls skip [])
    obtain ⟨n, rfl⟩ := Nat.exists_eq_succ_of_ne_zero hpos.ne'
    rw [drain, batchesOf, rangeScanBatch, if_neg (by simp [hroot])]
    dsimp only
    rw [if_neg hleaf]
    rcases hfill : fillFrom (rangeVisit low high) skip t.pages t.nextPageNum (n + 1) c with
      ⟨batch, c'⟩
    obtain ⟨rest, hbatch, hend⟩ := fillFrom_spec hfill hat hlen
    rw [hbatch]
    by_cases hempty : batch = []
    · subst hempty
      rw [if_pos (.inl rfl), rangeScanBatch_nil hbatch, hnil]
      rfl
    · rcases hend with ⟨h0, rfl⟩ | ⟨ls', hne, hat', hle, rfl⟩
      · rw [if_pos (.inr h0), hnil, append_nil]
      · rw [if_neg (by simp [hempty, hne]), ih hat' hne (hle.trans_lt hlen)]

lemma StartsAt.drain_eq (h : StartsAt t low A l B) (hpos : 0 < capacity) :
    t.drain low high capacity calls ⟨0, 0⟩ none = batchesOf capacity calls none
      (scanEntries (rangeVisit low high) (entriesOf t.pages (l :: B))).1 := by
  have hl : l ≠ 0 := h.pos l mem_cons_self
  have hstart : t.drain low high capacity calls ⟨0, 0⟩ none = t.drain low high capacity calls ⟨l, 0⟩ none := by
    cases calls with
    | zero => rfl
    | succ calls => simp [drain, rangeScanBatch, h.found, hl, h.root, hpos.ne']
  rw [hstart, BPlusTree.drain_eq hpos h.root ⟨h.chained, h.pos, rfl, fun _ _ => Nat.zero_le _⟩ hl h.length_lt]
  rfl

lemma scanEntries_congr {κ : Type*} {visit visit' : κ → ScanStep} {es : List (κ × RecordId)}
    (h : ∀ e ∈ es, visit e.1 = visit' e.1) : scanEntries visit es = scanEntries visit' es := by
  induction es with
  | nil => rfl
  | cons e es ih =>
    rw [scanEntries, scanEntries, h e mem_cons_self, ih fun e' he' => h e' (mem_cons_of_mem e he')]

section

variable {S : List (SlotKey × RecordId)} (h : Holds t S) (hw : t.WalksEnd) (hwide : ∀ e ∈ S, e.1.width ≤ low.width)
include h hw hwide

/-- With bounds that have all columns the walk takes what lies between them. -/
lemma Holds.scan_range (hst : StartsAt t low A l B) (high : SlotKey) :
    (scanEntries (rangeVisit low high) (entriesOf t.pages (l :: B))).1 = t.inRange low high := by
  have hvisit : ∀ e ∈ entriesOf t.pages (l :: B), rangeVisit low high e.1 = boundsVisit low high e.1 := by
    intro e he
    have hmem : e ∈ t.stored := by
      rw [hst.stored_eq, entriesOf_append]
      exact mem_append_right _ he
    rw [rangeVisit, if_neg fun hn => absurd hn.2.2 (not_lt.2 (hwide e ((h.startsAt hw low).1.mem_iff.1 hmem)))]
  exact (congrArg Prod.fst (scanEntries_congr hvisit)).trans (hst.scan_bounds high)

lemma Holds.rangeCount_eq (high : SlotKey) : t.rangeCount low high false = (t.inRange low high).length := by
  obtain ⟨-, ⟨h0, hnil⟩ | ⟨A, l, B, hst⟩⟩ := h.startsAt hw low
  · rw [rangeCount, scanFrom, if_pos h0, inRange, hnil]
    rfl
  · rw [rangeCount, if_neg Bool.false_ne_true, hst.scanFrom_eq, h.scan_range hw hwide hst]

/-- Draining the range gives batches of what is stored in it. -/
lemma Holds.drain_eq (hpos : 0 < capacity) (high : SlotKey) : t.drain low high capacity calls ⟨0, 0⟩ none =
    batchesOf capacity calls none (t.inRange low high) := by
  obtain ⟨-, ⟨h0, hnil⟩ | ⟨A, l, B, hst⟩⟩ := h.startsAt hw low
  · have hin : t.inRange low high = [] := by rw [inRange, hnil]; rfl
    rw [hin, sublist_nil.1 (batchesOf_sublist capacity calls none [])]
    cases calls <;> simp [drain, rangeScanBatch, h0]
  · rw [hst.drain_eq hpos, h.scan_range hw hwide hst]

end

/-- The batches of a range and its count are what `range_search` returns. -/
def BatchesExact (t : BPlusTree SlotKey) (low high : SlotKey) (capacity calls : ℕ) : Prop :=
  (t.drain low high capacity calls ⟨0, 0⟩ none).map Prod.snd = t.rangeSearch low high ∧
    t.rangeCount low high false = (t.rangeSearch low high).length

/-- **Batches of a range** between bounds with all columns make up the range, unless an entry has the
address of the last entry of the batch before. -/
theorem batches_exact_iff {S : List (SlotKey × RecordId)} (h : Holds t S) (hw : t.WalksEnd)
    (hwide : ∀ e ∈ S, e.1.width ≤ low.width)
    (hcalls : (t.inRange low high).length ≤ calls) : BatchesExact t low high capacity calls ↔
      (capacity = 0 → t.inRange low high = []) ∧ LastsApart capacity (t.inRange low high) := by
  have hcount : t.rangeCount low high false = (t.rangeSearch low high).length := by
    rw [h.rangeCount_eq hw hwide, h.rangeSearch_eq hw, length_map]
  rw [BatchesExact, and_iff_left hcount, h.rangeSearch_eq hw]
  rcases Nat.eq_zero_or_pos capacity with rfl | hpos
  · have hdrain : t.drain low high 0 calls ⟨0, 0⟩ none = [] := by
      cases calls <;> simp [drain, rangeScanBatch]
    rw [hdrain, map_nil, eq_comm, map_eq_nil_iff]
    simp [LastsApart, nthBatch]
  · have hiff := batchesOf_eq_iff none hpos hcalls
    rw [h.drain_eq hw hwide hpos]
    refine ⟨fun heq => ⟨fun h0 => absurd h0 hpos.ne', (hiff.1 ?_).2⟩, fun hok => ?_⟩
    · exact (batchesOf_sublist ..).eq_of_length (by simpa using congrArg length heq)
    · rw [hiff.2 ⟨fun _ _ => nofun, hok.2⟩]

end

/-- Three keys, of which the first and the second have the same address if `twice` is true. -/
def threeKeys (twice : Bool) : List (SlotKey × RecordId) :=
  [(intKey 1, ⟨1, 0⟩), (intKey 2, ⟨1, if twice then 0 else 1⟩), (intKey 3, ⟨1, 2⟩)]

/-- Three different addresses, two at a time. -/
theorem batches_exact_iff_two : ∃ t, runs step fresh (inserts (threeKeys false)) = some t ∧
    BatchesExact t (intKey 1) (intKey 3) 2 3 := by
  obtain ⟨t, ht, hnext, hin⟩ : ∃ t, runs step fresh (inserts (threeKeys false)) = some t ∧
      t.nextPageNum = 2 ∧ t.inRange (intKey 1) (intKey 3) = threeKeys false :=
    exists_run (by decide +kernel)
  have hroom : t.nextPageNum ≤ kMaxPageChainHops := by
    rw [hnext]
    decide +kernel
  have hapart : LastsApart 2 (threeKeys false) :=
    ((batchesOf_eq_iff none two_pos le_rfl).1 (by decide +kernel)).2
  refine ⟨t, ht, (batches_exact_iff (holds_inserts (by decide +kernel) ht) (walksEnd_of_le hroom) (by decide +kernel)
    (by rw [hin]; decide +kernel)).2 ⟨nofun, ?_⟩⟩
  rw [hin]
  exact hapart

/-- With batches of one entry the second of two entries with the same address is left out. -/
theorem not_batchesExact_twice : ¬ ∀ t, runs step fresh (inserts (threeKeys true)) = some t →
    BatchesExact t (intKey 1) (intKey 3) 1 3 := by
  intro h
  obtain ⟨t, ht, hdiff⟩ : ∃ t, runs step fresh (inserts (threeKeys true)) = some t ∧
      ((t.drain (intKey 1) (intKey 3) 1 3 ⟨0, 0⟩ none).map Prod.snd, t.rangeSearch (intKey 1)
        (intKey 3)) = ([⟨1, 0⟩, ⟨1, 2⟩], [⟨1, 0⟩, ⟨1, 0⟩, ⟨1, 2⟩]) := exists_run (by decide +kernel)
  obtain ⟨hdrain, hrange⟩ := Prod.mk.inj hdiff
  have heq := (h t ht).1
  rw [hdrain, hrange] at heq
  revert heq
  decide +kernel

end BPlusTree

end MiniDb
