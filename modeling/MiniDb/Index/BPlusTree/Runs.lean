import MiniDb.Core.Run
import MiniDb.Index.BPlusTree.BulkLoad
import MiniDb.Index.BPlusTree.Remove
import MiniDb.Index.SlotKey

/-!
# Runs of the tree

What a tree is for is a multiset of entries: `Contents` says what may be in it after a list of operations.
A removal without a page number takes any entry with the key.  `search_perm_contents` says that a search
finds what is there, and `structured_of_run` that the pages are in order, in runs whose operations meet
`OpOk`.

A run that does not is in `splitRun`.  A separator is put behind the separators that equal it, and the new
page with it, so that a page that is split in front of equal separators is not next to its other half.
-/

namespace MiniDb

open List

namespace BPlusTree

inductive TreeOp (κ : Type*) where
  | insert (key : κ) (rid : RecordId)
  | remove (key : κ) (rid : RecordId)
  | bulkLoad (entries : List (κ × RecordId))

def fresh {κ : Type*} : BPlusTree κ := empty.create

/-- The entries that may be in the tree after the operations, the last of them first. -/
inductive Contents {κ : Type*} : List (TreeOp κ) → List (κ × RecordId) → Prop
  | nil : Contents [] []
  | insert {ops S} (key : κ) (rid : RecordId) (h : Contents ops S) :
      Contents (.insert key rid :: ops) ((key, rid) :: S)
  | remove {ops S S'} {rid : RecordId} (e : κ × RecordId) (h : Contents ops S)
      (hrid : ridMatches rid e.2 = true) (hS : S.Perm (e :: S')) :
      Contents (.remove e.1 rid :: ops) S'
  | bulkLoad {ops S} (es : List (κ × RecordId)) (h : Contents ops S) :
      Contents (.bulkLoad es :: ops) (es ++ S)

variable {κ : Type*} [TreeKey κ]

/-- One operation; none if it returns false. -/
def step (t : BPlusTree κ) : TreeOp κ → Option (BPlusTree κ)
  | .insert key rid => t.insert key rid
  | .remove key rid => t.remove key rid
  | .bulkLoad es => t.bulkLoadSorted es

/-- One operation, which leaves the tree as it is if it returns false.  After a bulk load that fails the tree is
not used again: the index is dropped, or stays marked as being rebuilt. -/
def attempt (t : BPlusTree κ) : TreeOp κ → Option (BPlusTree κ)
  | .bulkLoad es => t.bulkLoadSorted es
  | op => some ((t.step op).getD t)

/-- Does the operation leave the tree in order?  There must be fewer pages than the limit on the walks.
An insertion of a key that fits must put the new pages next to the pages that it splits, and take the page above from the tree
as it is; a removal must not empty a leaf that is alone in its parent; a bulk load must find the tree
empty. -/
def OpOk (t : BPlusTree κ) : TreeOp κ → Prop
  | .insert key rid =>
    TreeKey.fits key = true → t.nextPageNum ≤ kMaxPageChainHops ∧ t.insertOk key rid = true
  | .remove key rid => t.nextPageNum ≤ kMaxPageChainHops ∧ t.removeOk key rid = true
  | .bulkLoad es => BulkLoadOk t es

instance (t : BPlusTree κ) : ∀ op, Decidable (OpOk t op)
  | .insert key rid =>
    inferInstanceAs (Decidable (TreeKey.fits key = true →
      t.nextPageNum ≤ kMaxPageChainHops ∧ t.insertOk key rid = true))
  | .remove key rid =>
    inferInstanceAs (Decidable (t.nextPageNum ≤ kMaxPageChainHops ∧ t.removeOk key rid = true))
  | .bulkLoad es =>
    inferInstanceAs (Decidable (if es.any fun e => TreeKey.hasNull e.1 then insertsOk t es = true
      else es = [] ∨ (t.rootPageId = 0 ∨ t.pages t.rootPageId = .leaf [] 0) ∧
        es.Pairwise fun e e' => e.1 ≤ e'.1))

lemma Holds.fresh : Holds (fresh : BPlusTree κ) [] := by
  have hempty : Holds (empty : BPlusTree κ) [] := .inr ⟨.inl rfl, .inl rfl, rfl⟩
  exact hempty.create rfl

variable {t t' : BPlusTree κ} {S : List (κ × RecordId)} {op : TreeOp κ} {ops : List (TreeOp κ)}

/-- What one operation does to what the tree holds. -/
lemma Holds.step (h : Holds t S) (hok : OpOk t op) (ht' : t.step op = some t') (hS : Contents ops S) :
    ∃ S', Contents (op :: ops) S' ∧ Holds t' S' := by
  cases op with
  | insert key rid =>
    have hok' := hok (fits_of_insert ht')
    exact ⟨_, hS.insert key rid, h.insert hok'.1 hok'.2 ht'⟩
  | remove key rid =>
    obtain ⟨e, S', rfl, hrid, hperm, h'⟩ := h.remove hok.1 hok.2 ht'
    exact ⟨S', hS.remove e hrid hperm, h'⟩
  | bulkLoad es => exact ⟨_, hS.bulkLoad es, h.bulkLoadSorted hok ht'⟩

lemma Holds.runs {done : List (TreeOp κ)}
    (h : Holds t S) (hS : Contents done S) (hm : StepsMeet BPlusTree.step OpOk t ops)
    (hr : MiniDb.runs BPlusTree.step t ops = some t') : ∃ S', Contents (ops.reverse ++ done) S' ∧ Holds t' S' := by
  induction ops generalizing t S done with
  | nil =>
    cases hr
    exact ⟨S, hS, h⟩
  | cons op ops ih =>
    obtain ⟨m, hs, hr⟩ := runs_cons_eq_some.1 hr
    obtain ⟨S1, hS1, h1⟩ := h.step hm.1 hs hS
    obtain ⟨S', hS', h'⟩ := ih h1 hS1 (hm.2 m hs) hr
    rw [reverse_cons, append_assoc]
    exact ⟨S', hS', h'⟩

/-! ## Searches -/

/-- A search for any key finds the record ids that are in the tree under it. -/
def FindsContents (t : BPlusTree κ) (ops : List (TreeOp κ)) : Prop :=
  ∃ S, Contents ops.reverse S ∧
    ∀ key, (t.search key).Perm ((S.filter fun e => decide (e.1 = key)).map Prod.snd)

def intKey (v : ℤ) : SlotKey := [Sql.Value.int32 v]

/-- Insertions of these keys, each under another record id. -/
def insertRun (keys : List ℤ) : List (TreeOp SlotKey) :=
  (keys.mapIdx fun i v => (intKey v, RecordId.mk 1 i)).map fun e => .insert e.1 e.2

/-- The first split leaves 5 on both sides, the second puts another separator 5 behind it. -/
def splitRun : List ℤ := List.replicate 30 5 ++ List.replicate 28 6 ++ List.replicate 29 1

/-- Two leaves, and an entry taken from one of them. -/
def splitAndRemove : List (TreeOp SlotKey) :=
  insertRun ((List.range 60).map (↑)) ++ [.remove (intKey 3) ⟨1, 3⟩]

/-- **A search finds what was inserted and not removed.** -/
theorem search_perm_contents {ops : List (TreeOp SlotKey)} {t : BPlusTree SlotKey}
    (hm : StepsMeet step OpOk fresh ops) (hr : runs step fresh ops = some t)
    (hroom : t.nextPageNum ≤ kMaxPageChainHops) : FindsContents t ops := by
  obtain ⟨S, hS, h⟩ := Holds.fresh.runs .nil hm hr
  rw [append_nil] at hS
  exact ⟨S, hS, h.search (walksEnd_of_le hroom)⟩

/-- A leaf is split, and an entry is taken from it. -/
theorem search_perm_contents_split : ∃ t, runs step fresh (splitAndRemove : List (TreeOp SlotKey)) = some t ∧
    FindsContents t splitAndRemove := by
  obtain ⟨t, ht, hnext⟩ : ∃ t, runs step fresh splitAndRemove = some t ∧ t.nextPageNum = 4 :=
    exists_run (by decide +kernel)
  have hroom : t.nextPageNum ≤ kMaxPageChainHops := by
    rw [hnext]
    decide +kernel
  exact ⟨t, ht, search_perm_contents (by decide +kernel) ht hroom⟩

/-- What was inserted and never removed. -/
lemma contents_insertRun {es S : List (SlotKey × RecordId)}
    (h : Contents (es.map fun e => TreeOp.insert e.1 e.2) S) : S = es := by
  induction es generalizing S with
  | nil => cases h; rfl
  | cons e es ih =>
    cases h with
    | insert key rid h => rw [ih h]

/-- After one more insertion, which splits the leaf again, one of the thirty entries is not found. -/
theorem not_findsContents_splitRun : ¬ ∀ t, runs step fresh (insertRun (splitRun ++ [6])) = some t →
    FindsContents t (insertRun (splitRun ++ [6])) := by
  intro h
  obtain ⟨t, ht, hfound⟩ : ∃ t, runs step fresh (insertRun (splitRun ++ [6])) = some t ∧
      (t.search (intKey 5)).length = 29 := exists_run (by decide +kernel)
  obtain ⟨S, hS, hperm⟩ := h t ht
  rw [insertRun, ← map_reverse] at hS
  have hlen := (hperm (intKey 5)).length_eq
  rw [hfound, contents_insertRun hS] at hlen
  revert hlen
  decide +kernel

/-! ## The pages -/

/-- Leaves at the same depth, pages that are not too large, sorted keys, and separators that bound the keys
on both of their sides. -/
def WellShaped (pages : Pages κ) : ℕ → ℕ → Prop
  | 0, id => ∃ es next, pages id = .leaf es next ∧ Ascending es ∧ es.length ≤ kIndexMaxKeys
  | d + 1, id => ∃ ks cs, pages id = .internal ks cs ∧ cs.length = ks.length + 1 ∧
      ks.length ≤ kIndexMaxKeys ∧ ks.Pairwise (· ≤ ·) ∧
      (∀ i k, ks[i]? = some k → (∀ c ∈ cs.take (i + 1), ∀ e ∈ entries pages d c, e.1 ≤ k) ∧
          ∀ c ∈ cs.drop (i + 1), ∀ e ∈ entries pages d c, k ≤ e.1) ∧
      ∀ c ∈ cs, WellShaped pages d c

omit [TreeKey κ] in
/-- The leaves from one on along the chain. -/
def leafChain (pages : Pages κ) : ℕ → ℕ → List ℕ
  | 0, _ => []
  | fuel + 1, id => if id = 0 then [] else id :: leafChain pages fuel (pages id).next

/-- The pages below the root are in order, and the chain from the leftmost leaf goes through the leaves
below the root, in the order of their keys. -/
def Structured (t : BPlusTree κ) : Prop :=
  t.rootPageId = 0 ∨ ∃ d, WellShaped t.pages d t.rootPageId ∧
    leafChain t.pages t.nextPageNum ((leaves t.pages d t.rootPageId).headD 0) =
      leaves t.pages d t.rootPageId ∧
    Ascending (entries t.pages d t.rootPageId)

section

variable {pages : Pages κ} {d id : ℕ}

/-- A separator that is the first key of the child to its right bounds both sides. -/
lemma separator_bounds {ks : List κ} {cs : List ℕ} (hkeys : ks.map some = cs.tail.map (firstKey pages d))
    (hasc : Ascending (cs.flatMap (entries pages d))) {i : ℕ} {k : κ} (hk : ks[i]? = some k) :
    (∀ c ∈ cs.take (i + 1), ∀ e ∈ entries pages d c, e.1 ≤ k) ∧
      (∀ c ∈ cs.drop (i + 1), ∀ e ∈ entries pages d c, k ≤ e.1) ∧
      ∃ c ∈ cs.drop (i + 1), ∃ e ∈ entries pages d c, e.1 = k := by
  obtain ⟨c, hc, hfirst⟩ : ∃ c, cs[i + 1]? = some c ∧ firstKey pages d c = some k := by
    have h := congrArg (fun l => l[i]?) hkeys
    simp only [getElem?_map, getElem?_tail, hk, Option.map_some] at h
    obtain ⟨c, hc, hfirst⟩ := Option.map_eq_some_iff.1 h.symm
    exact ⟨c, hc, hfirst⟩
  obtain ⟨e0, hhead, rfl⟩ := Option.map_eq_some_iff.1 hfirst
  obtain ⟨rest, hent⟩ := head?_eq_some_iff.1 hhead
  have hdrop : cs.drop (i + 1) = c :: cs.drop (i + 2) := by
    obtain ⟨hlt, rfl⟩ := List.getElem?_eq_some_iff.1 hc
    exact drop_eq_getElem_cons hlt
  rw [← take_append_drop (i + 1) cs, flatMap_append, hdrop, flatMap_cons, hent] at hasc
  obtain ⟨-, hright, hcross⟩ := ascending_append.1 hasc
  have hfirstmem : e0 ∈ entries pages d c := by rw [hent]; exact mem_cons_self
  refine ⟨fun c' hc' e he => ?_, fun c' hc' e he => ?_, c, ?_, e0, hfirstmem, rfl⟩
  · exact hcross e (mem_flatMap.2 ⟨c', hc', he⟩) e0 mem_cons_self
  · rw [hdrop] at hc'
    have hle := (ascending_cons.1 hright).1
    rcases mem_cons.1 hc' with rfl | hc'
    · rw [hent] at he
      rcases mem_cons.1 he with rfl | he
      · exact le_refl _
      · exact hle e (mem_append_left _ he)
    · exact hle e (mem_append_right _ (mem_flatMap.2 ⟨c', hc', he⟩))
  · rw [hdrop]
    exact mem_cons_self

lemma Valid.wellShaped (hv : Valid pages d id) (hasc : Ascending (entries pages d id))
    (hsized : ∀ z ∈ nodes pages d id, (pages z).numKeys ≤ kIndexMaxKeys) : WellShaped pages d id := by
  induction d generalizing id with
  | zero =>
    obtain ⟨es, n, hp, -⟩ := hv
    have hsize := hsized id self_mem_nodes
    rw [entries, leaves_zero, entriesOf_cons, entriesOf_nil, append_nil, hp] at hasc
    rw [hp] at hsize
    exact ⟨es, n, hp, hasc, hsize⟩
  | succ d ih =>
    obtain ⟨ks, cs, hp, hne, hkeys, hcs⟩ := hv
    have hsize := hsized id self_mem_nodes
    rw [hp] at hsize
    rw [entries_succ hp] at hasc
    have hlen : cs.length = ks.length + 1 := by
      have hks : ks.length = cs.tail.length := by simpa using congrArg length hkeys
      have hpos := length_pos_of_ne_nil hne
      rw [length_tail] at hks
      omega
    refine ⟨ks, cs, hp, hlen, hsize, ?_, fun i k hk => ?_, fun c hc => ?_⟩
    · refine pairwise_iff_getElem.2 fun i j hi hj hij => ?_
      have hbi := separator_bounds hkeys hasc (getElem?_eq_getElem hi)
      obtain ⟨-, -, c, hc, e, he, hek⟩ := separator_bounds hkeys hasc (getElem?_eq_getElem hj)
      have hmem : c ∈ cs.drop (i + 1) := (drop_sublist_drop_left cs (by omega)).subset hc
      exact hek ▸ hbi.2.1 c hmem e he
    · exact ⟨(separator_bounds hkeys hasc hk).1, (separator_bounds hkeys hasc hk).2.1⟩
    · refine ih (hcs c hc) ?_ fun z hz => hsized z ?_
      · exact (pairwise_flatMap.1 hasc).1 c hc
      · rw [nodes_succ hp]
        exact mem_cons_of_mem _ (mem_flatMap.2 ⟨c, hc, hz⟩)

omit [TreeKey κ] in
lemma Chained.leafChain_eq {ls : List ℕ} {fuel : ℕ} (h : Chained pages ls) (hpos : ∀ l ∈ ls, l ≠ 0)
    (hfuel : ls.length < fuel) : leafChain pages fuel (ls.headD 0) = ls := by
  induction ls generalizing fuel with
  | nil =>
    cases fuel with
    | zero => rfl
    | succ fuel => exact if_pos rfl
  | cons l ls ih =>
    obtain ⟨fuel, rfl⟩ := Nat.exists_eq_succ_of_ne_zero (Nat.ne_zero_of_lt hfuel)
    rw [headD_cons, leafChain, if_neg (hpos l mem_cons_self), h.1,
      ih h.2 (fun l' hl' => hpos l' (mem_cons_of_mem l hl')) (Nat.lt_of_succ_lt_succ hfuel)]

end

lemma Holds.structured (h : Holds t S) : Structured t := by
  rcases h with ⟨d, hI, -, -⟩ | ⟨h0 | ⟨hp, hpos, hused⟩, -, -⟩
  · refine .inr ⟨d, hI.valid.wellShaped hI.ascending hI.sized, ?_, hI.ascending⟩
    exact hI.chained.leafChain_eq (fun l hl => hI.pos l (leaves_subset_nodes hl)) hI.length_leaves_lt
  · exact .inl h0
  · refine .inr ⟨0, ⟨[], 0, hp, List.Pairwise.nil, Nat.zero_le _⟩, ?_, ?_⟩
    · obtain ⟨n, hn⟩ := Nat.exists_eq_succ_of_ne_zero (Nat.ne_zero_of_lt hused)
      have hend : leafChain t.pages n 0 = [] := by cases n <;> rfl
      rw [hn, leaves_zero, headD_cons, leafChain, if_neg hpos.ne', hp]
      exact congrArg (t.rootPageId :: ·) hend
    · rw [entries, leaves_zero, entriesOf_cons, hp]
      exact List.Pairwise.nil

lemma Holds.attempt (h : Holds t S) (hok : OpOk t op) (ht' : t.attempt op = some t') : ∃ S', Holds t' S' := by
  cases op with
  | insert key rid =>
    cases ht'
    cases hs : t.insert key rid with
    | none => exact ⟨S, by rwa [BPlusTree.step, hs]⟩
    | some m =>
      have hok' := hok (fits_of_insert hs)
      exact ⟨_, by rw [BPlusTree.step, hs]; exact h.insert hok'.1 hok'.2 hs⟩
  | remove key rid =>
    cases ht'
    cases hs : t.remove key rid with
    | none => exact ⟨S, by rwa [BPlusTree.step, hs]⟩
    | some m =>
      obtain ⟨e, S', -, -, -, h'⟩ := h.remove hok.1 hok.2 hs
      exact ⟨S', by rw [BPlusTree.step, hs]; exact h'⟩
  | bulkLoad es => exact ⟨_, h.bulkLoadSorted hok ht'⟩

/-- **The pages stay in order.** -/
theorem structured_of_run {ops : List (TreeOp SlotKey)} (hm : StepsMeet attempt OpOk fresh ops) :
    Always attempt Structured fresh ops :=
  always_of_invariant (I := fun t => ∃ S, Holds t S)
    (fun _ _ _ ⟨_, h⟩ hok ht' => h.attempt hok ht') (fun _ ⟨_, h⟩ => h.structured)
    ⟨[], Holds.fresh⟩ hm

/-- The second of two removals of an entry fails. -/
theorem structured_of_run_split : Always attempt Structured fresh
    (splitAndRemove ++ [.remove (intKey 3) ⟨1, 3⟩] : List (TreeOp SlotKey)) :=
  structured_of_run (by decide +kernel)

/-- The keys 6 are in a leaf to the left of a separator 5. -/
theorem not_structured_splitRun : ¬ Always attempt Structured fresh (insertRun splitRun) := by
  intro h
  obtain ⟨t, ⟨hroot, hpage, hleaf⟩, hstructured⟩ := h.eval (R := fun t => t.rootPageId = 3 ∧
    t.pages 3 = .internal [intKey 5, intKey 5] [1, 2, 4] ∧
      t.pages 2 = .leaf ((intKey 5, ⟨1, 29⟩) :: (range 28).map fun i => (intKey 6, ⟨1, 30 + i⟩)) 0) (by decide +kernel)
  rcases hstructured with h0 | ⟨d, hshape, -, -⟩
  · rw [hroot] at h0
    cases h0
  · rw [hroot] at hshape
    cases d with
    | zero =>
      obtain ⟨es, n, hp, -⟩ := hshape
      cases hpage.symm.trans hp
    | succ d =>
      obtain ⟨ks, cs, hp, -, -, -, hbound, hchildren⟩ := hshape
      cases hpage.symm.trans hp
      have hchild := hchildren 2 (by decide)
      cases d with
      | zero =>
        have hle := (hbound 1 (intKey 5) rfl).1 2 (by decide) (intKey 6, ⟨1, 30⟩) (by
          rw [entries, leaves_zero, entriesOf_cons, entriesOf_nil, hleaf]
          decide)
        exact absurd hle (by decide)
      | succ d =>
        obtain ⟨ks, cs, hp, -⟩ := hchild
        cases hleaf.symm.trans hp

end BPlusTree

end MiniDb
