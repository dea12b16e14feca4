import MiniDb.Index.BPlusTree.Walk

/-!
# Splitting pages

If a page is split, its new half has to be put beside it in the page above, and so on upwards.  `Pending` is
the tree at such a moment: page `x` is in its place, its other half `y` is not in the tree yet, and with `y`
after `x` everything would be in order.  `insertIntoParent_spec` goes up from there.

The page above puts `y` after the last separator that is not larger than the first key of `y`.  With equal
separators that need not be after `x`; `splitsInPlace` says of every page that is split that it is.
-/

namespace MiniDb

open Function List

lemma insertIdx_length_append {α : Type*} (xs ys : List α) (a : α) :
    (xs ++ ys).insertIdx xs.length a = xs ++ a :: ys := by
  induction xs with
  | nil => simp
  | cons x xs ih => simpa using ih

variable {cs1 cs2 R' : List ℕ} {p : ℕ}

namespace BPlusTree

variable {κ : Type*} [TreeKey κ]

/-! ## A page that is not in the tree yet -/

/-- Page `x`, of depth `h`, is in the tree, and `y` is to be put after it, under the key `k`. -/
structure Pending (pages : Pages κ) (root next d h x y : ℕ) (k : κ) (A B R : List ℕ) : Prop where
  spine : Spine pages d root h x A B R
  valid : Valid pages d root
  validNew : Valid pages h y
  first : firstKey pages h y = some k
  nodup : (R ++ (nodes pages h x ++ nodes pages h y)).Nodup
  used : ∀ z ∈ R ++ (nodes pages h x ++ nodes pages h y), 0 < z ∧ z < next
  sized : ∀ z ∈ R ++ (nodes pages h x ++ nodes pages h y), (pages z).numKeys ≤ kIndexMaxKeys
  ascending : Ascending (entriesOf pages (A ++ (leaves pages h x ++ leaves pages h y) ++ B))
  chained : Chained pages (A ++ (leaves pages h x ++ leaves pages h y) ++ B)

namespace Pending

variable {pages : Pages κ} {root next d h x y : ℕ} {k : κ} {A B R : List ℕ} {l p m : ℕ} {pages' : Pages κ} {ks : List κ}

section

variable (hP : Pending pages root next d h x y k A B R)
include hP

section

variable (hl : l ∈ A ++ (leaves pages h x ++ leaves pages h y) ++ B)
include hl

lemma leaf_page : ∃ es n, pages l = .leaf es n ∧ es ≠ [] := by
  by_cases hy : l ∈ leaves pages h y
  · exact hP.validNew.shaped.leaf_page l hy
  · refine hP.valid.shaped.leaf_page l ?_
    rw [hP.spine.leaves_eq]
    simp only [mem_append] at hl ⊢
    tauto

lemma leaf_mem : l ∈ R ++ (nodes pages h x ++ nodes pages h y) := by
  simp only [mem_append] at hl ⊢
  rcases hl with (hl | hl | hl) | hl
  · exact .inl (hP.spine.left_subset hl)
  · exact .inr (.inl (leaves_subset_nodes hl))
  · exact .inr (.inr (leaves_subset_nodes hl))
  · exact .inl (hP.spine.right_subset hl)

end

omit hP in
lemma grow (hP : Pending pages root next d d root y k [] [] [])
    (hpage : pages' next = .internal [k] [root, y]) (hother : ∀ z, z ≠ next → pages' z = pages z) :
    Coherent pages' next (next + 1) (d + 1) ∧
      nodes pages' (d + 1) next = next :: (nodes pages d root ++ nodes pages d y) ∧
      leaves pages' (d + 1) next = leaves pages d root ++ leaves pages d y ∧
      ∀ l ∈ leaves pages d root ++ leaves pages d y, pages' l = pages l := by
  have hfresh : ∀ z ∈ nodes pages d root ++ nodes pages d y, z ≠ next := fun z hz =>
    Nat.ne_of_lt (hP.used z hz).2
  have hsame : ∀ c ∈ [root, y], ∀ z ∈ nodes pages d c, pages' z = pages z := by
    intro c hc z hz
    refine hother z (hfresh z ?_)
    rcases mem_cons.1 hc with rfl | hc
    · exact mem_append_left _ hz
    · cases mem_singleton.1 hc
      exact mem_append_right _ hz
  have hnodes : nodes pages' (d + 1) next = next :: (nodes pages d root ++ nodes pages d y) := by
    rw [nodes_of_children hpage hsame]
    simp
  have hleaves : leaves pages' (d + 1) next = leaves pages d root ++ leaves pages d y := by
    rw [leaves_of_children hpage hsame]
    simp
  have hleaf : ∀ l ∈ leaves pages d root ++ leaves pages d y, pages' l = pages l := by
    intro l hl
    refine hother l (hfresh l (hP.leaf_mem ?_))
    simpa using hl
  have hasc := hP.ascending
  have hchain := hP.chained
  rw [nil_append, append_nil] at hasc hchain
  refine ⟨⟨?_, ?_, ?_, ?_, ?_⟩, hnodes, hleaves, hleaf⟩
  · refine valid_of_children hpage (cons_ne_nil _ _) ?_ (fun c hc => ?_) hsame
    · rw [tail_cons, map_singleton, map_singleton, hP.first]
    · rcases mem_cons.1 hc with rfl | hc
      · exact hP.valid
      · cases mem_singleton.1 hc
        exact hP.validNew
  · rw [hnodes]
    exact nodup_cons.2 ⟨fun hmem => hfresh next hmem rfl, hP.nodup⟩
  · intro z hz
    rw [hnodes] at hz
    rcases mem_cons.1 hz with rfl | hz
    · have hroot := hP.used root (by simp [self_mem_nodes])
      omega
    · have := hP.used z hz
      omega
  · rw [entries, hleaves, entriesOf_congr hleaf]
    exact hasc
  · rw [hleaves]
    exact hchain.congr fun l hl => by rw [hleaf l hl]

/-- Below the root, the new page is put beside its other half in the page above. -/
lemma attach {A' B' : List ℕ} (hs : Spine pages d root (h + 1) p A' B' R')
    (hp : pages p = .internal ks (cs1 ++ x :: cs2)) (hA : A = A' ++ cs1.flatMap (leaves pages h))
    (hB : B = cs2.flatMap (leaves pages h) ++ B')
    (hR : R.Perm (R' ++ p :: (cs1.flatMap (nodes pages h) ++ cs2.flatMap (nodes pages h))))
    (hpage : pages' p = .internal (ks.insertIdx cs1.length k) (cs1 ++ x :: y :: cs2))
    (hother : ∀ z, z ≠ p → pages' z = pages z) : Coherent pages' root next d ∧ Spine pages' d root (h + 1) p A' B' R' ∧
      leaves pages' d root = A ++ (leaves pages h x ++ leaves pages h y) ++ B ∧
      (∀ l ∈ A ++ (leaves pages h x ++ leaves pages h y) ++ B, pages' l = pages l) ∧
      ∀ z ∈ nodes pages' d root, z ≠ p → (pages' z).numKeys ≤ kIndexMaxKeys := by
  set cs := cs1 ++ x :: y :: cs2 with hcs
  have hperm : (R' ++ p :: cs.flatMap (nodes pages h)).Perm (R ++ (nodes pages h x ++ nodes pages h y)) := by
    refine List.Perm.trans ?_ (hR.append_right _).symm
    rw [append_assoc, cons_append, hcs, flatMap_append, flatMap_cons, flatMap_cons]
    refine List.Perm.append_left R' (List.Perm.cons p ?_)
    rw [append_assoc]
    refine List.Perm.append_left _ ?_
    rw [← append_assoc]
    exact perm_append_comm
  have hnodup := hperm.nodup_iff.2 hP.nodup
  obtain ⟨-, hnodup', hdisj⟩ := nodup_append.1 hnodup
  obtain ⟨hpfresh, -⟩ := nodup_cons.1 hnodup'
  have hRsame : ∀ z ∈ R', pages' z = pages z := fun z hz =>
    hother z (hdisj z hz p mem_cons_self)
  have hsame : ∀ c ∈ cs, ∀ z ∈ nodes pages h c, pages' z = pages z := by
    intro c hc z hz
    refine hother z ?_
    rintro rfl
    exact hpfresh (mem_flatMap.2 ⟨c, hc, hz⟩)
  have hnodes := nodes_of_children hpage hsame
  have hspine := hs.congr hRsame
  have hleaves : A' ++ leaves pages' (h + 1) p ++ B' = A ++ (leaves pages h x ++ leaves pages h y) ++ B := by
    rw [leaves_of_children hpage hsame, hA, hB, hcs]
    simp
  have hleaf : ∀ l ∈ A ++ (leaves pages h x ++ leaves pages h y) ++ B, pages' l = pages l := by
    intro l hl
    refine hother l ?_
    rintro rfl
    obtain ⟨es, n, hpl, -⟩ := hP.leaf_page hl
    rw [hp] at hpl
    cases hpl
  have hvp : Valid pages (h + 1) p := hs.valid hP.valid
  obtain ⟨ks', cs', hp', -, hks, hchildren⟩ := hvp
  cases hp.symm.trans hp'
  refine ⟨.of_spine hs hP.valid hRsame ?_ (fun _ => ?_) ?_ ?_ ?_ ?_, hspine, ?_, hleaf, ?_⟩
  · refine valid_of_children hpage (by simp [hcs]) ?_ (fun c hc => ?_) hsame
    · obtain ⟨ks1, ks2, rfl, hlen, hks1, hks2⟩ := keys_split hks
      rw [← hlen, insertIdx_length_append, hcs, tail_insert]
      simp [hks1, hks2, hP.first]
    · by_cases hcy : c = y
      · exact hcy ▸ hP.validNew
      · refine hchildren c ?_
        simp only [hcs, mem_append, mem_cons] at hc ⊢
        tauto
  · -- the first child is the same, and so is its tree
    obtain ⟨c, hc⟩ : ∃ c, (cs1 ++ x :: cs2).head? = some c := by cases cs1 <;> simp
    have hc' : cs.head? = some c := by cases cs1 <;> simpa [hcs] using hc
    exact firstKey_of_head hp hpage hc hc' (hchildren c (mem_of_mem_head? hc)).shaped (hsame c (mem_of_mem_head? hc'))
  · rw [hnodes]
    exact hnodup
  · intro z hz
    rw [hnodes] at hz
    exact hP.used z (hperm.mem_iff.1 hz)
  · rw [hleaves, entriesOf_congr hleaf]
    exact hP.ascending
  · rw [hleaves]
    exact hP.chained.congr fun l hl => by rw [hleaf l hl]
  · rw [hspine.leaves_eq, hleaves]
  · intro z hz hne
    rw [hother z hne]
    refine hP.sized z (hperm.mem_iff.1 ?_)
    rw [← hnodes]
    exact hspine.nodes_perm.mem_iff.1 hz

end

section

variable (hC : Coherent pages root next d)
include hC

/-- A page is divided into itself and the page that is new. -/
lemma of_divide (hs : Spine pages d root h p A B R)
    (hsized : ∀ z ∈ nodes pages d root, z ≠ p → (pages z).numKeys ≤ kIndexMaxKeys)
    (hR : ∀ z ∈ R, pages' z = pages z) (hx : Valid pages' h p) (hy : Valid pages' h next)
    (hfirst : firstKey pages' h p = firstKey pages h p) (hk : firstKey pages' h next = some k)
    (hnodes : (nodes pages' h p ++ nodes pages' h next).Perm (next :: nodes pages h p))
    (hsized' : ∀ z ∈ next :: nodes pages h p, (pages' z).numKeys ≤ kIndexMaxKeys)
    (hentries : entriesOf pages' (leaves pages' h p ++ leaves pages' h next) = entries pages h p)
    (hchain : Chained pages' (A ++ (leaves pages' h p ++ leaves pages' h next) ++ B)) :
    Pending pages' root (next + 1) d h p next k A B R := by
  have hperm : (R ++ (nodes pages' h p ++ nodes pages' h next)).Perm (next :: nodes pages d root) := by
    refine (List.Perm.append_left R hnodes).trans (perm_middle.trans ?_)
    exact List.Perm.cons next hs.nodes_perm.symm
  have hsame : ∀ {ls}, ls ⊆ R → entriesOf pages' ls = entriesOf pages ls := fun hls =>
    entriesOf_congr fun l hl => hR l (hls hl)
  refine ⟨hs.congr hR, hs.valid_of hC.valid hR hx fun _ => hfirst, hy, hk, ?_, ?_, ?_, ?_, hchain⟩
  · refine hperm.nodup_iff.2 (nodup_cons.2 ⟨fun hmem => ?_, hC.nodup⟩)
    exact lt_irrefl next (hC.used next hmem).2
  · intro z hz
    rcases mem_cons.1 (hperm.mem_iff.1 hz) with rfl | hz
    · have := hC.used root self_mem_nodes
      omega
    · have := hC.used z hz
      omega
  · intro z hz
    rcases mem_append.1 hz with hz | hz
    · rw [hR z hz]
      exact hsized z (hs.mem_nodes_of_mem hz) (hC.ne_of_mem hs hz).1
    · exact hsized' z (hnodes.mem_iff.1 hz)
  · have hasc := hC.ascending
    rw [entries, hs.leaves_eq, entriesOf_append, entriesOf_append] at hasc
    rw [entriesOf_append, entriesOf_append, hsame hs.left_subset, hsame hs.right_subset, hentries]
    exact hasc

lemma of_divideInternal {cs : List ℕ} (hs : Spine pages d root (h + 1) p A B R) (hp : pages p = .internal ks cs)
    (hsized : ∀ z ∈ nodes pages d root, z ≠ p → (pages z).numKeys ≤ kIndexMaxKeys)
    (hm : m ≤ kIndexMaxKeys) (hlen : m < ks.length) (hlen' : ks.length ≤ m + 1 + kIndexMaxKeys) (key : κ)
    (hpageP : pages' p = .internal (ks.take m) (cs.take (m + 1)))
    (hpageN : pages' next = .internal (ks.drop (m + 1)) (cs.drop (m + 1)))
    (hother : ∀ z, z ≠ p → z ≠ next → pages' z = pages z) :
    Pending pages' root (next + 1) d (h + 1) p next (ks.getD m key) A B R ∧
      leaves pages' (h + 1) p ++ leaves pages' (h + 1) next = leaves pages (h + 1) p ∧
      ∀ l ∈ leaves pages d root, pages' l = pages l := by
  have hother' : ∀ z ∈ nodes pages d root, z ≠ p → pages' z = pages z := fun z hz hne =>
    hother z hne (hC.used z hz).2.ne
  have hRsame : ∀ z ∈ R, pages' z = pages z := fun z hz =>
    hother z (hC.ne_of_mem hs hz).1 (hC.ne_of_mem hs hz).2
  have hbelow : ∀ z ∈ cs.flatMap (nodes pages h), z ∈ nodes pages d root ∧ z ≠ p := by
    intro z hz
    have hnodup := (nodup_append.1 (hs.nodes_perm.nodup_iff.1 hC.nodup)).2.1
    rw [nodes_succ hp] at hnodup
    refine ⟨hs.nodes_perm.mem_iff.2 (mem_append_right R ?_), ?_⟩
    · rw [nodes_succ hp]
      exact mem_cons_of_mem _ hz
    · rintro rfl
      exact (nodup_cons.1 hnodup).1 hz
  have hsame : ∀ c ∈ cs, ∀ z ∈ nodes pages h c, pages' z = pages z := by
    intro c hc z hz
    obtain ⟨hmem, hne⟩ := hbelow z (mem_flatMap.2 ⟨c, hc, hz⟩)
    exact hother' z hmem hne
  obtain ⟨ks', cs', hp', hne, hks, hchildren⟩ := hs.valid hC.valid
  cases hp.symm.trans hp'
  obtain ⟨hkeysP, c, cs', hdrop, hc, hkeysN⟩ := keys_divide hks hlen key
  have hsameP : ∀ c ∈ cs.take (m + 1), ∀ z ∈ nodes pages h c, pages' z = pages z := fun c hc =>
    hsame c (mem_of_mem_take hc)
  have hsameN : ∀ c ∈ cs.drop (m + 1), ∀ z ∈ nodes pages h c, pages' z = pages z := fun c hc =>
    hsame c (mem_of_mem_drop hc)
  have hcs : c ∈ cs := mem_of_mem_drop (hdrop ▸ mem_cons_self)
  have hleaves : leaves pages' (h + 1) p ++ leaves pages' (h + 1) next = leaves pages (h + 1) p := by
    rw [leaves_of_children hpageP hsameP, leaves_of_children hpageN hsameN, leaves_succ hp,
      ← flatMap_append, take_append_drop]
  have hleaf : ∀ l ∈ leaves pages d root, pages' l = pages l := by
    intro l hl
    refine hother' l (leaves_subset_nodes hl) ?_
    rintro rfl
    obtain ⟨es, n, hpl, -⟩ := hC.valid.shaped.leaf_page l hl
    rw [hp] at hpl
    cases hpl
  refine ⟨.of_divide hC hs hsized hRsame ?_ ?_ ?_ ?_ ?_ ?_ ?_ ?_, hleaves, hleaf⟩
  · exact valid_of_children hpageP (by simpa using hne) hkeysP
      (fun c hc => hchildren c (mem_of_mem_take hc)) hsameP
  · refine valid_of_children hpageN (by simp [hdrop]) ?_
      (fun c hc => hchildren c (mem_of_mem_drop hc)) hsameN
    rw [hdrop]
    exact hkeysN
  · obtain ⟨c0, cs0, rfl⟩ := exists_cons_of_ne_nil hne
    exact firstKey_of_head hp hpageP rfl (by simp) (hchildren c0 mem_cons_self).shaped
      (hsame c0 mem_cons_self)
  · rw [firstKey_succ hpageN (by rw [hdrop]; rfl) ((hchildren c hcs).shaped.congr (hsame c hcs)),
      firstKey_congr (hsame c hcs), hc]
  · rw [nodes_of_children hpageP hsameP, nodes_of_children hpageN hsameN, nodes_succ hp, cons_append]
    refine (List.Perm.cons p perm_middle).trans ((List.Perm.swap _ _ _).trans ?_)
    rw [← flatMap_append, take_append_drop]
  · intro z hz
    rw [nodes_succ hp] at hz
    rcases mem_cons.1 hz with rfl | hz
    · rw [hpageN, IndexPage.numKeys, length_drop]
      omega
    · rcases mem_cons.1 hz with rfl | hz
      · rw [hpageP, IndexPage.numKeys, length_take]
        omega
      · obtain ⟨hmem, hne⟩ := hbelow z hz
        rw [hother' z hmem hne]
        exact hsized z hmem hne
  · rw [hleaves, entries]
    refine entriesOf_congr fun l hl => hleaf l ?_
    rw [hs.leaves_eq]
    exact mem_append_left _ (mem_append_right _ hl)
  · rw [hleaves, ← hs.leaves_eq]
    exact hC.chained.congr fun l hl => by rw [hleaf l hl]

lemma of_divideLeaf {n : ℕ} {es : List (κ × RecordId)} (hs : Spine pages d root 0 l A B R)
    (hp : pages l = .leaf es n)
    (hsized : ∀ z ∈ nodes pages d root, z ≠ l → (pages z).numKeys ≤ kIndexMaxKeys)
    (hm : 0 < m) (hm' : m ≤ kIndexMaxKeys) (hlen : es.length ≤ m + kIndexMaxKeys) {e : κ × RecordId}
    (he : (es.drop m).head? = some e) (hpageL : pages' l = .leaf (es.take m) next)
    (hpageN : pages' next = .leaf (es.drop m) n) (hother : ∀ z, z ≠ l → z ≠ next → pages' z = pages z) :
    Pending pages' root (next + 1) d 0 l next e.1 A B R := by
  have hRsame : ∀ z ∈ R, pages' z = pages z := fun z hz =>
    hother z (hC.ne_of_mem hs hz).1 (hC.ne_of_mem hs hz).2
  have hright : es.drop m ≠ [] := by
    rintro hnil
    rw [hnil] at he
    cases he
  have hleft : es.take m ≠ [] := by
    rintro hnil
    rcases take_eq_nil_iff.1 hnil with rfl | rfl
    · exact lt_irrefl 0 hm
    · exact hright drop_nil
  refine .of_divide hC hs hsized hRsame ⟨_, _, hpageL, hleft⟩ ⟨_, _, hpageN, hright⟩ ?_ ?_ ?_ ?_ ?_ ?_
  · rw [firstKey, firstKey, entries, entries]
    simp [hpageL, hp, IndexPage.entries, head?_take, hm.ne']
  · rw [firstKey, entries]
    simp [hpageN, IndexPage.entries, he]
  · exact List.Perm.swap _ _ _
  · intro z hz
    rcases mem_cons.1 hz with rfl | hz
    · rw [hpageN, IndexPage.numKeys, length_drop]
      omega
    · cases mem_singleton.1 hz
      rw [hpageL, IndexPage.numKeys, length_take]
      omega
  · simp [entries, hpageL, hpageN, hp, IndexPage.entries]
  · have hchain := hC.chained
    rw [hs.leaves_eq, leaves_zero, append_assoc] at hchain
    rw [append_assoc]
    refine Chained.insert hchain (fun a ha => ?_) (fun b hb => ?_) ?_ ?_
    · rw [hRsame a (hs.left_subset ha)]
    · rw [hRsame b (hs.right_subset hb)]
    · rw [hpageL]
      rfl
    · rw [hpageN, hp]
      rfl

end

end Pending

/-! ## Up the tree -/

/-- Two trees agree on the page above, if they agree outside of a page. -/
lemma findParent_agree {t t0 : BPlusTree κ} {d h x : ℕ} {A B R : List ℕ}
    (ht : Coherent t.pages t.rootPageId t.nextPageNum d) (hroom : t.nextPageNum ≤ kMaxPageChainHops)
    (ht0 : Coherent t0.pages t0.rootPageId t0.nextPageNum d)
    (hroom0 : t0.nextPageNum ≤ kMaxPageChainHops) (hroot : t.rootPageId = t0.rootPageId)
    (hs : Spine t.pages d t.rootPageId h x A B R) (hR : ∀ z ∈ R, t.pages z = t0.pages z)
    (hsub : R ⊆ nodes t0.pages d t0.rootPageId) : t.findParent x = t0.findParent x := by
  rcases hs.le.lt_or_eq with hlt | rfl
  · obtain ⟨p, ks, cs1, cs2, A', B', R', -, hp, -, -, hperm⟩ := hs.parent hlt
    have hmem : p ∈ R := hperm.mem_iff.2 (by simp)
    have hx : x ∈ (t.pages p).children := by simp [hp, IndexPage.children]
    rw [ht.findParent_eq hroom (hs.mem_nodes_of_mem hmem) hx, ht0.findParent_eq hroom0 (hsub hmem) (hR p hmem ▸ hx)]
  · obtain ⟨rfl, -⟩ := hs.eq_root
    rw [findParent, findParent, if_pos rfl, if_pos hroot.symm]

/-- Is the place that `insert_into_parent` finds for a new page by its first key the one beside the page
that is split?  The same is asked of the pages above that are split in turn.  `next` is the number of the
next page. -/
def splitsInPlace (t : BPlusTree κ) : ℕ → ℕ → ℕ → κ → Bool
  | 0, _, _, _ => true
  | fuel + 1, next, node, key =>
    if t.findParent node = 0 then true
    else
      match t.pages (t.findParent node) with
      | .leaf _ _ => true
      | .internal ks cs =>
        let pos := ks.findIdx fun k => decide (key < k)
        let keys := ks.insertIdx pos key
        decide (pos = cs.idxOf node) &&
          (decide (ks.length + 1 ≤ kIndexMaxKeys) || (decide (next ≤ kMaxPageChainHops) &&
              splitsInPlace t fuel (next + 1) (t.findParent node) (keys.getD (keys.length / 2) key)))

/-- What is left of an insertion that went up a tree of depth `d`: the invariant, with the new leaves in their
place, at most one level deeper. -/
structure Settled (t t' : BPlusTree κ) (d : ℕ) (ls : List ℕ) : Prop where
  inv : ∃ d', Inv t' d' ∧ d' ≤ d + 1 ∧ leaves t'.pages d' t'.rootPageId = ls
  same : ∀ l ∈ ls, t'.pages l = t.pages l
  hot : t'.hotLeafId = t.hotLeafId

section

variable {t : BPlusTree κ} {d h x y : ℕ} {k : κ} {A B R : List ℕ}

/-- At the root the way up ends with a new root. -/
lemma settled_root (hP : Pending t.pages t.rootPageId t.nextPageNum d d x y k A B R) (fuel : ℕ) :
    Settled t (insertIntoParent (fuel + 1) t 0 k x y) d (A ++ (leaves t.pages d x ++ leaves t.pages d y) ++ B) := by
  obtain ⟨rfl, rfl, rfl, rfl⟩ := hP.spine.eq_root
  rw [insertIntoParent, if_pos rfl, nil_append, append_nil]
  have hpage : (t.setPage t.nextPageNum (.internal [k] [t.rootPageId, y])).pages t.nextPageNum =
      .internal [k] [t.rootPageId, y] := update_self _ _ _
  have hother : ∀ z, z ≠ t.nextPageNum →
      (t.setPage t.nextPageNum (.internal [k] [t.rootPageId, y])).pages z = t.pages z :=
    fun z hz => update_of_ne hz _ _
  obtain ⟨hC, hnodes, hleaves, hleaf⟩ := hP.grow hpage hother
  refine ⟨⟨d + 1, ⟨hC, fun z hz => ?_⟩, le_rfl, hleaves⟩, hleaf, rfl⟩
  rw [hnodes] at hz
  rcases mem_cons.1 hz with rfl | hz
  · rw [hpage]
    exact (by decide : 1 ≤ kIndexMaxKeys)
  · rw [hother z (hP.used z hz).2.ne]
    exact hP.sized z hz

/-- Among the children of the page above, the place of a page that is split. -/
lemma idxOf_child (hP : Pending t.pages t.rootPageId t.nextPageNum d h x y k A B R) (hperm : R.Perm
      (R' ++ p :: (cs1.flatMap (nodes t.pages h) ++ cs2.flatMap (nodes t.pages h)))) :
    (cs1 ++ x :: cs2).idxOf x = cs1.length := by
  have hnot : x ∉ cs1 := by
    intro hmem
    have hxR : x ∈ R := by
      refine hperm.mem_iff.2 (mem_append_right _ (mem_cons_of_mem _ ?_))
      exact mem_append_left _ (mem_flatMap.2 ⟨x, hmem, self_mem_nodes⟩)
    exact (nodup_append.1 hP.nodup).2.2 x hxR x (mem_append_left _ self_mem_nodes) rfl
  rw [idxOf_append_of_notMem hnot, idxOf_cons_self, Nat.add_zero]

/-- `insert_into_parent` at a page whose place for the key is beside the page that is split. -/
lemma insertIntoParent_eq {ks : List κ} (hp0 : p ≠ 0) (hp : t.pages p = .internal ks (cs1 ++ x :: cs2))
    (hpos : (ks.findIdx fun k' => decide (k < k')) = cs1.length) (fuel : ℕ) :
    ∀ t1 keys, keys = ks.insertIdx cs1.length k → t1 = t.setPage p (.internal keys (cs1 ++ x :: y :: cs2)) →
      insertIntoParent (fuel + 1) t p k x y = if ks.length + 1 > kIndexMaxKeys then
          insertIntoParent fuel (t1.divideInternal p keys (cs1 ++ x :: y :: cs2)) (t1.findParent p)
            (keys.getD (keys.length / 2) k) p t1.nextPageNum else t1 := by
  rintro _ _ rfl rfl
  have hinsert : (cs1 ++ x :: cs2).insertIdx (cs1.length + 1) y = cs1 ++ x :: y :: cs2 := by
    simpa using insertIdx_length_append (cs1 ++ [x]) cs2 y
  rw [insertIntoParent, if_neg hp0, hp]
  dsimp only
  rw [hpos, hinsert]

end

/-- **Up the tree**: if every new page is put beside its other half, the tree is in order again. -/
theorem insertIntoParent_spec {t0 : BPlusTree κ} {d : ℕ} (h0 : Coherent t0.pages t0.rootPageId t0.nextPageNum d)
    (hroom0 : t0.nextPageNum ≤ kMaxPageChainHops) : ∀ (fuel : ℕ) {t : BPlusTree κ} {h x y : ℕ} {k : κ} {A B R : List ℕ},
      Pending t.pages t.rootPageId t.nextPageNum d h x y k A B R →
      t.rootPageId = t0.rootPageId → (∀ z ∈ R, t.pages z = t0.pages z) →
      R ⊆ nodes t0.pages d t0.rootPageId → d - h < fuel → splitsInPlace t0 fuel t.nextPageNum x k = true →
      Settled t (insertIntoParent fuel t (t0.findParent x) k x y) d
        (A ++ (leaves t.pages h x ++ leaves t.pages h y) ++ B) := by
  intro fuel
  induction fuel with
  | zero => exact fun _ _ _ _ hfuel => absurd hfuel (Nat.not_lt_zero _)
  | succ fuel ih =>
    intro t h x y k A B R hP hroot hR hsub hfuel hplace
    rcases hP.spine.le.lt_or_eq with hlt | rfl
    · obtain ⟨p, ks, cs1, cs2, A', B', R', hs, hp, hA, hB, hperm⟩ := hP.spine.parent hlt
      have hpR : p ∈ R := hperm.mem_iff.2 (by simp)
      have hR' : R' ⊆ R := fun z hz => hperm.mem_iff.2 (mem_append_left _ hz)
      have hx : x ∈ (t.pages p).children := by simp [hp, IndexPage.children]
      have hparent : t0.findParent x = p :=
        h0.findParent_eq hroom0 (hsub hpR) (hR p hpR ▸ hx)
      have hp0 : p ≠ 0 := h0.pos p (hsub hpR)
      rw [splitsInPlace, hparent, if_neg hp0, ← hR p hpR, hp] at hplace
      dsimp only at hplace
      rw [idxOf_child hP hperm] at hplace
      obtain ⟨hpos, habove⟩ := Bool.and_eq_true_iff.1 hplace
      replace hpos := of_decide_eq_true hpos
      rw [hpos] at habove
      set keys := ks.insertIdx cs1.length k with hkeys
      set children := cs1 ++ x :: y :: cs2 with hchildren
      set t1 := t.setPage p (.internal keys children) with ht1
      rw [hparent, insertIntoParent_eq hp0 hp hpos fuel t1 keys hkeys ht1]
      have hpage1 : t1.pages p = .internal keys children := update_self _ _ _
      have hother1 : ∀ z, z ≠ p → t1.pages z = t.pages z := fun z hz =>
        update_of_ne hz _ _
      obtain ⟨hC1, hs1, hleaves1, hleaf1, hsized1⟩ := hP.attach hs hp hA hB hperm hpage1 hother1
      have hlength : keys.length = ks.length + 1 := by
        obtain ⟨ks', cs', hp', -, hks, -⟩ := hs.valid hP.valid
        cases hp.symm.trans hp'
        obtain ⟨ks1, ks2, rfl, hlen, -⟩ := keys_split hks
        refine length_insertIdx_of_le_length ?_ k
        rw [length_append]
        omega
      by_cases hfit : ks.length + 1 ≤ kIndexMaxKeys
      · rw [if_neg (Nat.not_lt.2 hfit)]
        refine ⟨⟨d, ⟨hC1, fun z hz => ?_⟩, Nat.le_succ d, hleaves1⟩, hleaf1, rfl⟩
        by_cases hzp : z = p
        · rw [hzp, hpage1, IndexPage.numKeys, hlength]
          exact hfit
        · exact hsized1 z hz hzp
      · -- the page above is divided, and its new half goes up
        rw [if_pos (Nat.not_le.1 hfit)]
        rw [decide_eq_false hfit, Bool.false_or, Bool.and_eq_true_iff, decide_eq_true_eq] at habove
        have hsize : ks.length ≤ kIndexMaxKeys := by
          have := hP.sized p (mem_append_left _ hpR)
          rwa [hp] at this
        have hRsame1 : ∀ z ∈ R', t1.pages z = t0.pages z := fun z hz =>
          (hother1 z (hC1.ne_of_mem hs1 hz).1).trans (hR z (hR' hz))
        rw [findParent_agree hC1 habove.1 h0 hroom0 hroot hs1 hRsame1 fun z hz => hsub (hR' hz)]
        set t2 := t1.divideInternal p keys children
        have hpn : t1.nextPageNum ≠ p := (hC1.used p hs1.mem_nodes).2.ne'
        obtain ⟨hpageP, hpageN, hother2⟩ := divideInternal_spec hpn keys children
        obtain ⟨hP2, hleaves2, hleaf2⟩ := Pending.of_divideInternal hC1 hs1 hpage1 hsized1
          (by omega) (by omega) (by omega) k hpageP hpageN hother2
        have hRsame2 : ∀ z ∈ R', t2.pages z = t0.pages z := fun z hz =>
          (hother2 z (hC1.ne_of_mem hs1 hz).1 (hC1.ne_of_mem hs1 hz).2).trans (hRsame1 z hz)
        have hset := ih (t := t2) hP2 hroot hRsame2 (fun z hz => hsub (hR' hz)) (by omega) habove.2
        rw [hleaves2, ← hs1.leaves_eq, hleaves1] at hset
        exact ⟨hset.inv, fun l hl => (hset.same l hl).trans ((hleaf2 l (hleaves1 ▸ hl)).trans (hleaf1 l hl)), hset.hot⟩
    · obtain ⟨rfl, -⟩ := hP.spine.eq_root
      have hzero : t0.findParent t.rootPageId = 0 := by rw [findParent, if_pos hroot.symm]
      rw [hzero]
      exact settled_root hP fuel

end BPlusTree

end MiniDb
