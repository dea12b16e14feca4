import MiniDb.Index.BPlusTree.Insert
import MiniDb.Index.BPlusTree.Refresh

/-!
# A leaf taken out of the tree

A leaf that a removal has emptied is taken out of the chain (`unlinkFromChain_eq`) and out of its parent
(`unlinkFromParent_eq`).  What is left is the tree of the other leaves, with separators still to be written
(`dropLeaf_spec`).

`unlink_empty_leaf` does not take a leaf out of a parent that has no other child: the leaf stays in the tree,
empty and without a place in the chain.
-/

namespace MiniDb

open Function List IndexPage

namespace BPlusTree

variable {κ : Type*}

/-! ## Pages that differ at leaves -/

variable {pages pages' : Pages κ} {t : BPlusTree κ} {l : ℕ} {B A : List ℕ}

/-- Always by the first child, a descent does not look into the leaves. -/
lemma descend_congr {choose : List κ → ℕ}
    (h : ∀ z, pages' z = pages z ∨ ∃ es n es' n', pages z = .leaf es n ∧ pages' z = .leaf es' n') :
    ∀ hops id parent, descend pages' choose hops id parent = descend pages choose hops id parent := by
  intro hops
  induction hops with
  | zero => intro id parent; rfl
  | succ hops ih =>
    intro id parent
    rw [descend, descend]
    rcases h id with heq | ⟨es, n, es', n', hp, hp'⟩
    · rw [heq]
      cases pages id with
      | leaf es n => rfl
      | internal ks cs => simp [ih]
    · rw [hp, hp']

/-- The search for the page above looks at the children only. -/
lemma findParentLoop_congr (h : ∀ z, (pages' z).children = (pages z).children)
    (child : ℕ) : ∀ hops stack, findParentLoop pages' child hops stack = findParentLoop pages child hops stack := by
  have hloop : ∀ (pages : Pages κ) hops current stack, findParentLoop pages child (hops + 1) (current :: stack) =
        if child ∈ (pages current).children then current
        else findParentLoop pages child hops ((pages current).children.filter (· ≠ 0) ++ stack) := by
    intro pages hops current stack
    rw [findParentLoop]
    cases pages current with
    | leaf es n => simp [children]
    | internal ks cs => rfl
  intro hops
  induction hops with
  | zero => intro stack; rfl
  | succ hops ih =>
    intro stack
    cases stack with
    | nil => rfl
    | cons current stack => rw [hloop, hloop, h current, ih]

lemma findParent_congr {t' : BPlusTree κ} {child : ℕ}
    (h : ∀ z, (t'.pages z).children = (t.pages z).children) (hroot : t'.rootPageId = t.rootPageId) :
    t'.findParent child = t.findParent child := by
  rw [findParent, findParent, findParentLoop_congr h, hroot]

lemma prevLeaf_eq : ∀ {A : List ℕ} {hops prev : ℕ},
    Chained pages (A ++ l :: B) → l ∉ A → (∀ a ∈ A, a ≠ 0) → A.length ≤ hops →
    prevLeaf pages l hops prev ((A ++ l :: B).headD 0) = some (A.getLastD prev) := by
  intro A
  induction A with
  | nil =>
    intro hops prev _ _ _ _
    cases hops <;> simp [prevLeaf]
  | cons a A ih =>
    intro hops prev hchain hl hpos hlen
    obtain ⟨hops, rfl⟩ := Nat.exists_eq_succ_of_ne_zero (Nat.ne_zero_of_lt hlen)
    have hne : a ≠ l := fun heq => hl (heq ▸ mem_cons_self)
    have hlink : (pages a).next = (A ++ l :: B).headD 0 := hchain.1
    rw [cons_append, headD_cons, prevLeaf, if_neg hne, if_neg (hpos a mem_cons_self),
      hlink, ih hchain.2 (fun h => hl (mem_cons_of_mem a h))
        (fun a' ha' => hpos a' (mem_cons_of_mem a ha')) (Nat.le_of_succ_le_succ hlen),
      getLastD_cons]

/-- The chain without a leaf: the leaf before it goes on to the leaf after it. -/
lemma Chained.unlink {a : ℕ} (h : Chained pages (A ++ a :: l :: B))
    (hA : ∀ z ∈ A, (pages' z).next = (pages z).next)
    (hB : ∀ z ∈ B, (pages' z).next = (pages z).next) (ha : (pages' a).next = (pages l).next) :
    Chained pages' (A ++ a :: B) := by
  induction A with
  | nil => exact ⟨ha.trans h.2.1, h.2.2.congr hB⟩
  | cons a' A ih =>
    refine ⟨(hA a' mem_cons_self).trans (h.1.trans ?_), ih h.2 fun z hz => hA z (mem_cons_of_mem a' hz)⟩
    cases A <;> rfl

/-- The pages with the last of some leaves linked to another. -/
def relink (pages : Pages κ) (A : List ℕ) (n : ℕ) : Pages κ :=
  match A.getLast? with
  | none => pages
  | some a => Function.update pages a (.leaf (pages a).entries n)

section

variable {pages : Pages κ} {A : List ℕ} {n : ℕ}

lemma rekeyed_relink (hA : ∀ a ∈ A, ∃ es m, pages a = .leaf es m ∧ es ≠ []) :
    Rekeyed pages (relink pages A n) := by
  rw [relink]
  cases ha : A.getLast? with
  | none => exact .refl pages
  | some a =>
    obtain ⟨es, m, hp, -⟩ := hA a (mem_of_getLast? ha)
    refine .update ?_
    rw [hp]
    exact .leaf es m n

lemma relink_of_notMem {z : ℕ} (hz : z ∉ A) : relink pages A n z = pages z := by
  rw [relink]
  cases ha : A.getLast? with
  | none => rfl
  | some a =>
    refine update_of_ne ?_ _ _
    rintro rfl
    exact hz (mem_of_getLast? ha)

lemma chained_relink {l : ℕ} {B : List ℕ} (h : Chained pages (A ++ l :: B)) (hnd : (A ++ B).Nodup) :
    Chained (relink pages A (pages l).next) (A ++ B) := by
  rw [relink]
  cases ha : A.getLast? with
  | none =>
    obtain rfl := getLast?_eq_none_iff.1 ha
    exact h.2
  | some a =>
    obtain ⟨A0, rfl⟩ := getLast?_eq_some_iff.1 ha
    dsimp only
    rw [append_assoc, singleton_append] at h hnd ⊢
    obtain ⟨-, hndB, hdisj⟩ := nodup_append.1 hnd
    refine Chained.unlink h (fun z hz => ?_) (fun z hz => ?_) ?_
    · rw [update_of_ne (hdisj z hz a mem_cons_self)]
    · have hne : z ≠ a := by
        rintro rfl
        exact (nodup_cons.1 hndB).1 hz
      rw [update_of_ne hne]
    · rw [update_self]
      rfl

end

lemma Spine.rekeyed {d id h x : ℕ} {R : List ℕ} (hs : Spine pages d id h x A B R)
    (hrek : Rekeyed pages pages') :
    Spine pages' d id h x A B R := by
  induction hs with
  | here => exact .here
  | @down d id h x c ks cs1 cs2 A B R hp _ ih =>
    have hid := hrek id
    rw [hp] at hid
    generalize hq : pages' id = q at hid
    cases hid with
    | internal _ _ =>
      have hspine := Spine.down hq ih
      have hleaves : leaves pages' d = leaves pages d := funext fun _ => hrek.leaves_eq
      have hnodes : nodes pages' d = nodes pages d := funext fun _ => hrek.nodes_eq
      rwa [hleaves, hnodes] at hspine

lemma unlinkFromParent_eq {p : ℕ} {ks : List κ} {cs1 cs2 : List ℕ} (hparent : t.findParent l = p)
    (hp0 : p ≠ 0) (hp : t.pages p = .internal ks (cs1 ++ l :: cs2)) (hl : l ∉ cs1) (hks : ks.length ≠ 0) :
    t.unlinkFromParent l = if ks.length = 1 ∧ t.rootPageId = p then
        { t.setPage p (.internal (ks.eraseIdx (cs1.length - 1)) (cs1 ++ cs2)) with
          rootPageId := (cs1 ++ cs2).getD 0 0 }
      else t.setPage p (.internal (ks.eraseIdx (cs1.length - 1)) (cs1 ++ cs2)) := by
  have hidx : (cs1 ++ l :: cs2).idxOf l = cs1.length := by
    rw [idxOf_append_of_notMem hl, idxOf_cons_self, Nat.add_zero]
  have herase : (cs1 ++ l :: cs2).eraseIdx cs1.length = cs1 ++ cs2 := by
    rw [eraseIdx_append_of_length_le le_rfl, Nat.sub_self]
    rfl
  have hmem : l ∈ cs1 ++ l :: cs2 := by simp
  rw [unlinkFromParent, hparent]
  rw [if_neg hp0, hp]
  dsimp only
  rw [if_pos ⟨hmem, hks⟩, hidx, herase]
  rfl

/-! ## A leaf taken out -/

section

variable [TreeKey κ] {pages : Pages κ} {root next d l p n : ℕ} {A B R : List ℕ}

/-- The tree without one of its leaves, which was not the only child of its parent. -/
lemma Coherent.unlink (hC : Coherent pages root next d)
    (hsized : ∀ z ∈ nodes pages d root, (pages z).numKeys ≤ kIndexMaxKeys)
    (hs : Spine pages d root 0 l A B R) (hn : (pages l).next = n) {A' B' R' cs1 cs2 : List ℕ}
    {ks ks' : List κ} (hsp : Spine pages d root 1 p A' B' R')
    (hp : pages p = .internal ks (cs1 ++ l :: cs2)) (hA : A = A' ++ cs1) (hB : B = cs2 ++ B')
    (hR : R.Perm (R' ++ p :: (cs1 ++ cs2))) {pages' : Pages κ}
    (hpage : pages' p = .internal ks' (cs1 ++ cs2)) (hks : ks'.length + 1 = ks.length)
    (hother : ∀ z, z ≠ p → z ≠ l → pages' z = relink pages A n z) :
    Loose pages' root next d ∧ leaves pages' d root = A ++ B ∧
      ∀ z ∈ A ++ B, (pages' z).entries = (pages z).entries := by
  have hleaves := hs.leaves_eq
  rw [leaves_zero, append_assoc, singleton_append] at hleaves
  have hleaf : ∀ z ∈ A ++ B, z ∈ leaves pages d root ∧ z ∈ R := by
    intro z hz
    rw [hleaves]
    rcases mem_append.1 hz with hz | hz
    · exact ⟨mem_append_left _ hz, hs.left_subset hz⟩
    · exact ⟨mem_append_right _ (mem_cons_of_mem l hz), hs.right_subset hz⟩
  have hrek : Rekeyed pages (relink pages A n) := rekeyed_relink fun a ha =>
    hC.valid.shaped.leaf_page a (hleaf a (mem_append_left _ ha)).1
  have hne : ∀ z ∈ A ++ B, z ≠ p := by
    rintro z hz rfl
    obtain ⟨es, m, hpl, -⟩ := hC.valid.shaped.leaf_page z (hleaf z hz).1
    rw [hp] at hpl
    cases hpl
  have hsame : ∀ z ∈ A ++ B, pages' z = relink pages A n z := fun z hz =>
    hother z (hne z hz) (hC.ne_of_mem hs (hleaf z hz).2).1
  have hentries : ∀ z ∈ A ++ B, (pages' z).entries = (pages z).entries := fun z hz => by
    rw [hsame z hz, (hrek z).entries_eq]
  have hR' : ∀ z ∈ R', z ∈ R := fun z hz => hR.mem_iff.2 (mem_append_left _ hz)
  have hRsame : ∀ z ∈ R', pages' z = relink pages A n z := fun z hz =>
    hother z (hC.ne_of_mem hsp hz).1 (hC.ne_of_mem hs (hR' z hz)).1
  have hspine := (hsp.rekeyed hrek).congr hRsame
  have hnodes : (nodes pages' d root).Perm R := by
    refine hspine.nodes_perm.trans (List.Perm.trans ?_ hR.symm)
    rw [nodes_succ hpage, flatMap_congr fun c _ => nodes_zero, flatMap_singleton']
  have hleaves' : leaves pages' d root = A ++ B := by
    rw [hspine.leaves_eq, leaves_succ hpage, flatMap_congr fun c _ => leaves_zero, flatMap_singleton', hA, hB]
    simp
  obtain ⟨ks0, cs0, hp', -, hlen, hchild⟩ := (hsp.valid hC.valid).shaped
  cases hp.symm.trans hp'
  have hcount : ks'.length + 1 = (cs1 ++ cs2).length := by
    simp only [length_tail, length_append, length_cons] at hlen ⊢
    omega
  refine ⟨⟨?_, ?_, fun z hz => ?_, fun z hz => ?_, ?_, ?_⟩, hleaves', hentries⟩
  · refine (hsp.rekeyed hrek).shaped_of (hrek.shaped hC.valid.shaped) hRsame ⟨ks', _, hpage, ?_, ?_, ?_⟩
    · intro hnil
      rw [hnil] at hcount
      cases hcount
    · rw [length_tail, ← hcount, Nat.add_sub_cancel]
    · intro c hc
      have hmem : c ∈ A ++ B := by
        rw [hA, hB]
        simp only [mem_append] at hc ⊢
        tauto
      obtain ⟨es, m, hpc, hes⟩ := (hrek.shaped hC.valid.shaped).leaf_page c
        (by rw [hrek.leaves_eq]; exact (hleaf c hmem).1)
      exact ⟨es, m, (hsame c hmem).trans hpc, hes⟩
  · exact hnodes.nodup_iff.2 (nodup_append.1 (hs.nodes_perm.nodup_iff.1 hC.nodup)).1
  · exact hC.used z (hs.mem_nodes_of_mem (hnodes.mem_iff.1 hz))
  · have hzR := hnodes.mem_iff.1 hz
    have hsize := hsized z (hs.mem_nodes_of_mem hzR)
    by_cases hzp : z = p
    · rw [hzp, hp] at hsize
      rw [hzp, hpage]
      rw [numKeys] at hsize ⊢
      omega
    · rw [hother z hzp (hC.ne_of_mem hs hzR).1, (hrek z).numKeys_eq]
      exact hsize
  · have hasc := hC.ascending
    rw [entries, hleaves] at hasc
    rw [entries, hleaves', entriesOf, flatMap_congr hentries]
    refine List.Pairwise.sublist ?_ hasc
    simp only [entriesOf, flatMap_append, flatMap_cons]
    exact (List.Sublist.refl _).append (sublist_append_right _ _)
  · rw [hleaves']
    have hchain := hC.chained
    rw [hleaves] at hchain
    have hnd : (A ++ B).Nodup := by
      have hnd := leaves_sublist_nodes.nodup hC.nodup
      rw [hleaves] at hnd
      exact hnd.sublist ((List.Sublist.refl A).append (sublist_cons_self l B))
    refine (hn ▸ chained_relink hchain hnd).congr fun z hz => ?_
    rw [hsame z hz]

end

section

variable [TreeKey κ] {t : BPlusTree κ} {d l n : ℕ} {A B R : List ℕ} {es : List (κ × RecordId)}

section

variable (hC : Coherent t.pages t.rootPageId t.nextPageNum d)
include hC

lemma leftmostLeaf_eq (hd : d < kMaxPageChainHops) :
    t.leftmostLeaf = (leaves t.pages d t.rootPageId).headD 0 := by
  obtain ⟨p, hdesc⟩ := descend_leftmost hC.valid.shaped hC.pos kMaxPageChainHops 0 hd
  rw [leftmostLeaf, hdesc]
  rfl

lemma unlinkFromChain_eq (hroom : t.nextPageNum ≤ kMaxPageChainHops)
    (hs : Spine t.pages d t.rootPageId 0 l A B R)
    (hp : t.pages l = .leaf es n) : (t.setPage l (.leaf [] n)).unlinkFromChain l =
      BPlusTree.setPage { t with pages := relink t.pages A n } l (.leaf [] n) := by
  have hleaves := hs.leaves_eq
  rw [leaves_zero, append_assoc, singleton_append] at hleaves
  have hnd := leaves_sublist_nodes.nodup hC.nodup
  rw [hleaves] at hnd
  have hlA : l ∉ A := fun hmem =>
    (nodup_append.1 hnd).2.2 l hmem l mem_cons_self rfl
  have hpos : ∀ a ∈ A, a ≠ 0 := fun a ha =>
    hC.pos a (leaves_subset_nodes (hleaves ▸ mem_append_left _ ha))
  have hleft : (t.setPage l (.leaf [] n)).leftmostLeaf = (A ++ l :: B).headD 0 := by
    rw [← hleaves, ← leftmostLeaf_eq hC (hC.depth_lt.trans_le hroom), leftmostLeaf, leftmostLeaf,
      descend_congr fun z => ?_]
    · rfl
    · by_cases hz : z = l
      · rw [hz]
        exact .inr ⟨es, n, [], n, hp, setPage_self⟩
      · exact .inl (setPage_of_ne hz)
  have hchain : Chained (t.setPage l (.leaf [] n)).pages (A ++ l :: B) := by
    refine (hleaves ▸ hC.chained).congr fun z _ => ?_
    by_cases hz : z = l
    · rw [hz, hp, setPage_self]
      rfl
    · rw [setPage_of_ne hz]
  have hlen : A.length ≤ kMaxPageChainHops := by
    have h1 := hC.length_leaves_lt
    rw [hleaves, length_append] at h1
    omega
  rw [unlinkFromChain, hleft, prevLeaf_eq hchain hlA hpos hlen]
  dsimp only
  cases ha : A.getLast? with
  | none =>
    obtain rfl := getLast?_eq_none_iff.1 ha
    rfl
  | some a =>
    have hmem := mem_of_getLast? ha
    have hlast : A.getLastD 0 = a := by rw [getLastD_eq_getLast?, ha]; rfl
    have hal : a ≠ l := fun heq => hlA (heq ▸ hmem)
    rw [hlast, if_neg (hpos a hmem), relink, ha]
    dsimp only [setPage]
    rw [update_of_ne hal, update_self, update_comm hal]
    rfl

end

end

section

variable [TreeKey κ] {t t' : BPlusTree κ} {d l n : ℕ} {A B R : List ℕ} {es : List (κ × RecordId)} {key : κ}
  {rid : RecordId}

/-- A tree that differs from another in the entries of one leaf, whatever the pages between. -/
structure LeafChanged (t t' : BPlusTree κ) (l : ℕ) (es : List (κ × RecordId)) : Prop where
  leaf : (t'.pages l).entries = es
  other : ∀ z, z ≠ l → (t'.pages z).entries = (t.pages z).entries
  next : t'.nextPageNum = t.nextPageNum
  hot : t'.hotLeafId = t.hotLeafId

lemma Coherent.depth_of_root {pages : Pages κ} {root next h x : ℕ}
    (hC : Coherent pages root next d) (hs : Spine pages d root h x A B R) (hx : root = x) : d = h := by
  refine le_antisymm (Nat.not_lt.1 fun hlt => ?_) hs.le
  obtain ⟨p, ks, cs1, cs2, A', B', R', -, hp, -, -, hperm⟩ := hs.parent hlt
  have hpR : p ∈ R := hperm.mem_iff.2 (by simp)
  exact hC.root_ne (hs.mem_nodes_of_mem hpR) (by simp [hp, children]) hx

/-- **An emptied leaf is given up**: the tree is empty, or the leaf is gone from the tree and the chain. -/
lemma dropLeaf_spec {e : κ × RecordId} (hI : Inv t d) (hroom : t.nextPageNum ≤ kMaxPageChainHops)
    (hs : Spine t.pages d t.rootPageId 0 l A B R) (hp : t.pages l = .leaf [e] n)
    (hok : t.rootPageId = l ∨ (t.pages (t.findParent l)).numKeys ≠ 0)
    (ht' : t' = (t.setPage l (.leaf [] n)).dropLeaf l) : LeafChanged t t' l [] ∧ (t'.rootPageId = 0 ∧ A = [] ∧ B = [] ∨
        ∃ d', Loose t'.pages t'.rootPageId t'.nextPageNum d' ∧ leaves t'.pages d' t'.rootPageId = A ++ B) := by
  rcases hs.le.lt_or_eq with hlt | rfl
  · obtain ⟨p, ks, cs1, cs2, A', B', R', hsp, hpp, hA, hB, hperm⟩ := hs.leaf_parent hlt
    have hpR : p ∈ R := hperm.mem_iff.2 (by simp)
    have hmem : l ∈ (t.pages p).children := by simp [hpp, children]
    have hparent : t.findParent l = p :=
      hI.findParent_eq hroom (hs.mem_nodes_of_mem hpR) hmem
    have hp0 : p ≠ 0 := hI.pos p (hs.mem_nodes_of_mem hpR)
    have hpl : p ≠ l := (hI.ne_of_mem hs hpR).1
    have hroot : t.rootPageId ≠ l := hI.root_ne (hs.mem_nodes_of_mem hpR) hmem
    have hks : ks.length ≠ 0 := by
      have := hok.resolve_left hroot
      rwa [hparent, hpp] at this
    have hlcs : l ∉ cs1 := fun hl =>
      (hI.ne_of_mem hs (hperm.mem_iff.2 (by simp [hl]))).1 rfl
    have hrek : Rekeyed t.pages (relink t.pages A n) := rekeyed_relink fun a ha =>
      hI.valid.shaped.leaf_page a (by rw [hs.leaves_eq]; simp [ha])
    -- the parent is the same in the tree with the chain changed
    set t2 := BPlusTree.setPage { t with pages := relink t.pages A n } l (.leaf [] n)
    have hpages2 : ∀ z, z ≠ l → t2.pages z = relink t.pages A n z := fun z hz => setPage_of_ne hz
    have hchildren : ∀ z, (t2.pages z).children = (t.pages z).children := by
      intro z
      by_cases hz : z = l
      · rw [hz, hp, setPage_self]
        rfl
      · rw [hpages2 z hz, (hrek z).children_eq]
    have hparent2 : t2.findParent l = p := by rw [findParent_congr (t := t) hchildren rfl, hparent]
    have hpA : p ∉ A := by
      intro hpA
      obtain ⟨es, m, hpl, -⟩ := hI.valid.shaped.leaf_page p (by rw [hs.leaves_eq]; simp [hpA])
      rw [hpp] at hpl
      cases hpl
    have hpp2 : t2.pages p = .internal ks (cs1 ++ l :: cs2) := by
      rw [hpages2 p hpl, relink_of_notMem hpA, hpp]
    have hdrop : t' = t2.unlinkFromParent l := by
      rw [ht', dropLeaf, setPage_rootPageId, if_neg hroot, unlinkEmptyLeaf,
        unlinkFromChain_eq hI.toCoherent hroom hs hp]
    rw [unlinkFromParent_eq hparent2 hp0 hpp2 hlcs hks] at hdrop
    set ks' := ks.eraseIdx (cs1.length - 1)
    obtain ⟨ks0, cs0, hp', -, hlen, -⟩ := (hsp.valid hI.valid).shaped
    cases hpp.symm.trans hp'
    simp only [length_tail, length_append, length_cons] at hlen
    have hks' : ks'.length + 1 = ks.length := by
      rw [length_eraseIdx_of_lt (by omega)]
      omega
    set t3 := t2.setPage p (.internal ks' (cs1 ++ cs2))
    have hother : ∀ z, z ≠ p → z ≠ l → t3.pages z = relink t.pages A n z := fun z hzp hzl =>
      (setPage_of_ne hzp).trans (hpages2 z hzl)
    obtain ⟨hloose, hleaves, -⟩ := hI.toCoherent.unlink hI.sized hs (by rw [hp]; rfl) hsp hpp hA hB
      hperm setPage_self hks' hother
    have hleaf3 : (t3.pages l).entries = [] := by
      rw [setPage_of_ne hpl.symm, setPage_self]
      rfl
    have hother3 : ∀ z, z ≠ l → (t3.pages z).entries = (t.pages z).entries := by
      intro z hzl
      by_cases hzp : z = p
      · rw [hzp, hpp, setPage_self]
        rfl
      · rw [hother z hzp hzl, (hrek z).entries_eq]
    by_cases hcollapse : ks.length = 1 ∧ t2.rootPageId = p
    · rw [if_pos hcollapse] at hdrop
      subst hdrop
      obtain ⟨hone, hrootp⟩ := hcollapse
      obtain rfl : d = 1 := hI.depth_of_root hsp hrootp
      obtain ⟨c, hc⟩ : ∃ c, cs1 ++ cs2 = [c] := by
        refine length_eq_one_iff.1 ?_
        rw [length_append]
        omega
      rw [show t.rootPageId = p from hrootp] at hloose hleaves
      obtain ⟨hloose', hleaves'⟩ := hloose.collapse (setPage_self.trans (by rw [hc]))
      refine ⟨⟨hleaf3, hother3, rfl, rfl⟩, .inr ⟨0, ?_⟩⟩
      rw [hc]
      exact ⟨hloose', hleaves'.trans hleaves⟩
    · rw [if_neg hcollapse] at hdrop
      subst hdrop
      exact ⟨⟨hleaf3, hother3, rfl, rfl⟩, .inr ⟨d, hloose, hleaves⟩⟩
  · obtain ⟨rfl, rfl, rfl, -⟩ := hs.eq_root
    rw [dropLeaf, setPage_rootPageId, if_pos rfl] at ht'
    subst ht'
    refine ⟨⟨?_, fun z hz => ?_, rfl, rfl⟩, .inl ⟨rfl, rfl, rfl⟩⟩
    · exact congrArg IndexPage.entries setPage_self
    · exact congrArg IndexPage.entries (setPage_of_ne hz)

end

end BPlusTree

end MiniDb
