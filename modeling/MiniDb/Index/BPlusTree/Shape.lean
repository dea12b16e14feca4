import MiniDb.Index.BPlusTree.Tree

/-!
# Trees of pages

A page and a depth stand for a tree: at depth 0 a leaf, at depth `d + 1` an internal page whose children are trees of
depth `d`.  `leaves` are its leaves from left to right, `nodes` all its pages, `entries` what the leaves hold.

`Valid` says that the pages are of the right kind, that no leaf is empty and that every separator is the first key of
the child to its right.  `Shaped` leaves the separators out; that is what a removal keeps until it writes them anew.

`Spine` is a page somewhere in a tree, with the leaves to its left and right and all pages outside of it, which stay as
they are when something is changed below the page (`Spine.congr`); `Spine.valid_of` puts the changed part back.
-/

namespace MiniDb

open List List.Perm

variable {z : ℕ} {cs₁ cs₂ : List ℕ}

namespace BPlusTree

variable {κ : Type*}

def leaves (pages : Pages κ) : ℕ → ℕ → List ℕ
  | 0, id => [id]
  | d + 1, id => (pages id).children.flatMap (leaves pages d)

def nodes (pages : Pages κ) : ℕ → ℕ → List ℕ
  | 0, id => [id]
  | d + 1, id => id :: (pages id).children.flatMap (nodes pages d)

/-- The entries of leaves one after the other. -/
def entriesOf (pages : Pages κ) (ls : List ℕ) : List (κ × RecordId) :=
  ls.flatMap fun id => (pages id).entries

def entries (pages : Pages κ) (d id : ℕ) : List (κ × RecordId) := entriesOf pages (leaves pages d id)

/-- The first key below a page. -/
def firstKey (pages : Pages κ) (d id : ℕ) : Option κ := (entries pages d id).head?.map Prod.fst

/-- Leaves at the same depth, none of them empty, and one child more than keys. -/
def Shaped (pages : Pages κ) : ℕ → ℕ → Prop
  | 0, id => ∃ es next, pages id = .leaf es next ∧ es ≠ []
  | d + 1, id => ∃ ks cs, pages id = .internal ks cs ∧ cs ≠ [] ∧ ks.length = cs.tail.length ∧
      ∀ c ∈ cs, Shaped pages d c

/-- Each separator is the first key of the child to its right. -/
def Valid (pages : Pages κ) : ℕ → ℕ → Prop
  | 0, id => ∃ es next, pages id = .leaf es next ∧ es ≠ []
  | d + 1, id => ∃ ks cs, pages id = .internal ks cs ∧ cs ≠ [] ∧
      ks.map some = cs.tail.map (firstKey pages d) ∧ ∀ c ∈ cs, Valid pages d c

section

variable {pages pages' : Pages κ} {d id : ℕ}

@[simp] lemma leaves_zero : leaves pages 0 id = [id] := rfl

@[simp] lemma nodes_zero : nodes pages 0 id = [id] := rfl

variable {ks : List κ} {cs ls : List ℕ}

lemma leaves_succ (h : pages id = .internal ks cs) :
    leaves pages (d + 1) id = cs.flatMap (leaves pages d) := by rw [leaves, h]; rfl

lemma nodes_succ (h : pages id = .internal ks cs) :
    nodes pages (d + 1) id = id :: cs.flatMap (nodes pages d) := by rw [nodes, h]; rfl

@[simp] lemma entriesOf_nil : entriesOf pages [] = [] := rfl

@[simp] lemma entriesOf_append (ls ls' : List ℕ) :
    entriesOf pages (ls ++ ls') = entriesOf pages ls ++ entriesOf pages ls' :=
  flatMap_append

@[simp] lemma entriesOf_cons (l : ℕ) (ls : List ℕ) :
    entriesOf pages (l :: ls) = (pages l).entries ++ entriesOf pages ls := flatMap_cons

lemma entriesOf_congr (h : ∀ l ∈ ls, pages' l = pages l) : entriesOf pages' ls = entriesOf pages ls :=
  flatMap_congr fun l hl => by rw [h l hl]

lemma entries_succ (h : pages id = .internal ks cs) : entries pages (d + 1) id = cs.flatMap (entries pages d) := by
  rw [entries, leaves_succ h, entriesOf, flatMap_assoc]
  rfl

lemma self_mem_nodes : id ∈ nodes pages d id := by
  cases d <;> simp [nodes]

lemma leaves_sublist_nodes : (leaves pages d id).Sublist (nodes pages d id) := by
  induction d generalizing id with
  | zero => exact List.Sublist.refl _
  | succ d ih =>
    rw [leaves, nodes]
    refine List.Sublist.cons id ?_
    induction (pages id).children with
    | nil => exact List.Sublist.refl _
    | cons c cs ihcs => exact ih.append ihcs

lemma leaves_subset_nodes : leaves pages d id ⊆ nodes pages d id := leaves_sublist_nodes.subset

lemma Valid.shaped (h : Valid pages d id) : Shaped pages d id := by
  induction d generalizing id with
  | zero => exact h
  | succ d ih =>
    obtain ⟨ks, cs, hp, hne, hks, hcs⟩ := h
    refine ⟨ks, cs, hp, hne, ?_, fun c hc => ih (hcs c hc)⟩
    simpa using congrArg length hks

section

variable (h : ∀ z ∈ nodes pages d id, pages' z = pages z)
include h

lemma nodes_congr : nodes pages' d id = nodes pages d id := by
  induction d generalizing id with
  | zero => rfl
  | succ d ih =>
    rw [nodes, nodes, h id self_mem_nodes]
    refine congrArg (id :: ·) (flatMap_congr fun c hc => ih fun z hz => h z ?_)
    exact mem_cons_of_mem _ (mem_flatMap.2 ⟨c, hc, hz⟩)

lemma leaves_congr : leaves pages' d id = leaves pages d id := by
  induction d generalizing id with
  | zero => rfl
  | succ d ih =>
    rw [leaves, leaves, h id self_mem_nodes]
    refine flatMap_congr fun c hc => ih fun z hz => h z ?_
    exact mem_cons_of_mem _ (mem_flatMap.2 ⟨c, hc, hz⟩)

lemma entries_congr : entries pages' d id = entries pages d id := by
  rw [entries, entries, leaves_congr h]
  exact entriesOf_congr fun l hl => h l (leaves_subset_nodes hl)

lemma firstKey_congr : firstKey pages' d id = firstKey pages d id := by
  rw [firstKey, firstKey, entries_congr h]

end

lemma mem_nodes_of_child (hp : pages id = .internal ks cs) {c : ℕ}
    (hc : c ∈ cs) (hz : z ∈ nodes pages d c) : z ∈ nodes pages (d + 1) id := by
  rw [nodes_succ hp]
  exact mem_cons_of_mem _ (mem_flatMap.2 ⟨c, hc, hz⟩)

lemma Valid.congr (hv : Valid pages d id) (h : ∀ z ∈ nodes pages d id, pages' z = pages z) :
    Valid pages' d id := by
  induction d generalizing id with
  | zero =>
    obtain ⟨es, next, hp, hne⟩ := hv
    exact ⟨es, next, (h id self_mem_nodes).trans hp, hne⟩
  | succ d ih =>
    obtain ⟨ks, cs, hp, hne, hks, hcs⟩ := hv
    have hchild : ∀ c ∈ cs, ∀ z ∈ nodes pages d c, pages' z = pages z := fun c hc z hz =>
      h z (mem_nodes_of_child hp hc hz)
    refine ⟨ks, cs, (h id self_mem_nodes).trans hp, hne, ?_, fun c hc => ih (hcs c hc) (hchild c hc)⟩
    rw [hks]
    exact (map_congr_left fun c hc => firstKey_congr (hchild c (mem_of_mem_tail hc))).symm

lemma Shaped.congr (hv : Shaped pages d id) (h : ∀ z ∈ nodes pages d id, pages' z = pages z) :
    Shaped pages' d id := by
  induction d generalizing id with
  | zero =>
    obtain ⟨es, next, hp, hne⟩ := hv
    exact ⟨es, next, (h id self_mem_nodes).trans hp, hne⟩
  | succ d ih =>
    obtain ⟨ks, cs, hp, hne, hks, hcs⟩ := hv
    exact ⟨ks, cs, (h id self_mem_nodes).trans hp, hne, hks, fun c hc =>
      ih (hcs c hc) fun z hz => h z (mem_nodes_of_child hp hc hz)⟩

lemma Shaped.leaves_ne_nil (h : Shaped pages d id) : leaves pages d id ≠ [] := by
  induction d generalizing id with
  | zero => exact cons_ne_nil _ _
  | succ d ih =>
    obtain ⟨ks, cs, hp, hne, -, hcs⟩ := h
    obtain ⟨c, cs', rfl⟩ := exists_cons_of_ne_nil hne
    rw [leaves_succ hp, flatMap_cons]
    exact fun hnil => ih (hcs c mem_cons_self) (append_eq_nil_iff.1 hnil).1

lemma Shaped.leaf_page (h : Shaped pages d id) :
    ∀ l ∈ leaves pages d id, ∃ es next, pages l = .leaf es next ∧ es ≠ [] := by
  induction d generalizing id with
  | zero =>
    intro l hl
    cases mem_singleton.1 hl
    exact h
  | succ d ih =>
    obtain ⟨ks, cs, hp, -, -, hcs⟩ := h
    intro l hl
    rw [leaves_succ hp] at hl
    obtain ⟨c, hc, hl⟩ := mem_flatMap.1 hl
    exact ih (hcs c hc) l hl

lemma entriesOf_ne_nil (hne : ls ≠ [])
    (hls : ∀ l ∈ ls, ∃ es next, pages l = .leaf es next ∧ es ≠ []) : entriesOf pages ls ≠ [] := by
  obtain ⟨l, ls', rfl⟩ := exists_cons_of_ne_nil hne
  obtain ⟨es, next, hp, hes⟩ := hls l mem_cons_self
  rw [entriesOf_cons, hp]
  exact fun hnil => hes (append_eq_nil_iff.1 hnil).1

lemma Shaped.entries_ne_nil (h : Shaped pages d id) : entries pages d id ≠ [] :=
  entriesOf_ne_nil h.leaves_ne_nil h.leaf_page

end

/-! ## Keys and children -/

section

variable {pages pages' : Pages κ} {id h c p : ℕ} {ks : List κ} {cs : List ℕ} {f : ℕ → Option κ}

lemma firstKey_succ (hp : pages id = .internal ks cs) (hhead : cs.head? = some c) (hc : Shaped pages h c) :
    firstKey pages (h + 1) id = firstKey pages h c := by
  obtain ⟨cs', rfl⟩ := head?_eq_some_iff.1 hhead
  rw [firstKey, firstKey, entries_succ hp, flatMap_cons, head?_append_of_ne_nil _ hc.entries_ne_nil]

lemma firstKey_of_head {ks' : List κ} {cs' : List ℕ}
    (hp : pages id = .internal ks cs) (hp' : pages' id = .internal ks' cs')
    (hhead : cs.head? = some c) (hhead' : cs'.head? = some c) (hc : Shaped pages h c)
    (hsame : ∀ z ∈ nodes pages h c, pages' z = pages z) : firstKey pages' (h + 1) id = firstKey pages (h + 1) id := by
  rw [firstKey_succ hp' hhead' (hc.congr hsame), firstKey_succ hp hhead hc, firstKey_congr hsame]

lemma keys_split {x : ℕ} (h : ks.map some = (cs₁ ++ x :: cs₂).tail.map f) :
    ∃ ks1 ks2, ks = ks1 ++ ks2 ∧ ks1.length = cs₁.length ∧
      ks1.map some = (cs₁ ++ [x]).tail.map f ∧ ks2.map some = cs₂.map f := by
  cases cs₁ with
  | nil => exact ⟨[], ks, rfl, rfl, rfl, h⟩
  | cons c cs₁ =>
    have happ : (c :: cs₁ ++ x :: cs₂).tail = (cs₁ ++ [x]) ++ cs₂ := by simp
    rw [happ, map_append] at h
    obtain ⟨ks1, ks2, rfl, h1, h2⟩ := map_eq_append_iff.1 h
    refine ⟨ks1, ks2, rfl, ?_, h1, h2⟩
    simpa using congrArg length h1

lemma tail_insert (cs₁ cs₂ : List ℕ) (x y : ℕ) : (cs₁ ++ x :: y :: cs₂).tail = (cs₁ ++ [x]).tail ++ y :: cs₂ := by
  cases cs₁ <;> simp

/-- The separators of the two halves of a page, and the one between them. -/
lemma keys_divide {m : ℕ} (h : ks.map some = cs.tail.map f) (hm : m < ks.length) (key : κ) :
    (ks.take m).map some = (cs.take (m + 1)).tail.map f ∧
      ∃ c cs', cs.drop (m + 1) = c :: cs' ∧ f c = some (ks.getD m key) ∧ (ks.drop (m + 1)).map some = cs'.map f := by
  cases cs with
  | nil =>
    obtain rfl : ks = [] := map_eq_nil_iff.1 h
    cases hm
  | cons c0 cs =>
    rw [tail_cons] at h
    rw [take_succ_cons, tail_cons, map_take, h, map_take, drop_succ_cons]
    refine ⟨rfl, ?_⟩
    have hdrop : (ks.drop m).map some = (cs.drop m).map f := by
      rw [map_drop, h, map_drop]
    rw [drop_eq_getElem_cons hm, map_cons] at hdrop
    cases hcs : cs.drop m with
    | nil => rw [hcs] at hdrop; cases hdrop
    | cons c cs' =>
      rw [hcs, map_cons] at hdrop
      obtain ⟨hk, hks⟩ := cons.inj hdrop
      refine ⟨c, cs', rfl, ?_, hks⟩
      simp [← hk, hm]

section

variable (hp : pages' p = .internal ks cs)
include hp

lemma valid_of_children (hne : cs ≠ []) (hks : ks.map some = cs.tail.map (firstKey pages h))
    (hcs : ∀ c ∈ cs, Valid pages h c)
    (hsame : ∀ c ∈ cs, ∀ z ∈ nodes pages h c, pages' z = pages z) : Valid pages' (h + 1) p := by
  refine ⟨ks, cs, hp, hne, ?_, fun c hc => (hcs c hc).congr (hsame c hc)⟩
  rw [hks]
  exact (map_congr_left fun c hc =>
    firstKey_congr (hsame c (mem_of_mem_tail hc))).symm

section

variable (hsame : ∀ c ∈ cs, ∀ z ∈ nodes pages h c, pages' z = pages z)
include hsame

lemma nodes_of_children : nodes pages' (h + 1) p = p :: cs.flatMap (nodes pages h) := by
  rw [nodes_succ hp, flatMap_congr fun c hc => nodes_congr (hsame c hc)]

lemma leaves_of_children : leaves pages' (h + 1) p = cs.flatMap (leaves pages h) := by
  rw [leaves_succ hp, flatMap_congr fun c hc => leaves_congr (hsame c hc)]

end

end

end

/-! ## A page within a tree -/

/-- Page `x`, of depth `h`, is in the tree of `id`, with the leaves `A` to its left and `B` to its
right, and `R` are the pages of the tree outside of it. -/
inductive Spine (pages : Pages κ) : (d id h x : ℕ) → (A B R : List ℕ) → Prop
  | here {d id : ℕ} : Spine pages d id d id [] [] []
  | down {d id h x c : ℕ} {ks : List κ} {cs₁ cs₂ A B R : List ℕ} :
      pages id = .internal ks (cs₁ ++ c :: cs₂) → Spine pages d c h x A B R →
      Spine pages (d + 1) id h x (cs₁.flatMap (leaves pages d) ++ A)
        (B ++ cs₂.flatMap (leaves pages d))
        (id :: (cs₁.flatMap (nodes pages d) ++ (R ++ cs₂.flatMap (nodes pages d))))

namespace Spine

variable {pages pages' : Pages κ} {d id h x : ℕ} {A B R : List ℕ}

section

variable (hs : Spine pages d id h x A B R)
include hs

lemma le : h ≤ d := by
  induction hs with
  | here => exact le_rfl
  | down _ _ ih => exact Nat.le_succ_of_le ih

lemma leaves_eq : leaves pages d id = A ++ leaves pages h x ++ B := by
  induction hs with
  | here => simp
  | down hp _ ih => rw [leaves_succ hp, flatMap_append, flatMap_cons, ih]; simp

lemma nodes_perm : (nodes pages d id).Perm (R ++ nodes pages h x) := by
  induction hs with
  | here => exact List.Perm.refl _
  | @down d id h x c ks cs₁ cs₂ A B R hp _ ih =>
    rw [nodes_succ hp, flatMap_append, flatMap_cons, cons_append]
    refine cons id ?_
    rw [append_assoc, append_assoc]
    refine append_left _ ?_
    refine (ih.append_right _).trans ?_
    rw [append_assoc]
    exact append_left R perm_append_comm

lemma mem_nodes : x ∈ nodes pages d id :=
  hs.nodes_perm.mem_iff.2 (mem_append_right R self_mem_nodes)

lemma mem_nodes_of_mem (hz : z ∈ R) : z ∈ nodes pages d id := hs.nodes_perm.mem_iff.2 (mem_append_left _ hz)

lemma left_subset : A ⊆ R := by
  induction hs with
  | here => exact List.Subset.refl _
  | @down d id h x c ks cs₁ cs₂ A B R _ _ ih =>
    intro l hl
    refine mem_cons_of_mem _ ?_
    rcases mem_append.1 hl with hl | hl
    · obtain ⟨c', hc', hl⟩ := mem_flatMap.1 hl
      exact mem_append_left _ (mem_flatMap.2 ⟨c', hc', leaves_subset_nodes hl⟩)
    · exact mem_append_right _ (mem_append_left _ (ih hl))

lemma right_subset : B ⊆ R := by
  induction hs with
  | here => exact List.Subset.refl _
  | @down d id h x c ks cs₁ cs₂ A B R _ _ ih =>
    intro l hl
    refine mem_cons_of_mem _ (mem_append_right _ ?_)
    rcases mem_append.1 hl with hl | hl
    · exact mem_append_left _ (ih hl)
    · obtain ⟨c', hc', hl⟩ := mem_flatMap.1 hl
      exact mem_append_right _ (mem_flatMap.2 ⟨c', hc', leaves_subset_nodes hl⟩)

end

lemma sibling_congr
    (hR : ∀ z ∈ id :: (cs₁.flatMap (nodes pages d) ++ (R ++ cs₂.flatMap (nodes pages d))), pages' z = pages z) :
    (∀ c ∈ cs₁, ∀ z ∈ nodes pages d c, pages' z = pages z) ∧
      (∀ c ∈ cs₂, ∀ z ∈ nodes pages d c, pages' z = pages z) ∧ ∀ z ∈ R, pages' z = pages z := by
  refine ⟨fun c hc z hz => hR z ?_, fun c hc z hz => hR z ?_, fun z hz => hR z ?_⟩
  · exact mem_cons_of_mem _ (mem_append_left _ (mem_flatMap.2 ⟨c, hc, hz⟩))
  · exact mem_cons_of_mem _ (mem_append_right _ (mem_append_right _ (mem_flatMap.2 ⟨c, hc, hz⟩)))
  · exact mem_cons_of_mem _ (mem_append_right _ (mem_append_left _ hz))

section

variable (hs : Spine pages d id h x A B R)
include hs

lemma congr (hR : ∀ z ∈ R, pages' z = pages z) : Spine pages' d id h x A B R := by
  induction hs with
  | here => exact .here
  | @down d id h x c ks cs₁ cs₂ A B R hp hs ih =>
    obtain ⟨hleft, hright, hbelow⟩ := sibling_congr hR
    have hspine := Spine.down ((hR id mem_cons_self).trans hp) (ih hbelow)
    rwa [flatMap_congr fun c' hc' => leaves_congr (hleft c' hc'),
      flatMap_congr fun c' hc' => leaves_congr (hright c' hc'),
      flatMap_congr fun c' hc' => nodes_congr (hleft c' hc'),
      flatMap_congr fun c' hc' => nodes_congr (hright c' hc')] at hspine

lemma valid (hv : Valid pages d id) : Valid pages h x := by
  induction hs with
  | here => exact hv
  | @down d id h x c ks cs₁ cs₂ A B R hp _ ih =>
    obtain ⟨ks', cs', hp', -, -, hcs⟩ := hv
    cases hp.symm.trans hp'
    exact ih (hcs c (by simp))

lemma shaped (hv : Shaped pages d id) : Shaped pages h x := by
  induction hs with
  | here => exact hv
  | @down d id h x c ks cs₁ cs₂ A B R hp _ ih =>
    obtain ⟨ks', cs', hp', -, -, hcs⟩ := hv
    cases hp.symm.trans hp'
    exact ih (hcs c (by simp))

lemma shaped_of (hv : Shaped pages d id)
    (hR : ∀ z ∈ R, pages' z = pages z) (hx : Shaped pages' h x) : Shaped pages' d id := by
  induction hs with
  | here => exact hx
  | @down d id h x c ks cs₁ cs₂ A B R hp _ ih =>
    obtain ⟨ks', cs', hp', hne, hlen, hcs⟩ := hv
    cases hp.symm.trans hp'
    obtain ⟨hleft, hright, hbelow⟩ := sibling_congr hR
    refine ⟨ks, _, (hR id mem_cons_self).trans hp, hne, hlen, fun c' hc' => ?_⟩
    rcases mem_append.1 hc' with hmem | hmem
    · exact (hcs c' hc').congr (hleft c' hmem)
    · rcases mem_cons.1 hmem with rfl | hmem
      · exact ih (hcs c' hc') hbelow hx
      · exact (hcs c' hc').congr (hright c' hmem)

end

lemma firstKey_of_left_nil (hs : Spine pages d id h x [] B R) (hx : Shaped pages h x) :
    firstKey pages d id = firstKey pages h x := by
  have hne := hx.entries_ne_nil
  rw [entries] at hne
  rw [firstKey, firstKey, entries, entries, hs.leaves_eq, nil_append, entriesOf_append, head?_append_of_ne_nil _ hne]

/-- The first key of the tree is that of the leaves to the left, if there are any. -/
lemma firstKey_eq (hs : Spine pages d id h x A B R) (hv : Shaped pages d id) (hR : ∀ z ∈ R, pages' z = pages z)
    (hfirst : A = [] → firstKey pages' h x = firstKey pages h x) : firstKey pages' d id = firstKey pages d id := by
  have hA : entriesOf pages' A = entriesOf pages A :=
    entriesOf_congr fun l hl => hR l (hs.left_subset hl)
  rw [firstKey, firstKey, entries, entries, (hs.congr hR).leaves_eq, hs.leaves_eq]
  simp only [entriesOf_append, append_assoc, hA]
  by_cases hne : A = []
  · subst hne
    have hx := hfirst rfl
    have hxne := (hs.shaped hv).entries_ne_nil
    rw [entriesOf_nil, nil_append, nil_append, head?_append, head?_append]
    obtain ⟨e, es, hes⟩ := exists_cons_of_ne_nil hxne
    obtain ⟨e', he', hfst⟩ := Option.map_eq_some_iff.1 (hx.trans (congrArg (fun es => es.head?.map Prod.fst) hes))
    rw [entries] at he' hes
    rw [he', hes]
    exact congrArg some hfst
  · have hAne : entriesOf pages A ≠ [] := entriesOf_ne_nil hne fun l hl =>
      hv.leaf_page l (hs.leaves_eq ▸ mem_append_left _ (mem_append_left _ hl))
    rw [head?_append_of_ne_nil _ hAne, head?_append_of_ne_nil _ hAne]

/-- A changed part put back: the tree is valid if the part is, and if its first key is as before
unless it is leftmost. -/
lemma valid_of (hs : Spine pages d id h x A B R) (hv : Valid pages d id)
    (hR : ∀ z ∈ R, pages' z = pages z) (hx : Valid pages' h x)
    (hfirst : A ≠ [] → firstKey pages' h x = firstKey pages h x) : Valid pages' d id := by
  induction hs with
  | here => exact hx
  | @down d id h x c ks cs₁ cs₂ A B R hp hs ih =>
    obtain ⟨ks', cs', hp', hne, hks, hcs⟩ := hv
    cases hp.symm.trans hp'
    obtain ⟨hleft, hright, hbelow⟩ := sibling_congr hR
    have hc : Valid pages d c := hcs c (by simp)
    refine ⟨ks, _, (hR id mem_cons_self).trans hp, hne, ?_, fun c' hc' => ?_⟩
    · rw [hks]
      cases cs₁ with
      | nil => exact (map_congr_left fun c' hc' => firstKey_congr (hright c' hc')).symm
      | cons c0 cs₁ =>
        -- the separator to the left of the child is its first key, which stays
        have hcfirst : firstKey pages' d c = firstKey pages d c := by
          refine hs.firstKey_eq hc.shaped hbelow fun _ => hfirst ?_
          have := (hcs c0 (by simp)).shaped.leaves_ne_nil
          simp [this]
        have htail : ∀ c' ∈ cs₁, firstKey pages' d c' = firstKey pages d c' := fun c' hc' =>
          firstKey_congr (hleft c' (mem_cons_of_mem _ hc'))
        have hlast : ∀ c' ∈ cs₂, firstKey pages' d c' = firstKey pages d c' := fun c' hc' =>
          firstKey_congr (hright c' hc')
        simp [hcfirst, map_congr_left htail, map_congr_left hlast]
    · rcases mem_append.1 hc' with hmem | hmem
      · exact (hcs c' hc').congr (hleft c' hmem)
      · rcases mem_cons.1 hmem with rfl | hmem
        · refine ih (hcs c' hc') hbelow hx fun hA => hfirst ?_
          exact fun hnil => hA (append_eq_nil_iff.1 hnil).2
        · exact (hcs c' hc').congr (hright c' hmem)

lemma of_mem_leaves {l : ℕ} (hv : Shaped pages d id) (hl : l ∈ leaves pages d id) :
    ∃ A B R, Spine pages d id 0 l A B R := by
  induction d generalizing id with
  | zero =>
    cases mem_singleton.1 hl
    exact ⟨_, _, _, .here⟩
  | succ d ih =>
    obtain ⟨ks, cs, hp, -, -, hcs⟩ := hv
    rw [leaves_succ hp] at hl
    obtain ⟨c, hc, hlc⟩ := mem_flatMap.1 hl
    obtain ⟨A, B, R, hs⟩ := ih (hcs c hc) hlc
    obtain ⟨cs₁, cs₂, rfl⟩ := append_of_mem hc
    exact ⟨_, _, _, .down hp hs⟩

lemma eq_root (hs : Spine pages d id d x A B R) : x = id ∧ A = [] ∧ B = [] ∧ R = [] := by
  cases hs with
  | here => exact ⟨rfl, rfl, rfl, rfl⟩
  | down _ hs' => exact absurd hs'.le (by omega)

lemma parent (hs : Spine pages d id h x A B R) (hlt : h < d) :
    ∃ p ks cs₁ cs₂ A' B' R', Spine pages d id (h + 1) p A' B' R' ∧
      pages p = .internal ks (cs₁ ++ x :: cs₂) ∧ A = A' ++ cs₁.flatMap (leaves pages h) ∧
      B = cs₂.flatMap (leaves pages h) ++ B' ∧
      R.Perm (R' ++ p :: (cs₁.flatMap (nodes pages h) ++ cs₂.flatMap (nodes pages h))) := by
  induction hs with
  | here => exact absurd hlt (lt_irrefl _)
  | @down d id h x c ks cs₁ cs₂ A B R hp hs ih =>
    rcases Nat.lt_or_ge h d with hlt' | hge
    · obtain ⟨p, ks', cs1', cs2', A', B', R', hs', hp', rfl, rfl, hperm⟩ := ih hlt'
      refine ⟨p, ks', cs1', cs2', _, _, _, .down hp hs', hp', by simp, by simp, ?_⟩
      rw [cons_append]
      refine cons id ((append_left _ (hperm.append_right _)).trans ?_)
      rw [append_assoc, append_assoc, append_assoc]
      exact append_left _ (append_left _ perm_append_comm)
    · obtain rfl : h = d := le_antisymm hs.le hge
      obtain ⟨rfl, rfl, rfl, rfl⟩ := hs.eq_root
      exact ⟨id, ks, cs₁, cs₂, [], [], [], .here, hp, by simp, by simp, by simp⟩

lemma leaf_parent (hs : Spine pages d id 0 x A B R) (hlt : 0 < d) :
    ∃ p ks cs₁ cs₂ A' B' R', Spine pages d id 1 p A' B' R' ∧
      pages p = .internal ks (cs₁ ++ x :: cs₂) ∧ A = A' ++ cs₁ ∧ B = cs₂ ++ B' ∧ R.Perm (R' ++ p :: (cs₁ ++ cs₂)) := by
  have hleaves : leaves pages 0 = fun l => [l] := rfl
  have hnodes : nodes pages 0 = fun l => [l] := rfl
  obtain ⟨p, ks, cs₁, cs₂, A', B', R', hsp, hp, hA, hB, hR⟩ := hs.parent hlt
  rw [hleaves, flatMap_singleton'] at hA hB
  rw [hnodes, flatMap_singleton', flatMap_singleton'] at hR
  exact ⟨p, ks, cs₁, cs₂, A', B', R', hsp, hp, hA, hB, hR⟩

end Spine

end BPlusTree

end MiniDb
