import Mathlib.Data.List.Perm.Subperm
import MiniDb.Index.BPlusTree.Shape

/-!
# Ways through the tree

In a valid tree whose entries ascend, a descent by a test of keys reaches the leaf where the test ends to hold: it
holds of all entries to the left of the leaf and of none to the right (`descend_spec`).  `find_parent` finds the page
above a page (`findParent_eq`).  A search along the chain returns what the leaves from there on hold for the key
(`searchChain_eq`).

`Coherent` is the invariant of the tree, but for the sizes of its pages.
-/

namespace MiniDb

open List Option

namespace BPlusTree

variable {κ : Type*}

section

variable {pages : Pages κ} {d id : ℕ}

/-- The way down is not longer than the number of pages. -/
lemma Valid.depth_eq {d' : ℕ} (h : Valid pages d id) (h' : Valid pages d' id) : d = d' := by
  induction d generalizing id d' with
  | zero =>
    obtain ⟨es, n, hp, -⟩ := h
    cases d' with
    | zero => rfl
    | succ d' =>
      obtain ⟨ks, cs, hp', -⟩ := h'
      cases hp.symm.trans hp'
  | succ d ih =>
    obtain ⟨ks, cs, hp, hne, -, hcs⟩ := h
    obtain ⟨c, cs, rfl⟩ := exists_cons_of_ne_nil hne
    cases d' with
    | zero =>
      obtain ⟨es, n, hp', -⟩ := h'
      cases hp.symm.trans hp'
    | succ d' =>
      obtain ⟨ks', cs', hp', -, -, hcs'⟩ := h'
      cases hp.symm.trans hp'
      rw [ih (hcs c mem_cons_self) (hcs' c mem_cons_self)]

lemma Shaped.depth_lt (h : Shaped pages d id) : d < (nodes pages d id).length := by
  induction d generalizing id with
  | zero => simp
  | succ d ih =>
    obtain ⟨ks, cs, hp, hne, -, hcs⟩ := h
    obtain ⟨c, cs', rfl⟩ := exists_cons_of_ne_nil hne
    have := ih (hcs c mem_cons_self)
    rw [nodes_succ hp, flatMap_cons, length_cons, length_append]
    omega

/-- There are fewer pages in a tree than numbers given out. -/
lemma length_lt_of_used {next : ℕ} (hnd : (nodes pages d id).Nodup)
    (hused : ∀ z ∈ nodes pages d id, 0 < z ∧ z < next) : (nodes pages d id).length < next := by
  have hsub : 0 :: nodes pages d id ⊆ range next := by
    intro z hz
    rcases mem_cons.1 hz with rfl | hz
    · exact mem_range.2 (Nat.zero_lt_of_lt (hused _ self_mem_nodes).2)
    · exact mem_range.2 (hused z hz).2
  have hnd' : (0 :: nodes pages d id).Nodup :=
    nodup_cons.2 ⟨fun h0 => lt_irrefl 0 (hused 0 h0).1, hnd⟩
  have hlen := (subperm_of_subset hnd' hsub).length_le
  rw [length_cons, length_range] at hlen
  omega

variable {n p x : ℕ} {ls : List ℕ} {pages' : Pages κ}

lemma descend_root {t : BPlusTree κ} {es : List (κ × RecordId)}
    (hp : t.pages t.rootPageId = .leaf es n) (hpos : 0 < t.rootPageId) (choose : List κ → ℕ) :
    descend t.pages choose kMaxPageChainHops t.rootPageId 0 = some (t.rootPageId, 0) := by
  have hhops : kMaxPageChainHops = 999999 + 1 := rfl
  rw [hhops, descend, if_neg hpos.ne', hp]

/-! ## The page above -/

lemma findParentLoop_eq (child : ℕ) : ∀ (hops : ℕ) (stack : List (ℕ × ℕ)), (∀ s ∈ stack, Shaped pages s.1 s.2) →
    (∀ z ∈ stack.flatMap fun s => nodes pages s.1 s.2, z ≠ 0) →
    (stack.flatMap fun s => nodes pages s.1 s.2).length ≤ hops →
    findParentLoop pages child hops (stack.map Prod.snd) = ((stack.flatMap fun s => nodes pages s.1 s.2).find? fun p =>
        decide (child ∈ (pages p).children)).getD 0 := by
  intro hops
  induction hops with
  | zero =>
    intro stack _ _ hlen
    rw [eq_nil_of_length_eq_zero (Nat.le_zero.1 hlen)]
    rfl
  | succ hops ih =>
    intro stack hshape hpos hlen
    cases stack with
    | nil => rfl
    | cons s stack =>
      obtain ⟨d, id⟩ := s
      have hs : Shaped pages d id := hshape _ mem_cons_self
      rw [map_cons, findParentLoop]
      cases d with
      | zero =>
        obtain ⟨es, next, hp, -⟩ := hs
        rw [hp]
        simp only [flatMap_cons, nodes_zero, singleton_append] at hpos hlen ⊢
        rw [find?_cons_of_neg (by simp [hp, IndexPage.children])]
        exact ih stack (fun s hs => hshape s (mem_cons_of_mem _ hs))
          (fun z hz => hpos z (mem_cons_of_mem _ hz)) (Nat.le_of_succ_le_succ hlen)
      | succ d =>
        obtain ⟨ks, cs, hp, -, -, hcs⟩ := hs
        rw [hp]
        simp only [flatMap_cons, nodes_succ hp, cons_append] at hpos hlen ⊢
        by_cases hchild : child ∈ cs
        · rw [find?_cons_of_pos (by simp [hp, IndexPage.children, hchild])]
          simp [hchild]
        · rw [find?_cons_of_neg (by simp [hp, IndexPage.children, hchild]), if_neg hchild]
          -- the children are put on the stack
          have hnz : cs.filter (fun c => decide (c ≠ 0)) = cs := by
            refine filter_eq_self.2 fun c hc => decide_eq_true ?_
            exact hpos c (mem_cons_of_mem _ (mem_append_left _ (mem_flatMap.2 ⟨c, hc, self_mem_nodes⟩)))
          have hstack : cs.filter (fun c => decide (c ≠ 0)) ++ stack.map Prod.snd =
              (cs.map (fun c => (d, c)) ++ stack).map Prod.snd := by
            rw [hnz, map_append, List.map_map]
            simp
          have hnodes : cs.flatMap (nodes pages d) ++ stack.flatMap (fun s => nodes pages s.1 s.2) =
              (cs.map (fun c => (d, c)) ++ stack).flatMap fun s => nodes pages s.1 s.2 := by
            rw [flatMap_append, flatMap_map]
          rw [hnodes] at hpos hlen ⊢
          rw [hstack]
          refine ih _ (fun s hs => ?_) (fun z hz => hpos z (mem_cons_of_mem _ hz)) (Nat.le_of_succ_le_succ hlen)
          rcases mem_append.1 hs with hs | hs
          · obtain ⟨c, hc, rfl⟩ := mem_map.1 hs
            exact hcs c hc
          · exact hshape s (mem_cons_of_mem _ hs)

lemma child_mem_nodes (hs : Shaped pages d id) (hp : p ∈ nodes pages d id)
    (hx : x ∈ (pages p).children) : x ∈ (nodes pages d id).tail := by
  induction d generalizing id with
  | zero =>
    obtain ⟨es, next, hpage, -⟩ := hs
    cases mem_singleton.1 hp
    rw [hpage] at hx
    cases hx
  | succ d ih =>
    obtain ⟨ks, cs, hpage, -, -, hcs⟩ := hs
    rw [nodes_succ hpage] at hp ⊢
    rcases mem_cons.1 hp with rfl | hp
    · rw [hpage] at hx
      exact mem_flatMap.2 ⟨x, hx, self_mem_nodes⟩
    · obtain ⟨c, hc, hp⟩ := mem_flatMap.1 hp
      exact mem_flatMap.2 ⟨c, hc, mem_of_mem_tail (ih (hcs c hc) hp)⟩

lemma parent_unique {q : ℕ} (hs : Shaped pages d id) (hnd : (nodes pages d id).Nodup)
    (hp : p ∈ nodes pages d id) (hq : q ∈ nodes pages d id) (hxp : x ∈ (pages p).children)
    (hxq : x ∈ (pages q).children) : p = q := by
  induction d generalizing id with
  | zero => rw [mem_singleton.1 hp, mem_singleton.1 hq]
  | succ d ih =>
    obtain ⟨ks, cs, hpage, -, -, hcs⟩ := hs
    rw [nodes_succ hpage] at hp hq hnd
    obtain ⟨-, hnd⟩ := nodup_cons.1 hnd
    obtain ⟨hnodup, hdisj⟩ := nodup_flatMap.1 hnd
    -- below the root the page is in the tree of one child, and not at its top
    have hbelow : ∀ {r}, r ∈ cs.flatMap (nodes pages d) → x ∈ (pages r).children →
        ∃ c ∈ cs, r ∈ nodes pages d c ∧ x ∈ nodes pages d c ∧ x ≠ c := by
      intro r hr hxr
      obtain ⟨c, hc, hr⟩ := mem_flatMap.1 hr
      have htail := child_mem_nodes (hcs c hc) hr hxr
      refine ⟨c, hc, hr, mem_of_mem_tail htail, ?_⟩
      rintro rfl
      have hnc := hnodup x hc
      cases d with
      | zero => cases htail
      | succ d => exact (nodup_cons.1 hnc).1 htail
    have hsame : ∀ {c c'}, c ∈ cs → c' ∈ cs → x ∈ nodes pages d c → x ∈ nodes pages d c' → c = c' := by
      intro c c' hc hc' hx hx'
      by_contra hne
      have hsymm : Std.Symm (Function.onFun List.Disjoint (nodes pages d)) :=
        ⟨fun _ _ h => List.Disjoint.symm h⟩
      exact hdisj.forall hc hc' hne hx hx'
    rcases mem_cons.1 hp with rfl | hp' <;> rcases mem_cons.1 hq with rfl | hq'
    · rfl
    · obtain ⟨c, hc, -, hx, hne⟩ := hbelow hq' hxq
      rw [hpage] at hxp
      exact absurd (hsame hxp hc self_mem_nodes hx) hne
    · obtain ⟨c, hc, -, hx, hne⟩ := hbelow hp' hxp
      rw [hpage] at hxq
      exact absurd (hsame hxq hc self_mem_nodes hx) hne
    · obtain ⟨c, hc, hp, hx, -⟩ := hbelow hp' hxp
      obtain ⟨c', hc', hq, hx', -⟩ := hbelow hq' hxq
      obtain rfl := hsame hc hc' hx hx'
      exact ih (hcs c hc) (hnodup c hc) hp hq

/-- The leaves in the order of their next links. -/
def Chained (pages : Pages κ) : List ℕ → Prop
  | [] => True
  | l :: ls => (pages l).next = ls.headD 0 ∧ Chained pages ls

lemma Chained.right {ls' : List ℕ} (h : Chained pages (ls ++ ls')) : Chained pages ls' := by
  induction ls with
  | nil => exact h
  | cons l ls ih => exact ih h.2

lemma Chained.congr (h : Chained pages ls) (heq : ∀ l ∈ ls, (pages' l).next = (pages l).next) :
    Chained pages' ls := by
  induction ls with
  | nil => trivial
  | cons l ls ih => exact ⟨(heq l mem_cons_self).trans h.1, ih h.2 fun l' hl' => heq l' (mem_cons_of_mem l hl')⟩

lemma Chained.insert {A B : List ℕ} {l : ℕ} (h : Chained pages (A ++ l :: B))
    (hA : ∀ a ∈ A, (pages' a).next = (pages a).next) (hB : ∀ b ∈ B, (pages' b).next = (pages b).next)
    (hl : (pages' l).next = n) (hn : (pages' n).next = (pages l).next) : Chained pages' (A ++ l :: n :: B) := by
  induction A with
  | nil => exact ⟨hl, hn.trans h.1, h.2.congr hB⟩
  | cons a A ih =>
    refine ⟨(hA a mem_cons_self).trans (h.1.trans ?_), ih h.2 fun a' ha' => hA a' (mem_cons_of_mem a ha')⟩
    cases A <;> rfl

end

variable {choose : List κ → ℕ}

section

variable [TreeKey κ] {pages : Pages κ} {d id : ℕ}

/-- Entries in the order of their keys. -/
def Ascending (es : List (κ × RecordId)) : Prop := es.Pairwise fun e e' => e.1 ≤ e'.1

variable {es : List (κ × RecordId)} {e : κ × RecordId} {q : κ → Bool}

lemma ascending_append {es' : List (κ × RecordId)} : Ascending (es ++ es') ↔
      Ascending es ∧ Ascending es' ∧ ∀ e ∈ es, ∀ e' ∈ es', e.1 ≤ e'.1 := pairwise_append

lemma ascending_cons : Ascending (e :: es) ↔ (∀ e' ∈ es, e.1 ≤ e'.1) ∧ Ascending es := pairwise_cons

/-! ## The way down -/

section

variable (hq : ∀ a b, a ≤ b → q b = true → q a = true)
include hq

/-- Among the children, the test of keys holds of all entries to the left of the child chosen, and of
none to the right. -/
lemma route : ∀ {ks : List κ} {cs : List ℕ} {c0 : ℕ}, ks.map some = cs.map (firstKey pages d) →
      Ascending ((c0 :: cs).flatMap (entries pages d)) →
      ∃ cs1 c cs2, c0 :: cs = cs1 ++ c :: cs2 ∧ cs1.length = (ks.takeWhile q).length ∧
        (∀ e ∈ cs1.flatMap (entries pages d), q e.1 = true) ∧ (∀ e ∈ cs2.flatMap (entries pages d), q e.1 = false) ∧
        (cs1 ≠ [] → ∃ k, firstKey pages d c = some k ∧ q k = true) := by
  intro ks
  induction ks with
  | nil =>
    intro cs c0 hks _
    obtain rfl : cs = [] := map_eq_nil_iff.1 hks.symm
    exact ⟨[], c0, [], rfl, rfl, by simp, by simp, fun h => absurd rfl h⟩
  | cons k ks ih =>
    intro cs c0 hks hasc
    cases cs with
    | nil => cases hks
    | cons c1 cs =>
      obtain ⟨hk, hks'⟩ := cons.inj hks
      obtain ⟨e1, he1, rfl⟩ := map_eq_some_iff.1 hk.symm
      obtain ⟨es1, hes1⟩ := head?_eq_some_iff.1 he1
      rw [flatMap_cons] at hasc
      obtain ⟨-, hasc', hcross⟩ := ascending_append.1 hasc
      cases hqk : q e1.1 with
      | true =>
        obtain ⟨cs1, c, cs2, heq, hlen, hleft, hright, hfirst⟩ := ih hks' hasc'
        refine ⟨c0 :: cs1, c, cs2, by rw [heq]; rfl, ?_, ?_, hright, fun _ => ?_⟩
        · rw [takeWhile_cons_of_pos hqk, length_cons, length_cons, hlen]
        · intro e he
          rcases mem_append.1 he with he | he
          · refine hq _ _ (hcross e he e1 ?_) hqk
            rw [flatMap_cons, hes1]
            exact mem_append_left _ mem_cons_self
          · exact hleft e he
        · by_cases hnil : cs1 = []
          · subst hnil
            cases heq
            exact ⟨e1.1, hk.symm, hqk⟩
          · exact hfirst hnil
      | false =>
        refine ⟨[], c0, c1 :: cs, rfl, ?_, by simp, ?_, fun h => absurd rfl h⟩
        · rw [takeWhile_cons_of_neg (by rw [hqk]; exact Bool.false_ne_true)]
          rfl
        · intro e he
          rw [← Bool.not_eq_true]
          intro hqe
          have hle : e1.1 ≤ e.1 := by
            rw [flatMap_cons, hes1] at he hasc'
            rcases mem_cons.1 he with rfl | he
            · exact le_rfl
            · exact (ascending_cons.1 hasc').1 e he
          rw [hq _ _ hle hqe] at hqk
          cases hqk

lemma leading_of_keys {ks : List κ} {cs : List ℕ} (hks : ks.map some = cs.map (firstKey pages d))
    (hasc : Ascending (cs.flatMap (entries pages d))) : Leading q ks := by
  have hkeys : (ks.map some).Pairwise fun a b => ∀ k k', a = some k → b = some k' → k ≤ k' := by
    rw [hks]
    refine pairwise_map.2 ((pairwise_flatMap.1 hasc).2.imp ?_)
    intro c c' hcross k k' hk hk'
    obtain ⟨e, he, rfl⟩ := map_eq_some_iff.1 hk
    obtain ⟨e', he', rfl⟩ := map_eq_some_iff.1 hk'
    exact hcross e (mem_of_mem_head? he) e' (mem_of_mem_head? he')
  exact (pairwise_map.1 hkeys).imp fun h => hq _ _ (h _ _ rfl rfl)

/-- What a descent that goes by a test of keys reaches. -/
structure Reached (pages : Pages κ) (q : κ → Bool) (d id l : ℕ) (A B R : List ℕ) : Prop where
  spine : Spine pages d id 0 l A B R
  left : ∀ e ∈ entriesOf pages A, q e.1 = true
  right : ∀ e ∈ entriesOf pages B, q e.1 = false
  first : A ≠ [] → ∃ k, firstKey pages 0 l = some k ∧ q k = true

/-- **A descent reaches the leaf where the test ends to hold.** -/
theorem descend_spec (hchoose : ∀ ks, Leading q ks → choose ks = (ks.takeWhile q).length)
    (hv : Valid pages d id) (hasc : Ascending (entries pages d id))
    (hpos : ∀ z ∈ nodes pages d id, z ≠ 0) : ∀ hops parent, d < hops →
      ∃ l p A B R, descend pages choose hops id parent = some (l, p) ∧ Reached pages q d id l A B R ∧
        ((d = 0 ∧ p = parent) ∨ (p ∈ nodes pages d id ∧ l ∈ (pages p).children)) := by
  induction d generalizing id with
  | zero =>
    intro hops parent hhops
    obtain ⟨hops, rfl⟩ := Nat.exists_eq_succ_of_ne_zero (Nat.ne_of_gt hhops)
    obtain ⟨es, next, hp, -⟩ := hv
    refine ⟨id, parent, [], [], [], ?_, ⟨.here, by simp, by simp, fun h => absurd rfl h⟩,
      .inl ⟨rfl, rfl⟩⟩
    rw [descend, if_neg (hpos id self_mem_nodes), hp]
  | succ d ih =>
    intro hops parent hhops
    obtain ⟨hops, rfl⟩ := Nat.exists_eq_succ_of_ne_zero (Nat.ne_of_gt (Nat.zero_lt_of_lt hhops))
    obtain ⟨ks, cs, hp, hne, hks, hcs⟩ := hv
    obtain ⟨c0, cs', rfl⟩ := exists_cons_of_ne_nil hne
    rw [tail_cons] at hks
    rw [entries_succ hp] at hasc
    obtain ⟨cs1, c, cs2, heq, hlen, hleft, hright, hfirst⟩ := route hq hks hasc
    have htail : Ascending (cs'.flatMap (entries pages d)) := by
      exact (ascending_append.1 hasc).2.1
    rw [heq] at hp hcs hasc
    have hc : c ∈ cs1 ++ c :: cs2 := by simp
    have hcasc : Ascending (entries pages d c) := (pairwise_flatMap.1 hasc).1 c hc
    obtain ⟨l, p, A, B, R, hdesc, hreach, habove⟩ := ih (hcs c hc) hcasc
      (fun z hz => hpos z (mem_nodes_of_child hp hc hz)) hops id (Nat.lt_of_succ_lt_succ hhops)
    refine ⟨l, p, _, _, _, ?_, ⟨.down hp hreach.spine, ?_, ?_, ?_⟩, .inr ?_⟩
    · rw [descend, if_neg (hpos id self_mem_nodes), hp]
      dsimp only
      rw [hchoose ks (leading_of_keys hq hks htail), ← hlen]
      simpa using hdesc
    · intro e he
      rw [entriesOf_append] at he
      rcases mem_append.1 he with he | he
      · refine hleft e ?_
        rwa [entriesOf, flatMap_assoc] at he
      · exact hreach.left e he
    · intro e he
      rw [entriesOf_append] at he
      rcases mem_append.1 he with he | he
      · exact hreach.right e he
      · refine hright e ?_
        rwa [entriesOf, flatMap_assoc] at he
    · intro hA
      by_cases hinner : A = []
      · -- the leaf is the first below the child
        subst hinner
        obtain ⟨k, hk, hqk⟩ := hfirst (by rintro rfl; exact hA (by simp))
        refine ⟨k, ?_, hqk⟩
        rw [← hk, hreach.spine.firstKey_of_left_nil (hreach.spine.shaped (hcs c hc).shaped)]
      · exact hreach.first hinner
    · rcases habove with ⟨rfl, rfl⟩ | ⟨hmem, hchild⟩
      · refine ⟨self_mem_nodes, ?_⟩
        cases hreach.spine
        rw [hp]
        exact hc
      · exact ⟨mem_nodes_of_child hp hc hmem, hchild⟩

end

/-! ## Along the leaves -/

lemma Ascending.lt_of_mem_dropWhile (h : Ascending es) {key : κ}
    (he : e ∈ es.dropWhile fun e => decide (e.1 ≤ key)) : key < e.1 := by
  induction es with
  | nil => cases he
  | cons a es ih =>
    by_cases ha : a.1 ≤ key
    · rw [dropWhile_cons_of_pos (by simpa using ha)] at he
      exact ih (ascending_cons.1 h).2 he
    · rw [dropWhile_cons_of_neg (by simpa using ha)] at he
      rcases mem_cons.1 he with rfl | he
      · exact not_le.1 ha
      · exact lt_of_lt_of_le (not_le.1 ha) ((ascending_cons.1 h).1 e he)

lemma Ascending.filter_takeWhile (h : Ascending es) (key : κ)
    (p : κ × RecordId → Bool) (hp : ∀ e, p e = true → e.1 = key) :
    (es.takeWhile fun e => decide (e.1 ≤ key)).filter p = es.filter p := by
  conv_rhs => rw [← takeWhile_append_dropWhile (p := fun e => decide (e.1 ≤ key)) (l := es)]
  rw [filter_append, append_right_eq_self.2]
  refine filter_eq_nil_iff.2 fun e he hpe => ?_
  exact absurd (hp e hpe) (ne_of_gt (h.lt_of_mem_dropWhile he))

lemma Ascending.takeWhile_cases (h : Ascending es) (key : κ) :
    (es.takeWhile (fun e => decide (e.1 ≤ key)) = es) ∨ ((es.takeWhile fun e => decide (e.1 ≤ key)).length < es.length ∧
        ∃ e ∈ es, key < e.1) := by
  have happ := takeWhile_append_dropWhile (p := fun e => decide (e.1 ≤ key)) (l := es)
  cases hd : es.dropWhile fun e => decide (e.1 ≤ key) with
  | nil =>
    rw [hd, append_nil] at happ
    exact .inl happ
  | cons e es' =>
    have hmem : e ∈ es.dropWhile fun e => decide (e.1 ≤ key) := hd ▸ mem_cons_self
    refine .inr ⟨?_, e, (dropWhile_sublist _).subset hmem, h.lt_of_mem_dropWhile hmem⟩
    have hlen := congrArg length happ
    rw [hd, length_append, length_cons] at hlen
    omega

lemma searchChain_eq (key : κ) (ls : List ℕ) : ∀ {hops}, Ascending (entriesOf pages ls) →
    Chained pages ls → (∀ l ∈ ls, l ≠ 0) → ls.length ≤ hops → searchChain pages key hops (ls.headD 0) =
      ((entriesOf pages ls).filter fun e => decide (e.1 = key)).map Prod.snd := by
  induction ls with
  | nil =>
    intro hops _ _ _ _
    cases hops <;> rfl
  | cons l ls ih =>
    intro hops hasc hchain hpos hlen
    obtain ⟨hops, rfl⟩ := Nat.exists_eq_succ_of_ne_zero (Nat.ne_zero_of_lt hlen)
    obtain ⟨hl, hls, hcross⟩ := ascending_append.1 hasc
    rw [headD_cons, searchChain, if_neg (hpos l mem_cons_self), entriesOf_cons, filter_append, map_append]
    dsimp only
    rw [hl.filter_takeWhile key _ fun e he => of_decide_eq_true he]
    rcases hl.takeWhile_cases key with hall | ⟨hlt, e, he, hgt⟩
    · rw [hall, if_neg (lt_irrefl _), hchain.1]
      refine congrArg _ (ih hls hchain.2 (fun l' hl' => hpos l' (mem_cons_of_mem _ hl')) ?_)
      rw [length_cons] at hlen
      omega
    · -- no entry after this leaf has the key
      rw [if_pos hlt]
      have hnone : (entriesOf pages ls).filter (fun e => decide (e.1 = key)) = [] := by
        refine filter_eq_nil_iff.2 fun e' he' heq => ?_
        exact absurd (of_decide_eq_true heq) (ne_of_gt (lt_of_lt_of_le hgt (hcross e he e' he')))
      rw [hnone, map_nil, append_nil]

/-! ## The invariant -/

/-- The tree of a root is valid and made of pages that are in use; the entries ascend, and the chain goes
through the leaves in their order. -/
structure Coherent (pages : Pages κ) (root next d : ℕ) : Prop where
  valid : Valid pages d root
  nodup : (nodes pages d root).Nodup
  used : ∀ z ∈ nodes pages d root, 0 < z ∧ z < next
  ascending : Ascending (entries pages d root)
  chained : Chained pages (leaves pages d root)

/-- No walk over the tree, down to a leaf or along the leaves, comes to the limit on its hops. -/
def WalksEnd (t : BPlusTree κ) : Prop :=
  ∀ d, Coherent t.pages t.rootPageId t.nextPageNum d →
    d < kMaxPageChainHops ∧ (leaves t.pages d t.rootPageId).length ≤ kMaxPageChainHops

namespace Coherent

variable {root next : ℕ}

section

variable (h : Coherent pages root next d)
include h

lemma pos : ∀ z ∈ nodes pages d root, z ≠ 0 := fun z hz =>
  Nat.ne_of_gt (h.used z hz).1

lemma length_nodes_lt : (nodes pages d root).length < next :=
  length_lt_of_used h.nodup h.used

lemma depth_lt : d < next :=
  lt_trans h.valid.shaped.depth_lt h.length_nodes_lt

lemma length_leaves_lt : (leaves pages d root).length < next :=
  leaves_sublist_nodes.length_le.trans_lt h.length_nodes_lt

lemma descend (hd : d < kMaxPageChainHops) {q : κ → Bool} (hq : ∀ a b, a ≤ b → q b = true → q a = true)
    (hchoose : ∀ ks, Leading q ks → choose ks = (ks.takeWhile q).length) :
    ∃ l p A B R, BPlusTree.descend pages choose kMaxPageChainHops root 0 = some (l, p) ∧
      Reached pages q d root l A B R ∧ ((d = 0 ∧ p = 0) ∨ (p ∈ nodes pages d root ∧ l ∈ (pages p).children)) :=
  descend_spec hq hchoose h.valid h.ascending h.pos _ _ hd

end

variable {h x p : ℕ} {A B R : List ℕ} {t : BPlusTree κ}

/-- Pages outside of a part are not its top page, nor the next to be given out. -/
lemma ne_of_mem (hC : Coherent pages root next d) (hs : Spine pages d root h x A B R) {z : ℕ} (hz : z ∈ R) :
    z ≠ x ∧ z ≠ next := by
  refine ⟨?_, (hC.used z (hs.mem_nodes_of_mem hz)).2.ne⟩
  exact (nodup_append.1 (hs.nodes_perm.nodup_iff.1 hC.nodup)).2.2 z hz x self_mem_nodes

lemma root_ne (h : Coherent pages root next d) (hp : p ∈ nodes pages d root)
    (hx : x ∈ (pages p).children) : root ≠ x := by
  rintro rfl
  have htail := child_mem_nodes h.valid.shaped hp hx
  cases d with
  | zero => cases htail
  | succ d => exact (nodup_cons.1 h.nodup).1 htail

/-- **The page above a page.** -/
theorem findParent_eq (h : Coherent t.pages t.rootPageId t.nextPageNum d)
    (hpages : t.nextPageNum ≤ kMaxPageChainHops) (hp : p ∈ nodes t.pages d t.rootPageId)
    (hx : x ∈ (t.pages p).children) : t.findParent x = p := by
  have hs := h.valid.shaped
  have hlen := h.length_nodes_lt
  have hloop := findParentLoop_eq x kMaxPageChainHops [(d, t.rootPageId)]
    (by simpa using hs) (by simpa using h.pos) (by simp; omega)
  rw [map_singleton, flatMap_singleton] at hloop
  rw [findParent, if_neg (h.root_ne hp hx), hloop]
  have hsome : ((nodes t.pages d t.rootPageId).find? fun p =>
      decide (x ∈ (t.pages p).children)).isSome = true :=
    find?_isSome.2 ⟨p, hp, decide_eq_true hx⟩
  obtain ⟨q, hq⟩ := isSome_iff_exists.1 hsome
  rw [hq, getD_some]
  have hqx : x ∈ (t.pages q).children := by simpa using find?_some hq
  exact parent_unique hs h.nodup (mem_of_find?_eq_some hq) hp hqx hx

/-- **What a search returns**: the record ids of the entries with the key, all of them. -/
theorem search_eq (h : Coherent t.pages t.rootPageId t.nextPageNum d) (hw : t.WalksEnd) (key : κ) :
    t.search key = ((entries t.pages d t.rootPageId).filter fun e => decide (e.1 = key)).map Prod.snd := by
  have hq : ∀ a b : κ, a ≤ b → decide (b < key) = true → decide (a < key) = true := fun a b hab hb =>
    decide_eq_true (lt_of_le_of_lt hab (of_decide_eq_true hb))
  obtain ⟨hd, hlen⟩ := hw d h
  obtain ⟨l, p, A, B, R, hdesc, hreach, -⟩ := h.descend hd hq fun ks hks => partitionPoint_eq hks
  have hleaves := hreach.spine.leaves_eq
  rw [leaves_zero, append_assoc] at hleaves
  have hroot : t.rootPageId ≠ 0 := h.pos _ self_mem_nodes
  have hasc := h.ascending
  have hchain := h.chained
  rw [entries, hleaves, entriesOf_append] at hasc
  rw [hleaves] at hchain
  rw [hleaves, length_append] at hlen
  have hchain' : searchChain t.pages key kMaxPageChainHops l = _ :=
    searchChain_eq key ([l] ++ B) (ascending_append.1 hasc).2.1 hchain.right
      (fun z hz => h.pos z (leaves_subset_nodes (hleaves ▸ mem_append_right A hz))) (by omega)
  rw [search, if_neg hroot, findLeafLowerBound, hdesc]
  dsimp only [map_some]
  rw [hchain', entries, hleaves, entriesOf_append A, filter_append]
  have hnone : (entriesOf t.pages A).filter (fun e => decide (e.1 = key)) = [] := by
    refine filter_eq_nil_iff.2 fun e he heq => ?_
    exact absurd (of_decide_eq_true heq) (ne_of_lt (of_decide_eq_true (hreach.left e he)))
  rw [hnone, nil_append]

lemma of_spine {pages' : Pages κ} (hs : Spine pages d root h x A B R)
    (hv : Valid pages d root) (hR : ∀ z ∈ R, pages' z = pages z) (hx : Valid pages' h x)
    (hfirst : A ≠ [] → firstKey pages' h x = firstKey pages h x) (hnodup : (R ++ nodes pages' h x).Nodup)
    (hused : ∀ z ∈ R ++ nodes pages' h x, 0 < z ∧ z < next)
    (hasc : Ascending (entriesOf pages' (A ++ leaves pages' h x ++ B)))
    (hchain : Chained pages' (A ++ leaves pages' h x ++ B)) : Coherent pages' root next d := by
  have hs' := hs.congr hR
  refine ⟨hs.valid_of hv hR hx hfirst, hs'.nodes_perm.nodup_iff.2 hnodup, fun z hz => ?_, ?_, ?_⟩
  · exact hused z (hs'.nodes_perm.mem_iff.1 hz)
  · rw [entries, hs'.leaves_eq]
    exact hasc
  · rw [hs'.leaves_eq]
    exact hchain

end Coherent

lemma Coherent.walksEnd {t : BPlusTree κ} (hC : Coherent t.pages t.rootPageId t.nextPageNum d)
    (hd : d < kMaxPageChainHops) (hlen : (leaves t.pages d t.rootPageId).length ≤ kMaxPageChainHops) : t.WalksEnd := by
  intro d' hC'
  obtain rfl := hC'.valid.depth_eq hC.valid
  exact ⟨hd, hlen⟩

/-- A tree with few pages has no long walks. -/
lemma walksEnd_of_le {t : BPlusTree κ} (h : t.nextPageNum ≤ kMaxPageChainHops) : t.WalksEnd := fun _ hC =>
  ⟨hC.depth_lt.trans_le h, hC.length_leaves_lt.le.trans h⟩

/-- The invariant of the tree: no page is too large, either. -/
structure Inv (t : BPlusTree κ) (d : ℕ) : Prop extends Coherent t.pages t.rootPageId t.nextPageNum d where
  sized : ∀ z ∈ nodes t.pages d t.rootPageId, (t.pages z).numKeys ≤ kIndexMaxKeys

end

end BPlusTree

end MiniDb
