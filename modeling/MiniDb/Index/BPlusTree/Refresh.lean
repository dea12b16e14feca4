import MiniDb.Index.BPlusTree.Walk

/-!
# Writing the separators anew

`Rekeyed` relates pages that differ in separators and in the links of the chain only; trees of such pages
have the same pages, leaves and entries.  After `refresh_internal_separators` the pages are so related to
those before, and the tree is valid if it was shaped (`refresh_spec`).

`Loose` is the invariant without the separators, and `Loose.refreshed` takes it to the invariant.
-/

namespace MiniDb

open Function List

namespace BPlusTree

variable {κ : Type*}

/-! ## Separators and links apart -/

/-- Pages of the same kind with the same entries or children. -/
inductive Alike : IndexPage κ → IndexPage κ → Prop
  | leaf (es : List (κ × RecordId)) (n n' : ℕ) : Alike (.leaf es n) (.leaf es n')
  | internal {ks ks' : List κ} (cs : List ℕ) : ks'.length = ks.length →
      Alike (.internal ks cs) (.internal ks' cs)

def Rekeyed (pages pages' : Pages κ) : Prop := ∀ z, Alike (pages z) (pages' z)

namespace Alike

variable {p p' p'' : IndexPage κ}

lemma refl (p : IndexPage κ) : Alike p p := by
  cases p with
  | leaf es n => exact .leaf es n n
  | internal ks cs => exact .internal cs rfl

section

variable (h : Alike p p')
include h

lemma trans (h' : Alike p' p'') : Alike p p'' := by
  cases h with
  | leaf es n n' =>
    cases h' with
    | leaf _ _ n'' => exact .leaf es n n''
  | internal cs hlen =>
    cases h' with
    | internal _ hlen' => exact .internal cs (hlen'.trans hlen)

lemma children_eq : p'.children = p.children := by cases h <;> rfl

lemma entries_eq : p'.entries = p.entries := by cases h <;> rfl

lemma numKeys_eq : p'.numKeys = p.numKeys := by
  cases h with
  | leaf es n n' => rfl
  | internal cs hlen => exact hlen

end

end Alike

namespace Rekeyed

variable {pages pages' pages'' : Pages κ} {d id : ℕ}

lemma refl (pages : Pages κ) : Rekeyed pages pages := fun z => .refl (pages z)

lemma trans (h : Rekeyed pages pages') (h' : Rekeyed pages' pages'') : Rekeyed pages pages'' :=
  fun z => (h z).trans (h' z)

lemma update {p : IndexPage κ} (h : Alike (pages id) p) : Rekeyed pages (update pages id p) := by
  intro z
  by_cases hz : z = id
  · rw [hz, update_self]
    exact h
  · rw [update_of_ne hz]
    exact .refl _

section

variable (h : Rekeyed pages pages')
include h

lemma nodes_eq : nodes pages' d id = nodes pages d id := by
  induction d generalizing id with
  | zero => rfl
  | succ d ih =>
    rw [nodes, nodes, (h id).children_eq]
    exact congrArg _ (flatMap_congr fun c _ => ih)

lemma leaves_eq : leaves pages' d id = leaves pages d id := by
  induction d generalizing id with
  | zero => rfl
  | succ d ih =>
    rw [leaves, leaves, (h id).children_eq]
    exact flatMap_congr fun c _ => ih

lemma entriesOf_eq (ls : List ℕ) : entriesOf pages' ls = entriesOf pages ls :=
  flatMap_congr fun l _ => (h l).entries_eq

lemma entries_eq : entries pages' d id = entries pages d id := by
  rw [entries, entries, h.leaves_eq, h.entriesOf_eq]

lemma shaped (hs : Shaped pages d id) : Shaped pages' d id := by
  induction d generalizing id with
  | zero =>
    obtain ⟨es, n, hp, hne⟩ := hs
    have hid := h id
    rw [hp] at hid
    generalize hq : pages' id = q at hid
    cases hid with
    | leaf _ _ n' => exact ⟨es, n', hq, hne⟩
  | succ d ih =>
    obtain ⟨ks, cs, hp, hne, hlen, hcs⟩ := hs
    have hid := h id
    rw [hp] at hid
    generalize hq : pages' id = q at hid
    cases hid with
    | internal _ hlen' => exact ⟨_, cs, hq, hne, hlen'.trans hlen, fun c hc => ih (hcs c hc)⟩

end

end Rekeyed

/-! ## The leftmost leaf -/

variable {pages pages' : Pages κ} {d id : ℕ}

/-- Always by the first child, a descent reaches the first leaf. -/
lemma descend_leftmost (hs : Shaped pages d id) (hpos : ∀ z ∈ nodes pages d id, z ≠ 0) :
    ∀ hops parent, d < hops → ∃ p, descend pages (fun _ => 0) hops id parent =
      some ((leaves pages d id).headD 0, p) := by
  induction d generalizing id with
  | zero =>
    intro hops parent hhops
    obtain ⟨hops, rfl⟩ := Nat.exists_eq_succ_of_ne_zero hhops.ne'
    obtain ⟨es, n, hp, -⟩ := hs
    refine ⟨parent, ?_⟩
    rw [descend, if_neg (hpos id self_mem_nodes), hp]
    rfl
  | succ d ih =>
    intro hops parent hhops
    obtain ⟨hops, rfl⟩ := Nat.exists_eq_succ_of_ne_zero (Nat.ne_zero_of_lt hhops)
    obtain ⟨ks, cs, hp, hne, -, hcs⟩ := hs
    obtain ⟨c, cs, rfl⟩ := exists_cons_of_ne_nil hne
    obtain ⟨p, hdesc⟩ := ih (hcs c mem_cons_self) (fun z hz => hpos z (mem_nodes_of_child hp mem_cons_self hz)) hops id
      (Nat.lt_of_succ_lt_succ hhops)
    refine ⟨p, ?_⟩
    rw [descend, if_neg (hpos id self_mem_nodes), hp]
    dsimp only
    rw [getD_cons_zero, hdesc, leaves_succ hp, flatMap_cons]
    obtain ⟨l, ls, hl⟩ := exists_cons_of_ne_nil (hcs c mem_cons_self).leaves_ne_nil
    rw [hl]
    rfl

lemma firstKeyInSubtree_eq (hs : Shaped pages d id) (hpos : ∀ z ∈ nodes pages d id, z ≠ 0)
    (hd : d < kMaxPageChainHops) : firstKeyInSubtree pages id = firstKey pages d id := by
  obtain ⟨p, hdesc⟩ := descend_leftmost hs hpos kMaxPageChainHops 0 hd
  obtain ⟨l, ls, hl⟩ := exists_cons_of_ne_nil hs.leaves_ne_nil
  obtain ⟨es, n, hpl, hes⟩ := hs.leaf_page l (hl ▸ mem_cons_self)
  rw [firstKeyInSubtree, hdesc, firstKey, entries, hl, entriesOf_cons, hpl]
  dsimp only [Option.bind_some, headD_cons]
  rw [hpl, IndexPage.entries, head?_append_of_ne_nil _ hes]

/-! ## All separators -/

/-- The keys that are written for the children, from the second on. -/
lemma zipWith_firstKey {ks : List κ} {cs : List ℕ} (hlen : ks.length = cs.length) {f : ℕ → Option κ}
    (hf : ∀ c ∈ cs, (f c).isSome = true) : (zipWith (fun k c => (f c).getD k) ks cs).map some = cs.map f := by
  induction ks generalizing cs with
  | nil => rw [eq_nil_of_length_eq_zero hlen.symm]; rfl
  | cons k ks ih =>
    cases cs with
    | nil => cases hlen
    | cons c cs =>
      obtain ⟨k', hk'⟩ := Option.isSome_iff_exists.1 (hf c mem_cons_self)
      rw [zipWith_cons_cons, map_cons, map_cons, hk', Option.getD_some,
        ih (Nat.succ.inj hlen) fun c' hc' => hf c' (mem_cons_of_mem c hc')]

/-- What `refresh_internal_separators` does to the tree of a page. -/
structure Refreshes (pages pages' : Pages κ) (d id : ℕ) : Prop where
  rekeyed : Rekeyed pages pages'
  next : ∀ z, (pages' z).next = (pages z).next
  valid : Valid pages' d id
  outside : ∀ z, z ∉ nodes pages d id → pages' z = pages z

/-- The children one after the other; they have no pages in common. -/
lemma refresh_children {step : Pages κ → ℕ → Pages κ}
    (hstep : ∀ {pages c}, Shaped pages d c → (nodes pages d c).Nodup →
      (∀ z ∈ nodes pages d c, z ≠ 0) → Refreshes pages (step pages c) d c) :
    ∀ (cs : List ℕ) {pages : Pages κ}, (∀ c ∈ cs, Shaped pages d c) →
      (cs.flatMap (nodes pages d)).Nodup → (∀ z ∈ cs.flatMap (nodes pages d), z ≠ 0) →
      Rekeyed pages (cs.foldl step pages) ∧ (∀ z, (cs.foldl step pages z).next = (pages z).next) ∧
        (∀ c ∈ cs, Valid (cs.foldl step pages) d c) ∧
        ∀ z, z ∉ cs.flatMap (nodes pages d) → cs.foldl step pages z = pages z := by
  intro cs
  induction cs with
  | nil => intro pages _ _ _; exact ⟨.refl pages, fun z => rfl, by simp, fun z _ => rfl⟩
  | cons c cs ih =>
    intro pages hs hnd hpos
    rw [flatMap_cons] at hnd hpos
    obtain ⟨hndc, hndcs, hdisj⟩ := nodup_append.1 hnd
    have hc := hstep (hs c mem_cons_self) hndc fun z hz => hpos z (mem_append_left _ hz)
    have hnodes : cs.flatMap (nodes (step pages c) d) = cs.flatMap (nodes pages d) :=
      flatMap_congr fun c' _ => hc.rekeyed.nodes_eq
    have htail := ih (fun c' hc' => hc.rekeyed.shaped (hs c' (mem_cons_of_mem c hc'))) (hnodes ▸ hndcs)
      (fun z hz => hpos z (mem_append_right _ (hnodes ▸ hz)))
    obtain ⟨hrek, hnext, hvalid, hout⟩ := htail
    rw [hnodes] at hout
    refine ⟨hc.rekeyed.trans hrek, fun z => (hnext z).trans (hc.next z), fun c' hc' => ?_, fun z hz => ?_⟩
    · rcases mem_cons.1 hc' with rfl | hc'
      · refine hc.valid.congr fun z hz => hout z fun hz' => ?_
        rw [hc.rekeyed.nodes_eq] at hz
        exact hdisj z hz z hz' rfl
      · exact hvalid c' hc'
    · rw [foldl_cons, hout z fun hz' => hz (mem_append_right _ hz')]
      exact hc.outside z fun hz' => hz (mem_append_left _ hz')

lemma Shaped.isSome_firstKey (hs : Shaped pages d id) : (firstKey pages d id).isSome = true := by
  obtain ⟨e, es, he⟩ := exists_cons_of_ne_nil hs.entries_ne_nil
  rw [firstKey, he]
  rfl

/-- **All separators are written anew**, and the tree is valid. -/
theorem refresh_spec : ∀ {fuel : ℕ} {pages : Pages κ}, Shaped pages d id →
    (nodes pages d id).Nodup → (∀ z ∈ nodes pages d id, z ≠ 0) → d < fuel →
    d < kMaxPageChainHops → Refreshes pages (refreshInternalSeparators fuel pages id) d id := by
  induction d generalizing id with
  | zero =>
    intro fuel pages hs _ _ hfuel _
    obtain ⟨fuel, rfl⟩ := Nat.exists_eq_succ_of_ne_zero hfuel.ne'
    obtain ⟨es, n, hp, hne⟩ := hs
    rw [refreshInternalSeparators, hp]
    exact ⟨.refl pages, fun z => rfl, ⟨es, n, hp, hne⟩, fun z _ => rfl⟩
  | succ d ih =>
    intro fuel pages hs hnd hpos hfuel hhops
    obtain ⟨fuel, rfl⟩ := Nat.exists_eq_succ_of_ne_zero (Nat.ne_zero_of_lt hfuel)
    obtain ⟨ks, cs, hp, hne, hlen, hcs⟩ := hs
    have hd := Nat.lt_of_succ_lt hhops
    rw [nodes_succ hp] at hnd hpos
    obtain ⟨hid, hnd'⟩ := nodup_cons.1 hnd
    obtain ⟨hrek, hnext, hvalid, hout⟩ := refresh_children
      (fun hs hnd hpos => ih hs hnd hpos (Nat.lt_of_succ_lt_succ hfuel) hd) cs hcs hnd'
      fun z hz => hpos z (mem_cons_of_mem id hz)
    rw [refreshInternalSeparators, hp]
    dsimp only
    set pages' := cs.foldl (fun ps c => refreshInternalSeparators fuel ps c) pages
    set keys := zipWith (fun k c => (firstKeyInSubtree pages' c).getD k) ks cs.tail
    have hpage : update pages' id (.internal keys cs) id = .internal keys cs :=
      update_self _ _ _
    have hfirst : ∀ c ∈ cs, firstKeyInSubtree pages' c = firstKey pages' d c := by
      intro c hc
      refine firstKeyInSubtree_eq (hvalid c hc).shaped (fun z hz => ?_) hd
      rw [hrek.nodes_eq] at hz
      exact hpos z (mem_cons_of_mem id (mem_flatMap.2 ⟨c, hc, hz⟩))
    have hkeys : keys.map some = cs.tail.map (firstKey pages' d) := by
      rw [zipWith_firstKey hlen fun c hc => ?_]
      · exact map_congr_left fun c hc => hfirst c (mem_of_mem_tail hc)
      · rw [hfirst c (mem_of_mem_tail hc)]
        exact (hvalid c (mem_of_mem_tail hc)).shaped.isSome_firstKey
    have hother : ∀ z, z ≠ id → update pages' id (.internal keys cs) z = pages' z :=
      fun z hz => update_of_ne hz _ _
    refine ⟨hrek.trans (.update ?_), fun z => ?_, ?_, fun z hz => ?_⟩
    · rw [hout id hid, hp]
      refine .internal cs ?_
      rw [length_zipWith, hlen, min_self]
    · by_cases hz : z = id
      · rw [hz, hpage, hp]
        rfl
      · rw [hother z hz, hnext]
    · refine valid_of_children hpage hne hkeys hvalid fun c hc z hz => hother z ?_
      rintro rfl
      rw [hrek.nodes_eq] at hz
      exact hid (mem_flatMap.2 ⟨c, hc, hz⟩)
    · rw [nodes_succ hp] at hz
      rw [hother z fun heq => hz (heq ▸ mem_cons_self)]
      exact hout z fun hz' => hz (mem_cons_of_mem id hz')

/-! ## The invariant without the separators -/

section

variable [TreeKey κ]

structure Loose (pages : Pages κ) (root next d : ℕ) : Prop where
  shaped : Shaped pages d root
  nodup : (nodes pages d root).Nodup
  used : ∀ z ∈ nodes pages d root, 0 < z ∧ z < next
  sized : ∀ z ∈ nodes pages d root, (pages z).numKeys ≤ kIndexMaxKeys
  ascending : Ascending (entries pages d root)
  chained : Chained pages (leaves pages d root)

lemma Loose.collapse {p c next : ℕ} {ks : List κ} (h : Loose pages p next (d + 1))
    (hp : pages p = .internal ks [c]) :
    Loose pages c next d ∧ leaves pages d c = leaves pages (d + 1) p := by
  have hleaves : leaves pages (d + 1) p = leaves pages d c := by
    rw [leaves_succ hp, flatMap_singleton]
  have hnodes : nodes pages (d + 1) p = p :: nodes pages d c := by
    rw [nodes_succ hp, flatMap_singleton]
  have hsub : ∀ z ∈ nodes pages d c, z ∈ nodes pages (d + 1) p := fun z hz =>
    hnodes ▸ mem_cons_of_mem p hz
  obtain ⟨ks', cs', hp', -, -, hcs⟩ := h.shaped
  cases hp.symm.trans hp'
  refine ⟨⟨hcs c mem_cons_self, ?_, fun z hz => h.used z (hsub z hz),
    fun z hz => h.sized z (hsub z hz), ?_, ?_⟩, hleaves.symm⟩
  · exact (nodup_cons.1 (hnodes ▸ h.nodup)).2
  · rw [entries, ← hleaves]
    exact h.ascending
  · rw [← hleaves]
    exact h.chained

lemma Loose.rekeyed {root next : ℕ} (h : Loose pages root next d) (hrek : Rekeyed pages pages')
    (hnext : ∀ z, (pages' z).next = (pages z).next) : Loose pages' root next d := by
  refine ⟨hrek.shaped h.shaped, ?_, ?_, fun z hz => ?_, ?_, ?_⟩
  · rw [hrek.nodes_eq]
    exact h.nodup
  · rw [hrek.nodes_eq]
    exact h.used
  · rw [hrek.nodes_eq] at hz
    rw [(hrek z).numKeys_eq]
    exact h.sized z hz
  · rw [hrek.entries_eq]
    exact h.ascending
  · rw [hrek.leaves_eq]
    exact h.chained.congr fun l _ => hnext l

/-- **The separators written anew** make the invariant. -/
theorem Loose.refreshed {t : BPlusTree κ} (h : Loose t.pages t.rootPageId t.nextPageNum d)
    (hroom : t.nextPageNum ≤ kMaxPageChainHops) :
    Inv t.refreshed d ∧ leaves t.refreshed.pages d t.refreshed.rootPageId = leaves t.pages d t.rootPageId ∧
      ∀ z, (t.refreshed.pages z).entries = (t.pages z).entries := by
  have hpos : ∀ z ∈ nodes t.pages d t.rootPageId, z ≠ 0 := fun z hz => (h.used z hz).1.ne'
  have hd : d < t.nextPageNum := h.shaped.depth_lt.trans (length_lt_of_used h.nodup h.used)
  have href := refresh_spec h.shaped h.nodup hpos hd (hd.trans_le hroom)
  rw [BPlusTree.refreshed, if_neg (hpos _ self_mem_nodes)]
  have hloose := h.rekeyed href.rekeyed href.next
  exact ⟨⟨⟨href.valid, hloose.nodup, hloose.used, hloose.ascending, hloose.chained⟩, hloose.sized⟩,
    href.rekeyed.leaves_eq, fun z => (href.rekeyed z).entries_eq⟩

end

end BPlusTree

end MiniDb
