import MiniDb.Index.BPlusTree.Unlink

/-!
# Removal

A removal takes one entry out of a leaf, gives the leaf up if it is then empty, and writes the separators
anew.  `Holds.remove` says that the tree then holds one entry less, if `removeOk` holds before: a leaf that is
emptied must not be the only child of its parent.
-/

namespace MiniDb

open List Option

namespace BPlusTree

variable {κ : Type*}

section

variable {t t' : BPlusTree κ} {d l : ℕ} {A B R : List ℕ} {es : List (κ × RecordId)}

/-- Setting the separator of a leaf changes no more than a key. -/
lemma updateSeparator_cases (t : BPlusTree κ) (l : ℕ) :
    t.updateSeparator l = t ∨ ∃ p ks ks' cs, t.pages p = .internal ks cs ∧ ks'.length = ks.length ∧
      t.updateSeparator l = t.setPage p (.internal ks' cs) := by
  rw [updateSeparator]
  cases hp : t.pages (t.findParent l) with
  | leaf es n => exact .inl rfl
  | internal ks cs =>
    cases he : (t.pages l).entries.head? with
    | none => exact .inl rfl
    | some e =>
      dsimp only
      by_cases hset : t.findParent l ≠ 0 ∧ l ∈ cs.tail
      · rw [if_pos hset]
        exact .inr ⟨_, ks, _, cs, hp, length_set, rfl⟩
      · rw [if_neg hset]
        exact .inl rfl

/-- The first entry that is to be removed, between those before and after it. -/
lemma exists_hit {es : List (κ × RecordId)} {hit : κ × RecordId → Bool} (h : es.any hit = true) :
    ∃ es1 e es2, es = es1 ++ e :: es2 ∧ hit e = true ∧ es.findIdx hit = es1.length ∧
      es.eraseIdx (es.findIdx hit) = es1 ++ es2 := by
  have hlt : es.findIdx hit < es.length := by
    obtain ⟨e, he, hhit⟩ := any_eq_true.1 h
    exact findIdx_lt_length_of_exists ⟨e, he, hhit⟩
  refine ⟨es.take (es.findIdx hit), es[es.findIdx hit], es.drop (es.findIdx hit + 1), ?_, ?_, ?_, ?_⟩
  · rw [← drop_eq_getElem_cons hlt, take_append_drop]
  · exact findIdx_getElem
  · rw [length_take, min_eq_left hlt.le]
  · exact eraseIdx_eq_take_drop_succ _ _

lemma refreshed_hotLeafId : t.refreshed.hotLeafId = t.hotLeafId := by
  rw [refreshed]
  split <;> rfl

lemma LeafChanged.entriesOf_eq (h : LeafChanged t t' l es) {ls : List ℕ} (hl : l ∉ ls) :
    entriesOf t'.pages ls = entriesOf t.pages ls :=
  flatMap_congr fun z hz => h.other z fun heq => hl (heq ▸ hz)

lemma HotOk.clear_or_mem (h : HotOk t d) (hch : LeafChanged t t' l es) {ls : List ℕ}
    (hs : Spine t.pages d t.rootPageId 0 l A B R) (hls : ∀ z ∈ A ++ B, z ∈ ls) (hl : es = [] ∨ l ∈ ls) :
    HotClear t' ∨ t'.hotLeafId ∈ ls := by
  rw [HotClear, hch.hot]
  by_cases hhot : t.hotLeafId = l
  · rw [hhot, hch.leaf]
    exact hl.imp (fun h => .inr h) id
  · rw [hch.other _ hhot]
    rcases h with hclear | hmem
    · exact .inl hclear
    · refine .inr (hls _ ?_)
      rw [hs.leaves_eq] at hmem
      simpa [hhot] using hmem

end

section

variable [TreeKey κ] {t t' : BPlusTree κ} {d d' l n : ℕ} {A B R : List ℕ}
  {es : List (κ × RecordId)} {key : κ} {rid : RecordId}

lemma Coherent.erase {pages pages' : Pages κ} {root next : ℕ} {es' : List (κ × RecordId)}
    (hC : Coherent pages root next d) (hsized : ∀ z ∈ nodes pages d root, (pages z).numKeys ≤ kIndexMaxKeys)
    (hs : Spine pages d root 0 l A B R) (hp : pages l = .leaf es n) (hsub : es'.Sublist es)
    (hne : es' ≠ []) (hpage : pages' l = .leaf es' n) (hother : ∀ z, z ≠ l → pages' z = pages z) :
    Loose pages' root next d ∧ leaves pages' d root = leaves pages d root := by
  have hR : ∀ z ∈ R, pages' z = pages z := fun z hz => hother z (hC.ne_of_mem hs hz).1
  have hs' := hs.congr hR
  have hnodes : (nodes pages' d root).Perm (nodes pages d root) :=
    hs'.nodes_perm.trans hs.nodes_perm.symm
  have hleaves : leaves pages' d root = leaves pages d root := by
    rw [hs'.leaves_eq, hs.leaves_eq]
    rfl
  refine ⟨⟨hs.shaped_of hC.valid.shaped hR ⟨es', n, hpage, hne⟩, hnodes.nodup_iff.2 hC.nodup,
    fun z hz => hC.used z (hnodes.mem_iff.1 hz), fun z hz => ?_, ?_, ?_⟩, hleaves⟩
  · have hsize := hsized z (hnodes.mem_iff.1 hz)
    by_cases hzl : z = l
    · rw [hzl, hp, IndexPage.numKeys] at hsize
      rw [hzl, hpage, IndexPage.numKeys]
      exact hsub.length_le.trans hsize
    · rw [hother z hzl]
      exact hsize
  · have hasc := hC.ascending
    rw [entries, hs.leaves_eq] at hasc
    rw [entries, hs'.leaves_eq]
    refine List.Pairwise.sublist ?_ hasc
    simp only [leaves_zero, entriesOf_append, entriesOf_cons, entriesOf_nil, hp, hpage,
      IndexPage.entries, entriesOf_congr fun z hz => hR z (hs.left_subset hz),
      entriesOf_congr fun z hz => hR z (hs.right_subset hz), append_nil]
    exact ((List.Sublist.refl _).append hsub).append (List.Sublist.refl _)
  · rw [hleaves]
    refine hC.chained.congr fun z _ => ?_
    by_cases hzl : z = l
    · rw [hzl, hp, hpage]
      rfl
    · rw [hother z hzl]

/-- The tree after the separator of a leaf is set. -/
lemma Loose.updateSeparator (h : Loose t.pages t.rootPageId t.nextPageNum d) (l : ℕ) :
    Loose (t.updateSeparator l).pages t.rootPageId t.nextPageNum d ∧
      leaves (t.updateSeparator l).pages d t.rootPageId = leaves t.pages d t.rootPageId ∧
      (∀ z, ((t.updateSeparator l).pages z).entries = (t.pages z).entries) ∧
      (t.updateSeparator l).rootPageId = t.rootPageId ∧ (t.updateSeparator l).nextPageNum = t.nextPageNum ∧
      (t.updateSeparator l).hotLeafId = t.hotLeafId := by
  rcases updateSeparator_cases t l with heq | ⟨p, ks, ks', cs, hp, hlen, heq⟩
  · rw [heq]
    exact ⟨h, rfl, fun z => rfl, rfl, rfl, rfl⟩
  · have hrek : Rekeyed t.pages (t.setPage p (.internal ks' cs)).pages :=
      .update (hp ▸ .internal cs hlen)
    rw [heq]
    refine ⟨h.rekeyed hrek fun z => ?_, hrek.leaves_eq, fun z => (hrek z).entries_eq, rfl, rfl, rfl⟩
    by_cases hz : z = p
    · rw [hz, hp, setPage_self]
      rfl
    · rw [setPage_of_ne hz]

/-- A tree in which a leaf has lost an entry, with its separators written anew. -/
lemma Loose.holds {e : κ × RecordId} {es1 es2 : List (κ × RecordId)} (hI : Inv t d) (hhot : HotOk t d)
    (hroom : t.nextPageNum ≤ kMaxPageChainHops) (hs : Spine t.pages d t.rootPageId 0 l A B R)
    (hp : t.pages l = .leaf (es1 ++ e :: es2) n) (hch : LeafChanged t t' l (es1 ++ es2))
    (hloose : Loose t'.pages t'.rootPageId t'.nextPageNum d')
    (hleaves : leaves t'.pages d' t'.rootPageId = A ++ l :: B ∨
      leaves t'.pages d' t'.rootPageId = A ++ B ∧ es1 ++ es2 = []) :
    ∃ S', (entries t.pages d t.rootPageId).Perm (e :: S') ∧ Holds t'.refreshed S' := by
  have hlAB : l ∉ A ∧ l ∉ B := ⟨fun h => (hI.ne_of_mem hs (hs.left_subset h)).1 rfl,
    fun h => (hI.ne_of_mem hs (hs.right_subset h)).1 rfl⟩
  obtain ⟨hI', hleaves', hentries'⟩ := hloose.refreshed (hch.next ▸ hroom)
  have hent : entries t'.pages d' t'.rootPageId = entriesOf t.pages A ++ (es1 ++ es2) ++ entriesOf t.pages B := by
    rw [entries]
    rcases hleaves with hls | ⟨hls, hnil⟩
    · rw [hls, entriesOf_append, entriesOf_cons, hch.leaf, hch.entriesOf_eq hlAB.1,
        hch.entriesOf_eq hlAB.2, append_assoc (entriesOf t.pages A)]
    · rw [hls, entriesOf_append, hch.entriesOf_eq hlAB.1, hch.entriesOf_eq hlAB.2, hnil, append_nil]
  have hent' : entries t'.refreshed.pages d' t'.refreshed.rootPageId = entries t'.pages d' t'.rootPageId := by
    rw [entries, hleaves', entriesOf, flatMap_congr fun z _ => hentries' z]
    rfl
  refine ⟨_, ?_, .inl ⟨d', hI', ?_, List.Perm.refl _⟩⟩
  · rw [hent', hent, entries, hs.leaves_eq]
    simp only [leaves_zero, entriesOf_append, entriesOf_cons, entriesOf_nil, hp, IndexPage.entries,
      append_assoc, cons_append]
    exact (List.Perm.append_left _ perm_middle).trans perm_middle
  · rw [HotOk, HotClear, hleaves', refreshed_hotLeafId, hentries']
    rcases hleaves with hls | ⟨hls, hnil⟩
    · refine hhot.clear_or_mem hch hs (fun z hz => ?_) (.inr (by rw [hls]; simp))
      rw [hls]
      exact ((List.Sublist.refl A).append (sublist_cons_self l B)).subset hz
    · exact hhot.clear_or_mem hch hs (fun z hz => hls ▸ hz) (.inl hnil)

/-- **What a removal from a leaf leaves.** -/
lemma removeFromLeaf_spec (hI : Inv t d) (hhot : HotOk t d)
    (hroom : t.nextPageNum ≤ kMaxPageChainHops) (hl : l ∈ leaves t.pages d t.rootPageId)
    (hok : (t.pages l).entries.length = 1 → t.rootPageId = l ∨ (t.pages (t.findParent l)).numKeys ≠ 0)
    (ht' : t.removeFromLeaf l key rid = some t') :
    ∃ e S', e.1 = key ∧ ridMatches rid e.2 = true ∧ (entries t.pages d t.rootPageId).Perm (e :: S') ∧ Holds t' S' := by
  obtain ⟨A, B, R, hs⟩ := Spine.of_mem_leaves hI.valid.shaped hl
  obtain ⟨es, n, hp, -⟩ := hI.valid.shaped.leaf_page l hl
  have hes : (t.pages l).entries = es := by rw [hp]; rfl
  have hnext : (t.pages l).next = n := by rw [hp]; rfl
  rw [removeFromLeaf] at ht'
  simp only [hes, hnext] at ht' hok
  set hit := fun e : κ × RecordId => TreeKey.decodedCompare e.1 key == .eq && ridMatches rid e.2
  by_cases hany : es.any hit = true
  · rw [if_pos hany] at ht'
    obtain ⟨es1, e, es2, rfl, hhit, hidx, herase⟩ := exists_hit hany
    obtain ⟨hkey, hrid⟩ := Bool.and_eq_true_iff.1 hhit
    rw [beq_iff_eq, TreeKey.decodedCompare_eq_iff] at hkey
    rw [herase, hidx] at ht'
    cases ht'
    refine ⟨e, ?_⟩
    by_cases hone : (es1 ++ e :: es2).length = 1
    · -- the last entry of the leaf
      obtain ⟨rfl, rfl⟩ : es1 = [] ∧ es2 = [] := by
        simp only [length_append, length_cons] at hone
        exact ⟨eq_nil_of_length_eq_zero (by omega), eq_nil_of_length_eq_zero (by omega)⟩
      rw [if_pos hone, if_neg (by simp), append_nil]
      obtain ⟨hch, ⟨h0, rfl, rfl⟩ | ⟨d', hloose, hleaves⟩⟩ :=
        dropLeaf_spec hI hroom hs hp (hok hone) rfl
      · refine ⟨[], hkey, hrid, ?_, ?_⟩
        · rw [entries, hs.leaves_eq]
          simp [hp, IndexPage.entries]
        · rw [refreshed, if_pos h0]
          refine .inr ⟨.inl h0, ?_, rfl⟩
          exact (hhot.clear_or_mem hch hs (fun z hz => hz) (.inl rfl)).resolve_right (by simp)
      · obtain ⟨S', hperm, hholds⟩ := Loose.holds hI hhot hroom hs hp hch hloose (.inr ⟨hleaves, rfl⟩)
        exact ⟨S', hkey, hrid, hperm, hholds⟩
    · rw [if_neg hone]
      have hsub : (es1 ++ es2).Sublist (es1 ++ e :: es2) :=
        (List.Sublist.refl es1).append (sublist_cons_self e es2)
      have hne : es1 ++ es2 ≠ [] := by
        intro hnil
        obtain ⟨rfl, rfl⟩ := append_eq_nil_iff.1 hnil
        exact hone rfl
      set t1 := t.setPage l (.leaf (es1 ++ es2) n)
      have hpage1 : t1.pages l = .leaf (es1 ++ es2) n := setPage_self
      have hother1 : ∀ z, z ≠ l → t1.pages z = t.pages z := fun z hz => setPage_of_ne hz
      obtain ⟨hloose, hleaves⟩ := hI.toCoherent.erase hI.sized hs hp hsub hne hpage1 hother1
      have hch : LeafChanged t t1 l (es1 ++ es2) :=
        ⟨by rw [hpage1]; rfl, fun z hz => by rw [hother1 z hz], rfl, rfl⟩
      have hleaves' : leaves t.pages d t.rootPageId = A ++ l :: B := by
        rw [hs.leaves_eq, leaves_zero, append_assoc, singleton_append]
      by_cases hfirst : es1.length = 0 ∧ (es1 ++ e :: es2).length > 1
      · rw [if_pos hfirst]
        obtain ⟨hloose2, hleaves2, hentries2, hroot, hnum, hhot2⟩ := hloose.updateSeparator (t := t1) l
        have hch2 : LeafChanged t (t1.updateSeparator l) l (es1 ++ es2) :=
          ⟨(hentries2 l).trans hch.leaf, fun z hz => (hentries2 z).trans (hch.other z hz), hnum, hhot2⟩
        obtain ⟨S', hperm, hholds⟩ := Loose.holds hI hhot hroom hs hp hch2 (by rw [hroot, hnum]; exact hloose2)
          (.inl (by rw [hroot, hleaves2]; exact hleaves.trans hleaves'))
        exact ⟨S', hkey, hrid, hperm, hholds⟩
      · rw [if_neg hfirst]
        obtain ⟨S', hperm, hholds⟩ := Loose.holds hI hhot hroom hs hp hch hloose (.inl (hleaves.trans hleaves'))
        exact ⟨S', hkey, hrid, hperm, hholds⟩
  · rw [if_neg hany] at ht'
    cases ht'

lemma mem_of_removeChain {pages : Pages κ} : ∀ {fuel : ℕ} {ls : List ℕ}, Chained pages ls →
    removeChain pages key rid fuel (ls.headD 0) = some l → l ∈ ls := by
  intro fuel
  induction fuel with
  | zero => intro ls _ h; cases h
  | succ fuel ih =>
    intro ls hchain h
    rw [removeChain] at h
    cases ls with
    | nil => cases h
    | cons l' ls =>
      rw [headD_cons] at h
      dsimp only at h
      split_ifs at h with h0 hany hlt
      · cases h
        exact mem_cons_self
      · rw [hchain.1] at h
        exact mem_cons_of_mem l' (ih hchain.2 h)

/-- Does the removal leave the tree in order?  A leaf that it empties must not be the only child of its
parent. -/
def removeOk (t : BPlusTree κ) (key : κ) (rid : RecordId) : Bool :=
  ((t.findLeafLowerBound key).bind fun leaf => removeChain t.pages key rid t.nextPageNum leaf).all
    fun l => decide ((t.pages l).entries.length ≠ 1) || decide (t.rootPageId = l) ||
      decide ((t.pages (t.findParent l)).numKeys ≠ 0)

/-- **Removal takes one entry with the key and the record id from what the tree holds.** -/
theorem Holds.remove {S : List (κ × RecordId)} (h : Holds t S)
    (hroom : t.nextPageNum ≤ kMaxPageChainHops) (hok : t.removeOk key rid = true) (ht' : t.remove key rid = some t') :
    ∃ e S', e.1 = key ∧ ridMatches rid e.2 = true ∧ S.Perm (e :: S') ∧ Holds t' S' := by
  rw [BPlusTree.remove] at ht'
  rw [removeOk] at hok
  rcases h with ⟨d, hI, hhot, hperm⟩ | ⟨hbare, -, -⟩
  · rw [if_neg (hI.pos _ self_mem_nodes)] at ht'
    obtain ⟨leaf, hleaf, hbind⟩ := bind_eq_some_iff.1 ht'
    obtain ⟨l, hl, hremove⟩ := bind_eq_some_iff.1 hbind
    rw [hleaf, bind_some, hl, all_some] at hok
    have hmem : l ∈ leaves t.pages d t.rootPageId := by
      have hq : ∀ a b : κ, a ≤ b → decide (b < key) = true → decide (a < key) = true :=
        fun a b hab hb => decide_eq_true (lt_of_le_of_lt hab (of_decide_eq_true hb))
      obtain ⟨l0, p, A, B, R, hdesc, hreach, -⟩ :=
        hI.toCoherent.descend (hI.depth_lt.trans_le hroom) hq fun ks hks => partitionPoint_eq hks
      rw [findLeafLowerBound, hdesc] at hleaf
      cases hleaf
      have hleaves := hreach.spine.leaves_eq
      rw [leaves_zero, append_assoc] at hleaves
      rw [hleaves]
      exact mem_append_right A (mem_of_removeChain (hleaves ▸ hI.chained).right hl)
    obtain ⟨e, S', hkey, hrid, hperm', hholds⟩ := removeFromLeaf_spec hI hhot hroom hmem
      (fun hone => by simpa [hone] using hok) hremove
    exact ⟨e, S', hkey, hrid, hperm.symm.trans hperm', hholds⟩
  · rcases hbare with h0 | ⟨hp, hpos, hused⟩
    · rw [if_pos h0] at ht'
      cases ht'
    · -- nothing to be found in an empty leaf
      obtain ⟨fuel, hfuel⟩ := Nat.exists_eq_succ_of_ne_zero (Nat.ne_zero_of_lt hused)
      have hnone : removeChain t.pages key rid t.nextPageNum t.rootPageId = none := by
        rw [hfuel, removeChain, if_neg hpos.ne', hp]
        cases fuel <;> simp [IndexPage.entries, IndexPage.next, removeChain]
      rw [if_neg hpos.ne', findLeafLowerBound, descend_root hp hpos, map_some, bind_some, hnone] at ht'
      cases ht'

end

end BPlusTree

end MiniDb
