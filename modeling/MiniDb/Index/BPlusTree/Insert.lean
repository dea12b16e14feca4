import Mathlib.Data.List.TakeWhile
import MiniDb.Index.BPlusTree.Split

/-!
# Insertion

The entry goes into a leaf where all entries to the left are not larger and all to the right are larger, so
the entries still ascend.  A descent ends at such a leaf, and the hot leaf is taken only if it is one
(`targetLeaf_spec`).  `insert_spec` says that the invariant is kept and the entry added, if `insertOk` holds
before: when the leaf is split, its parent must be known, and all new pages go beside their other halves.
-/

namespace MiniDb

open Function List

variable {l n : ℕ} {A B R : List ℕ}

namespace BPlusTree

variable {κ : Type*}

/-- There is no hot leaf, or it has no entries any more. -/
def HotClear (t : BPlusTree κ) : Prop :=
  t.hotLeafId = 0 ∨ (t.pages t.hotLeafId).entries = []

variable {t : BPlusTree κ} {es : List (κ × RecordId)} {key : κ} {e : κ × RecordId} {d : ℕ}

lemma HotClear.create (h : HotClear t) : HotClear t.create := by
  refine h.imp id fun hnil => ?_
  show (t.create.pages t.hotLeafId).entries = []
  rw [create_pages]
  by_cases hhot : t.hotLeafId = 1
  · rw [hhot, update_self]
    rfl
  · rw [update_of_ne hhot]
    exact hnil

variable [TreeKey κ]

/-! ## Into the leaf -/

lemma Ascending.insert {es' : List (κ × RecordId)} (h : Ascending (es ++ es'))
    (rid : RecordId) (hes : ∀ e ∈ es, e.1 ≤ key) (hes' : ∀ e ∈ es', key < e.1) :
    Ascending (es ++ (key, rid) :: es') := by
  obtain ⟨h1, h2, hcross⟩ := ascending_append.1 h
  refine ascending_append.2 ⟨h1, ascending_cons.2 ⟨fun e he => (hes' e he).le, h2⟩, ?_⟩
  intro e he e' he'
  rcases mem_cons.1 he' with rfl | he'
  · exact hes e he
  · exact hcross e he e' he'

section

variable (h : Ascending es)
include h

lemma Ascending.le_of_getLast (he : es.getLast? = some e) (hle : e.1 ≤ key) : ∀ e' ∈ es, e'.1 ≤ key := by
  obtain ⟨es', rfl⟩ := getLast?_eq_some_iff.1 he
  intro e' he'
  rcases mem_append.1 he' with he' | he'
  · exact ((ascending_append.1 h).2.2 e' he' e (mem_singleton_self e)).trans hle
  · cases mem_singleton.1 he'
    exact hle

lemma Ascending.lt_of_head (he : es.head? = some e) (hlt : key < e.1) : ∀ e' ∈ es, key < e'.1 := by
  obtain ⟨es', rfl⟩ := head?_eq_some_iff.1 he
  intro e' he'
  rcases mem_cons.1 he' with rfl | he'
  · exact hlt
  · exact lt_of_lt_of_le hlt ((ascending_cons.1 h).1 e' he')

/-- The new entry goes between those that are not larger and those that are. -/
lemma insertIntoLeaf_eq (key : κ) (rid : RecordId) :
    ∃ es1 es2, es = es1 ++ es2 ∧ insertIntoLeaf es key rid = es1 ++ (key, rid) :: es2 ∧
      (∀ e ∈ es1, e.1 ≤ key) ∧ ∀ e ∈ es2, key < e.1 := by
  rw [insertIntoLeaf, insertPos]
  by_cases hlast : es.getLast?.all (fun e => decide (e.1 ≤ key)) = true
  · refine ⟨es, [], (append_nil es).symm, ?_, fun e he => ?_, by simp⟩
    · rw [if_pos hlast]
      simp
    · have ha := getLast?_eq_some_getLast (ne_nil_of_mem he)
      rw [ha, Option.all_some, decide_eq_true_eq] at hlast
      exact h.le_of_getLast ha hlast e he
  · have hlead : Leading (fun e : κ × RecordId => decide (e.1 ≤ key)) es :=
      h.imp fun hle hq => decide_eq_true (hle.trans (of_decide_eq_true hq))
    have happ := takeWhile_append_dropWhile (p := fun e : κ × RecordId => decide (e.1 ≤ key)) (l := es)
    refine ⟨_, _, happ.symm, ?_, fun e he => ?_, fun e he => h.lt_of_mem_dropWhile he⟩
    · rw [if_neg hlast, partitionPoint_eq hlead, ← insertIdx_length_append, happ]
    · simpa using mem_takeWhile_imp he

lemma length_insertIntoLeaf (key : κ) (rid : RecordId) :
    (insertIntoLeaf es key rid).length = es.length + 1 := by
  obtain ⟨es1, es2, rfl, hins, -⟩ := insertIntoLeaf_eq h key rid
  rw [hins]
  simp [Nat.add_assoc]

end

/-- The entry in its leaf: everything is in order, but for the size of the leaf. -/
lemma Reached.insert {pages pages' : Pages κ} {root next : ℕ} (hC : Coherent pages root next d)
    (hreach : Reached pages (fun k => decide (k ≤ key)) d root l A B R) (hp : pages l = .leaf es n)
    (rid : RecordId) (hpage : pages' l = .leaf (insertIntoLeaf es key rid) n)
    (hother : ∀ z, z ≠ l → pages' z = pages z) : Coherent pages' root next d ∧ Spine pages' d root 0 l A B R ∧
      (entries pages' d root).Perm ((key, rid) :: entries pages d root) := by
  have hs := hreach.spine
  have hR : ∀ z ∈ R, pages' z = pages z := fun z hz => hother z (hC.ne_of_mem hs hz).1
  have hs' := hs.congr hR
  have hasc := hC.ascending
  have hent : entries pages d root = entriesOf pages A ++ es ++ entriesOf pages B := by
    rw [entries, hs.leaves_eq]
    simp [hp, IndexPage.entries]
  rw [hent] at hasc ⊢
  obtain ⟨es1, es2, rfl, hins, hle, hgt⟩ :=
    insertIntoLeaf_eq (ascending_append.1 (ascending_append.1 hasc).1).2.1 key rid
  rw [hins] at hpage
  have hent' : entriesOf pages' (A ++ leaves pages' 0 l ++ B) =
      entriesOf pages A ++ es1 ++ (key, rid) :: (es2 ++ entriesOf pages B) := by
    simp only [leaves_zero, entriesOf_append, entriesOf_cons, entriesOf_nil, hpage,
      IndexPage.entries, entriesOf_congr fun z hz => hR z (hs.left_subset hz),
      entriesOf_congr fun z hz => hR z (hs.right_subset hz)]
    simp
  have hperm : (entriesOf pages' (A ++ leaves pages' 0 l ++ B)).Perm
      ((key, rid) :: (entriesOf pages A ++ (es1 ++ es2) ++ entriesOf pages B)) := by
    rw [hent']
    refine perm_middle.trans ?_
    simp
  refine ⟨.of_spine hs hC.valid hR ⟨_, _, hpage, by simp⟩ (fun hA => ?_) ?_ ?_ ?_ ?_, hs', ?_⟩
  · -- the first key is not larger, so the entry does not come before it
    obtain ⟨k, hk, hqk⟩ := hreach.first hA
    rw [firstKey, entries] at hk
    rw [firstKey, firstKey, entries, entries]
    simp only [leaves_zero, entriesOf_cons, entriesOf_nil, hp, hpage, IndexPage.entries, append_nil] at hk ⊢
    cases es1 with
    | nil =>
      obtain ⟨e, he, rfl⟩ := Option.map_eq_some_iff.1 hk
      exact absurd (of_decide_eq_true hqk) (not_le.2 (hgt e (mem_of_mem_head? he)))
    | cons e es1 => rfl
  · exact hs.nodes_perm.nodup_iff.1 hC.nodup
  · exact fun z hz => hC.used z (hs.nodes_perm.mem_iff.2 hz)
  · rw [hent']
    refine Ascending.insert ?_ rid (fun e he => ?_) fun e he => ?_
    · simpa using hasc
    · rcases mem_append.1 he with he | he
      · exact of_decide_eq_true (hreach.left e he)
      · exact hle e he
    · rcases mem_append.1 he with he | he
      · exact hgt e he
      · exact not_le.1 (of_decide_eq_false (hreach.right e he))
  · have hchain := hC.chained
    rw [hs.leaves_eq] at hchain
    refine hchain.congr fun z hz => ?_
    by_cases hzl : z = l
    · rw [hzl, hpage, hp]
      rfl
    · rw [hother z hzl]
  · rw [entries, hs'.leaves_eq]
    exact hperm

/-! ## The leaf for a key -/

/-- The leaf of the last insertion is a leaf of the tree or has no entries any more. -/
def HotOk (t : BPlusTree κ) (d : ℕ) : Prop :=
  HotClear t ∨ t.hotLeafId ∈ leaves t.pages d t.rootPageId

lemma HotClear.hotUsable (h : HotClear t) (key : κ) : t.hotUsable key = false := by
  rw [BPlusTree.hotUsable]
  rcases h with h0 | hnil
  · rw [h0]
    rfl
  · cases hp : t.pages t.hotLeafId with
    | leaf es n =>
      rw [hp] at hnil
      cases hnil
      simp
    | internal ks cs => simp

section

variable (hC : Coherent t.pages t.rootPageId t.nextPageNum d)
include hC

/-- The hot leaf is taken only where a descent could have ended. -/
lemma reached_of_hotUsable (hhot : HotOk t d) (huse : t.hotUsable key = true) :
    ∃ A B R, Reached t.pages (fun k => decide (k ≤ key)) d t.rootPageId t.hotLeafId A B R := by
  have hmem : t.hotLeafId ∈ leaves t.pages d t.rootPageId := by
    refine hhot.resolve_left fun hclear => ?_
    rw [hclear.hotUsable key] at huse
    cases huse
  rw [hotUsable, Bool.and_eq_true_iff, Bool.and_eq_true_iff, decide_eq_true_eq] at huse
  obtain ⟨-, hleaf⟩ := huse
  cases hp : t.pages t.hotLeafId with
  | internal ks cs => rw [hp] at hleaf; cases hleaf
  | leaf es n =>
    rw [hp] at hleaf
    obtain ⟨hlast, hnext⟩ := Bool.and_eq_true_iff.1 hleaf
    obtain ⟨e, he, hle⟩ := (Option.any_eq_true _ _).1 hlast
    rw [decide_eq_true_eq] at hle
    obtain ⟨A, B, R, hs⟩ := Spine.of_mem_leaves hC.valid.shaped hmem
    have hasc := hC.ascending
    have hchain := hC.chained
    rw [hs.leaves_eq, leaves_zero, append_assoc] at hchain
    rw [entries, hs.leaves_eq, leaves_zero, entriesOf_append, entriesOf_append, entriesOf_cons,
      entriesOf_nil, append_nil, hp, IndexPage.entries] at hasc
    obtain ⟨hascAl, hascB, hcrossB⟩ := ascending_append.1 hasc
    obtain ⟨hascA, hascl, hcrossA⟩ := ascending_append.1 hascAl
    have hlast' := hascl.le_of_getLast he hle
    have hemem : e ∈ es := mem_of_getLast? he
    refine ⟨A, B, R, hs, fun e' he' => decide_eq_true ?_, fun e' he' => decide_eq_false ?_, fun _ => ?_⟩
    · exact (hcrossA e' he' e hemem).trans hle
    · refine not_le.2 ?_
      have hlink : n = B.headD 0 := by
        have := hchain.right.1
        rwa [hp] at this
      cases B with
      | nil => cases he'
      | cons b B =>
        rw [headD_cons] at hlink
        have hb0 : b ≠ 0 := hC.pos b (leaves_subset_nodes (hs.leaves_eq ▸ by simp))
        rw [hlink, decide_eq_false hb0, Bool.false_or] at hnext
        obtain ⟨e1, he1, hlt⟩ := (Option.any_eq_true _ _).1 hnext
        refine hascB.lt_of_head ?_ (of_decide_eq_true hlt) e' he'
        rw [entriesOf_cons, head?_append_of_ne_nil, he1]
        rintro hnil
        rw [hnil] at he1
        cases he1
    · obtain ⟨e0, es0, rfl⟩ := exists_cons_of_ne_nil (ne_nil_of_mem hemem)
      refine ⟨e0.1, ?_, decide_eq_true (hlast' e0 mem_cons_self)⟩
      simp [firstKey, entries, hp, IndexPage.entries]

lemma findLeafWithParent_spec (hroom : t.nextPageNum ≤ kMaxPageChainHops) (key : κ) :
    ∃ l A B R, t.findLeafWithParent key = some (l, t.findParent l) ∧
      Reached t.pages (fun k => decide (k ≤ key)) d t.rootPageId l A B R := by
  have hq : ∀ a b : κ, a ≤ b → decide (b ≤ key) = true → decide (a ≤ key) = true :=
    fun a b hab hb => decide_eq_true (hab.trans (of_decide_eq_true hb))
  obtain ⟨l, p, A, B, R, hdesc, hreach, habove⟩ :=
    hC.descend (hC.depth_lt.trans_le hroom) hq fun ks hks => partitionPoint_eq hks
  refine ⟨l, A, B, R, ?_, hreach⟩
  rw [findLeafWithParent, hdesc]
  rcases habove with ⟨rfl, rfl⟩ | ⟨hmem, hchild⟩
  · obtain ⟨rfl, -⟩ := hreach.spine.eq_root
    rw [findParent, if_pos rfl]
  · rw [hC.findParent_eq hroom hmem hchild]

/-- **The leaf for a key** is one where a descent ends; the page above is right unless that of the hot leaf
is outdated. -/
lemma targetLeaf_spec (hroom : t.nextPageNum ≤ kMaxPageChainHops) (hhot : HotOk t d) (key : κ) :
    ∃ l p A B R, t.targetLeaf key = some (l, p) ∧ Reached t.pages (fun k => decide (k ≤ key)) d t.rootPageId l A B R ∧
      ((t.hotUsable key = true → t.hotLeafParentId = t.findParent t.hotLeafId) → p = t.findParent l) := by
  rw [targetLeaf]
  cases huse : t.hotUsable key with
  | true =>
    obtain ⟨A, B, R, hreach⟩ := reached_of_hotUsable hC hhot huse
    exact ⟨_, _, A, B, R, if_pos rfl, hreach, fun hparent => hparent rfl⟩
  | false =>
    obtain ⟨l, A, B, R, hdesc, hreach⟩ := findLeafWithParent_spec hC hroom key
    exact ⟨l, _, A, B, R, (if_neg Bool.false_ne_true).trans hdesc, hreach, fun _ => rfl⟩

end

/-- Does the insertion leave the tree in order?  If the leaf is split, the page above must be known, and
the new pages be put in their places. -/
def insertOk (t : BPlusTree κ) (key : κ) (rid : RecordId) : Bool :=
  match t.targetLeaf key with
  | none => true
  | some (l, _) =>
    let es := insertIntoLeaf (t.pages l).entries key rid
    decide (es.length ≤ kIndexMaxKeys) ||
      ((!t.hotUsable key || decide (t.hotLeafParentId = t.findParent t.hotLeafId)) &&
        (es.drop (es.length / 2)).head?.all fun e =>
          splitsInPlace t t.nextPageNum (t.nextPageNum + 1) l e.1)

section

variable {t : BPlusTree κ} {d : ℕ} {key : κ} {rid : RecordId}

/-- A leaf that is too large is split, and the tree is in order again. -/
lemma splitLeaf_spec {t0 : BPlusTree κ} {es : List (κ × RecordId)}
    (h₀ : Coherent t0.pages t0.rootPageId t0.nextPageNum d)
    (hroom0 : t0.nextPageNum ≤ kMaxPageChainHops) (hroot : t.rootPageId = t0.rootPageId)
    (hnext : t.nextPageNum = t0.nextPageNum) (hC : Coherent t.pages t.rootPageId t.nextPageNum d)
    (hs : Spine t.pages d t.rootPageId 0 l A B R) (hR : ∀ z ∈ R, t.pages z = t0.pages z)
    (hsub : R ⊆ nodes t0.pages d t0.rootPageId)
    (hsized : ∀ z ∈ nodes t.pages d t.rootPageId, z ≠ l → (t.pages z).numKeys ≤ kIndexMaxKeys)
    (hp : t.pages l = .leaf es n) (hlen : es.length = kIndexMaxKeys + 1)
    (hplace : ∀ e, (es.drop (es.length / 2)).head? = some e →
      splitsInPlace t0 t0.nextPageNum (t0.nextPageNum + 1) l e.1 = true) :
    ∃ d', Inv (t.splitLeaf l (t0.findParent l)) d' ∧ d' ≤ d + 1 ∧
      (leaves (t.splitLeaf l (t0.findParent l)).pages d' (t.splitLeaf l (t0.findParent l)).rootPageId).length =
        (leaves t.pages d t.rootPageId).length + 1 ∧
      entries (t.splitLeaf l (t0.findParent l)).pages d' (t.splitLeaf l (t0.findParent l)).rootPageId =
        entries t.pages d t.rootPageId ∧ (t.splitLeaf l (t0.findParent l)).hotLeafId = t.hotLeafId := by
  have hmid : es.length / 2 = 29 := by rw [hlen]; rfl
  have hln : t.nextPageNum ≠ l := (hC.used l hs.mem_nodes).2.ne'
  obtain ⟨e, he⟩ : ∃ e, (es.drop (es.length / 2)).head? = some e := by
    refine Option.isSome_iff_exists.1 (isSome_head?.2 fun hnil => ?_)
    rw [drop_eq_nil_iff, hmid, hlen] at hnil
    exact absurd hnil (by decide)
  have hsplit : t.splitLeaf l (t0.findParent l) =
      insertIntoParent t.nextPageNum (t.divideLeaf l) (t0.findParent l) e.1 l t.nextPageNum := by
    rw [splitLeaf, hp]
    dsimp only [IndexPage.entries]
    rw [he]
  obtain ⟨hpageL, hpageN, hother⟩ := divideLeaf_spec hln
  rw [hp, IndexPage.entries] at hpageL hpageN
  have hP := Pending.of_divideLeaf hC hs hp hsized (by omega) (hmid ▸ by decide)
    (by rw [hmid, hlen]; decide) he hpageL hpageN hother
  have hRsame : ∀ z ∈ R, (t.divideLeaf l).pages z = t.pages z := fun z hz =>
    hother z (hC.ne_of_mem hs hz).1 (hC.ne_of_mem hs hz).2
  obtain ⟨⟨d', hI', hdepth, hleaves⟩, hsame, hhot⟩ := insertIntoParent_spec h₀ hroom0 t.nextPageNum
    (t := t.divideLeaf l) hP hroot (fun z hz => (hRsame z hz).trans (hR z hz)) hsub
    (by rw [hnext]; exact h₀.depth_lt) (by
      show splitsInPlace t0 t.nextPageNum (t.nextPageNum + 1) l e.1 = true
      rw [hnext]
      exact hplace e he)
  rw [hsplit]
  refine ⟨d', hI', hdepth, ?_, ?_, hhot⟩
  · rw [hleaves, hs.leaves_eq]
    simp only [leaves_zero, length_append, length_singleton]
    omega
  rw [entries, hleaves, entriesOf_congr hsame, entries, hs.leaves_eq]
  simp only [leaves_zero, entriesOf_append, entriesOf_cons, entriesOf_nil, hpageL, hpageN, hp,
    IndexPage.entries, entriesOf_congr fun z hz => hRsame z (hs.left_subset hz),
    entriesOf_congr fun z hz => hRsame z (hs.right_subset hz)]
  simp

lemma insertAt_spec {p : ℕ} (hI : Inv t d) (hroom : t.nextPageNum ≤ kMaxPageChainHops)
    (hreach : Reached t.pages (fun k => decide (k ≤ key)) d t.rootPageId l A B R)
    (hsplit : kIndexMaxKeys < (insertIntoLeaf (t.pages l).entries key rid).length →
      p = t.findParent l ∧ ∀ e, ((insertIntoLeaf (t.pages l).entries key rid).drop
        ((insertIntoLeaf (t.pages l).entries key rid).length / 2)).head? = some e →
          splitsInPlace t t.nextPageNum (t.nextPageNum + 1) l e.1 = true) :
    ∃ d', Inv (t.insertAt l p key rid) d' ∧ HotOk (t.insertAt l p key rid) d' ∧
      d' ≤ d + 1 ∧ (leaves (t.insertAt l p key rid).pages d' (t.insertAt l p key rid).rootPageId).length ≤
        (leaves t.pages d t.rootPageId).length + 1 ∧
      (entries (t.insertAt l p key rid).pages d' (t.insertAt l p key rid).rootPageId).Perm
        ((key, rid) :: entries t.pages d t.rootPageId) := by
  have hs := hreach.spine
  have hl : l ∈ leaves t.pages d t.rootPageId := by rw [hs.leaves_eq]; simp
  obtain ⟨es, n, hp, -⟩ := hI.valid.shaped.leaf_page l hl
  have hasc : Ascending es := by
    have := hI.ascending
    rw [entries, hs.leaves_eq] at this
    simp only [entriesOf_append, leaves_zero, entriesOf_cons, entriesOf_nil, append_nil, hp, IndexPage.entries] at this
    exact (ascending_append.1 (ascending_append.1 this).1).2.1
  have hsize : es.length ≤ kIndexMaxKeys := by
    have := hI.sized l (leaves_subset_nodes hl)
    rwa [hp] at this
  have hlen := length_insertIntoLeaf hasc key rid
  rw [insertAt]
  simp only [hp, IndexPage.entries, IndexPage.next] at hsplit ⊢
  set es' := insertIntoLeaf es key rid with hes'
  have hpage : (t.setPage l (.leaf es' n)).pages l = .leaf es' n := update_self _ _ _
  have hother : ∀ z, z ≠ l → (t.setPage l (.leaf es' n)).pages z = t.pages z := fun z hz =>
    update_of_ne hz _ _
  obtain ⟨hC1, hs1, hperm⟩ := hreach.insert hI.toCoherent hp rid hpage hother
  have hsized1 : ∀ z ∈ nodes (t.setPage l (.leaf es' n)).pages d t.rootPageId, z ≠ l →
      ((t.setPage l (.leaf es' n)).pages z).numKeys ≤ kIndexMaxKeys := by
    intro z hz hzl
    rw [hother z hzl]
    exact hI.sized z (hs.nodes_perm.mem_iff.2 (hs1.nodes_perm.mem_iff.1 hz))
  by_cases hlarge : es'.length > kIndexMaxKeys
  · obtain ⟨rfl, hplace⟩ := hsplit hlarge
    rw [if_pos hlarge]
    obtain ⟨d', hI', hdepth, hcount, hent, hhot⟩ := splitLeaf_spec (t := { t.setPage l (.leaf es' n) with
        hotLeafId := 0, hotLeafFirstKey := none, hotLeafParentId := 0 })
      hI.toCoherent hroom rfl rfl hC1 hs1 (fun z hz => hother z (hI.ne_of_mem hs hz).1)
      (fun z => hs.mem_nodes_of_mem) hsized1 hpage (by omega) hplace
    refine ⟨d', hI', .inl (.inl hhot), hdepth, hcount.le.trans ?_, hent ▸ hperm⟩
    show (leaves (t.setPage l (.leaf es' n)).pages d t.rootPageId).length + 1 ≤ _
    rw [hs1.leaves_eq, hs.leaves_eq]
    exact le_rfl
  · rw [if_neg hlarge]
    refine ⟨d, ⟨hC1, fun z hz => ?_⟩, .inr ?_, Nat.le_succ d, ?_, hperm⟩
    · by_cases hzl : z = l
      · rw [hzl, hpage]
        exact Nat.not_lt.1 hlarge
      · exact hsized1 z hz hzl
    · show l ∈ leaves (t.setPage l (.leaf es' n)).pages d t.rootPageId
      rw [hs1.leaves_eq]
      simp
    · show (leaves (t.setPage l (.leaf es' n)).pages d t.rootPageId).length ≤ _
      rw [hs1.leaves_eq, hs.leaves_eq]
      exact Nat.le_succ _

/-- What an insertion does to a tree with room for its pages. -/
theorem insert_spec (hI : Inv t d) (hroom : t.nextPageNum ≤ kMaxPageChainHops) (hhot : HotOk t d)
    (hfits : TreeKey.fits key = true) (hok : t.insertOk key rid = true) :
    ∃ t' d', t.insert key rid = some t' ∧ Inv t' d' ∧ HotOk t' d' ∧
      d' ≤ d + 1 ∧ (leaves t'.pages d' t'.rootPageId).length ≤ (leaves t.pages d t.rootPageId).length + 1 ∧
      (entries t'.pages d' t'.rootPageId).Perm ((key, rid) :: entries t.pages d t.rootPageId) := by
  obtain ⟨l, p, A, B, R, htarget, hreach, hparent⟩ := targetLeaf_spec hI.toCoherent hroom hhot key
  have hinsert : t.insert key rid = some (t.insertAt l p key rid) := by
    rw [insert, if_pos hfits, if_neg (hI.pos _ self_mem_nodes)]
    dsimp only
    rw [htarget]
    rfl
  rw [insertOk, htarget] at hok
  dsimp only at hok
  have hsplit : kIndexMaxKeys < (insertIntoLeaf (t.pages l).entries key rid).length →
      p = t.findParent l ∧ ∀ e, ((insertIntoLeaf (t.pages l).entries key rid).drop
        ((insertIntoLeaf (t.pages l).entries key rid).length / 2)).head? = some e →
          splitsInPlace t t.nextPageNum (t.nextPageNum + 1) l e.1 = true := by
    intro hlarge
    rw [decide_eq_false (Nat.not_le.2 hlarge), Bool.false_or, Bool.and_eq_true_iff] at hok
    refine ⟨hparent fun huse => ?_, fun e he => ?_⟩
    · simpa [huse] using hok.1
    · simpa [he] using hok.2
  obtain ⟨d', hI'⟩ := insertAt_spec hI hroom hreach hsplit
  exact ⟨_, d', hinsert, hI'⟩

end

/-! ## What a tree holds -/

/-- A tree without entries has no root, or an empty leaf for a root. -/
def Bare (t : BPlusTree κ) : Prop :=
  t.rootPageId = 0 ∨
    (t.pages t.rootPageId = .leaf [] 0 ∧ 0 < t.rootPageId ∧ t.rootPageId < t.nextPageNum)

/-- The tree is in order and holds these entries. -/
def Holds (t : BPlusTree κ) (S : List (κ × RecordId)) : Prop :=
  (∃ d, Inv t d ∧ HotOk t d ∧ (entries t.pages d t.rootPageId).Perm S) ∨
    (Bare t ∧ HotClear t ∧ S = [])

section

variable {t t' : BPlusTree κ} {S : List (κ × RecordId)} {key : κ} {rid : RecordId}

lemma insertAt_root (hp : t.pages t.rootPageId = .leaf [] 0) (hpos : 0 < t.rootPageId)
    (hused : t.rootPageId < t.nextPageNum) : Holds (t.insertAt t.rootPageId 0 key rid) [(key, rid)] ∧
      (t.insertAt t.rootPageId 0 key rid).WalksEnd := by
  have hes : insertIntoLeaf (t.pages t.rootPageId).entries key rid = [(key, rid)] := by
    rw [hp]
    rfl
  have hat : t.insertAt t.rootPageId 0 key rid = { t.setPage t.rootPageId (.leaf [(key, rid)] 0) with
        hotLeafId := t.rootPageId, hotLeafFirstKey := some key, hotLeafParentId := 0 } := by
    rw [insertAt, hes, hp]
    rfl
  have hpage : (t.setPage t.rootPageId (.leaf [(key, rid)] 0)).pages t.rootPageId = .leaf [(key, rid)] 0 := setPage_self
  rw [hat]
  suffices hI : Inv _ 0 from ⟨.inl ⟨0, hI, .inr (mem_singleton_self _), by simp [entries, hpage, IndexPage.entries]⟩,
    hI.walksEnd (by decide) (by decide : 1 ≤ kMaxPageChainHops)⟩
  refine ⟨⟨⟨_, _, hpage, cons_ne_nil _ _⟩, nodup_singleton _, ?_, ?_, ?_⟩, ?_⟩
  · intro z hz
    cases mem_singleton.1 hz
    exact ⟨hpos, hused⟩
  · simp [Ascending, entries, hpage, IndexPage.entries]
  · exact ⟨congrArg IndexPage.next hpage, trivial⟩
  · intro z hz
    cases mem_singleton.1 hz
    refine (congrArg IndexPage.numKeys hpage).trans_le ?_
    exact (by decide : 1 ≤ kIndexMaxKeys)

lemma fits_of_insert (h : t.insert key rid = some t') : TreeKey.fits key = true := by
  by_contra hfits
  rw [BPlusTree.insert, if_neg hfits] at h
  cases h

lemma Holds.exists_insert (h : Holds t S) (hroom : t.nextPageNum ≤ kMaxPageChainHops)
    (hfits : TreeKey.fits key = true) (hok : t.insertOk key rid = true) :
    ∃ t', t.insert key rid = some t' ∧ Holds t' ((key, rid) :: S) ∧ t'.WalksEnd := by
  rcases h with ⟨d, hI, hhot, hperm⟩ | ⟨hbare, hclear, rfl⟩
  · obtain ⟨t1, d', hinsert, hI', hhot', hdepth, hcount, hperm'⟩ := insert_spec hI hroom hhot hfits hok
    refine ⟨t1, hinsert, .inl ⟨d', hI', hhot', hperm'.trans (hperm.cons _)⟩, hI'.walksEnd ?_ ?_⟩
    · have hd := hI.valid.shaped.depth_lt
      have hnodes := hI.length_nodes_lt
      omega
    · exact hcount.trans (Nat.succ_le_of_lt (hI.length_leaves_lt.trans_le hroom))
  · rw [BPlusTree.insert, if_pos hfits]
    dsimp only
    -- a root is made if there is none
    set t0 := if t.rootPageId = 0 then t.create else t with ht0
    obtain ⟨hp, hpos, hused, hclear0⟩ : t0.pages t0.rootPageId = .leaf [] 0 ∧ 0 < t0.rootPageId ∧
        t0.rootPageId < t0.nextPageNum ∧ HotClear t0 := by
      by_cases h0 : t.rootPageId = 0
      · rw [ht0, if_pos h0]
        refine ⟨?_, Nat.one_pos, Nat.one_lt_two, hclear.create⟩
        rw [create_pages]
        exact update_self _ _ _
      · rw [ht0, if_neg h0]
        obtain ⟨hp, hpos, hused⟩ := hbare.resolve_left h0
        exact ⟨hp, hpos, hused, hclear⟩
    rw [targetLeaf, hclear0.hotUsable, if_neg Bool.false_ne_true, findLeafWithParent, descend_root hp hpos]
    exact ⟨_, rfl, insertAt_root hp hpos hused⟩

/-- An insertion adds its entry. -/
theorem Holds.insert (h : Holds t S) (hroom : t.nextPageNum ≤ kMaxPageChainHops)
    (hok : t.insertOk key rid = true) (ht' : t.insert key rid = some t') : Holds t' ((key, rid) :: S) := by
  obtain ⟨t1, hinsert, h1, -⟩ := h.exists_insert hroom (fits_of_insert ht') hok
  cases ht'.symm.trans hinsert
  exact h1

/-- A search finds the entries of its key. -/
theorem Holds.search (h : Holds t S) (hw : t.WalksEnd) (key : κ) :
    (t.search key).Perm ((S.filter fun e => decide (e.1 = key)).map Prod.snd) := by
  rcases h with ⟨d, hI, -, hperm⟩ | ⟨hbare, -, rfl⟩
  · rw [hI.search_eq hw]
    exact (hperm.filter _).map _
  · rw [BPlusTree.search]
    rcases hbare with h0 | ⟨hp, hpos, -⟩
    · rw [if_pos h0]
      exact List.Perm.refl _
    · have hchain : searchChain t.pages key kMaxPageChainHops t.rootPageId = [] := by
        have hhops : kMaxPageChainHops = 999998 + 1 + 1 := rfl
        rw [hhops, searchChain, if_neg hpos.ne', hp]
        simp [IndexPage.entries, IndexPage.next, searchChain]
      rw [if_neg hpos.ne', findLeafLowerBound, descend_root hp hpos]
      dsimp only [Option.map_some]
      rw [hchain]
      exact List.Perm.refl _

end

end BPlusTree

end MiniDb
