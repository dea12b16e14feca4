import MiniDb.Index.BPlusTree.Insert

/-!
# Bulk loading

`Row` is a level of the tree that is built: pages of one depth, with their first keys, that have no page in
common.  `bulkLevel_spec` puts a row upon a row, with the same leaves below, and `bulkLevels_spec` goes on
until one page is left.  Sorted entries that are loaded into a tree without entries are what it then holds
(`Holds.bulkLoadSorted`); entries that are already in the tree are lost.
-/

namespace MiniDb

open Function List

namespace BPlusTree

variable {κ : Type*}

def rowNodes (pages : Pages κ) (h : ℕ) (level : List (ℕ × κ)) : List ℕ :=
  level.flatMap fun c => nodes pages h c.1

def rowLeaves (pages : Pages κ) (h : ℕ) (level : List (ℕ × κ)) : List ℕ :=
  level.flatMap fun c => leaves pages h c.1

/-- Trees of one depth side by side, with their first keys. -/
@[mk_iff] structure Row (pages : Pages κ) (next h : ℕ) (level : List (ℕ × κ)) : Prop where
  valid : ∀ c ∈ level, Valid pages h c.1
  first : ∀ c ∈ level, firstKey pages h c.1 = some c.2
  nodup : (rowNodes pages h level).Nodup
  used : ∀ z ∈ rowNodes pages h level, 0 < z ∧ z < next
  sized : ∀ z ∈ rowNodes pages h level, (pages z).numKeys ≤ kIndexMaxKeys

section

variable {pages pages' : Pages κ} {next next' h : ℕ} {level : List (ℕ × κ)}

section

variable (hsame : ∀ z ∈ rowNodes pages h level, pages' z = pages z)
include hsame

lemma rowNodes_congr : rowNodes pages' h level = rowNodes pages h level :=
  flatMap_congr fun c hc => nodes_congr fun z hz => hsame z (mem_flatMap.2 ⟨c, hc, hz⟩)

lemma rowLeaves_congr : rowLeaves pages' h level = rowLeaves pages h level :=
  flatMap_congr fun c hc => leaves_congr fun z hz => hsame z (mem_flatMap.2 ⟨c, hc, hz⟩)

end

lemma Row.congr (hrow : Row pages next h level)
    (hsame : ∀ z ∈ rowNodes pages h level, pages' z = pages z) (hle : next ≤ next') : Row pages' next' h level := by
  have hsame' : ∀ c ∈ level, ∀ z ∈ nodes pages h c.1, pages' z = pages z := fun c hc z hz =>
    hsame z (mem_flatMap.2 ⟨c, hc, hz⟩)
  refine ⟨fun c hc => (hrow.valid c hc).congr (hsame' c hc), fun c hc => ?_, ?_, fun z hz => ?_, fun z hz => ?_⟩
  · rw [firstKey_congr (hsame' c hc)]
    exact hrow.first c hc
  · rw [rowNodes_congr hsame]
    exact hrow.nodup
  · rw [rowNodes_congr hsame] at hz
    exact ⟨(hrow.used z hz).1, (hrow.used z hz).2.trans_le hle⟩
  · rw [rowNodes_congr hsame] at hz
    rw [hsame z hz]
    exact hrow.sized z hz

/-- What is made upon a row: new pages only, and the leaves are those of the row. -/
structure Upon (pages : Pages κ) (next h : ℕ) (level : List (ℕ × κ)) (pages' : Pages κ) (next' : ℕ)
    (above : List (ℕ × κ)) : Prop where
  row : Row pages' next' (h + 1) above
  le : next ≤ next'
  same : ∀ z, z < next → pages' z = pages z
  leaves_eq : rowLeaves pages' (h + 1) above = rowLeaves pages h level
  mem_nodes : ∀ z ∈ rowNodes pages' (h + 1) above, z ∈ rowNodes pages h level ∨ next ≤ z

lemma Upon.nil : Upon pages next h [] pages next [] :=
  ⟨⟨by simp, by simp, by simp [rowNodes], by simp [rowNodes], by simp [rowNodes]⟩, le_rfl,
    fun _ _ => rfl, rfl, by simp [rowNodes]⟩

@[simp] lemma rowNodes_cons (c : ℕ × κ) :
    rowNodes pages h (c :: level) = nodes pages h c.1 ++ rowNodes pages h level := flatMap_cons

@[simp] lemma rowNodes_append (level' : List (ℕ × κ)) :
    rowNodes pages h (level ++ level') = rowNodes pages h level ++ rowNodes pages h level' :=
  flatMap_append

@[simp] lemma rowLeaves_cons (c : ℕ × κ) :
    rowLeaves pages h (c :: level) = leaves pages h c.1 ++ rowLeaves pages h level :=
  flatMap_cons

@[simp] lemma rowLeaves_append (level' : List (ℕ × κ)) :
    rowLeaves pages h (level ++ level') = rowLeaves pages h level ++ rowLeaves pages h level' :=
  flatMap_append

variable {pages1 : Pages κ} {id : ℕ} {e : κ × RecordId} {es : List (κ × RecordId)}

lemma row_append {level' : List (ℕ × κ)} : Row pages next h (level ++ level') ↔
    Row pages next h level ∧ Row pages next h level' ∧ (rowNodes pages h level).Disjoint (rowNodes pages h level') := by
  simp only [row_iff, rowNodes_append, forall_mem_append, nodup_append']
  tauto

lemma row_singleton {k : κ} : Row pages next h [(id, k)] ↔
    Valid pages h id ∧ firstKey pages h id = some k ∧ (nodes pages h id).Nodup ∧
      (∀ z ∈ nodes pages h id, 0 < z ∧ z < next) ∧ ∀ z ∈ nodes pages h id, (pages z).numKeys ≤ kIndexMaxKeys := by
  simp [row_iff, rowNodes]

/-- A page above the first pages of a row, and what is made upon the others. -/
lemma Upon.cons {c : ℕ × κ} {group rest above : List (ℕ × κ)} (hnext : 0 < next)
    (hrow : Row pages next h (c :: group ++ rest)) (hlen : group.length ≤ kIndexMaxKeys)
    (hpage : pages1 next = .internal (group.map Prod.snd) (c.1 :: group.map Prod.fst))
    (hother : ∀ z, z ≠ next → pages1 z = pages z)
    (hup : Row pages1 (next + 1) h rest → Upon pages1 (next + 1) h rest pages' next' above) :
    Upon pages next h (c :: group ++ rest) pages' next' ((next, c.2) :: above) := by
  obtain ⟨hG, hR, hdisj⟩ := row_append.1 hrow
  have hsameR : ∀ z ∈ rowNodes pages h rest, pages1 z = pages z := fun z hz => hother z (hR.used z hz).2.ne
  have hU := hup (hR.congr hsameR (Nat.le_succ next))
  -- the pages of the group are as before
  have hsame : ∀ z, z < next → pages' z = pages z := fun z hz =>
    (hU.same z (Nat.lt_succ_of_lt hz)).trans (hother z hz.ne)
  have hgroup : ∀ c' ∈ c.1 :: group.map Prod.fst, ∃ b ∈ c :: group, b.1 = c' := fun c' hc' => mem_map.1 hc'
  have hsameG : ∀ c' ∈ c.1 :: group.map Prod.fst, ∀ z ∈ nodes pages h c', pages' z = pages z := by
    intro c' hc' z hz
    obtain ⟨b, hb, rfl⟩ := hgroup c' hc'
    exact hsame z (hG.used z (mem_flatMap.2 ⟨b, hb, hz⟩)).2
  have hvalidG : ∀ c' ∈ c.1 :: group.map Prod.fst, Valid pages h c' := by
    intro c' hc'
    obtain ⟨b, hb, rfl⟩ := hgroup c' hc'
    exact hG.valid b hb
  have hpage' : pages' next = .internal (group.map Prod.snd) (c.1 :: group.map Prod.fst) :=
    (hU.same next (Nat.lt_succ_self next)).trans hpage
  have hnodesN : nodes pages' (h + 1) next = next :: rowNodes pages h (c :: group) := by
    rw [nodes_of_children hpage' hsameG, rowNodes, flatMap_cons, flatMap_cons, flatMap_map]
  have hleavesN : leaves pages' (h + 1) next = rowLeaves pages h (c :: group) := by
    rw [leaves_of_children hpage' hsameG, rowLeaves, flatMap_cons, flatMap_cons, flatMap_map]
  have habove : ∀ z ∈ rowNodes pages' (h + 1) above, z ∈ rowNodes pages h rest ∨ next < z := by
    intro z hz
    rw [← rowNodes_congr hsameR]
    exact hU.mem_nodes z hz
  have hnew : Row pages' next' (h + 1) [(next, c.2)] := by
    rw [row_singleton, hnodesN, forall_mem_cons, forall_mem_cons]
    refine ⟨valid_of_children hpage' (cons_ne_nil _ _) ?_ hvalidG hsameG, ?_,
      nodup_cons.2 ⟨fun hmem => lt_irrefl next (hG.used next hmem).2, hG.nodup⟩,
      ⟨⟨hnext, hU.le⟩, fun z hz => ?_⟩, ?_, fun z hz => ?_⟩
    · rw [tail_cons, map_map, map_map]
      exact map_congr_left fun b hb => (hG.first b (mem_cons_of_mem c hb)).symm
    · have hc := hsameG c.1 mem_cons_self
      rw [firstKey_succ hpage' rfl ((hvalidG c.1 mem_cons_self).shaped.congr hc), firstKey_congr hc]
      exact hG.first c mem_cons_self
    · exact ⟨(hG.used z hz).1, (hG.used z hz).2.trans hU.le⟩
    · rw [hpage', IndexPage.numKeys, length_map]
      exact hlen
    · rw [hsame z (hG.used z hz).2]
      exact hG.sized z hz
  refine ⟨row_append.2 ⟨hnew, hU.row, fun z hz hz' => ?_⟩, (Nat.le_succ next).trans hU.le, hsame, ?_, fun z hz => ?_⟩
  · rw [rowNodes, flatMap_singleton, hnodesN] at hz
    rcases mem_cons.1 hz with rfl | hz
    · rcases habove z hz' with hR' | hlt
      · exact lt_irrefl z (hR.used z hR').2
      · exact lt_irrefl z hlt
    · rcases habove z hz' with hR' | hlt
      · exact hdisj hz hR'
      · exact lt_asymm hlt (hG.used z hz).2
  · rw [rowLeaves_cons, hleavesN, hU.leaves_eq, rowLeaves_congr hsameR, rowLeaves_append]
  · rw [rowNodes_cons, hnodesN] at hz
    rw [rowNodes_append]
    rcases mem_append.1 hz with hz | hz
    · rcases mem_cons.1 hz with rfl | hz
      · exact .inr le_rfl
      · exact .inl (mem_append_left _ hz)
    · rcases habove z hz with hR | hlt
      · exact .inl (mem_append_right _ hR)
      · exact .inr hlt.le

/-- **A row upon a row.** -/
theorem bulkLevel_spec : ∀ (fuel : ℕ) {level : List (ℕ × κ)} {pages : Pages κ} {next : ℕ},
    level.length ≤ fuel → 0 < next → Row pages next h level →
    Upon pages next h level (bulkLevel fuel pages next level).1 (bulkLevel fuel pages next level).2.1
      (bulkLevel fuel pages next level).2.2 := by
  intro fuel
  induction fuel with
  | zero =>
    intro level pages next hlen _ _
    obtain rfl := eq_nil_of_length_eq_zero (Nat.le_zero.1 hlen)
    exact .nil
  | succ fuel ih =>
    intro level pages next hlen hnext hrow
    cases level with
    | nil => exact .nil
    | cons c level =>
      have hsplit : c :: level = c :: level.take kIndexMaxKeys ++ level.drop kIndexMaxKeys := by
        rw [cons_append, take_append_drop]
      rw [hsplit] at hrow
      have hup := Upon.cons hnext hrow (length_take_le _ _) (update_self _ _ _)
        (fun z hz => update_of_ne hz _ _) fun hrest =>
        ih (by rw [length_drop]; simp at hlen; omega) (Nat.succ_pos next) hrest
      rw [← hsplit] at hup
      exact hup

lemma length_bulkLevel_le : ∀ (fuel : ℕ) {level : List (ℕ × κ)} {pages : Pages κ} {next : ℕ},
    (bulkLevel fuel pages next level).2.2.length ≤ level.length := by
  intro fuel
  induction fuel with
  | zero => exact Nat.zero_le _
  | succ fuel ih =>
    intro level pages next
    cases level with
    | nil => exact le_rfl
    | cons c level =>
      refine Nat.succ_le_succ (ih.trans ?_)
      rw [length_drop]
      exact Nat.sub_le _ _

lemma length_bulkLevel_lt (fuel : ℕ) (pages : Pages κ) (next : ℕ) (c c' : ℕ × κ) (level : List (ℕ × κ)) :
    (bulkLevel fuel pages next (c :: c' :: level)).2.2.length < (c :: c' :: level).length := by
  cases fuel with
  | zero => exact Nat.succ_pos _
  | succ fuel =>
    refine Nat.succ_lt_succ ((length_bulkLevel_le fuel).trans_lt ?_)
    rw [length_drop, length_cons]
    have : 0 < kIndexMaxKeys := by decide
    omega

/-- **Rows upon rows, until there is one page**, with fewer levels than there are pages in the first of them. -/
theorem bulkLevels_spec : ∀ (fuel : ℕ) {h : ℕ} {level : List (ℕ × κ)} {pages : Pages κ} {next : ℕ},
    level ≠ [] → level.length ≤ fuel → 0 < next → Row pages next h level →
    ∃ d k, d < h + level.length ∧ Row (bulkLevels fuel pages next level).1 (bulkLevels fuel pages next level).2.1 d
        [((bulkLevels fuel pages next level).2.2, k)] ∧
      leaves (bulkLevels fuel pages next level).1 d (bulkLevels fuel pages next level).2.2 = rowLeaves pages h level ∧
      ∀ z, z < next → (bulkLevels fuel pages next level).1 z = pages z := by
  intro fuel
  induction fuel with
  | zero =>
    intro h level pages next hne hlen _ _
    exact absurd (eq_nil_of_length_eq_zero (Nat.le_zero.1 hlen)) hne
  | succ fuel ih =>
    intro h level pages next hne hlen hnext hrow
    match level with
    | [c] =>
      refine ⟨h, c.2, Nat.lt_succ_self h, hrow, ?_, fun z _ => rfl⟩
      rw [rowLeaves, flatMap_singleton]
      rfl
    | c :: c' :: level =>
      have hup := bulkLevel_spec _ le_rfl hnext hrow
      have hlt := length_bulkLevel_lt (c :: c' :: level).length pages next c c' level
      obtain ⟨d, k, hd, hrow', hleaves, hsame⟩ := ih (by simp [bulkLevel])
        (Nat.le_of_lt_succ (hlt.trans_le hlen)) (hnext.trans_le hup.le) hup.row
      refine ⟨d, k, by omega, hrow', hleaves.trans hup.leaves_eq, fun z hz => ?_⟩
      exact (hsame z (hz.trans_le hup.le)).trans (hup.same z hz)

/-! ## The leaves -/

/-- The leaves of a bulk load: they hold the entries, one after the other, in a chain. -/
structure LeafRow (pages : Pages κ) (id next : ℕ) (es : List (κ × RecordId)) (pages' : Pages κ)
    (next' : ℕ) (level : List (ℕ × κ)) : Prop where
  row : Row pages' next' 0 level
  le : next ≤ next'
  head : ∃ k, level.head? = some (id, k)
  fresh : ∀ z ∈ rowLeaves pages' 0 level, z = id ∨ next ≤ z
  same : ∀ z, z < next → z ≠ id → pages' z = pages z
  entries_eq : entriesOf pages' (rowLeaves pages' 0 level) = es
  chained : Chained pages' (rowLeaves pages' 0 level)

lemma row_leaf {n : ℕ} (hid : 0 < id) (hlt : id < next) (hlen : (e :: es).length ≤ kIndexMaxKeys)
    (hpage : pages id = .leaf (e :: es) n) : Row pages next 0 [(id, e.1)] := by
  refine row_singleton.2 ⟨⟨_, _, hpage, cons_ne_nil _ _⟩, ?_, nodup_singleton _, ?_, ?_⟩
  · simp [firstKey, entries, hpage, IndexPage.entries]
  · simp [hid, hlt]
  · simpa [hpage, IndexPage.numKeys] using hlen

lemma LeafRow.cons {es' : List (κ × RecordId)}
    (hid : 0 < id) (hlt : id < next) (hlen : (e :: es).length ≤ kIndexMaxKeys)
    (hpage : pages1 id = .leaf (e :: es) next) (hother : ∀ z, z ≠ id → pages1 z = pages z)
    (hrow : LeafRow pages1 next (next + 1) es' pages' next' level) :
    LeafRow pages id next (e :: es ++ es') pages' next' ((id, e.1) :: level) := by
  have hpage' : pages' id = .leaf (e :: es) next :=
    (hrow.same id (Nat.lt_succ_of_lt hlt) hlt.ne).trans hpage
  have hfresh : ∀ z ∈ rowLeaves pages' 0 level, next ≤ z := by
    intro z hz
    rcases hrow.fresh z hz with rfl | hle
    · exact le_rfl
    · exact Nat.le_of_succ_le hle
  have hnext : (rowLeaves pages' 0 level).headD 0 = next := by
    obtain ⟨k, hk⟩ := hrow.head
    obtain ⟨level', rfl⟩ := head?_eq_some_iff.1 hk
    rfl
  have hle := (Nat.le_succ next).trans hrow.le
  refine ⟨row_append.2 ⟨row_leaf hid (hlt.trans_le hle) hlen hpage', hrow.row, fun z hz hz' => ?_⟩, hle, ⟨e.1, rfl⟩,
    fun z hz => ?_, fun z hz hne => ?_, ?_, ?_⟩
  · rw [mem_singleton.1 hz] at hz'
    exact absurd (hfresh id hz') (Nat.not_le.2 hlt)
  · rcases mem_cons.1 hz with rfl | hz
    · exact .inl rfl
    · exact .inr (hfresh z hz)
  · exact (hrow.same z (Nat.lt_succ_of_lt hz) hz.ne).trans (hother z hne)
  · rw [rowLeaves_cons, leaves_zero, singleton_append, entriesOf_cons, hrow.entries_eq, hpage']
    rfl
  · refine ⟨?_, hrow.chained⟩
    rw [hpage']
    exact hnext.symm

lemma LeafRow.single (hid : 0 < id) (hlt : id < next) (hlen : (e :: es).length ≤ kIndexMaxKeys)
    (hpage : pages' id = .leaf (e :: es) 0) (hother : ∀ z, z ≠ id → pages' z = pages z) :
    LeafRow pages id next (e :: es) pages' next [(id, e.1)] := by
  refine ⟨row_leaf hid hlt hlen hpage, le_rfl, ⟨e.1, rfl⟩, ?_, fun z _ => hother z, ?_, ?_⟩
  · exact fun z hz => .inl (mem_singleton.1 hz)
  · simp [rowLeaves, hpage, IndexPage.entries]
  · exact ⟨by rw [hpage]; rfl, trivial⟩

/-- **The leaves of a bulk load.** -/
theorem bulkLeaves_spec : ∀ (fuel : ℕ) {es : List (κ × RecordId)} {pages : Pages κ} {id next : ℕ},
    es ≠ [] → es.length ≤ fuel → 0 < id → id < next → LeafRow pages id next es (bulkLeaves fuel pages id next es).1
      (bulkLeaves fuel pages id next es).2.1 (bulkLeaves fuel pages id next es).2.2 := by
  intro fuel
  induction fuel with
  | zero =>
    intro es pages id next hne hlen _ _
    exact absurd (eq_nil_of_length_eq_zero (Nat.le_zero.1 hlen)) hne
  | succ fuel ih =>
    intro es pages id next hne hlen hid hlt
    obtain ⟨e, es, rfl⟩ := exists_cons_of_ne_nil hne
    rw [bulkLeaves]
    by_cases hfit : (e :: es).length ≤ kIndexMaxKeys
    · rw [if_pos hfit]
      exact .single hid hlt hfit (update_self _ _ _) fun z hz =>
        update_of_ne hz _ _
    · rw [if_neg hfit]
      have hmax : 0 < kIndexMaxKeys := by decide
      have hdrop : (e :: es).drop kIndexMaxKeys ≠ [] := fun hnil =>
        hfit (drop_eq_nil_iff.1 hnil)
      obtain ⟨es0, htake⟩ : ∃ es0, (e :: es).take kIndexMaxKeys = e :: es0 := ⟨es.take 56, rfl⟩
      have hsize : (e :: es0).length ≤ kIndexMaxKeys := htake ▸ length_take_le _ _
      have hpage : update pages id (.leaf ((e :: es).take kIndexMaxKeys) next) id =
          .leaf (e :: es0) next := by rw [htake, update_self]
      have hrow := LeafRow.cons hid hlt hsize hpage (fun z hz => update_of_ne hz _ _)
        (ih hdrop (by rw [length_drop]; omega) (hid.trans hlt) (Nat.lt_succ_self next))
      rw [← htake, take_append_drop] at hrow
      exact hrow

/-- All leaves but the last are full. -/
lemma length_bulkLeaves : ∀ (fuel : ℕ) {es : List (κ × RecordId)} {pages : Pages κ} {id next : ℕ},
    kIndexMaxKeys * (bulkLeaves fuel pages id next es).2.2.length < es.length + kIndexMaxKeys := by
  have hmax : 0 < kIndexMaxKeys := by decide
  intro fuel
  induction fuel with
  | zero =>
    intro es pages id next
    exact Nat.lt_add_left _ hmax
  | succ fuel ih =>
    intro es pages id next
    cases es with
    | nil => exact Nat.lt_add_left _ hmax
    | cons e es =>
      rw [bulkLeaves]
      split_ifs with hfit
      · simp
      · refine lt_of_lt_of_le (Nat.add_lt_add_right ih kIndexMaxKeys) ?_
        rw [length_drop]
        omega

/-- No page has more entries than there is room for. -/
def PagesFit (pages : Pages κ) : Prop := ∀ z, (pages z).entries.length ≤ kIndexMaxKeys

lemma PagesFit.update (hfit : PagesFit pages) (id : ℕ) {page : IndexPage κ}
    (hpage : page.entries.length ≤ kIndexMaxKeys) : PagesFit (update pages id page) := by
  intro z
  by_cases hz : z = id
  · rwa [hz, update_self]
  · rw [update_of_ne hz]
    exact hfit z

lemma PagesFit.bulkLeaves (hfit : PagesFit pages) : ∀ (fuel id next : ℕ) (es : List (κ × RecordId)),
    PagesFit (bulkLeaves fuel pages id next es).1 := by
  intro fuel
  induction fuel generalizing pages with
  | zero => exact fun _ _ _ => hfit
  | succ fuel ih =>
    intro id next es
    cases es with
    | nil => exact hfit
    | cons e es =>
      rw [BPlusTree.bulkLeaves]
      split_ifs with hlen
      · exact hfit.update id hlen
      · exact ih (hfit.update id (length_take_le _ _)) _ _ _

lemma PagesFit.bulkLevel (hfit : PagesFit pages) : ∀ (fuel next : ℕ) (level : List (ℕ × κ)),
    PagesFit (bulkLevel fuel pages next level).1 := by
  intro fuel
  induction fuel generalizing pages with
  | zero => exact fun _ _ => hfit
  | succ fuel ih =>
    intro next level
    cases level with
    | nil => exact hfit
    | cons c level => exact ih (hfit.update next (Nat.zero_le _)) _ _

lemma PagesFit.bulkLevels (hfit : PagesFit pages) : ∀ (fuel next : ℕ) (level : List (ℕ × κ)),
    PagesFit (bulkLevels fuel pages next level).1 := by
  intro fuel
  induction fuel generalizing pages with
  | zero => exact fun _ _ => hfit
  | succ fuel ih =>
    intro next level
    match level with
    | [] => exact hfit
    | [c] => exact hfit
    | c :: c' :: level => exact ih (hfit.bulkLevel (c :: c' :: level).length next (c :: c' :: level)) _ _

end

section

variable [TreeKey κ] {t t' : BPlusTree κ} {S es : List (κ × RecordId)}

/-- Sorted entries are loaded into a tree without entries; the walks are short enough if the leaves are not too
many. -/
lemma holds_of_bulkLevels (hpos : 0 < t.rootPageId) (hused : t.rootPageId < t.nextPageNum)
    (hne : es ≠ []) (hasc : Ascending es) {pages pages' : Pages κ} {next next' root : ℕ} {level : List (ℕ × κ)}
    (hleaves : bulkLeaves es.length t.pages t.rootPageId t.nextPageNum es = (pages, next, level))
    (hlevels : bulkLevels level.length pages next level = (pages', next', root))
    (ht' : t'.pages = pages' ∧ t'.rootPageId = root ∧ t'.nextPageNum = next')
    (hhot : t'.hotLeafId = 0) :
    Holds t' es ∧ (es.length ≤ kIndexMaxKeys * kMaxPageChainHops → t'.WalksEnd) := by
  obtain ⟨rfl, rfl, rfl⟩ := ht'
  have hrow : LeafRow t.pages t.rootPageId t.nextPageNum es _ _ _ :=
    bulkLeaves_spec es.length hne le_rfl hpos hused
  rw [hleaves] at hrow
  have hlevel : level ≠ [] := by
    rintro rfl
    obtain ⟨k, hk⟩ := hrow.head
    cases hk
  have hnext : 0 < next := hpos.trans (hused.trans_le hrow.le)
  obtain ⟨d, k, hd, htop, htopLeaves, hsame⟩ := bulkLevels_spec level.length hlevel le_rfl hnext hrow.row
  rw [hlevels] at htop htopLeaves hsame
  obtain ⟨hvalid, -, hnodup, hin, hsized⟩ := row_singleton.1 htop
  have hleaf : ∀ l ∈ rowLeaves pages 0 level, t'.pages l = pages l := fun l hl =>
    hsame l (hrow.row.used l hl).2
  have hentries : entries t'.pages d t'.rootPageId = es := by
    rw [entries, htopLeaves, entriesOf_congr hleaf, hrow.entries_eq]
  have hI : Inv t' d := by
    refine ⟨⟨hvalid, hnodup, hin, ?_, ?_⟩, hsized⟩
    · rw [hentries]
      exact hasc
    · rw [htopLeaves]
      exact hrow.chained.congr fun l hl => by rw [hleaf l hl]
  refine ⟨.inl ⟨d, hI, .inl (.inl hhot), by rw [hentries]⟩, fun hlen => ?_⟩
  have hfull : kIndexMaxKeys * (bulkLeaves es.length t.pages t.rootPageId t.nextPageNum es).2.2.length <
      es.length + kIndexMaxKeys := length_bulkLeaves es.length
  rw [hleaves] at hfull
  dsimp only at hfull
  have hlevels : level.length ≤ kMaxPageChainHops := by
    have hmul : kIndexMaxKeys * level.length < kIndexMaxKeys * (kMaxPageChainHops + 1) := by
      rw [Nat.mul_succ]
      omega
    exact Nat.le_of_lt_succ (Nat.lt_of_mul_lt_mul_left hmul)
  refine hI.walksEnd (by omega) ?_
  rw [htopLeaves, rowLeaves]
  simpa using hlevels

/-- Do insertions one after the other leave the tree in order? -/
def insertsOk : BPlusTree κ → List (κ × RecordId) → Bool
  | _, [] => true
  | t, e :: es =>
    decide (t.nextPageNum ≤ kMaxPageChainHops) && t.insertOk e.1 e.2 &&
      (t.insert e.1 e.2).all fun t' => insertsOk t' es

/-- Does the bulk load leave the tree in order?  Entries with a NULL are inserted one after the other;
others must come sorted, and into a tree without entries. -/
def BulkLoadOk (t : BPlusTree κ) (es : List (κ × RecordId)) : Prop :=
  if es.any fun e => TreeKey.hasNull e.1 then insertsOk t es = true
  else es = [] ∨
    (t.rootPageId = 0 ∨ t.pages t.rootPageId = .leaf [] 0) ∧ Ascending es

lemma Holds.perm {S' : List (κ × RecordId)} (h : Holds t S) (hS : S.Perm S') : Holds t S' := by
  rcases h with ⟨d, hI, hhot, hperm⟩ | ⟨hbare, hclear, rfl⟩
  · exact .inl ⟨d, hI, hhot, hperm.trans hS⟩
  · exact .inr ⟨hbare, hclear, nil_perm.1 hS⟩

lemma Holds.foldlM_insert : ∀ {es S : List (κ × RecordId)} {t : BPlusTree κ}, Holds t S →
    insertsOk t es = true → es.foldlM (fun t e => t.insert e.1 e.2) t = some t' → Holds t' (es ++ S) := by
  intro es
  induction es with
  | nil =>
    intro S t h _ ht'
    cases ht'
    exact h
  | cons e es ih =>
    intro S t h hok ht'
    rw [foldlM_cons] at ht'
    obtain ⟨t1, hinsert, hrest⟩ := Option.bind_eq_some_iff.1 ht'
    rw [insertsOk, hinsert, Option.all_some, Bool.and_eq_true_iff, Bool.and_eq_true_iff] at hok
    obtain ⟨⟨hroom, hfirst⟩, hok'⟩ := hok
    have h1 := h.insert (of_decide_eq_true hroom) hfirst hinsert
    exact (ih h1 hok' hrest).perm perm_middle

lemma Holds.exists_foldlM {es S : List (κ × RecordId)} {t : BPlusTree κ} (h : Holds t S) (hw : t.WalksEnd)
    (hok : insertsOk t es = true) (hfits : ∀ e ∈ es, TreeKey.fits e.1 = true) :
    ∃ t', es.foldlM (fun (t : BPlusTree κ) e => t.insert e.1 e.2) t = some t' ∧ t'.WalksEnd := by
  induction es generalizing S t with
  | nil => exact ⟨t, rfl, hw⟩
  | cons e es ih =>
    rw [insertsOk, Bool.and_eq_true_iff, Bool.and_eq_true_iff] at hok
    obtain ⟨⟨hroom, hfirst⟩, hok'⟩ := hok
    obtain ⟨t1, hinsert, h1, hw1⟩ :=
      h.exists_insert (of_decide_eq_true hroom) (hfits e mem_cons_self) hfirst
    rw [hinsert, Option.all_some] at hok'
    rw [foldlM_cons, hinsert]
    exact ih h1 hw1 hok' fun e' he' => hfits e' (mem_cons_of_mem e he')

section

variable (h : Holds t S)
include h

lemma Holds.of_root_leaf (hp : t.pages t.rootPageId = .leaf [] 0)
    (h0 : t.rootPageId ≠ 0) : S = [] ∧ 0 < t.rootPageId ∧ t.rootPageId < t.nextPageNum := by
  rcases h with ⟨d, hI, -, -⟩ | ⟨hbare, -, rfl⟩
  · cases d with
    | zero =>
      obtain ⟨es, n, hp', hne⟩ := hI.valid
      cases hp.symm.trans hp'
      exact absurd rfl hne
    | succ d =>
      obtain ⟨ks, cs, hp', -⟩ := hI.valid
      cases hp.symm.trans hp'
  · exact ⟨rfl, (hbare.resolve_left h0).2⟩

lemma Holds.create (h0 : t.rootPageId = 0) : Holds t.create S := by
  rcases h with ⟨d, hI, -, -⟩ | ⟨-, hclear, rfl⟩
  · exact absurd h0 (hI.pos _ self_mem_nodes)
  · refine .inr ⟨.inr ⟨?_, Nat.one_pos, Nat.one_lt_two⟩, hclear.create, rfl⟩
    rw [create_pages]
    exact update_self _ _ _

lemma Holds.clearHot : Holds { t with hotLeafId := 0, hotLeafFirstKey := none, hotLeafParentId := 0 } S := by
  rcases h with ⟨d, hI, -, hperm⟩ | ⟨hbare, -, rfl⟩
  · exact .inl ⟨d, ⟨hI.toCoherent, hI.sized⟩, .inl (.inl rfl), hperm⟩
  · exact .inr ⟨hbare, .inl rfl, rfl⟩

/-- A bulk load adds its entries. -/
theorem Holds.bulkLoadSorted (hok : BulkLoadOk t es) (ht' : t.bulkLoadSorted es = some t') :
    Holds t' (es ++ S) := by
  rw [BPlusTree.bulkLoadSorted] at ht'
  rw [BulkLoadOk] at hok
  by_cases hnull : (es.any fun e => TreeKey.hasNull e.1) = true
  · rw [if_pos hnull] at ht' hok
    exact h.foldlM_insert hok ht'
  · rw [if_neg hnull] at ht' hok
    by_cases hfits : (es.all fun e => TreeKey.fits e.1) = true
    · rw [if_pos hfits] at ht'
      -- a root is made if there is none
      set t0 := if t.rootPageId = 0 then t.create else t with ht0
      have hroot : t0.rootPageId ≠ 0 := by
        by_cases h0 : t.rootPageId = 0
        · rw [ht0, if_pos h0]
          exact Nat.one_ne_zero
        · rwa [ht0, if_neg h0]
      have h₀ : Holds t0 S := by
        by_cases h0 : t.rootPageId = 0
        · rw [ht0, if_pos h0]
          exact h.create h0
        · rwa [ht0, if_neg h0]
      by_cases hnil : es = []
      · rw [if_pos hnil] at ht'
        cases ht'
        rw [hnil]
        exact h₀.clearHot
      · rw [if_neg hnil] at ht'
        obtain ⟨hbare, hasc⟩ := hok.resolve_left hnil
        have hp : t0.pages t0.rootPageId = .leaf [] 0 := by
          by_cases h0 : t.rootPageId = 0
          · rw [ht0, if_pos h0, create_pages]
            exact update_self _ _ _
          · rw [ht0, if_neg h0]
            exact hbare.resolve_left h0
        obtain ⟨rfl, hpos, hused⟩ := h₀.of_root_leaf hp hroot
        rw [append_nil]
        cases ht'
        exact (holds_of_bulkLevels (t := t0) hpos hused hnil hasc rfl rfl ⟨rfl, rfl, rfl⟩ rfl).1
    · rw [if_neg hfits] at ht'
      cases ht'

end

end

end BPlusTree

end MiniDb
