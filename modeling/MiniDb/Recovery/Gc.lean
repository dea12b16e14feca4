import MiniDb.Transaction.Manager
import MiniDb.Storage.HeapFile
import MiniDb.Index.TableIndex

/-!
# Garbage collection and VACUUM

Both collectors walk over pages of a table under the heap latch, with the oldest running id as their horizon.  They
remove the versions that `isGarbage` accepts and set or clear the visibility bits; VACUUM also freezes old versions.
What they do to one page is one definition, `collectPage`, with a flag for the freezing.

`sweepView` says in one expression what a collector makes of a slot, and `look_collectPage` that the walk computes it.
-/

namespace MiniDb

open Function List Page

variable {β κ : Type*}

def isGarbage (tm : TransactionManager) (oldest : ℕ) (t : Tuple β) : Bool :=
  t.xmin != kInvalidTxnId && tm.isTxnCommitted t.xmin && t.xmin < oldest &&
    t.xmax != kInvalidTxnId && tm.isTxnCommitted t.xmax && t.xmax < oldest

def isAllVisibleTuple (tm : TransactionManager) (oldest : ℕ) (t : Tuple β) : Bool :=
  t.xmin != kInvalidTxnId && t.xmax == kInvalidTxnId &&
    (t.xmin == kFrozenTxnId || tm.isTxnCommitted t.xmin && t.xmin < oldest)

/-- The test under which `run_vacuum` freezes a version that is not garbage. -/
def isFreezable (tm : TransactionManager) (horizon : ℕ) (t : Tuple β) : Bool :=
  t.xmin != kFrozenTxnId && t.xmin != kInvalidTxnId && tm.isTxnCommitted t.xmin &&
    t.xmin < horizon && t.xmax == kInvalidTxnId

/-- Freezing overwrites `xmin` in the page. -/
def Tuple.freeze (t : Tuple β) : Tuple β := { t with xmin := kFrozenTxnId }

/-- A garbage version with a successor on its own page becomes a redirect, any other one is marked
dead. -/
def removeVersion (pageId : ℕ) (p : Page β) (i : ℕ) (t : Tuple β) : Page β :=
  if t.hasNextVersion ∧ t.nextPage = pageId then (p.redirectSlot i t.nextSlot).getD p
  else (p.markDead i).getD p

structure PageScan (β κ : Type*) where
  page : Page β
  indexes : List (TableIndex β κ)
  hasGarbage : Bool
  allVisible : Bool
  allFrozen : Bool

variable [DecidableEq κ]

/-- One slot of the walk, the body of the inner loop. -/
def scanSlot (tm : TransactionManager) (oldest : ℕ) (freezing : Bool) (pageId : ℕ)
    (sc : PageScan β κ) (i : ℕ) : PageScan β κ :=
  match sc.page.tupleAt i with
  | none => sc
  | some t =>
    if isGarbage tm oldest t then
      { page := removeVersion pageId sc.page i t
        indexes := deleteIndexEntries sc.indexes t.row ⟨pageId, i⟩
        hasGarbage := true
        allVisible := false
        allFrozen := false }
    else if freezing && isFreezable tm oldest t then
      { sc with page := sc.page.modifyTuple i Tuple.freeze }
    else
      { sc with
        allFrozen := sc.allFrozen && t.xmin == kFrozenTxnId
        allVisible := sc.allVisible && isAllVisibleTuple tm oldest t }

/-- The walk over the first `n` slots. -/
def scanSlots (tm : TransactionManager) (oldest : ℕ) (freezing : Bool) (pageId : ℕ)
    (sc : PageScan β κ) : ℕ → PageScan β κ
  | 0 => sc
  | n + 1 => scanSlot tm oldest freezing pageId (scanSlots tm oldest freezing pageId sc n) n

structure GcTable (β κ : Type*) where
  heap : HeapFile β
  indexes : List (TableIndex β κ)
  /-- The page index at which the next `run_gc` resumes. -/
  lastGcPage : ℕ

/-- What `run_gc` does to one page and, with `freezing`, what `run_vacuum` does.  VACUUM leaves
pages alone that are marked frozen. -/
def collectPage (tm : TransactionManager) (oldest : ℕ) (freezing : Bool) (tb : GcTable β κ)
    (pageId : ℕ) : GcTable β κ :=
  if freezing && (tb.heap.vm pageId).frozen then tb
  else
    let page := tb.heap.pages pageId
    let sc := scanSlots tm oldest freezing pageId ⟨page, tb.indexes, false, true, true⟩
      page.numTuples
    if sc.hasGarbage then
      let page' := sc.page.prune.1
      { tb with
        heap := ((tb.heap.setPage pageId page').fsmUpdate pageId page'.getFreeSpace).vmClearPage
          pageId
        indexes := sc.indexes }
    else
      let heap := tb.heap.setPage pageId sc.page
      { tb with
        heap :=
          if freezing && sc.allFrozen && 0 < page.numTuples then heap.vmSetFrozen pageId
          else if sc.allVisible then heap.vmSetVisible pageId
          else heap.vmClearPage pageId
        indexes := sc.indexes }

/-- The pages that one call of `run_gc` visits: from where the last call stopped, wrapping around,
at most `maxPages` of them. -/
def gcPages (tb : GcTable β κ) (maxPages : ℕ) : List ℕ :=
  let pages := tb.heap.numDataPages
  let start := if pages ≤ tb.lastGcPage then 0 else tb.lastGcPage
  (List.range (min pages maxPages)).map fun p => (start + p) % pages + 1

/-- `run_gc`, on one table. -/
def runGc (tm : TransactionManager) (maxPages : ℕ) (tb : GcTable β κ) : GcTable β κ :=
  let pages := tb.heap.numDataPages
  if pages = 0 then tb
  else
    let start := if pages ≤ tb.lastGcPage then 0 else tb.lastGcPage
    let tb' := (gcPages tb maxPages).foldl (collectPage tm tm.getOldestActiveTxnId false) tb
    { tb' with lastGcPage := (start + min pages maxPages) % pages }

/-- `run_vacuum`, on one table. -/
def runVacuum (tm : TransactionManager) (tb : GcTable β κ) : GcTable β κ :=
  if tb.heap.numDataPages = 0 then tb
  else
    let tb' := ((List.range tb.heap.numDataPages).map (· + 1)).foldl
      (collectPage tm tm.getOldestActiveTxnId true) tb
    { tb' with lastGcPage := 0 }

/-! ## What a collector makes of a page -/

/-- What becomes of one slot of a page with `num` slots. -/
def sweepView (tm : TransactionManager) (oldest : ℕ) (freezing : Bool) (pageId num : ℕ) :
    SlotView β → SlotView β
  | .tuple t =>
    if isGarbage tm oldest t then
      if t.hasNextVersion ∧ t.nextPage = pageId then
        if t.nextSlot < num then .redirect t.nextSlot else .tuple t
      else .empty
    else if freezing && isFreezable tm oldest t then .tuple t.freeze
    else .tuple t
  | v => v

variable {p : Page β} {i n q maxPages : ℕ} {t : Tuple β} {tb : GcTable β κ} {l : List ℕ} {r : RecordId}

section

variable (tm : TransactionManager) (oldest : ℕ) (freezing : Bool) (pageId : ℕ)

omit [DecidableEq κ] in
lemma removeVersion_spec (ht : p.tupleAt i = some t) :
    (removeVersion pageId p i t).numTuples = p.numTuples ∧ ∀ j, (removeVersion pageId p i t).look j = if j = i then
          (if t.hasNextVersion ∧ t.nextPage = pageId then
            if t.nextSlot < p.numTuples then .redirect t.nextSlot else .tuple t else .empty) else p.look j := by
  have hi := lt_numTuples_of_tupleAt ht
  have hlook := tupleAt_eq_some_iff.1 ht
  have hsame : ∀ j, p.look j = if j = i then .tuple t else p.look j := by
    intro j
    split
    · next hj => rw [hj, hlook]
    · rfl
  unfold removeVersion
  split
  · cases hr : p.redirectSlot i t.nextSlot with
    | some p' =>
      obtain ⟨-, htgt, -, hnum, hl⟩ := redirectSlot_eq_some hr
      refine ⟨hnum, fun j => ?_⟩
      rw [if_pos htgt]
      exact hl j
    | none =>
      have htgt : ¬ t.nextSlot < p.numTuples := by
        intro hlt
        obtain ⟨p', hp'⟩ := redirectSlot_isSome hi hlt
        exact absurd (hr.symm.trans hp') (by simp)
      refine ⟨rfl, fun j => ?_⟩
      rw [if_neg htgt]
      exact hsame j
  · obtain ⟨p', hp'⟩ := markDead_isSome ht
    obtain ⟨-, -, hnum, hl⟩ := markDead_eq_some hp'
    rw [hp']
    exact ⟨hnum, hl⟩

omit [DecidableEq κ] in
lemma lengthsOk_removeVersion (t : Tuple β) (hl : p.LengthsOk) : (removeVersion pageId p i t).LengthsOk := by
  unfold removeVersion
  split
  · cases hr : p.redirectSlot i t.nextSlot with
    | none => exact hl
    | some p' => exact hl.redirectSlot hr
  · cases hr : p.markDead i with
    | none => exact hl
    | some p' => exact hl.markDead hr

section

variable (sc : PageScan β κ)

lemma scanSlot_spec (i : ℕ) : (scanSlot tm oldest freezing pageId sc i).page.numTuples = sc.page.numTuples ∧
      ∀ j, (scanSlot tm oldest freezing pageId sc i).page.look j =
        if j = i then sweepView tm oldest freezing pageId sc.page.numTuples (sc.page.look j) else sc.page.look j := by
  unfold scanSlot
  cases ht : sc.page.tupleAt i with
  | none =>
    simp only
    refine ⟨trivial, fun j => ?_⟩
    by_cases hj : j = i
    · rw [if_pos hj]
      subst hj
      unfold Page.tupleAt at ht
      cases hv : sc.page.look j with
      | tuple t => rw [hv] at ht; cases ht
      | redirect _ => rfl
      | empty => rfl
    · rw [if_neg hj]
  | some t =>
    have hlook := tupleAt_eq_some_iff.1 ht
    simp only
    by_cases hg : isGarbage tm oldest t = true
    · rw [if_pos hg]
      obtain ⟨hnum, hl⟩ := removeVersion_spec pageId ht
      refine ⟨hnum, fun j => ?_⟩
      rw [hl j]
      split
      · next hj => subst hj; rw [hlook, sweepView, if_pos hg]
      · rfl
    · rw [if_neg hg]
      by_cases hf : (freezing && isFreezable tm oldest t) = true
      · rw [if_pos hf]
        refine ⟨numTuples_modifyTuple _, fun j => ?_⟩
        rw [look_modifyTuple]
        split
        · next hj => subst hj; rw [hlook, sweepView, if_neg hg, if_pos hf]; rfl
        · rfl
      · rw [if_neg hf]
        refine ⟨rfl, fun j => ?_⟩
        split
        · next hj => subst hj; rw [hlook, sweepView, if_neg hg, if_neg hf]
        · rfl

/-- The walk treats every slot by itself. -/
lemma scanSlots_spec (n : ℕ) : (scanSlots tm oldest freezing pageId sc n).page.numTuples = sc.page.numTuples ∧
      ∀ j, (scanSlots tm oldest freezing pageId sc n).page.look j =
        if j < n then sweepView tm oldest freezing pageId sc.page.numTuples (sc.page.look j) else sc.page.look j := by
  induction n with
  | zero => exact ⟨rfl, fun j => by simp [scanSlots]⟩
  | succ n ih =>
    obtain ⟨hnum, hlook⟩ := ih
    obtain ⟨hnum', hlook'⟩ :=
      scanSlot_spec tm oldest freezing pageId (scanSlots tm oldest freezing pageId sc n) n
    refine ⟨hnum'.trans hnum, fun j => ?_⟩
    rw [scanSlots, hlook' j, hlook j, hnum]
    by_cases hj : j = n
    · subst hj
      simp
    · rw [if_neg hj]
      by_cases hlt : j < n
      · rw [if_pos hlt, if_pos (by omega)]
      · rw [if_neg hlt, if_neg (by omega)]

lemma lengthsOk_scanSlots {sc : PageScan β κ} (hl : sc.page.LengthsOk) (n : ℕ) :
    (scanSlots tm oldest freezing pageId sc n).page.LengthsOk := by
  induction n with
  | zero => exact hl
  | succ n ih =>
    rw [scanSlots]
    generalize scanSlots tm oldest freezing pageId sc n = sc' at ih
    unfold scanSlot
    cases sc'.page.tupleAt n with
    | none => exact ih
    | some t =>
      simp only
      split_ifs
      · exact lengthsOk_removeVersion pageId t ih
      · exact ih.modifyTuple _ _
      · exact ih

lemma tupleAt_scanSlots_of_le {j : ℕ} (h : n ≤ j) :
    (scanSlots tm oldest freezing pageId sc n).page.tupleAt j = sc.page.tupleAt j := by
  unfold Page.tupleAt
  rw [(scanSlots_spec tm oldest freezing pageId sc n).2 j, if_neg (not_lt.2 h)]

lemma scanSlots_flags (n : ℕ) : ∀ i < n, ∀ t, sc.page.tupleAt i = some t →
      ((scanSlots tm oldest freezing pageId sc n).hasGarbage = false → isGarbage tm oldest t = false) ∧
      ((scanSlots tm oldest freezing pageId sc n).allVisible = true →
        (freezing && isFreezable tm oldest t) = true ∨ isAllVisibleTuple tm oldest t = true) ∧
      ((scanSlots tm oldest freezing pageId sc n).allFrozen = true →
        (freezing && isFreezable tm oldest t) = true ∨ t.xmin = kFrozenTxnId) := by
  induction n with
  | zero => omega
  | succ n ih =>
    intro i hi t ht
    have hlast := tupleAt_scanSlots_of_le tm oldest freezing pageId sc (le_refl n)
    rw [scanSlots]
    generalize scanSlots tm oldest freezing pageId sc n = sc' at ih hlast
    unfold scanSlot
    rcases Nat.lt_succ_iff_lt_or_eq.1 hi with hi | rfl
    · -- the flags only ever move one way
      obtain ⟨h1, h2, h3⟩ := ih i hi t ht
      cases sc'.page.tupleAt n with
      | none => exact ⟨h1, h2, h3⟩
      | some t' =>
        simp only
        split_ifs
        · exact ⟨fun h => (by cases h), fun h => (by cases h), fun h => (by cases h)⟩
        · exact ⟨h1, h2, h3⟩
        · simp only [Bool.and_eq_true]
          exact ⟨h1, fun h => by simpa using h2 h.1, fun h => by simpa using h3 h.1⟩
    · rw [hlast, ht]
      simp only
      split_ifs with hg hf
      · exact ⟨fun h => (by cases h), fun h => (by cases h), fun h => (by cases h)⟩
      · exact ⟨fun _ => Bool.eq_false_iff.2 hg, fun _ => Or.inl hf, fun _ => Or.inl hf⟩
      · simp only [Bool.and_eq_true, beq_iff_eq]
        exact ⟨fun _ => Bool.eq_false_iff.2 hg, fun h => Or.inr h.2, fun h => Or.inr h.2⟩

end

/-- An entry of the index that belongs to a garbage version. -/
def GarbageEntry (tm : TransactionManager) (oldest : ℕ) (tuples : RecordId → Option (Tuple β))
    (ix : TableIndex β κ) (e : κ × RecordId) : Prop :=
  ∃ t, tuples e.2 = some t ∧ isGarbage tm oldest t = true ∧ e.1 = ix.key t.row

/-- `ix'` is `ix` with at most the entries of garbage versions removed. -/
def KeepsEntries (tm : TransactionManager) (oldest : ℕ) (tuples : RecordId → Option (Tuple β))
    (ix ix' : TableIndex β κ) : Prop :=
  ix'.key = ix.key ∧ ix'.entries.Sublist ix.entries ∧
    ∀ e ∈ ix.entries, ¬ GarbageEntry tm oldest tuples ix e → e ∈ ix'.entries

lemma keepsEntries_scanSlots {tuples : RecordId → Option (Tuple β)} (sc : PageScan β κ)
    (htup : ∀ i, tuples ⟨pageId, i⟩ = sc.page.tupleAt i) (n : ℕ) :
    List.Forall₂ (KeepsEntries tm oldest tuples) sc.indexes (scanSlots tm oldest freezing pageId sc n).indexes := by
  induction n with
  | zero => exact forall₂_same.2 fun _ _ => ⟨rfl, .refl _, fun _ he _ => he⟩
  | succ n ih =>
    have hlast := tupleAt_scanSlots_of_le tm oldest freezing pageId sc (le_refl n)
    rw [scanSlots]
    unfold scanSlot
    rw [hlast]
    cases ht : sc.page.tupleAt n with
    | none => exact ih
    | some t =>
      simp only
      split_ifs with hg hf
      · simp only [deleteIndexEntries, forall₂_map_right_iff]
        refine ih.imp fun ix ix' ⟨hkey, hsub, hkeep⟩ => ⟨hkey, erase_sublist.trans hsub, fun e he hne => ?_⟩
        have hne' : e ≠ (ix'.key t.row, ⟨pageId, n⟩) := by
          rintro rfl
          exact hne ⟨t, (htup n).trans ht, hg, by rw [hkey]⟩
        exact (mem_erase_of_ne hne').2 (hkeep e he hne)
      · exact ih
      · exact ih

/-- `ix'` has all entries of `ix` that point to page `q`. -/
def KeepsPage (q : ℕ) (ix ix' : TableIndex β κ) : Prop :=
  ix'.key = ix.key ∧ ∀ e ∈ ix.entries, e.2.pageId = q → e ∈ ix'.entries

omit [DecidableEq κ] in
lemma KeepsPage.trans {ix1 ix2 ix3 : TableIndex β κ} (h12 : KeepsPage q ix1 ix2)
    (h23 : KeepsPage q ix2 ix3) : KeepsPage q ix1 ix3 :=
  ⟨h23.1.trans h12.1, fun e he hq => h23.2 e (h12.2 e he hq) hq⟩

/-- The scan that `collectPage` makes of a page it does not skip. -/
def pageScan (tm : TransactionManager) (oldest : ℕ) (freezing : Bool) (tb : GcTable β κ) (pageId : ℕ) :
    PageScan β κ :=
  scanSlots tm oldest freezing pageId ⟨tb.heap.pages pageId, tb.indexes, false, true, true⟩
    (tb.heap.pages pageId).numTuples

section

variable (tb : GcTable β κ)

lemma look_pageScan (j : ℕ) : (pageScan tm oldest freezing tb pageId).page.look j =
      sweepView tm oldest freezing pageId (tb.heap.pages pageId).numTuples (tb.heap.look ⟨pageId, j⟩) := by
  rw [pageScan, (scanSlots_spec ..).2 j]
  split
  · rfl
  · next hj =>
    -- beyond the last slot there is nothing to sweep
    have hempty : (tb.heap.pages pageId).look j = .empty := by
      by_contra hne
      exact hj (lt_numTuples_of_look hne)
    show (tb.heap.pages pageId).look j = sweepView _ _ _ _ _ ((tb.heap.pages pageId).look j)
    rw [hempty]
    rfl

/-- What `collectPage` does when it does not skip the page, in one place: the page gets the scanned
slots, the indexes those of the scan, and the bits of other pages stay. -/
lemma collectPage_spec (hskip : (freezing && (tb.heap.vm pageId).frozen) = false) :
    let sc := pageScan tm oldest freezing tb pageId
    let tb' := collectPage tm oldest freezing tb pageId
    (∃ p : Page β, (∀ j, p.look j = sc.page.look j) ∧
      (sc.page.LengthsOk → p.LengthsOk) ∧ p.numTuples = sc.page.numTuples ∧
      tb'.heap.pages = update tb.heap.pages pageId p) ∧ tb'.heap.numDataPages = tb.heap.numDataPages ∧
    tb'.heap.lastDataPage = tb.heap.lastDataPage ∧ (∀ e ∈ tb'.heap.fsm, e.1 = pageId ∨ e ∈ tb.heap.fsm) ∧
    (∀ q, q ≠ pageId → tb'.heap.vm q = tb.heap.vm q) ∧
    ((tb'.heap.vm pageId).visible = true ∨ (tb'.heap.vm pageId).frozen = true →
      sc.hasGarbage = false ∧ (freezing = true ∧ sc.allFrozen = true ∨ sc.allVisible = true)) ∧
    tb'.indexes = sc.indexes := by
  have hne : ¬ (freezing && (tb.heap.vm pageId).frozen) = true := by simp [hskip]
  unfold collectPage
  rw [if_neg hne]
  simp only
  rw [← pageScan]
  by_cases hg : (pageScan tm oldest freezing tb pageId).hasGarbage = true
  · rw [if_pos hg]
    refine ⟨⟨_, fun j => look_prune .., fun hl => hl.prune, numTuples_prune, rfl⟩, rfl, rfl, fun e he => ?_, fun q hq => ?_,
      fun h => ?_, rfl⟩
    · exact HeapFile.mem_fsmUpdate (h := tb.heap.setPage pageId _) he
    · exact update_of_ne hq ..
    · simp [HeapFile.vmClearPage] at h
  · rw [if_neg hg]
    have hg' := Bool.eq_false_iff.2 hg
    refine ⟨⟨_, fun j => rfl, id, rfl, ?_⟩, ?_, ?_, fun e he => Or.inr ?_, fun q hq => ?_, fun h => ⟨hg', ?_⟩, rfl⟩
    · split_ifs <;> rfl
    · split_ifs <;> rfl
    · split_ifs <;> rfl
    · revert he
      split_ifs <;> exact id
    · split_ifs <;> exact update_of_ne hq ..
    · revert h
      split_ifs with hfr hv
      · simp only [Bool.and_eq_true] at hfr
        exact fun _ => Or.inl hfr.1
      · exact fun _ => Or.inr hv
      · simp [HeapFile.vmClearPage]

/-- The page part of a collection: other pages keep their slots, and the page becomes what
`sweepView` says. -/
lemma look_collectPage (r : RecordId) : (collectPage tm oldest freezing tb pageId).heap.look r =
      if r.pageId = pageId ∧ (freezing && (tb.heap.vm pageId).frozen) = false then
        sweepView tm oldest freezing pageId (tb.heap.pages pageId).numTuples (tb.heap.look r) else tb.heap.look r := by
  cases hskip : freezing && (tb.heap.vm pageId).frozen with
  | true =>
    unfold collectPage
    simp [hskip]
  | false =>
    obtain ⟨⟨p, hp, -, -, hpages⟩, -⟩ := collectPage_spec tm oldest freezing pageId tb hskip
    unfold HeapFile.look
    rw [hpages]
    by_cases hr : r.pageId = pageId
    · rw [if_pos ⟨hr, rfl⟩, hr, update_self, hp, look_pageScan]
      rfl
    · rw [if_neg fun h => hr h.1, update_of_ne hr]

end

/-! ## What a collector does to a table -/

/-- What a collector may make of one slot: nothing, a redirect or a free slot in place of a
garbage version, or a frozen version. -/
inductive CollectStep : SlotView β → SlotView β → Prop where
  | keep (v : SlotView β) : CollectStep v v
  | redirect (t : Tuple β) (hg : isGarbage tm oldest t = true) (hnext : t.hasNextVersion = true)
      (hpage : t.nextPage = pageId) : CollectStep (.tuple t) (.redirect t.nextSlot)
  | remove (t : Tuple β) (hg : isGarbage tm oldest t = true)
      (hnext : ¬ (t.hasNextVersion = true ∧ t.nextPage = pageId)) : CollectStep (.tuple t) .empty
  | freeze (t : Tuple β) (hfreezing : freezing = true) (hf : isFreezable tm oldest t = true) :
      CollectStep (.tuple t) (.tuple t.freeze)

omit [DecidableEq κ] in
lemma collectStep_sweepView (num : ℕ) (v : SlotView β) :
    CollectStep tm oldest freezing pageId v (sweepView tm oldest freezing pageId num v) := by
  cases v with
  | tuple t =>
    simp only [sweepView]
    split_ifs with hg hn ht hf
    · exact .redirect t hg hn.1 hn.2
    · exact .keep _
    · exact .remove t hg hn
    · rw [Bool.and_eq_true] at hf
      exact .freeze t hf.1 hf.2
    · exact .keep _
  | redirect n => exact .keep _
  | empty => exact .keep _

omit [DecidableEq κ] in
lemma isGarbage_freeze (t : Tuple β) (hf : isFreezable tm oldest t = true) :
    isGarbage tm oldest t.freeze = false := by
  simp only [isFreezable, Bool.and_eq_true, beq_iff_eq] at hf
  simp [isGarbage, Tuple.freeze, hf.2]

variable {tm oldest freezing pageId}

omit [DecidableEq κ] in
lemma CollectStep.trans {v1 v2 v3 : SlotView β} (h12 : CollectStep tm oldest freezing pageId v1 v2)
    (h23 : CollectStep tm oldest freezing pageId v2 v3) : CollectStep tm oldest freezing pageId v1 v3 := by
  cases h12 with
  | keep => exact h23
  | redirect t hg hn hp => cases h23; exact .redirect t hg hn hp
  | remove t hg hn => cases h23; exact .remove t hg hn
  | freeze t hfr hf =>
    -- a frozen version is neither garbage nor freezable
    have hng := isGarbage_freeze tm oldest t hf
    cases h23 with
    | keep => exact .freeze t hfr hf
    | redirect _ hg | remove _ hg => rw [hng] at hg; cases hg
    | freeze _ _ hf' => simp [isFreezable, Tuple.freeze] at hf'

omit [DecidableEq κ] in
/-- A garbage version that is still there after a collection was there before it. -/
lemma CollectStep.garbage {v : SlotView β}
    (h : CollectStep tm oldest freezing pageId v (.tuple t)) (hg : isGarbage tm oldest t = true) : v = .tuple t := by
  cases h with
  | keep => rfl
  | freeze t' _ hf => rw [isGarbage_freeze tm oldest t' hf] at hg; cases hg

/-- `tb'` is `tb` after a collection, as far as slots and index entries are concerned. -/
structure Collected (tm : TransactionManager) (oldest : ℕ) (freezing : Bool) (tb tb' : GcTable β κ) : Prop where
  look : ∀ r, CollectStep tm oldest freezing r.pageId (tb.heap.look r) (tb'.heap.look r)
  indexes : List.Forall₂ (KeepsEntries tm oldest tb.heap.tupleAt) tb.indexes tb'.indexes
  numDataPages : tb'.heap.numDataPages = tb.heap.numDataPages
  numTuples : ∀ q, (tb'.heap.pages q).numTuples = (tb.heap.pages q).numTuples
  heapOk : tb.heap.HeapOk → tb'.heap.HeapOk

omit [DecidableEq κ] in
lemma Collected.refl (tb : GcTable β κ) : Collected tm oldest freezing tb tb where
  look _ := .keep _
  indexes := forall₂_same.2 fun _ _ => ⟨rfl, .refl _, fun _ he _ => he⟩
  numDataPages := rfl
  numTuples _ := rfl
  heapOk := id

lemma forall₂_comp {α β γ : Type*} {R : α → β → Prop} {S : β → γ → Prop} {T : α → γ → Prop}
    (h : ∀ a b c, R a b → S b c → T a c) {l1 : List α} {l2 : List β} {l3 : List γ}
    (h12 : List.Forall₂ R l1 l2) (h23 : List.Forall₂ S l2 l3) : List.Forall₂ T l1 l3 := by
  induction h12 generalizing l3 with
  | nil => cases h23; exact .nil
  | cons hr _ ih =>
    cases h23 with
    | cons hs h23 => exact .cons (h _ _ _ hr hs) (ih h23)

omit [DecidableEq κ] in
lemma Collected.trans {tb1 tb2 tb3 : GcTable β κ} (h12 : Collected tm oldest freezing tb1 tb2)
    (h23 : Collected tm oldest freezing tb2 tb3) : Collected tm oldest freezing tb1 tb3 where
  look r := (h12.look r).trans (h23.look r)
  indexes := by
    refine forall₂_comp (fun ix1 ix2 ix3 ⟨hk, hsub, hkeep⟩ ⟨hk', hsub', hkeep'⟩ => ?_) h12.indexes h23.indexes
    refine ⟨hk'.trans hk, hsub'.trans hsub, fun e he hne => hkeep' e (hkeep e he hne) ?_⟩
    rintro ⟨t, ht, hg, heq⟩
    -- what is garbage after the first collection was garbage before it
    have hlook := h12.look e.2
    rw [HeapFile.tupleAt_eq_some_iff.1 ht] at hlook
    exact hne ⟨t, HeapFile.tupleAt_eq_some_iff.2 (hlook.garbage hg), hg, hk ▸ heq⟩
  numDataPages := h23.numDataPages.trans h12.numDataPages
  numTuples q := (h23.numTuples q).trans (h12.numTuples q)
  heapOk h := h23.heapOk (h12.heapOk h)

variable (tm oldest freezing)

/-- **What one page of a collection does to the table.** -/
lemma collected_collectPage (hpid : 1 ≤ pageId ∧ pageId ≤ tb.heap.numDataPages) :
    Collected tm oldest freezing tb (collectPage tm oldest freezing tb pageId) := by
  cases hskip : freezing && (tb.heap.vm pageId).frozen with
  | true =>
    have hsame : collectPage tm oldest freezing tb pageId = tb := by
      unfold collectPage
      rw [if_pos hskip]
    rw [hsame]
    exact Collected.refl tb
  | false =>
    obtain ⟨⟨p, -, hlen, hslots, hpages⟩, hnum, hlast, hfsm, -, -, hix⟩ :=
      collectPage_spec tm oldest freezing pageId tb hskip
    have hlook := look_collectPage tm oldest freezing pageId tb
    refine ⟨fun r => ?_, ?_, hnum, fun q => ?_, fun hok => ⟨fun r hr => ?_, ?_, fun e he => ?_, fun q => ?_⟩⟩
    · rw [hlook r]
      split
      · next h => rw [h.1]; exact collectStep_sweepView tm oldest freezing pageId _ _
      · exact .keep _
    · rw [hix]
      exact keepsEntries_scanSlots tm oldest freezing pageId
        ⟨tb.heap.pages pageId, tb.indexes, false, true, true⟩ (fun _ => rfl) _
    · rw [hpages]
      by_cases hq : q = pageId
      · subst hq
        rw [update_self, hslots]
        exact (scanSlots_spec ..).1
      · rw [update_of_ne hq]
    · rw [hnum]
      rw [hlook r] at hr
      split at hr
      · next h => exact h.1 ▸ hpid
      · exact hok.range r hr
    · rw [hlast, hnum]
      exact hok.last
    · rw [hnum]
      rcases hfsm e he with he | he
      · exact he ▸ hpid.2
      · exact hok.fsm e he
    · rw [hpages]
      by_cases hq : q = pageId
      · subst hq
        rw [update_self]
        exact hlen (lengthsOk_scanSlots tm oldest freezing q (hok.lengths q) _)
      · rw [update_of_ne hq]
        exact hok.lengths q

section

variable (hskip : (freezing && (tb.heap.vm pageId).frozen) = false)
include hskip

/-- What the bits of a page that was not skipped say about the tuples the collector found there. -/
lemma flags_collectPage (hbit : ((collectPage tm oldest freezing tb pageId).heap.vm pageId).visible = true ∨
      ((collectPage tm oldest freezing tb pageId).heap.vm pageId).frozen = true) :
    ∀ i t, tb.heap.tupleAt ⟨pageId, i⟩ = some t → isGarbage tm oldest t = false ∧
      ((freezing = true ∧ (isFreezable tm oldest t = true ∨ t.xmin = kFrozenTxnId)) ∨
        isAllVisibleTuple tm oldest t = true) := by
  intro i t ht
  obtain ⟨-, -, -, -, -, hflags, -⟩ := collectPage_spec tm oldest freezing pageId tb hskip
  obtain ⟨hg, hor⟩ := hflags hbit
  obtain ⟨h1, h2, h3⟩ := scanSlots_flags tm oldest freezing pageId
    ⟨tb.heap.pages pageId, tb.indexes, false, true, true⟩ (tb.heap.pages pageId).numTuples i
    (lt_numTuples_of_tupleAt ht) t ht
  refine ⟨h1 hg, ?_⟩
  rcases hor with ⟨hfr, hall⟩ | hall
  · rcases h3 hall with hf | hx
    · exact Or.inl ⟨hfr, Or.inl (Bool.and_eq_true _ _ ▸ hf).2⟩
    · exact Or.inl ⟨hfr, Or.inr hx⟩
  · rcases h2 hall with hf | hv
    · rw [Bool.and_eq_true] at hf
      exact Or.inl ⟨hf.1, Or.inl hf.2⟩
    · exact Or.inr hv

/-- A page without garbage keeps its tuples, up to freezing. -/
lemma tupleAt_collectPage {t' : Tuple β}
    (hng : ∀ t, tb.heap.tupleAt ⟨pageId, i⟩ = some t → isGarbage tm oldest t = false)
    (ht' : (collectPage tm oldest freezing tb pageId).heap.tupleAt ⟨pageId, i⟩ = some t') :
    ∃ t, tb.heap.tupleAt ⟨pageId, i⟩ = some t ∧ t' = if freezing && isFreezable tm oldest t then t.freeze else t := by
  rw [HeapFile.tupleAt_eq_some_iff, look_collectPage, if_pos ⟨rfl, hskip⟩] at ht'
  cases hv : tb.heap.look ⟨pageId, i⟩ with
  | tuple t =>
    have ht := HeapFile.tupleAt_eq_some_iff.2 hv
    have hg : ¬ isGarbage tm oldest t = true := by simp [hng t ht]
    rw [hv, sweepView, if_neg hg] at ht'
    refine ⟨t, ht, ?_⟩
    split at ht'
    · next hf => rw [if_pos hf]; exact (SlotView.tuple.inj ht').symm
    · next hf => rw [if_neg hf]; exact (SlotView.tuple.inj ht').symm
  | redirect n | empty => rw [hv] at ht'; cases ht'

end

/-! ## Walks over several pages -/

lemma collectPage_of_ne (tb : GcTable β κ) (hq : q ≠ pageId) :
    (collectPage tm oldest freezing tb pageId).heap.pages q = tb.heap.pages q ∧
      (collectPage tm oldest freezing tb pageId).heap.vm q = tb.heap.vm q := by
  cases hskip : freezing && (tb.heap.vm pageId).frozen with
  | true =>
    unfold collectPage
    rw [if_pos hskip]
    exact ⟨rfl, rfl⟩
  | false =>
    obtain ⟨⟨p, -, -, -, hpages⟩, -, -, -, hvm, -⟩ :=
      collectPage_spec tm oldest freezing pageId tb hskip
    exact ⟨by rw [hpages, update_of_ne hq], hvm q hq⟩

lemma collected_foldl (hl : ∀ q ∈ l, 1 ≤ q ∧ q ≤ tb.heap.numDataPages) :
    Collected tm oldest freezing tb (l.foldl (collectPage tm oldest freezing) tb) := by
  induction l generalizing tb with
  | nil => exact Collected.refl tb
  | cons q l ih =>
    have hq := collected_collectPage tm oldest freezing (hl q mem_cons_self)
    refine hq.trans (ih fun q' hq' => ?_)
    rw [hq.numDataPages]
    exact hl q' (mem_cons_of_mem q hq')

/-- In a walk without repetitions each page is collected as the walk found it. -/
lemma foldl_collectPage_page (hl : l.Nodup) (tb : GcTable β κ) (q : ℕ) :
    let tb' := l.foldl (collectPage tm oldest freezing) tb
    (q ∉ l → tb'.heap.pages q = tb.heap.pages q ∧ tb'.heap.vm q = tb.heap.vm q) ∧
    (q ∈ l → ∃ tb0 : GcTable β κ, tb0.heap.pages q = tb.heap.pages q ∧ tb0.heap.vm q = tb.heap.vm q ∧
      tb'.heap.pages q = (collectPage tm oldest freezing tb0 q).heap.pages q ∧
      tb'.heap.vm q = (collectPage tm oldest freezing tb0 q).heap.vm q) := by
  induction l generalizing tb with
  | nil => exact ⟨fun _ => ⟨rfl, rfl⟩, fun h => by cases h⟩
  | cons p l ih =>
    obtain ⟨hp, hl⟩ := nodup_cons.1 hl
    obtain ⟨hout, hin⟩ := ih hl (collectPage tm oldest freezing tb p)
    constructor
    · intro hq
      rw [mem_cons, not_or] at hq
      obtain ⟨h1, h2⟩ := hout hq.2
      obtain ⟨h3, h4⟩ := collectPage_of_ne tm oldest freezing tb hq.1
      exact ⟨h1.trans h3, h2.trans h4⟩
    · intro hq
      by_cases hqp : q = p
      · subst hqp
        obtain ⟨h1, h2⟩ := hout hp
        exact ⟨tb, rfl, rfl, h1, h2⟩
      · obtain ⟨tb0, h1, h2, h3, h4⟩ := hin ((mem_cons.1 hq).resolve_left hqp)
        obtain ⟨h5, h6⟩ := collectPage_of_ne tm oldest freezing tb hqp
        exact ⟨tb0, h1.trans h5, h2.trans h6, h3, h4⟩

omit [DecidableEq κ] in
lemma mem_gcPages (hpos : tb.heap.numDataPages ≠ 0)
    (hq : q ∈ gcPages tb maxPages) : 1 ≤ q ∧ q ≤ tb.heap.numDataPages := by
  simp only [gcPages, mem_map, mem_range] at hq
  obtain ⟨p, -, rfl⟩ := hq
  have := Nat.mod_lt ((if tb.heap.numDataPages ≤ tb.lastGcPage then 0 else tb.lastGcPage) + p) (Nat.pos_of_ne_zero hpos)
  omega

omit [DecidableEq κ] in
lemma nodup_gcPages (tb : GcTable β κ) (maxPages : ℕ) : (gcPages tb maxPages).Nodup := by
  refine List.Nodup.map_on ?_ nodup_range
  intro a ha b hb hab
  rw [mem_range] at ha hb
  have hmod : a ≡ b [MOD tb.heap.numDataPages] :=
    Nat.ModEq.add_left_cancel' _ (Nat.succ.inj hab)
  rwa [Nat.ModEq, Nat.mod_eq_of_lt (by omega), Nat.mod_eq_of_lt (by omega)] at hmod

/-- **What `run_gc` does to slots and index entries.** -/
theorem collected_runGc (tm : TransactionManager) (maxPages : ℕ) (tb : GcTable β κ) :
    Collected tm tm.getOldestActiveTxnId false tb (runGc tm maxPages tb) := by
  unfold runGc
  by_cases h0 : tb.heap.numDataPages = 0
  · simp only [h0, if_true]
    exact Collected.refl tb
  · simp only [h0, if_false]
    have h := collected_foldl tm tm.getOldestActiveTxnId false (l := gcPages tb maxPages) fun q hq => mem_gcPages h0 hq
    exact ⟨h.look, h.indexes, h.numDataPages, h.numTuples, h.heapOk⟩

omit [DecidableEq κ] in
lemma mem_vacuumPages (hq : q ∈ (range n).map (· + 1)) : 1 ≤ q ∧ q ≤ n := by
  simp only [mem_map, mem_range] at hq
  omega

/-- **What `run_vacuum` does to slots and index entries.** -/
theorem collected_runVacuum (tm : TransactionManager) (tb : GcTable β κ) :
    Collected tm tm.getOldestActiveTxnId true tb (runVacuum tm tb) := by
  unfold runVacuum
  by_cases h0 : tb.heap.numDataPages = 0
  · simp only [h0, if_true]
    exact Collected.refl tb
  · simp only [h0, if_false]
    have h : Collected tm tm.getOldestActiveTxnId true tb (((range tb.heap.numDataPages).map (· + 1)).foldl
          (collectPage tm tm.getOldestActiveTxnId true) tb) :=
      collected_foldl tm _ true fun q hq => mem_vacuumPages hq
    exact ⟨h.look, h.indexes, h.numDataPages, h.numTuples, h.heapOk⟩

omit [DecidableEq κ] in
lemma nodup_vacuumPages (n : ℕ) : ((range n).map (· + 1)).Nodup :=
  nodup_range.map fun _ _ h => Nat.succ.inj h

lemma look_runGc_of_notMem (hr : r.pageId ∉ gcPages tb maxPages) :
    (runGc tm maxPages tb).heap.look r = tb.heap.look r := by
  unfold runGc
  by_cases h0 : tb.heap.numDataPages = 0
  · simp [h0]
  · simp only [h0, if_false]
    have hpages := ((foldl_collectPage_page tm tm.getOldestActiveTxnId false
      (nodup_gcPages tb maxPages) tb r.pageId).1 hr).1
    unfold HeapFile.look
    rw [hpages]

/-- **What `run_vacuum` makes of the slots**: it treats the data pages that are not marked frozen. -/
lemma look_runVacuum (tb : GcTable β κ) (r : RecordId) : (runVacuum tm tb).heap.look r =
      if (1 ≤ r.pageId ∧ r.pageId ≤ tb.heap.numDataPages) ∧ (tb.heap.vm r.pageId).frozen = false then
        sweepView tm tm.getOldestActiveTxnId true r.pageId (tb.heap.pages r.pageId).numTuples (tb.heap.look r)
      else tb.heap.look r := by
  unfold runVacuum
  by_cases h0 : tb.heap.numDataPages = 0
  · rw [if_pos h0, if_neg (by omega)]
  · rw [if_neg h0]
    obtain ⟨hout, hin⟩ := foldl_collectPage_page tm tm.getOldestActiveTxnId true
      (nodup_vacuumPages tb.heap.numDataPages) tb r.pageId
    by_cases hq : 1 ≤ r.pageId ∧ r.pageId ≤ tb.heap.numDataPages
    · obtain ⟨tb0, h1, h2, h3, -⟩ := hin (by simp only [mem_map, mem_range]; exact ⟨r.pageId - 1, by omega⟩)
      have hlook : tb0.heap.look r = tb.heap.look r := congrArg (look · r.slotIdx) h1
      refine (congrArg (look · r.slotIdx) h3).trans ((look_collectPage tm _ true r.pageId tb0 r).trans ?_)
      simp [hlook, h1, h2, hq]
    · rw [if_neg fun h => hq h.1]
      exact congrArg (look · r.slotIdx) (hout fun hmem => hq (mem_vacuumPages hmem)).1

lemma look_runVacuum_of_frozen (hr : (tb.heap.vm r.pageId).frozen = true) :
    (runVacuum tm tb).heap.look r = tb.heap.look r := by
  rw [look_runVacuum, if_neg (by simp [hr])]

end

end MiniDb
