import MiniDb.Core.SkipScan
import MiniDb.Executor.IndexScan

/-!
# Sequential scans

`SeqScanExecutor::next` goes over the slots of all data pages in order.  At a slot it returns the version there, or
behind a redirect, if the reader sees it; otherwise the first version on the chain from there that the reader sees.
A version found on a chain is put on a skip list, so that its own slot does not return it once more.

`HeapFile.visit` is what a slot has for the scan, whatever was returned before.  The rows returned are those that
`gather` makes of these visits (`map_fst_seqScan`).  `fastCount` counts the slots whose version the reader sees.
-/

namespace MiniDb

open List

variable {β : Type*}

/-- The bitmap of redirect targets has room for so many slots. -/
def kRedirectBitmapSlots : ℕ := 1024

/-- `is_redirect_target_cached`: a redirect on the page leads to the slot. -/
def HeapFile.isRedirectTargetCached (h : HeapFile β) (rid : RecordId) : Bool :=
  (List.range (h.pages rid.pageId).numTuples).any fun i =>
    match h.look ⟨rid.pageId, i⟩ with
    | .redirect target =>
      target != kNullSlot && target < kRedirectBitmapSlots && target == rid.slotIdx
    | _ => false

/-- `follow_version_chain`, and `follow_latest_committed` for a reader without a transaction: the
latter gives up at a version that is on the skip list. -/
def chainFrom (tm : TransactionManager) (reader : Option Transaction) (h : HeapFile β)
    (skip : List RecordId) (start : RecordId) : Option (RecordId × Tuple β) :=
  match reader with
  | some _ => followVersionChain tm reader h start
  | none => follow (fun r => if r ∈ skip then none else h.tupleAt r) (checkVisible tm reader)
      Tuple.next? kMaxChainDepth start

/-- The part of `try_tuple` from a slot with a version on: the version itself, or one on its
chain, which goes on the skip list. -/
def tryFrom (tm : TransactionManager) (reader : Option Transaction) (h : HeapFile β)
    (skip : List RecordId) (rid : RecordId) : Option (RecordId × Tuple β) × List RecordId :=
  match h.tupleAt rid with
  | none => (none, skip)
  | some t =>
    if checkVisible tm reader t then (some (rid, t), skip)
    else
      match chainFrom tm reader h skip rid with
      | none => (none, skip)
      | some hit => (some hit, if hit.1 ∈ skip then skip else skip ++ [hit.1])

/-- `try_tuple`, with the skip list before and after. -/
def tryTuple (tm : TransactionManager) (reader : Option Transaction) (h : HeapFile β)
    (skip : List RecordId) (rid : RecordId) : Option (RecordId × Tuple β) × List RecordId :=
  if rid ∈ skip then (none, skip)
  else
    match h.look rid with
    | .empty => (none, skip)
    | .redirect target =>
      if target = kNullSlot ∨ ⟨rid.pageId, target⟩ ∈ skip then (none, skip)
      else tryFrom tm reader h skip ⟨rid.pageId, target⟩
    | .tuple _ =>
      if h.isRedirectTargetCached rid then (none, skip) else tryFrom tm reader h skip rid

/-- The slots of the data pages, in the order of the scan. -/
def HeapFile.slotIds (h : HeapFile β) : List RecordId :=
  (List.range h.numDataPages).flatMap fun n =>
    (List.range (h.pages (n + 1)).numTuples).map fun i => ⟨n + 1, i⟩

/-- The rows that calls of `next` return until it has no more. -/
def seqScanFrom (tm : TransactionManager) (reader : Option Transaction) (h : HeapFile β) :
    List RecordId → List RecordId → List (RecordId × Tuple β)
  | _, [] => []
  | skip, rid :: rest =>
    (tryTuple tm reader h skip rid).1.toList ++
      seqScanFrom tm reader h (tryTuple tm reader h skip rid).2 rest

def seqScan (tm : TransactionManager) (reader : Option Transaction) (h : HeapFile β) :
    List (RecordId × Tuple β) :=
  seqScanFrom tm reader h [] h.slotIds

/-- `SeqScanExecutor::fast_count`. -/
def seqFastCount (tm : TransactionManager) (reader : Option Transaction) (h : HeapFile β) : ℕ :=
  h.slotIds.countP fun rid =>
    ((h.pages rid.pageId).linePointer rid.slotIdx).offset + 16 ≤ kPageSize &&
      (h.tupleAt rid).any (checkVisible tm reader)

/-! ## What a slot has for the scan -/

section

variable (h : HeapFile β) (tm : TransactionManager) (txn : Transaction)

/-- The version at `rid`, if the reader sees it; else the one that its chain leads to. -/
def HeapFile.enter (rid : RecordId) : Visit RecordId :=
  match h.tupleAt rid with
  | none => .pass
  | some t =>
    if tm.isVisible t.xmin t.xmax txn then .shows rid
    else
      match followVersionChain tm (some txn) h rid with
      | none => .pass
      | some hit => .leads hit.1

/-- What the slot has for the scan.  The target of a redirect is left to the redirect. -/
def HeapFile.visit (rid : RecordId) : Visit RecordId :=
  match h.look rid with
  | .empty => .pass
  | .redirect target =>
    if target = kNullSlot then .pass else h.enter tm txn ⟨rid.pageId, target⟩
  | .tuple _ => if h.isRedirectTargetCached rid then .pass else h.enter tm txn rid

/-- The reader sees the version at `rid`. -/
def HeapFile.VisibleAt (rid : RecordId) : Prop :=
  ∃ t, h.tupleAt rid = some t ∧ tm.isVisible t.xmin t.xmax txn = true

variable {h tm txn} {rid : RecordId} {hit : RecordId × Tuple β} {skip rids : List RecordId}

lemma tupleAt_of_follow (hf : followVersionChain tm (some txn) h rid = some hit) :
    h.tupleAt hit.1 = some hit.2 ∧ tm.isVisible hit.2.xmin hit.2.xmax txn = true := by
  obtain ⟨path, htrail, -, hlast, -⟩ := exists_trail_of_follow hf
  obtain ⟨c, hc, hcell, hstop⟩ := htrail.last
  obtain rfl : hit.1 = c := Option.some.inj (hlast.symm.trans hc)
  exact ⟨hcell, hstop⟩

lemma visibleAt_of_visit {r : RecordId} (hv : h.visit tm txn rid = .shows r ∨ h.visit tm txn rid = .leads r) :
    h.VisibleAt tm txn r := by
  have henter : ∀ q, (h.enter tm txn q = .shows r ∨ h.enter tm txn q = .leads r) → h.VisibleAt tm txn r := by
    intro q hq
    unfold HeapFile.enter at hq
    split at hq
    · rcases hq with ⟨⟨⟩⟩ | ⟨⟨⟩⟩
    · next t ht =>
      split at hq
      · next hvis =>
        rcases hq with hq | ⟨⟨⟩⟩
        cases hq
        exact ⟨t, ht, hvis⟩
      · split at hq
        · rcases hq with ⟨⟨⟩⟩ | ⟨⟨⟩⟩
        · next hit hf =>
          rcases hq with ⟨⟨⟩⟩ | hq
          cases hq
          exact ⟨hit.2, tupleAt_of_follow hf⟩
  unfold HeapFile.visit at hv
  split at hv
  · rcases hv with ⟨⟨⟩⟩ | ⟨⟨⟩⟩
  · split at hv
    · rcases hv with ⟨⟨⟩⟩ | ⟨⟨⟩⟩
    · exact henter _ hv
  · split at hv
    · rcases hv with ⟨⟨⟩⟩ | ⟨⟨⟩⟩
    · exact henter _ hv

/-- One slot: what `try_tuple` returns and keeps is what `gather` makes of the visit, as long as the
skip list has only versions that the reader sees. -/
lemma tryTuple_eq (hskip : ∀ r ∈ skip, h.VisibleAt tm txn r) (rid : RecordId) :
    (h.visit tm txn rid = .pass ∧ tryTuple tm (some txn) h skip rid = (none, skip)) ∨
    (∃ r t, h.tupleAt r = some t ∧ h.visit tm txn rid = .shows r ∧ tryTuple tm (some txn) h skip rid =
        if r ∈ skip then (none, skip) else (some (r, t), skip)) ∨
    (∃ r t, h.tupleAt r = some t ∧ h.visit tm txn rid = .leads r ∧ tryTuple tm (some txn) h skip rid =
        (some (r, t), if r ∈ skip then skip else skip ++ [r])) := by
  have hnot : ∀ q, (h.tupleAt q = none ∨ ∃ t, h.tupleAt q = some t ∧
      tm.isVisible t.xmin t.xmax txn = false) → q ∉ skip := by
    intro q hq hmem
    obtain ⟨t, ht, hvis⟩ := hskip q hmem
    rcases hq with hq | ⟨t', ht', hvis'⟩
    · rw [hq] at ht
      cases ht
    · cases ht'.symm.trans ht
      rw [hvis] at hvis'
      cases hvis'
  -- from a slot with a version on
  have henter : ∀ q, (h.enter tm txn q = .pass ∧ tryFrom tm (some txn) h skip q = (none, skip)) ∨
      (∃ t, h.tupleAt q = some t ∧ h.enter tm txn q = .shows q ∧ tryFrom tm (some txn) h skip q = (some (q, t), skip)) ∨
      (q ∉ skip ∧ ∃ r t, h.tupleAt r = some t ∧ h.enter tm txn q = .leads r ∧ tryFrom tm (some txn) h skip q =
          (some (r, t), if r ∈ skip then skip else skip ++ [r])) := by
    intro q
    unfold HeapFile.enter tryFrom
    cases ht : h.tupleAt q with
    | none => exact .inl ⟨rfl, rfl⟩
    | some t =>
      dsimp only
      by_cases hvis : tm.isVisible t.xmin t.xmax txn = true
      · have hcheck : checkVisible tm (some txn) t = true := hvis
        rw [if_pos hvis, if_pos hcheck]
        exact .inr (.inl ⟨t, rfl, rfl, rfl⟩)
      · have hq : q ∉ skip := hnot q (.inr ⟨t, ht, Bool.eq_false_iff.2 hvis⟩)
        have hcheck : ¬ checkVisible tm (some txn) t = true := hvis
        rw [if_neg hvis, if_neg hcheck, chainFrom]
        cases hf : followVersionChain tm (some txn) h q with
        | none => exact .inl ⟨rfl, rfl⟩
        | some hit => exact .inr (.inr ⟨hq, hit.1, hit.2, (tupleAt_of_follow hf).1, rfl, rfl⟩)
  have hlook : h.tupleAt rid = (h.look rid).tuple? := rfl
  unfold HeapFile.visit tryTuple
  cases hv : h.look rid with
  | empty => exact .inl ⟨rfl, by simp⟩
  | redirect target =>
    have hrid : rid ∉ skip := hnot rid (.inl (by rw [hlook, hv]; rfl))
    rw [if_neg hrid]
    simp only
    by_cases hnull : target = kNullSlot
    · exact .inl ⟨if_pos hnull, if_pos (.inl hnull)⟩
    · rw [if_neg hnull]
      rcases henter ⟨rid.pageId, target⟩ with ⟨he, ht⟩ | ⟨t, hcell, he, ht⟩ | ⟨hq, r, t, hcell, he, ht⟩
      · refine .inl ⟨he, ?_⟩
        rw [ht]
        split <;> rfl
      · refine .inr (.inl ⟨_, t, hcell, he, ?_⟩)
        simp [hnull, ht]
      · refine .inr (.inr ⟨r, t, hcell, he, ?_⟩)
        rw [if_neg (by simp [hnull, hq]), ht]
  | tuple t0 =>
    by_cases hred : h.isRedirectTargetCached rid = true
    · refine .inl ⟨if_pos hred, ?_⟩
      split <;> rfl
    · rw [if_neg hred, if_neg hred]
      rcases henter rid with ⟨he, ht⟩ | ⟨t, hcell, he, ht⟩ | ⟨hq, r, t, hcell, he, ht⟩
      · refine .inl ⟨he, ?_⟩
        rw [ht]
        split <;> rfl
      · refine .inr (.inl ⟨rid, t, hcell, he, ?_⟩)
        rw [ht]
      · refine .inr (.inr ⟨r, t, hcell, he, ?_⟩)
        rw [if_neg hq, ht]

lemma visibleAt_of_mem_skip (hskip : ∀ r ∈ skip, h.VisibleAt tm txn r) (rid : RecordId) :
    ∀ r ∈ (tryTuple tm (some txn) h skip rid).2, h.VisibleAt tm txn r := by
  intro r hr
  rcases tryTuple_eq hskip rid with ⟨-, ht⟩ | ⟨q, t, -, -, ht⟩ | ⟨q, t, -, hv, ht⟩
  · rw [ht] at hr
    exact hskip r hr
  · rw [ht] at hr
    split at hr <;> exact hskip r hr
  · rw [ht] at hr
    split at hr
    · exact hskip r hr
    · rcases mem_append.1 hr with hr | hr
      · exact hskip r hr
      · rw [mem_singleton.1 hr]
        exact visibleAt_of_visit (.inr hv)

/-- **The rows a scan returns** are those that `gather` makes of the visits. -/
theorem map_fst_seqScanFrom : ∀ {skip : List RecordId}, (∀ r ∈ skip, h.VisibleAt tm txn r) →
      (seqScanFrom tm (some txn) h skip rids).map Prod.fst = gather skip (rids.map (h.visit tm txn)) := by
  induction rids with
  | nil => intro skip _; rfl
  | cons rid rids ih =>
    intro skip hskip
    have hrest := ih (visibleAt_of_mem_skip hskip rid)
    rw [seqScanFrom, map_append, map_cons]
    rcases tryTuple_eq hskip rid with ⟨hv, ht⟩ | ⟨r, t, -, hv, ht⟩ | ⟨r, t, -, hv, ht⟩
    · rw [ht] at hrest
      rw [hv, ht, gather]
      exact hrest
    · rw [ht] at hrest
      rw [hv, ht, gather]
      by_cases hr : r ∈ skip
      · simp only [if_pos hr] at hrest ⊢
        exact hrest
      · simp only [if_neg hr] at hrest ⊢
        exact congrArg (r :: ·) hrest
    · rw [ht] at hrest
      rw [hv, ht, gather]
      refine congrArg (r :: ·) (hrest.trans (gather_congr fun a => ?_))
      by_cases hr : r ∈ skip
      · rw [if_pos hr, mem_cons]
        exact ⟨.inr, fun ha => ha.elim (fun e => e ▸ hr) id⟩
      · rw [if_neg hr, mem_append, mem_singleton, mem_cons, or_comm]

lemma tupleAt_of_mem_seqScanFrom : ∀ {skip : List RecordId}, (∀ r ∈ skip, h.VisibleAt tm txn r) →
      hit ∈ seqScanFrom tm (some txn) h skip rids → h.tupleAt hit.1 = some hit.2 := by
  induction rids with
  | nil => rintro skip - ⟨⟩
  | cons rid rids ih =>
    intro skip hskip hhit
    rw [seqScanFrom, mem_append] at hhit
    rcases hhit with hhit | hhit
    · rcases tryTuple_eq hskip rid with ⟨-, ht⟩ | ⟨r, t, hcell, -, ht⟩ | ⟨r, t, hcell, -, ht⟩
      · rw [ht] at hhit
        cases hhit
      · rw [ht] at hhit
        split at hhit
        · cases hhit
        · cases mem_singleton.1 hhit
          exact hcell
      · rw [ht] at hhit
        cases mem_singleton.1 hhit
        exact hcell
    · exact ih (visibleAt_of_mem_skip hskip rid) hhit

end

/-! ## The slots of the scan -/

namespace HeapFile

variable {h : HeapFile β}

lemma mem_slotIds {rid : RecordId} : rid ∈ h.slotIds ↔ (1 ≤ rid.pageId ∧ rid.pageId ≤ h.numDataPages) ∧
      rid.slotIdx < (h.pages rid.pageId).numTuples := by
  simp only [slotIds, mem_flatMap, mem_range, mem_map]
  constructor
  · rintro ⟨n, hn, i, hi, rfl⟩
    exact ⟨⟨by simp, hn⟩, hi⟩
  · rintro ⟨⟨h1, h2⟩, hi⟩
    have hpage : rid.pageId - 1 + 1 = rid.pageId := by omega
    refine ⟨rid.pageId - 1, by omega, rid.slotIdx, ?_, ?_⟩
    · rw [hpage]
      exact hi
    · rw [hpage]

lemma nodup_slotIds (h : HeapFile β) : h.slotIds.Nodup := by
  refine nodup_flatMap.2 ⟨fun n _ => ?_, ?_⟩
  · exact nodup_range.map fun i j hij => congrArg RecordId.slotIdx hij
  · refine nodup_range.imp fun hne => ?_
    intro rid hrid hrid'
    obtain ⟨i, -, rfl⟩ := mem_map.1 hrid
    obtain ⟨j, -, heq⟩ := mem_map.1 hrid'
    have hpage := congrArg RecordId.pageId heq
    simp only at hpage
    omega

lemma mem_slotIds_of_tupleAt (hok : HeapOk h) {rid : RecordId} {t : Tuple β}
    (ht : h.tupleAt rid = some t) : rid ∈ h.slotIds := by
  have hlook : h.look rid = .tuple t := Page.tupleAt_eq_some_iff.1 ht
  exact mem_slotIds.2 ⟨hok.range rid (by rw [hlook]; simp), Page.lt_numTuples_of_tupleAt ht⟩

end HeapFile

end MiniDb
