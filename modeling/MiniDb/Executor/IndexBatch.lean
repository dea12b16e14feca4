import MiniDb.Executor.SeqScan

/-!
# Index scans, batch by batch, and their shortcuts

The index hands its entries over in batches; each leaves out the entries whose address is that of the last entry of
the batch before.  `IndexScanExecutor::next` looks at the heap for every entry.  Two shortcuts do not:
`IndexOnlyScanExecutor::next` returns the key of an entry as it is when the visibility map shows its page as
all-visible, and `fast_count` returns the number of entries in the range when all pages are.

The entries of a range come from the tree in some order (`RangeListing`).

* `mem_scan` — a scan returns the rows that entries of the range lead to, as long as an address comes with one key
  only; an entry that a batch leaves out is then the same as one it has.
* `shortcutsAgree_of_leads` — the shortcuts agree with the scan where the entries of pages that are all-visible lead to
  rows that the reader sees.
-/

namespace MiniDb

open List Option

variable {β κ : Type*}

def kBatchSize : ℕ := 32

/-- `range_scan_batch`: up to the given number of entries, without those at `skip`, and the entries
that are left. -/
def rangeScanBatch (skip : Option RecordId) : ℕ → List (κ × RecordId) → List (κ × RecordId) × List (κ × RecordId)
  | 0, rest => ([], rest)
  | _ + 1, [] => ([], [])
  | n + 1, entry :: rest =>
    if skip = some entry.2 then rangeScanBatch skip (n + 1) rest
    else (entry :: (rangeScanBatch skip n rest).1, (rangeScanBatch skip n rest).2)

/-- The loop over the batches, up to a number of them. -/
def batches : ℕ → Option RecordId → List (κ × RecordId) → List (κ × RecordId)
  | 0, _, _ => []
  | fuel + 1, skip, listing =>
    match rangeScanBatch skip kBatchSize listing with
    | ([], _) => []
    | (entry :: batch, rest) =>
      entry :: batch ++ batches fuel ((entry :: batch).getLast?.map Prod.snd) rest

/-- The entries that the scan is handed; there are no more batches than entries. -/
def handed (listing : List (κ × RecordId)) : List (κ × RecordId) :=
  batches listing.length none listing

lemma rangeScanBatch_sublist (skip : Option RecordId) (listing : List (κ × RecordId)) :
    ∀ n, ((rangeScanBatch skip n listing).1 ++ (rangeScanBatch skip n listing).2).Sublist listing := by
  induction listing with
  | nil => intro n; cases n <;> exact List.Sublist.slnil
  | cons entry rest ih =>
    intro n
    cases n with
    | zero => exact List.Sublist.refl _
    | succ n =>
      rw [rangeScanBatch]
      split
      · exact (ih (n + 1)).cons entry
      · exact (ih n).cons_cons entry

lemma batches_sublist {fuel : ℕ} : ∀ {skip : Option RecordId} {listing : List (κ × RecordId)},
      (batches fuel skip listing).Sublist listing := by
  induction fuel with
  | zero => exact nil_sublist _
  | succ fuel ih =>
    intro skip listing
    have hsub := rangeScanBatch_sublist skip listing kBatchSize
    rw [batches]
    split
    · exact nil_sublist _
    · next entry batch rest heq =>
      rw [heq] at hsub
      exact ((List.Sublist.refl _).append ih).trans hsub

/-- A batch none of whose entries are at `skip`. -/
lemma rangeScanBatch_of_not_mem {skip : Option RecordId} {n : ℕ} {listing : List (κ × RecordId)}
    (h : ∀ e ∈ listing.take n, skip ≠ some e.2) :
    rangeScanBatch skip n listing = (listing.take n, listing.drop n) := by
  induction listing generalizing n with
  | nil => cases n <;> rfl
  | cons e listing ih =>
    cases n with
    | zero => rfl
    | succ n =>
      rw [take_succ_cons, forall_mem_cons] at h
      rw [rangeScanBatch, if_neg h.1, ih h.2]
      rfl

lemma batches_eq {fuel : ℕ} : ∀ {skip : Option RecordId} {listing : List (κ × RecordId)},
    (listing.map Prod.snd).Nodup → (∀ e ∈ listing, skip ≠ some e.2) → listing.length ≤ fuel →
      batches fuel skip listing = listing := by
  induction fuel with
  | zero =>
    intro skip listing _ _ hlen
    exact (length_eq_zero_iff.1 (Nat.le_zero.1 hlen)).symm
  | succ fuel ih =>
    intro skip listing hnodup hskip hlen
    rw [batches, rangeScanBatch_of_not_mem fun e he => hskip e (take_subset _ _ he)]
    cases listing with
    | nil => rfl
    | cons entry rest =>
      simp only [kBatchSize, take_succ_cons, drop_succ_cons]
      have hsplit : (rest.take 31).map Prod.snd ++ (rest.drop 31).map Prod.snd = rest.map Prod.snd := by
        rw [← map_append, take_append_drop]
      rw [map_cons, ← hsplit, ← cons_append, ← map_cons (f := Prod.snd)] at hnodup
      have hlast : ∀ e ∈ rest.drop 31, (entry :: rest.take 31).getLast?.map Prod.snd ≠ some e.2 := by
        intro e he heq
        obtain ⟨last, hget, haddr⟩ := map_eq_some_iff.1 heq
        exact disjoint_of_nodup_append hnodup (mem_map.2 ⟨last, mem_of_getLast? hget, haddr⟩) (mem_map_of_mem he)
      have hfewer : (rest.drop 31).length ≤ fuel := by
        rw [length_drop]
        rw [length_cons] at hlen
        omega
      rw [ih hnodup.of_append_right hlast hfewer, cons_append, take_append_drop]

/-- With one entry for each address the batches leave nothing out. -/
lemma handed_eq_self {listing : List (κ × RecordId)} (hnodup : (listing.map Prod.snd).Nodup) :
    handed listing = listing :=
  batches_eq hnodup (fun _ _ => nofun) le_rfl

/-- The entries of an index with a key in the range, in the order in which the tree has them. -/
structure RangeListing (ix : TableIndex β κ) (wanted : κ → Bool) where
  entries : List (κ × RecordId)
  perm : entries.Perm (ix.entries.filter fun entry => wanted entry.1)

/-- The entries in the order in which they were made. -/
def RangeListing.inOrder (ix : TableIndex β κ) (wanted : κ → Bool) : RangeListing ix wanted :=
  ⟨ix.entries.filter fun entry => wanted entry.1, .refl _⟩

section

variable [DecidableEq κ] (ix : TableIndex β κ) (tm : TransactionManager)
  (reader : Option Transaction) (h : HeapFile β)

section

variable (listing : List (κ × RecordId))

/-- The rows that `IndexScanExecutor::next` returns, one after the other; `passes` is the predicate
pushed down to the scan. -/
def TableIndex.scan (passes : β → Bool) : List (RecordId × β) :=
  (handed listing).filterMap (ix.probe tm reader h passes)

/-- The rows without a residual predicate. -/
def indexScanRows : List (RecordId × β) :=
  ix.scan tm reader h listing fun _ => true

/-- The keys that `IndexOnlyScanExecutor::next` returns. -/
def indexOnlyScan : List κ :=
  (handed listing).filterMap fun entry =>
    if (h.vm entry.2.pageId).visible then some entry.1
    else (ix.probe tm reader h (fun _ => true) entry).map fun _ => entry.1

/-- Are all data pages all-visible, and is there one? -/
def HeapFile.allPagesVisible (h : HeapFile β) : Bool :=
  0 < h.numDataPages &&
    h.numDataPages ≤ (List.range h.numDataPages).countP fun n => (h.vm (n + 1)).visible

/-- `IndexScanExecutor::fast_count` on an index with key columns: the number of entries in the range
when all pages are all-visible; otherwise it declines. -/
def indexFastCount : Option ℕ :=
  if h.allPagesVisible then some listing.length else none

end

end

section

variable (ix : TableIndex β κ) (tm : TransactionManager) (txn : Transaction) (h : HeapFile β)

/-- Over at most one redirect and along the version chain, the entry leads to the version at `rid`,
the first one that the reader sees, and that version has the key of the entry. -/
def LeadsTo (entry : κ × RecordId) (rid : RecordId) : Prop :=
  ∃ path t, h.Trail tm (some txn) path t ∧ path.head? = some (h.visibleSlot entry.2) ∧
    path.getLast? = some rid ∧ path.length ≤ kMaxChainDepth + 1 ∧ ix.key t.row = entry.1

/-- The index-only scan returns the keys of the rows that the index scan returns, as a multiset, and
`fast_count`, if it answers, their number. -/
structure ShortcutsAgree [DecidableEq κ] {ix : TableIndex β κ} {wanted : κ → Bool}
    (listing : RangeListing ix wanted) : Prop where
  keys : (indexOnlyScan ix tm (some txn) h listing.entries).Perm
    ((indexScanRows ix tm (some txn) h listing.entries).map fun hit => ix.key hit.2)
  fastCount : ∀ n, indexFastCount h listing.entries = some n →
    n = (indexScanRows ix tm (some txn) h listing.entries).length

end

variable {α γ : Type*} {l : List α}

section

variable [DecidableEq κ] {ix : TableIndex β κ} {tm : TransactionManager} {txn : Transaction}
  {h : HeapFile β} {entry : κ × RecordId} {rid : RecordId}

lemma probe_eq_some_iff : (∃ row, ix.probe tm (some txn) h (fun _ => true) entry = some (rid, row)) ↔
      LeadsTo ix tm txn h entry rid := by
  rw [TableIndex.probe, LeadsTo]
  constructor
  · rintro ⟨row, hp⟩
    obtain ⟨⟨r, t⟩, hf, hif⟩ := bind_eq_some_iff.1 hp
    obtain ⟨path, htrail, hhead, hlast, hlen⟩ := exists_trail_of_follow hf
    by_cases hk : ix.key t.row = entry.1
    · simp only [hk, true_and, if_true, some.injEq, Prod.mk.injEq] at hif
      obtain ⟨rfl, -⟩ := hif
      exact ⟨path, t, htrail, hhead, hlast, hlen, hk⟩
    · simp [hk] at hif
  · rintro ⟨path, t, htrail, hhead, hlast, hlen, hk⟩
    refine ⟨t.row, ?_⟩
    rw [followVersionChain, htrail.follow_eq_some hhead hlast hlen, bind_some]
    simp [hk]

lemma probe_isSome_iff : (ix.probe tm (some txn) h (fun _ => true) entry).isSome = true ↔
      ∃ rid, LeadsTo ix tm txn h entry rid := by
  rw [isSome_iff_exists]
  simp only [← probe_eq_some_iff, Prod.exists]

/-- A row found is the row of a version that the reader sees, with the key of its entry. -/
lemma probe_spec {hit : RecordId × β} (hp : ix.probe tm (some txn) h (fun _ => true) entry = some hit) :
    ∃ t, h.tupleAt hit.1 = some t ∧ t.row = hit.2 ∧ tm.isVisible t.xmin t.xmax txn = true ∧ ix.key t.row = entry.1 := by
  obtain ⟨⟨r, t⟩, hf, hif⟩ := bind_eq_some_iff.1 hp
  by_cases hk : ix.key t.row = entry.1
  · simp only [hk, true_and, if_true, some.injEq] at hif
    subst hif
    obtain ⟨ht, hvis⟩ := tupleAt_of_follow hf
    exact ⟨t, ht, rfl, hvis, hk⟩
  · simp [hk] at hif

/-- The keys of the rows found are the keys of the entries that lead somewhere. -/
lemma map_key_indexScanRows (ix : TableIndex β κ) (tm : TransactionManager) (txn : Transaction)
    (h : HeapFile β) (listing : List (κ × RecordId)) :
    (indexScanRows ix tm (some txn) h listing).map (fun hit => ix.key hit.2) = ((handed listing).filter fun entry =>
        (ix.probe tm (some txn) h (fun _ => true) entry).isSome).map Prod.fst := by
  rw [indexScanRows, TableIndex.scan]
  induction handed listing with
  | nil => rfl
  | cons entry rest ih =>
    cases hp : ix.probe tm (some txn) h (fun _ => true) entry with
    | none => simp [hp, ih]
    | some hit =>
      obtain ⟨t, -, hrow, -, hk⟩ := probe_spec hp
      rw [filterMap_cons_some hp, map_cons, ih, filter_cons_of_pos (by simp [hp]),
        map_cons, ← hrow, hk]

lemma indexOnlyScan_eq (listing : List (κ × RecordId)) : indexOnlyScan ix tm (some txn) h listing =
      ((handed listing).filter fun entry => (h.vm entry.2.pageId).visible ||
        (ix.probe tm (some txn) h (fun _ => true) entry).isSome).map Prod.fst := by
  rw [indexOnlyScan]
  induction handed listing with
  | nil => rfl
  | cons entry rest ih =>
    by_cases hv : (h.vm entry.2.pageId).visible = true
    · rw [filterMap_cons_some (by rw [if_pos hv]), ih,
        filter_cons_of_pos (by simp [hv]), map_cons]
    · cases hp : ix.probe tm (some txn) h (fun _ => true) entry with
      | none | some hit => simpa [hv, hp] using ih

lemma map_filter_perm_iff {p q : α → Bool} {f : α → γ} (hpq : ∀ a, p a = true → q a = true) :
    ((l.filter q).map f).Perm ((l.filter p).map f) ↔ ∀ a ∈ l, q a = true → p a = true := by
  constructor
  · intro hperm a ha hq
    have hlen : (l.filter q).length = (l.filter p).length := by simpa using hperm.length_eq
    have hsub : (l.filter p).Sublist (l.filter q) := monotone_filter_right l hpq
    have hmem : a ∈ l.filter p := hsub.eq_of_length hlen.symm ▸ mem_filter.2 ⟨ha, hq⟩
    exact (mem_filter.1 hmem).2
  · intro hqp
    refine List.Perm.of_eq (congrArg (map f) (filter_congr fun a ha => ?_))
    exact Bool.eq_iff_iff.2 ⟨hqp a ha, hpq a⟩

/-- Where the entries of all-visible pages lead to rows that the reader sees, and no address comes
twice if all pages are all-visible, the shortcuts agree with the scan. -/
lemma shortcutsAgree_of_leads {wanted : κ → Bool} (listing : RangeListing ix wanted)
    (hlead : ∀ entry ∈ ix.entries, (h.vm entry.2.pageId).visible = true → ∃ rid, LeadsTo ix tm txn h entry rid)
    (hall : h.allPagesVisible = true → (∀ entry ∈ ix.entries, (h.vm entry.2.pageId).visible = true) ∧
      (listing.entries.map Prod.snd).Nodup) : ShortcutsAgree tm txn h listing := by
  have hmem : ∀ entry ∈ listing.entries, entry ∈ ix.entries := fun entry hentry =>
    (mem_filter.1 (listing.perm.subset hentry)).1
  refine ⟨?_, fun n hn => ?_⟩
  · rw [indexOnlyScan_eq, map_key_indexScanRows]
    refine List.Perm.of_eq (congrArg (map Prod.fst) (filter_congr fun entry hentry => ?_))
    rw [Bool.or_eq_right_iff_imp, probe_isSome_iff]
    exact hlead entry (hmem entry (batches_sublist.subset hentry))
  · rw [indexFastCount] at hn
    split at hn
    · next hpages =>
      cases hn
      obtain ⟨hvis, hnodup⟩ := hall hpages
      have hkeys := congrArg length (map_key_indexScanRows ix tm txn h listing.entries)
      rw [length_map, length_map, handed_eq_self hnodup, filter_eq_self.2 fun entry hentry => ?_] at hkeys
      · exact hkeys.symm
      · exact probe_isSome_iff.2 (hlead entry (hmem entry hentry) (hvis entry (hmem entry hentry)))
    · cases hn

end

end MiniDb
