import MiniDb.Database.EngineInv
import MiniDb.Database.Verdict

/-!
# The visibility map

A page whose visible or frozen bit is set should hold only tuples that every transaction sees, now and later.  What
keeps the map sound is `BitsGood`: on such a page every tuple is undeleted, and its creator is frozen or settled.
Three kinds of steps break it, and `BitsSafe` excludes them:

* a HOT insertion, and the stamp of an old version, leave the bits of their page alone;
* `run_gc` sets the visible bit by comparing ids with the oldest running id, though the creator may stand in the active
  list of a running transaction;
* `run_vacuum` sets the frozen bit on account of `xmin` alone, though a frozen tuple may be deleted.
-/

namespace MiniDb

open TransactionManager Engine HeapFile

variable {β κ : Type*}

def HeapFile.Marked (h : HeapFile β) (pageId : ℕ) : Prop :=
  (h.vm pageId).visible = true ∨ (h.vm pageId).frozen = true

instance (h : HeapFile β) (pageId : ℕ) : Decidable (h.Marked pageId) :=
  inferInstanceAs (Decidable (_ ∨ _))

/-- Every transaction that is running now or will ever run sees the tuple as it is now. -/
def VisibleToAll (sys : TxnSystem) (tup : Tuple β) : Prop :=
  ∀ acts sys', runs TxnSystem.step sys acts = some sys' →
    ∀ r txn, sys'.sessions r = some ⟨txn, .running⟩ →
      sys'.tm.isVisible tup.xmin tup.xmax txn = true

/-- Marked pages hold only tuples that everybody sees. -/
def VmSound (e : Engine β κ) : Prop :=
  ∀ pageId, e.heap.Marked pageId → ∀ i tup, e.heap.tupleAt ⟨pageId, i⟩ = some tup →
    VisibleToAll e.sys tup

/-- The steps that leave the map sound. -/
def BitsSafe (e : Engine β κ) : Action β → Prop
  | .install t _ _ _ hot => hot = true → ∀ st old row, e.stmts t = some st →
      st.pc = .checked old row → ¬ e.heap.Marked old.pageId
  | .commitOld t => ∀ st old new row hot lsn, e.stmts t = some st →
      st.pc = .installed old new row hot lsn → (e.heap.tupleAt old).isSome →
        ¬ e.heap.Marked old.pageId
  | .gc maxPages => ∀ pageId ∈ gcPages e.table maxPages,
      (∀ i tup, e.heap.tupleAt ⟨pageId, i⟩ = some tup →
        isAllVisibleTuple e.sys.tm e.sys.tm.getOldestActiveTxnId tup = true) →
      ∀ i tup, e.heap.tupleAt ⟨pageId, i⟩ = some tup → tup.xmin ≠ kFrozenTxnId →
        ∀ r txn, e.running r = some txn → tup.xmin ∉ txn.activeSnapshot
  | .vacuum => ∀ pageId, e.heap.InRange ⟨pageId, 0⟩ → (e.heap.vm pageId).frozen = false →
      (∀ i tup, e.heap.tupleAt ⟨pageId, i⟩ = some tup → isFreezable e.sys.tm e.sys.tm.getOldestActiveTxnId tup = true ∨
          tup.xmin = kFrozenTxnId) →
      ∀ i tup, e.heap.tupleAt ⟨pageId, i⟩ = some tup → tup.xmin = kFrozenTxnId →
        tup.xmax = kInvalidTxnId
  | _ => True

/-! ## What everybody sees -/

variable {tup : Tuple β} {rid : RecordId}

lemma AllVisible.visibleToAll {sys : TxnSystem} (hi : TxnInv sys) (hv : AllVisible sys tup) :
    VisibleToAll sys tup := by
  intro acts sys' hrun r txn hr
  have hall : TxnInv sys' ∧ AllVisible sys' tup :=
    runs_invariant_of_step (I := fun s => TxnInv s ∧ AllVisible s tup)
      (fun s a s' ⟨hi, hv⟩ h => ⟨hi.step h, hv.step h⟩) ⟨hi, hv⟩ hrun
  exact isVisible_of_allVisible hall.1 hall.2 hr

/-! ## What the steps keep -/

/-- Marked pages hold only tuples with the given property. -/
def BitsGood (good : Tuple β → Prop) (h : HeapFile β) : Prop :=
  ∀ pageId, h.Marked pageId → ∀ i tup, h.tupleAt ⟨pageId, i⟩ = some tup → good tup

variable {h h' : HeapFile β} {good : Tuple β → Prop}

/-- A write to one slot is harmless if no page gets marked by it and what is written to a page
that stays marked is good. -/
lemma BitsGood.write (hg : BitsGood good h) {v : SlotView β}
    (hlook : ∀ r, h'.look r = if r = rid then v else h.look r)
    (hvm : ∀ pageId, h'.Marked pageId → h.Marked pageId)
    (hv : h'.Marked rid.pageId → ∀ tup, v = .tuple tup → good tup) : BitsGood good h' := by
  intro pageId hm i tup htup
  rw [tupleAt_eq_some_iff, hlook] at htup
  split at htup
  · next heq => exact hv (heq ▸ hm) tup htup
  · exact hg pageId (hvm pageId hm) i tup (tupleAt_eq_some_iff.2 htup)

variable {pageId q : ℕ}

lemma marked_of_vm_eq (hvm : h'.vm = h.vm) (hm : h'.Marked pageId) : h.Marked pageId := by
  rwa [HeapFile.Marked, hvm] at hm

lemma not_marked_of_cleared (hvm : h'.vm = Function.update h.vm q {}) : ¬ h'.Marked q := by
  rw [HeapFile.Marked, hvm, Function.update_self]
  simp

lemma marked_of_cleared (hvm : h'.vm = Function.update h.vm q {}) (hm : h'.Marked pageId) :
    h.Marked pageId := by
  by_cases hq : pageId = q
  · exact absurd (hq ▸ hm) (not_marked_of_cleared hvm)
  · rwa [HeapFile.Marked, hvm, Function.update_of_ne hq] at hm

lemma BitsGood.mono {good' : Tuple β → Prop} (hg : BitsGood good h)
    (himp : ∀ tup, good tup → good' tup) : BitsGood good' h :=
  fun pageId hm i tup htup => himp tup (hg pageId hm i tup htup)

lemma BitsGood.rollbackInsert (hg : BitsGood good h)
    (rid : RecordId) (lsn : ℕ) : BitsGood good ((h.rollbackInsert rid lsn).getD h) := by
  cases hr : h.rollbackInsert rid lsn with
  | none => exact hg
  | some h' =>
    obtain ⟨hw, hvm⟩ := rollbackInsert_eq_some hr
    exact hg.write hw.look (fun _ => marked_of_vm_eq hvm) fun _ tup heq => by cases heq

section

variable {e e' : Engine β κ}

/-- The invariant behind `VmSound`. -/
def VmInv (e : Engine β κ) : Prop := BitsGood (AllVisible e.sys) e.heap

lemma VmInv.sound (hv : VmInv e) (hi : EngineInv e) : VmSound e :=
  fun pageId hm i tup htup => (hv pageId hm i tup htup).visibleToAll hi.txn

/-- The table may change before the undo records do. -/
lemma vmInv_of_heap (hsys : SameTxns e.sys e'.sys) (hg : BitsGood (AllVisible e.sys) e'.heap) : VmInv e' :=
  hg.mono fun _ hv => hv.congr hsys

variable {lsn t : ℕ}

section

variable (hv : VmInv e)
include hv

lemma VmInv.controlled (hc : Engine.Controlled e e' t) : VmInv e' := by
  have hheap : e'.heap = e.heap := congrArg GcTable.heap hc.table
  rw [VmInv, hheap, hc.sys]
  exact hv

variable {row : β} {length : ℕ}

lemma VmInv.install [DecidableEq κ] (hi : EngineInv e) {hot : Bool}
    (hsafe : BitsSafe e (.install t row length lsn hot))
    (h : e.install t row length lsn hot = some e') : VmInv e' := by
  obtain ⟨txn, st, old, oldRow, hp, new, hr, hst, hpc, hlen, -, hins, rfl⟩ :=
    install_eq_some h
  obtain ⟨hnew, hvm⟩ := hi.install_heap hst hpc hlen hins
  cases hot with
  | true =>
    obtain ⟨hvm, hpage⟩ := hvm
    refine vmInv_of_heap (SameTxns.refl _) (hv.write hnew.look ?_ fun hm => ?_)
    · exact fun _ => marked_of_vm_eq hvm
    · -- the HOT version is on the page of the old one, which is not marked
      exact absurd (marked_of_vm_eq hvm (hpage ▸ hm)) (hsafe rfl st old oldRow hst hpc)
  | false =>
    refine vmInv_of_heap (SameTxns.refl _) (hv.write hnew.look ?_ fun hm => ?_)
    · exact fun _ => marked_of_cleared hvm
    · exact absurd hm (not_marked_of_cleared hvm)

lemma VmInv.commitOld (hsafe : BitsSafe e (.commitOld t)) (h : e.commitOld t = some e') : VmInv e' := by
  obtain ⟨txn, st, old, new, row, hot, lsn, hr, hst, hpc, ⟨-, rfl⟩ | ⟨hp, hc, rfl⟩⟩ :=
    commitOld_eq_some h
  · exact vmInv_of_heap (SameTxns.refl _) (hv.rollbackInsert new lsn)
  · obtain ⟨tup, htup, hw, hvm⟩ := commitOldTuple_eq_some hc
    refine vmInv_of_heap (sameTxns_setUndo ..) (hv.write hw.look ?_ fun hm => ?_)
    · exact fun _ => marked_of_vm_eq hvm
    · exact absurd (marked_of_vm_eq hvm hm) (hsafe st old new row hot lsn hst hpc (by rw [htup]; rfl))

lemma VmInv.insert (hi : EngineInv e) (h : e.insert t row length lsn = some e') : VmInv e' := by
  obtain ⟨txn, st, hr, hst, hpc, hlen, ⟨hp, rid, lm, hins, rfl⟩ | hc⟩ := insert_eq_some h
  · obtain ⟨hins, hvm⟩ := insertVersion_eq_some hlen hi.heap.heapOk hins
    refine vmInv_of_heap (sameTxns_setUndo ..) (hv.write hins.look ?_ fun hm => ?_)
    · exact fun _ => marked_of_cleared hvm
    · exact absurd hm (not_marked_of_cleared hvm)
  · exact hv.controlled hc

lemma VmInv.delete (h : e.delete t lsn = some e') : VmInv e' := by
  obtain ⟨txn, st, rid, hr, hst, hpc, ⟨-, -, hc⟩ | ⟨hp, hd, rfl⟩⟩ := delete_eq_some h
  · exact hv.controlled hc
  · obtain ⟨tup, htup, -, hw, hvm⟩ := markDeletedIfCurrent_eq_some hd
    refine vmInv_of_heap (sameTxns_setUndo ..) (hv.write hw.look ?_ fun hm => ?_)
    · exact fun _ => marked_of_cleared hvm
    · exact absurd hm (not_marked_of_cleared hvm)

/-- Taking a delete back changes nothing on a marked page: its tuples are not deleted. -/
lemma VmInv.rollbackDelete (rid : RecordId) (lsn : ℕ) :
    BitsGood (AllVisible e.sys) ((e.heap.rollbackDelete rid lsn).getD e.heap) := by
  cases hr : e.heap.rollbackDelete rid lsn with
  | none => exact hv
  | some h' =>
    obtain ⟨tup, htup, hw, hvm⟩ := rollbackDelete_eq_some hr
    refine BitsGood.write hv hw.look (fun _ => marked_of_vm_eq hvm) fun hm tup' heq => ?_
    cases heq
    exact ⟨rfl, (hv rid.pageId (marked_of_vm_eq hvm hm) rid.slotIdx tup htup).2⟩

lemma VmInv.undo [DecidableEq κ] (h : e.undo t lsn = some e') : VmInv e' := by
  obtain ⟨x, rec, hx, hrec, hmay, rfl⟩ := undo_eq_some h
  obtain ⟨type, tableId, rid⟩ := rec
  cases type with
  | insert => exact vmInv_of_heap (sameTxns_setUndo ..) (BitsGood.rollbackInsert hv rid lsn)
  | delete | hotDelete => exact vmInv_of_heap (sameTxns_setUndo ..) (hv.rollbackDelete rid lsn)
  | hotInsert => exact vmInv_of_heap (sameTxns_setUndo ..) (BitsGood.rollbackInsert hv rid lsn)
  | ddl => exact vmInv_of_heap (sameTxns_setUndo ..) hv

lemma VmInv.prune (h : e.prune t lsn = some e') : VmInv e' := by
  obtain ⟨x, o, rid, rest, hx, hph, hq, rfl⟩ := prune_eq_some h
  refine vmInv_of_heap (SameTxns.refl _) ?_
  cases hr : e.heap.pruneObsoleteVersion rid o t lsn with
  | none => exact hv
  | some h' =>
    obtain ⟨-, -, tup, htup, -, hw, hvm, -⟩ := pruneObsoleteVersion_eq_some hr
    refine BitsGood.write hv hw.look (fun _ => marked_of_vm_eq hvm) fun _ tup' heq => ?_
    split at heq <;> cases heq

end

/-! ## What the collectors mark -/

/-- `is_all_visible_tuple` is right about a tuple whose creator is in nobody's active list. -/
lemma allVisible_of_isAllVisibleTuple (hi : EngineInv e) (htup : e.heap.tupleAt rid = some tup)
    (hv : isAllVisibleTuple e.sys.tm e.sys.tm.getOldestActiveTxnId tup = true)
    (hact : tup.xmin ≠ kFrozenTxnId → ∀ r txn, e.running r = some txn →
      tup.xmin ∉ txn.activeSnapshot) : AllVisible e.sys tup := by
  simp only [isAllVisibleTuple, Bool.and_eq_true, bne_iff_ne, beq_iff_eq, Bool.or_eq_true, decide_eq_true_eq] at hv
  obtain ⟨⟨-, hmax⟩, hmin⟩ := hv
  refine ⟨hmax, ?_⟩
  by_cases h2 : tup.xmin = kFrozenTxnId
  · exact Or.inl h2
  obtain ⟨hcom, hlt⟩ := hmin.resolve_left h2
  have hb := (hi.heap.stamps rid tup htup).1.resolve_left h2
  refine Or.inr (settled_of_lt hi.txn (hi.txn.committed_of_isTxnCommitted hb hcom) ?_ ?_)
  · exact fun r txn hr => hlt.trans_le (hi.txn.oldestActive_le hr)
  · exact fun r txn hr => hact h2 r txn (running_eq_some.2 hr)

lemma isFreezable_of_isAllVisibleTuple {tm : TransactionManager} {oldest : ℕ}
    (hv : isAllVisibleTuple tm oldest tup = true) : isFreezable tm oldest tup = true ∨ tup.xmin = kFrozenTxnId := by
  simp only [isAllVisibleTuple, isFreezable, Bool.and_eq_true, bne_iff_ne, beq_iff_eq,
    Bool.or_eq_true, decide_eq_true_eq] at hv ⊢
  tauto

/-- What a page that is marked after a collector's walk was before it: marked, and then the walk left it as it was; or
without garbage and such that the collector marks it. -/
lemma marked_foldl [DecidableEq κ] (tm : TransactionManager) (oldest : ℕ) (freezing : Bool) {l : List ℕ}
    (hl : l.Nodup) {tb : GcTable β κ} (hm : (l.foldl (collectPage tm oldest freezing) tb).heap.Marked pageId) :
    (tb.heap.Marked pageId ∧
      (l.foldl (collectPage tm oldest freezing) tb).heap.pages pageId = tb.heap.pages pageId) ∨
    (pageId ∈ l ∧ (freezing && (tb.heap.vm pageId).frozen) = false ∧
      ∀ i t, tb.heap.tupleAt ⟨pageId, i⟩ = some t → isGarbage tm oldest t = false ∧
        ((freezing = true ∧ (isFreezable tm oldest t = true ∨ t.xmin = kFrozenTxnId)) ∨
          isAllVisibleTuple tm oldest t = true)) := by
  obtain ⟨hout, hin⟩ := foldl_collectPage_page tm oldest freezing hl tb pageId
  by_cases hq : pageId ∈ l
  · obtain ⟨tb0, hpages, hvm0, hpages', hvm'⟩ := hin hq
    rw [HeapFile.Marked, hvm'] at hm
    cases hskip : freezing && (tb.heap.vm pageId).frozen with
    | true =>
      -- a page marked frozen is left as it is
      have hskip0 : (freezing && (tb0.heap.vm pageId).frozen) = true := by rw [hvm0]; exact hskip
      rw [collectPage, if_pos hskip0, hvm0] at hm
      rw [collectPage, if_pos hskip0, hpages] at hpages'
      exact .inl ⟨hm, hpages'⟩
    | false =>
      have hskip0 : (freezing && (tb0.heap.vm pageId).frozen) = false := by rw [hvm0]; exact hskip
      refine .inr ⟨hq, rfl, fun i t ht => ?_⟩
      refine flags_collectPage tm oldest freezing hskip0 hm i t ?_
      rwa [tupleAt, hpages]
  · obtain ⟨hpages, hvm⟩ := hout hq
    rw [HeapFile.Marked, hvm] at hm
    exact .inl ⟨hm, hpages⟩

/-- A collector's walk: the pages it visits are good if the ones it marks are, and the others stay
as they were. -/
lemma VmInv.walk [DecidableEq κ] (hv : VmInv e) (freezing : Bool) {l : List ℕ} (hl : l.Nodup)
    (hgood : ∀ pageId ∈ l, (freezing && (e.heap.vm pageId).frozen) = false →
      (∀ i t, e.heap.tupleAt ⟨pageId, i⟩ = some t →
        (freezing = true ∧ (isFreezable e.sys.tm e.sys.tm.getOldestActiveTxnId t = true ∨ t.xmin = kFrozenTxnId)) ∨
          isAllVisibleTuple e.sys.tm e.sys.tm.getOldestActiveTxnId t = true) →
      ∀ i t, e.heap.tupleAt ⟨pageId, i⟩ = some t → AllVisible e.sys
        (if freezing && isFreezable e.sys.tm e.sys.tm.getOldestActiveTxnId t then t.freeze else t)) :
    BitsGood (AllVisible e.sys)
      (l.foldl (collectPage e.sys.tm e.sys.tm.getOldestActiveTxnId freezing) e.table).heap := by
  intro pageId hm i tup htup
  rcases marked_foldl e.sys.tm e.sys.tm.getOldestActiveTxnId freezing hl hm with ⟨hm, hpages⟩ | ⟨hq, hskip, hflags⟩
  · rw [tupleAt, hpages] at htup
    exact hv pageId hm i tup htup
  · obtain ⟨tb0, hpages, hvm0, hpages', -⟩ :=
      (foldl_collectPage_page e.sys.tm e.sys.tm.getOldestActiveTxnId freezing hl e.table pageId).2 hq
    have hsame : ∀ i, tb0.heap.tupleAt ⟨pageId, i⟩ = e.heap.tupleAt ⟨pageId, i⟩ := fun i =>
      congrArg (fun p : Page β => p.tupleAt i) hpages
    have hskip0 : (freezing && (tb0.heap.vm pageId).frozen) = false := by rw [hvm0]; exact hskip
    rw [tupleAt, hpages'] at htup
    obtain ⟨t, ht, rfl⟩ := tupleAt_collectPage e.sys.tm e.sys.tm.getOldestActiveTxnId freezing
      hskip0 (fun t ht => (hflags i t ((hsame i).symm.trans ht)).1) htup
    exact hgood pageId hq hskip (fun j t' ht' => (hflags j t' ht').2) i t ((hsame i).symm.trans ht)

lemma VmInv.gc [DecidableEq κ] (hv : VmInv e) (hi : EngineInv e) {maxPages : ℕ}
    (hsafe : BitsSafe e (.gc maxPages)) (h : e.step (.gc maxPages) = some e') : VmInv e' := by
  obtain rfl := Option.some.inj h
  show BitsGood (AllVisible e.sys) (runGc e.sys.tm maxPages e.table).heap
  unfold runGc
  by_cases h0 : e.table.heap.numDataPages = 0
  · simp only [h0, if_true]
    exact hv
  simp only [h0, if_false]
  refine hv.walk false (nodup_gcPages e.table maxPages) fun pageId hq _ hall i t ht => ?_
  have hvis : ∀ i t, e.heap.tupleAt ⟨pageId, i⟩ = some t →
      isAllVisibleTuple e.sys.tm e.sys.tm.getOldestActiveTxnId t = true := by
    intro i t ht
    rcases hall i t ht with ⟨h, -⟩ | h
    · cases h
    · exact h
  exact allVisible_of_isAllVisibleTuple hi ht (hvis i t ht) (hsafe pageId hq hvis i t ht)

lemma VmInv.vacuum [DecidableEq κ] (hv : VmInv e) (hsafe : BitsSafe e .vacuum)
    (h : e.step .vacuum = some e') : VmInv e' := by
  obtain rfl := Option.some.inj h
  unfold runVacuum
  by_cases h0 : e.table.heap.numDataPages = 0
  · simp only [h0, if_true]
    exact hv
  simp only [h0, if_false]
  refine hv.walk true (List.nodup_range.map fun a b h => Nat.succ.inj h) fun pageId hq hskip hall i t ht => ?_
  have hfr : ∀ i t, e.heap.tupleAt ⟨pageId, i⟩ = some t →
      isFreezable e.sys.tm e.sys.tm.getOldestActiveTxnId t = true ∨ t.xmin = kFrozenTxnId := by
    intro i t ht
    rcases hall i t ht with ⟨-, h⟩ | h
    · exact h
    · exact isFreezable_of_isAllVisibleTuple h
  have hrange : e.heap.InRange ⟨pageId, 0⟩ := by
    simp only [List.mem_map, List.mem_range] at hq
    obtain ⟨p, hp, rfl⟩ := hq
    exact ⟨Nat.le_add_left 1 p, hp⟩
  by_cases hf : isFreezable e.sys.tm e.sys.tm.getOldestActiveTxnId t = true
  · simp only [hf, Bool.and_self, if_true]
    simp only [isFreezable, Bool.and_eq_true, beq_iff_eq] at hf
    exact ⟨hf.2, Or.inl rfl⟩
  · simp only [hf, Bool.and_false, if_false, Bool.false_eq_true]
    have h2 := (hfr i t ht).resolve_left hf
    exact ⟨hsafe pageId hrange (by simpa using hskip) hfr i t ht h2, Or.inl h2⟩

theorem VmInv.step [DecidableEq κ] (hv : VmInv e) (hi : EngineInv e) {a : Action β}
    (hsafe : BitsSafe e a) (h : e.step a = some e') : VmInv e' := by
  cases a with
  | txn a =>
    obtain ⟨-, sys, hs, rfl⟩ := txnStep_eq_some h
    rw [VmInv, afterTxn_sys, afterTxn_heap]
    exact BitsGood.mono hv fun tup hv => hv.step hs
  | install t row length lsn hot => exact hv.install hi hsafe h
  | commitOld t => exact hv.commitOld hsafe h
  | insert t row length lsn => exact hv.insert hi h
  | indexRow t =>
    obtain ⟨txn, st, new, row, hr, hst, hpc, rfl⟩ := indexRow_eq_some h
    exact hv
  | delete t lsn => exact hv.delete h
  | undo t lsn => exact hv.undo h
  | prune t lsn => exact hv.prune h
  | gc maxPages => exact hv.gc hi hsafe h
  | vacuum => exact hv.vacuum hsafe h
  | _ => exact hv.controlled (controlled_of_step h rfl)

end

/-- **When the visibility map is sound.**  In every run whose steps are safe, every state it passes
through has only tuples that everybody sees on its marked pages. -/
theorem vmSound_of_bitsSafe [DecidableEq κ] {slotCount next : ℕ} {log : Option TxnStatusLog}
    (hnext : 0 < next) (hlog : ∀ l ∈ log, ∀ c, next ≤ c → l.states c = none)
    (keys : List (β → κ)) {acts : List (Action β)}
    (hsafe : StepsMeet Engine.step BitsSafe (Engine.init (TxnSystem.init slotCount next log) keys) acts) :
    Always Engine.step VmSound (Engine.init (TxnSystem.init slotCount next log) keys) acts := by
  refine always_of_invariant (I := fun e => EngineInv e ∧ VmInv e) ?_ ?_
    ⟨EngineInv.init hnext hlog keys, ?_⟩ hsafe
  · rintro e a e' ⟨hi, hv⟩ hs h
    exact ⟨hi.step h, hv.step hi hs h⟩
  · rintro e ⟨hi, hv⟩
    exact hv.sound hi
  · intro pageId hm i tup htup
    cases htup

/-- Transaction 1 inserts a row and commits; nobody else is running. -/
def insertAndFinish : List (Action ℕ) :=
  [.txn .begin] ++ Engine.insertStmt 1 7 40 1 ++ Engine.commitTxn 1 ++ [.txn (.finish 1)]

/-- A collection with nobody running marks the page rightly. -/
theorem vmSound_after_gc :
    Always Engine.step VmSound
      (Engine.init (TxnSystem.init 4 1 (some TxnStatusLog.empty)) ([] : List (ℕ → ℕ)))
      (insertAndFinish ++ [.gc 10]) := by
  refine vmSound_of_bitsSafe (by decide) TxnStatusLog.empty_unused [] (.concat (.of_forall ?_) fun m hm => ?_)
  · intro a ha e
    simp only [insertAndFinish, insertStmt, commitTxn, List.cons_append,
      List.nil_append, List.mem_cons, List.not_mem_nil, or_false] at ha
    rcases ha with rfl | rfl | rfl | rfl | rfl | rfl | rfl | rfl <;> trivial
  · intro pageId _ _ i tup _ _ r txn hr
    -- nobody is running
    have hb := ((EngineInv.init (by decide) TxnStatusLog.empty_unused []).runs hm).began hr
    have hidle := runs_eval (f := fun m => m.sys.hist.all fun ev => (m.running ev.txn).isNone) (v := true)
      (by decide +kernel) hm
    have hnone : m.running r = none := Option.isNone_iff_eq_none.1 (List.all_eq_true.1 hidle _ hb)
    cases hr.symm.trans hnone

/-- The page is marked by a collection; then transaction 3 makes a HOT update on it, and
transaction 4 begins. -/
def hotUpdateOnMarkedPage : List (Action ℕ) :=
  insertAndFinish ++ [.gc 10, .txn .begin] ++ Engine.updateStmt 3 ⟨1, 0⟩ 8 40 2 true ++
    [.txn .begin]

/-- The page stays marked, and holds a version that transaction 4 does not see. -/
theorem hotUpdate_keeps_mark :
    ¬ Always Engine.step VmSound
      (Engine.init (TxnSystem.init 4 1 (some TxnStatusLog.empty)) ([] : List (ℕ → ℕ)))
      hotUpdateOnMarkedPage := by
  intro h
  obtain ⟨m, ⟨hmark, hvis⟩, hsound⟩ := h.eval (R := fun m => m.heap.Marked 1 ∧ ((m.heap.tupleAt ⟨1, 1⟩).bind
    fun tup => (m.running 4).map fun txn => m.sys.tm.isVisible tup.xmin tup.xmax txn) = some false)
    (by decide +kernel)
  obtain ⟨tup, htup, hvis⟩ := Option.bind_eq_some_iff.1 hvis
  obtain ⟨txn, hr, hvis⟩ := Option.map_eq_some_iff.1 hvis
  have htrue := hsound 1 hmark 1 tup htup [] m.sys rfl 4 txn
    (running_eq_some.1 hr)
  rw [hvis] at htrue
  cases htrue

end MiniDb
