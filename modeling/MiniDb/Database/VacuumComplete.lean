import MiniDb.Database.EngineInv

/-!
# What VACUUM leaves behind

A version is dead when its creator and its deleter have both committed; a frozen version counts as created by somebody
who has.  `vacuumComplete_iff` says what VACUUM needs to remove all of them: the page is not marked frozen,
`is_garbage` accepts the version, and a version with a successor on its own page names a slot of that page.

`is_garbage` asks for the state of `xmin`, which for a frozen version nobody has recorded as committed.
-/

namespace MiniDb

variable {β κ : Type*}

section

variable (e : Engine β κ)

def Engine.DeadVersion (t : Tuple β) : Prop :=
  (t.xmin = kFrozenTxnId ∨ .committed t.xmin ∈ e.sys.hist) ∧ .committed t.xmax ∈ e.sys.hist

def Engine.NoDeadVersion : Prop :=
  ∀ r t, e.heap.tupleAt r = some t → ¬ e.DeadVersion t

/-- VACUUM finds the version and knows where to lead those who come over it. -/
def Engine.VacuumRemoves (r : RecordId) (t : Tuple β) : Prop :=
  (e.heap.vm r.pageId).frozen = false ∧ isGarbage e.sys.tm e.sys.tm.getOldestActiveTxnId t = true ∧
    (t.hasNextVersion = true ∧ t.nextPage = r.pageId → t.nextSlot < (e.heap.pages r.pageId).numTuples)

def Engine.RemovesDead : Prop :=
  ∀ q < e.heap.numDataPages, ∀ i < (e.heap.pages (q + 1)).numTuples, ∀ t ∈ e.heap.tupleAt ⟨q + 1, i⟩,
    e.DeadVersion t → e.VacuumRemoves ⟨q + 1, i⟩ t

end

instance (e : Engine β κ) (t : Tuple β) : Decidable (e.DeadVersion t) := inferInstanceAs (Decidable (_ ∧ _))

instance (e : Engine β κ) (r : RecordId) (t : Tuple β) : Decidable (e.VacuumRemoves r t) :=
  inferInstanceAs (Decidable (_ ∧ _ ∧ _))

instance (e : Engine β κ) : Decidable e.RemovesDead :=
  inferInstanceAs (Decidable (∀ q < _, ∀ i < _, ∀ t ∈ _, e.DeadVersion t → e.VacuumRemoves ⟨q + 1, i⟩ t))

section

variable {e : Engine β κ} (hi : EngineInv e)
include hi

lemma EngineInv.removesDead_iff : e.RemovesDead ↔
    ∀ r t, e.heap.tupleAt r = some t → e.DeadVersion t → e.VacuumRemoves r t := by
  refine ⟨fun h r t ht hdead => ?_, fun h q _ i _ t ht hdead => h ⟨q + 1, i⟩ t ht hdead⟩
  obtain ⟨hpos, hle⟩ := hi.heap.heapOk.range r (by rw [HeapFile.tupleAt_eq_some_iff.1 ht]; simp)
  obtain ⟨q, hq⟩ := Nat.exists_eq_succ_of_ne_zero (Nat.one_le_iff_ne_zero.1 hpos)
  obtain ⟨page, slot⟩ := r
  obtain rfl : page = q + 1 := hq
  exact h q hle slot (Page.lt_numTuples_of_tupleAt ht) t ht hdead

/-- A version that VACUUM freezes is not deleted. -/
lemma EngineInv.deleted {t : Tuple β} (hdead : e.DeadVersion t) : t.xmax ≠ kInvalidTxnId :=
  hi.txn.began_ne _ (hi.txn.histOk.began_of_mem hdead.2)

variable [DecidableEq κ]

lemma EngineInv.tupleAt_vacuum {r : RecordId} {t : Tuple β} (hdead : e.DeadVersion t) :
    (runVacuum e.sys.tm e.table).heap.tupleAt r = some t ↔ e.heap.tupleAt r = some t ∧ ¬ e.VacuumRemoves r t := by
  have hx := hi.deleted hdead
  have hfreeze : isFreezable e.sys.tm e.sys.tm.getOldestActiveTxnId t = false := by
    simp [isFreezable, hx]
  rw [HeapFile.tupleAt_eq_some_iff, HeapFile.tupleAt_eq_some_iff, look_runVacuum, ← Engine.heap]
  cases hv : e.heap.look r with
  | redirect n => simp [sweepView]
  | empty => simp [sweepView]
  | tuple t0 =>
    have hrange : 1 ≤ r.pageId ∧ r.pageId ≤ e.heap.numDataPages :=
      hi.heap.heapOk.range r (by rw [hv]; simp)
    rw [if_congr (and_iff_right hrange) rfl rfl, sweepView, SlotView.tuple.injEq]
    by_cases heq : t0 = t
    · subst heq
      rw [hfreeze, Engine.VacuumRemoves]
      split_ifs <;> simp_all
    · refine iff_of_false (fun h => ?_) fun h => heq h.1
      split_ifs at h with _ _ _ _ hf
      all_goals first | exact heq (SlotView.tuple.inj h) | skip
      -- a frozen version has no deleter
      obtain rfl := SlotView.tuple.inj h
      simp only [isFreezable, Bool.and_eq_true, beq_iff_eq] at hf
      exact hx hf.2.2

end

/-- **VACUUM removes every dead version** if it finds and recognises them all. -/
theorem vacuumComplete_iff [DecidableEq κ] {e : Engine β κ} {slotCount next : ℕ} {log : Option TxnStatusLog}
    (hnext : 0 < next) (hlog : ∀ l ∈ log, ∀ c, next ≤ c → l.states c = none) (keys : List (β → κ)) {acts : List (Action β)}
    (hr : runs Engine.step (Engine.init (TxnSystem.init slotCount next log) keys) acts = some e) :
    (∀ e', e.step .vacuum = some e' → e'.NoDeadVersion) ↔ e.RemovesDead := by
  have hi := (EngineInv.init hnext hlog keys).runs hr
  rw [hi.removesDead_iff]
  constructor
  · intro h r t ht hdead
    by_contra hno
    exact h _ rfl r t ((hi.tupleAt_vacuum hdead).2 ⟨ht, hno⟩) hdead
  · rintro h _ ⟨⟩ r t ht hdead
    obtain ⟨ht, hno⟩ := (hi.tupleAt_vacuum hdead).1 ht
    exact hno (h r t ht hdead)

/-- Transaction 1 inserts a row, and transaction 4 deletes it while transaction 3 is running; what is done in
between is given. -/
def insertAndDelete (between : List (Action ℕ)) : List (Action ℕ) :=
  [.txn .begin] ++ Engine.insertStmt 1 7 40 1 ++ Engine.commitTxn 1 ++ [.txn (.finish 1)] ++ between ++
    [.txn .begin, .txn .begin] ++ Engine.deleteStmt 4 ⟨1, 0⟩ 2 ++ Engine.commitTxn 4 ++
    [.prune 4 3, .txn (.finish 4)] ++ Engine.commitTxn 3 ++ [.txn (.finish 3)]

/-- With nothing done in between, vacuum removes the deleted version. -/
theorem vacuumComplete_insertAndDelete :
    ∃ e, runs Engine.step (Engine.init (TxnSystem.init 4 1 (some TxnStatusLog.empty)) ([] : List (ℕ → ℕ)))
      (insertAndDelete []) = some e ∧ ∀ e', e.step .vacuum = some e' → e'.NoDeadVersion := by
  obtain ⟨e, he, hdead⟩ : ∃ e, runs Engine.step (Engine.init (TxnSystem.init 4 1 (some TxnStatusLog.empty))
      ([] : List (ℕ → ℕ))) (insertAndDelete []) = some e ∧ decide e.RemovesDead = true :=
    exists_run (by decide +kernel)
  exact ⟨e, he, (vacuumComplete_iff one_pos TxnStatusLog.empty_unused [] he).2 (of_decide_eq_true hdead)⟩

/-- A VACUUM in between freezes the row, and the next one does not remove it: with nobody running the row is
left, although who has deleted it has committed. -/
theorem frozen_row_left_by_vacuum :
    ¬ ∀ e e', runs Engine.step (Engine.init (TxnSystem.init 4 1 (some TxnStatusLog.empty)) ([] : List (ℕ → ℕ)))
      (insertAndDelete [.vacuum]) = some e → (∀ s ∈ e.sys.tm.txnSlots, s.isActive = false) →
        e.step .vacuum = some e' → e'.NoDeadVersion := by
  intro h
  obtain ⟨e, he, hidle, hleft⟩ : ∃ e, runs Engine.step (Engine.init (TxnSystem.init 4 1
      (some TxnStatusLog.empty)) ([] : List (ℕ → ℕ))) (insertAndDelete [.vacuum]) = some e ∧
      (∀ s ∈ e.sys.tm.txnSlots, s.isActive = false) ∧
        (e.step .vacuum).any (fun e' => (e'.heap.tupleAt ⟨1, 0⟩).any fun t => e'.DeadVersion t) = true :=
    exists_run (by decide +kernel)
  obtain ⟨e', he', hrow⟩ := Option.any_eq_true _ _ |>.1 hleft
  obtain ⟨t, ht, hdead⟩ := Option.any_eq_true _ _ |>.1 hrow
  exact h e e' he hidle he' ⟨1, 0⟩ t ht (of_decide_eq_true hdead)

end MiniDb
