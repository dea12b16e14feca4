import MiniDb.Transaction.System

/-!
# The ids that a new database hands out

`begin` and `commit` draw from one counter, which starts at 1 in a new database.  So the second number drawn
is `kFrozenTxnId`, the id that makes a version visible to every snapshot.  If a commit draws it, no
transaction ever has it; if a begin does, a running transaction has it.  `freshIds_iff` says that this is all
that can go wrong.
-/

namespace MiniDb

open TxnSystem

/-- The ids handed out by `begin`, in the order in which they were. -/
def issuedIds (h : List TxnEvent) : List ℕ :=
  h.reverse.filterMap fun e =>
    match e with
    | .began t => some t
    | _ => none

/-- The ids increase, and none of them is reserved. -/
def FreshIds (sys : TxnSystem) : Prop :=
  (issuedIds sys.hist).Pairwise (· < ·) ∧
    ∀ t ∈ issuedIds sys.hist, t ≠ kInvalidTxnId ∧ t ≠ kFrozenTxnId

/-- No transaction begins while the counter stands at the reserved id. -/
def BeginUnreserved (sys : TxnSystem) : TxnAction → Prop
  | .begin => sys.tm.nextTxnId ≠ kFrozenTxnId
  | _ => True

instance (sys : TxnSystem) (a : TxnAction) : Decidable (BeginUnreserved sys a) := by
  cases a <;> unfold BeginUnreserved <;> infer_instance

/-- The counter is past all ids that were handed out. -/
structure CounterAhead (sys : TxnSystem) : Prop where
  pos : 0 < sys.tm.nextTxnId
  ahead : ∀ t ∈ issuedIds sys.hist, t < sys.tm.nextTxnId

section

variable {sys sys' : TxnSystem} {a : TxnAction}

lemma counter_cases (h : sys.step a = some sys') : (a = .begin ∧ sys'.tm.nextTxnId = sys.tm.nextTxnId + 1 ∧
      issuedIds sys'.hist = issuedIds sys.hist ++ [sys.tm.nextTxnId]) ∨
    (a ≠ .begin ∧ sys.tm.nextTxnId ≤ sys'.tm.nextTxnId ∧ issuedIds sys'.hist = issuedIds sys.hist) := by
  cases step_cases h with
  | begin => exact .inl ⟨rfl, rfl, by simp [issuedIds]⟩
  | publish => exact .inr ⟨nofun, by simp, by simp [issuedIds]⟩
  | flip => exact .inr ⟨nofun, le_refl _, by simp [issuedIds]⟩
  | _ => exact .inr ⟨nofun, le_refl _, rfl⟩

lemma CounterAhead.step (hc : CounterAhead sys) (h : sys.step a = some sys') : CounterAhead sys' := by
  obtain ⟨-, hnext, hids⟩ | ⟨-, hnext, hids⟩ := counter_cases h
  · refine ⟨by omega, fun t ht => ?_⟩
    rw [hids, List.mem_append, List.mem_singleton] at ht
    rcases ht with ht | rfl
    · have := hc.ahead t ht
      omega
    · omega
  · refine ⟨lt_of_lt_of_le hc.pos hnext, fun t ht => ?_⟩
    rw [hids] at ht
    exact lt_of_lt_of_le (hc.ahead t ht) hnext

lemma FreshIds.step (hf : FreshIds sys) (hc : CounterAhead sys) (hb : BeginUnreserved sys a)
    (h : sys.step a = some sys') : FreshIds sys' := by
  obtain ⟨rfl, -, hids⟩ | ⟨-, -, hids⟩ := counter_cases h
  · rw [FreshIds, hids, List.pairwise_append]
    refine ⟨⟨hf.1, List.pairwise_singleton _ _, ?_⟩, fun t ht => ?_⟩
    · rintro t ht _ hn
      rw [List.mem_singleton.1 hn]
      exact hc.ahead t ht
    · rcases List.mem_append.1 ht with ht | ht
      · exact hf.2 t ht
      · rw [List.mem_singleton.1 ht]
        exact ⟨hc.pos.ne', hb⟩
  · rwa [FreshIds, hids]

/-- A transaction that begins with the reserved id has it for good. -/
lemma not_freshIds_of_reserved (hb : ¬ BeginUnreserved sys a) (h : sys.step a = some sys') :
    ¬ FreshIds sys' := by
  obtain ⟨rfl, -, hids⟩ | ⟨hne, -, -⟩ := counter_cases h
  · intro hf
    refine (hf.2 sys.tm.nextTxnId ?_).2 (not_not.1 hb)
    rw [hids]
    simp
  · refine absurd ?_ hb
    cases a <;> first | exact absurd rfl hne | trivial

end

/-- **When the ids of a new database are fresh.**  In every state of a run the ids handed out so far
increase and are not reserved, if and only if no transaction begins while the counter stands at 2. -/
theorem freshIds_iff {slotCount : ℕ} {log : Option TxnStatusLog} {acts : List TxnAction}
    {sys : TxnSystem} (hr : runs TxnSystem.step (TxnSystem.init slotCount 1 log) acts = some sys) :
    Always TxnSystem.step FreshIds (TxnSystem.init slotCount 1 log) acts ↔
      StepsMeet TxnSystem.step BeginUnreserved (TxnSystem.init slotCount 1 log) acts := by
  refine always_iff_stepsMeet (I := fun s => CounterAhead s ∧ FreshIds s) ?_ ?_ ?_ ?_ hr
  · rintro s a s' ⟨hc, hf⟩ hb hs
    exact ⟨hc.step hs, hf.step hc hb hs⟩
  · rintro s ⟨-, hf⟩
    exact hf
  · rintro s a s' - hb hs
    exact not_freshIds_of_reserved hb hs
  · exact ⟨⟨Nat.one_pos, nofun⟩, List.Pairwise.nil, nofun⟩

/-- The first transaction commits before the second begins. -/
theorem freshIds_after_first_commit :
    Always TxnSystem.step FreshIds (TxnSystem.init 4 1 none)
      [.begin, .publish 1, .recordCommitted 1, .finish 1, .begin, .begin, .flip 3] :=
  (freshIds_iff rfl).2 (by decide)

/-- The second of two transactions that begin one after the other gets the id of frozen versions. -/
theorem frozen_id_issued :
    ¬ Always TxnSystem.step FreshIds (TxnSystem.init 4 1 none) [.begin, .begin] := by
  intro h
  have hlast : FreshIds _ := h.last rfl
  exact (hlast.2 2 (by decide)).2 rfl

end MiniDb
