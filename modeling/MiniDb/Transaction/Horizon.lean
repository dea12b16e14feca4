import MiniDb.Transaction.Snapshot

/-!
# Horizons

Pruning and collection compare ids with the oldest running id.  By `HorizonOk` the horizon a commit carries stays below
every running transaction for as long as the commit needs it.  It does *not* follow that the transaction had finished
when a reader took its snapshot: an id may be smaller than every running one and still stand in a reader's active list.
`Settled` is the property that readers need, and it is stable.
-/

namespace MiniDb

open TransactionManager TxnSystem

/-! ## The loops over the slots -/

lemma oldestBelow_le_bound (key : TxnSlot → ℕ) (slots : List TxnSlot) (bound : ℕ) :
    oldestBelow key slots bound ≤ bound := by
  induction slots generalizing bound with
  | nil => exact le_rfl
  | cons s slots ih =>
    refine (ih _).trans ?_
    beta_reduce
    split
    · next h =>
      rw [Bool.and_eq_true, decide_eq_true_eq] at h
      exact h.2.le
    · exact le_rfl

lemma oldestBelow_le_key (key : TxnSlot → ℕ) {slots : List TxnSlot} {s : TxnSlot}
    (hs : s ∈ slots) (ha : s.isActive = true) (bound : ℕ) : oldestBelow key slots bound ≤ key s := by
  induction slots generalizing bound with
  | nil => cases hs
  | cons s' slots ih =>
    rcases List.mem_cons.1 hs with rfl | hs
    · refine (oldestBelow_le_bound key slots _).trans ?_
      beta_reduce
      split
      · exact le_rfl
      · next h =>
        rw [ha, Bool.true_and, decide_eq_true_eq] at h
        omega
    · exact ih hs _

section

variable {sys sys' : TxnSystem} {a : TxnAction} {r c : ℕ} {txn : Transaction}

lemma TxnInv.active_slot (hi : TxnInv sys) (hr : sys.sessions r = some ⟨txn, .running⟩) :
    ∃ s ∈ sys.tm.txnSlots, s.txnId = r ∧ s.isActive = true := by
  obtain ⟨s, hs, hsr, hact⟩ := hi.slot_unfinished (hi.session_ok r _ hr).phase
  refine ⟨s, hs, hsr, TxnSlot.isActive_iff.2 ⟨?_, hact⟩⟩
  rw [hsr]
  exact hi.began_ne r (hi.session_ok r _ hr).began

lemma TxnInv.oldestActive_le (hi : TxnInv sys) (hr : sys.sessions r = some ⟨txn, .running⟩) :
    sys.tm.getOldestActiveTxnId ≤ r := by
  obtain ⟨s, hs, rfl, hact⟩ := hi.active_slot hr
  exact oldestBelow_le_key TxnSlot.txnId hs hact _

/-- `is_txn_committed` never errs on a transaction of this history. -/
lemma TxnInv.committed_of_isTxnCommitted (hi : TxnInv sys) (hb : .began c ∈ sys.hist)
    (hc : sys.tm.isTxnCommitted c = true) : .committed c ∈ sys.hist := by
  unfold isTxnCommitted at hc
  cases hslot : sys.tm.getTxnState c with
  | some st =>
    rw [hslot] at hc
    obtain ⟨s, hs, rfl, rfl⟩ := getTxnState_eq_some hslot
    have hin := (hi.slot_state s hs (hi.began_ne _ hb)).2
    rw [beq_iff_eq.1 hc] at hin
    exact hin
  | none =>
    rw [hslot] at hc
    exact hi.status_ok c _ hb (beq_iff_eq.1 hc)

/-! ## Who is running after a step -/

section

variable (h : sys.step a = some sys')
include h

lemma hist_of_step {ev : TxnEvent} (hev : ev ∈ sys.hist) : ev ∈ sys'.hist := by
  cases step_cases h with
  | begin | publish | flip => exact List.mem_cons_of_mem _ hev
  | recordCommitted | recordAborted | finish => exact hev

lemma nextTxnId_le_of_step : sys.tm.nextTxnId ≤ sys'.tm.nextTxnId := by
  cases step_cases h with
  | begin => exact Nat.le_succ _
  | publish => simp
  | _ => exact le_rfl

/-- Who is running after a step was running before it, or has just begun.  Nothing is added to what
happened before it began. -/
lemma running_of_step (hr : sys'.sessions r = some ⟨txn, .running⟩) :
    (a = .begin ∧ r = sys.tm.nextTxnId ∧ before r sys'.hist = sys.hist) ∨
      (sys.sessions r = some ⟨txn, .running⟩ ∧ before r sys'.hist = before r sys.hist) := by
  cases step_cases h with
  | begin =>
    rcases setSession_eq_some hr with ⟨rfl, -⟩ | ⟨hrn, hr⟩
    · exact Or.inl ⟨rfl, rfl, before_began_self _ _⟩
    · exact Or.inr ⟨hr, before_cons_of_ne _ fun h => hrn (by cases h; rfl)⟩
  | publish | flip =>
    rcases setSession_eq_some hr with ⟨-, ⟨⟩⟩ | ⟨-, hr⟩
    exact Or.inr ⟨hr, before_cons_of_ne _ (by simp)⟩
  | recordCommitted | recordAborted | finish =>
    rcases setSession_eq_some hr with ⟨-, ⟨⟩⟩ | ⟨-, hr⟩
    exact Or.inr ⟨hr, rfl⟩

/-! ## The horizon of a commit -/

/-- The horizon that a session carries through its commit. -/
def Phase.horizon : Phase → Option ℕ
  | .published o => some o
  | .recorded o => some o
  | _ => none

/-- A horizon in use is at most every running id, and at most the next id to be drawn. -/
def HorizonOk (sys : TxnSystem) : Prop :=
  ∀ t x o, sys.sessions t = some x → x.phase.horizon = some o →
    o ≤ sys.tm.nextTxnId ∧ ∀ r txn, sys.sessions r = some ⟨txn, .running⟩ → o ≤ r

/-- Later sections do not spoil a horizon: who begins later has a larger id. -/
lemma horizon_of_step {o : ℕ} (ho : o ≤ sys.tm.nextTxnId ∧ ∀ r txn, sys.sessions r = some ⟨txn, .running⟩ → o ≤ r) :
    o ≤ sys'.tm.nextTxnId ∧ ∀ r txn, sys'.sessions r = some ⟨txn, .running⟩ → o ≤ r := by
  refine ⟨ho.1.trans (nextTxnId_le_of_step h), fun r txn hr => ?_⟩
  rcases running_of_step h hr with ⟨-, rfl, -⟩ | ⟨hr, -⟩
  · exact ho.1
  · exact ho.2 r txn hr

end

/-- A horizon that was published stays right. -/
theorem HorizonOk.step (hi : TxnInv sys) (ho : HorizonOk sys) (h : sys.step a = some sys') :
    HorizonOk sys' := by
  intro t' x o hx hhor
  -- either the session had its horizon already, or this step is the one that publishes it
  have hold : (∃ x0, sys.sessions t' = some x0 ∧ x0.phase.horizon = some o) ∨
      (∃ txn, a = .publish t' ∧ sys'.tm = (sys.tm.publish txn).1 ∧ o = (sys.tm.publish txn).2.1) := by
    cases step_cases h with
    | @publish t txn =>
      rcases setSession_eq_some hx with ⟨rfl, ⟨⟩⟩ | ⟨-, hx⟩
      · exact .inr ⟨txn, rfl, rfl, (Option.some.inj hhor).symm⟩
      · exact .inl ⟨x, hx, hhor⟩
    | recordCommitted hs =>
      rcases setSession_eq_some hx with ⟨rfl, ⟨⟩⟩ | ⟨-, hx⟩
      · exact .inl ⟨_, hs, hhor⟩
      · exact .inl ⟨x, hx, hhor⟩
    | finish =>
      rcases setSession_eq_some hx with ⟨-, ⟨⟩⟩ | ⟨-, hx⟩
      exact .inl ⟨x, hx, hhor⟩
    | _ =>
      rcases setSession_eq_some hx with ⟨-, ⟨⟩⟩ | ⟨-, hx⟩
      · cases hhor
      · exact .inl ⟨x, hx, hhor⟩
  rcases hold with ⟨x0, hx0, hhor0⟩ | ⟨txn, rfl, htm, rfl⟩
  · exact horizon_of_step h (ho t' x0 o hx0 hhor0)
  · -- the horizon is computed from the slots as they are after the flip
    have hslots : (sys.tm.publish txn).2.1 = oldestBelow TxnSlot.txnId sys'.tm.txnSlots (sys.tm.nextTxnId + 1) := by
      rw [htm, publish_txnSlots]
      rfl
    rw [hslots]
    constructor
    · rw [htm, publish_nextTxnId]
      exact oldestBelow_le_bound ..
    · intro r txn' hr
      obtain ⟨s, hs, rfl, hact⟩ := (hi.step h).active_slot hr
      exact oldestBelow_le_key TxnSlot.txnId hs hact _

lemma HorizonOk.congr (ho : HorizonOk sys) (h : SameTxns sys sys') : HorizonOk sys' := by
  intro t x o hx hhor
  obtain ⟨x0, hx0, heq⟩ := h.session hx
  rw [(Session.forgetUndo_eq heq).1] at hhor
  obtain ⟨h1, h2⟩ := ho t x0 o hx0 hhor
  rw [h.tm]
  refine ⟨h1, fun r txn hr => ?_⟩
  obtain ⟨txn0, hr0, -⟩ := h.running hr
  exact h2 r txn0 hr0

/-! ## Settled transactions -/

/-- `c` committed, and had committed before any running transaction began. -/
def Settled (sys : TxnSystem) (c : ℕ) : Prop :=
  .committed c ∈ sys.hist ∧
    ∀ r txn, sys.sessions r = some ⟨txn, .running⟩ → CommittedBefore sys.hist c r

/-- **What is settled stays settled**: later transactions begin after the commit. -/
theorem Settled.step (hc : Settled sys c) (h : sys.step a = some sys') : Settled sys' c := by
  refine ⟨hist_of_step h hc.1, fun r txn hr => ?_⟩
  unfold CommittedBefore
  rcases running_of_step h hr with ⟨-, -, hb⟩ | ⟨hr, hb⟩
  · rw [hb]
    exact hc.1
  · rw [hb]
    exact hc.2 r txn hr

lemma Settled.congr (hc : Settled sys c) (h : SameTxns sys sys') : Settled sys' c := by
  rw [Settled, h.hist]
  refine ⟨hc.1, fun r txn hr => ?_⟩
  obtain ⟨txn0, hr0, -⟩ := h.running hr
  exact hc.2 r txn0 hr0

/-- An id below the horizon that is in no running transaction's active list is settled. -/
lemma settled_of_lt (hi : TxnInv sys) (hc : .committed c ∈ sys.hist)
    (hlt : ∀ r txn, sys.sessions r = some ⟨txn, .running⟩ → c < r)
    (hact : ∀ r txn, sys.sessions r = some ⟨txn, .running⟩ → c ∉ txn.activeSnapshot) : Settled sys c :=
  ⟨hc, fun r txn hr => (committedBefore_iff hi hr hc).2 ⟨hlt r txn hr, hact r txn hr⟩⟩

end

end MiniDb
