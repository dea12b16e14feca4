import MiniDb.Database.EngineInv
import MiniDb.Database.Verdict

/-!
# Pruning at commit

A commit prunes the versions it deleted if its own id is below the oldest running id.  That test compares ids, while a
reader asks whether the deleter was in its active list when it began: a reader that began while the deleter was
running has a larger id and still sees the version that the commit prunes.

`PruneSafe` excludes just this, and `prunedVersions_invisible` says that then no running transaction sees a pruned
version.
-/

namespace MiniDb

open TransactionManager Option Engine

variable {β κ : Type*}

/-- At a step that prunes or redirects a version, no running transaction sees that version. -/
def PrunesInvisible (e : Engine β κ) : Action β → Prop
  | .prune t lsn => ∀ x o rid rest, e.sys.sessions t = some x → x.phase = .recorded o →
      e.pruneQueue t = rid :: rest → e.heap.pruneObsoleteVersion rid o t lsn ≠ none →
      ∀ tup, e.heap.tupleAt rid = some tup →
        ∀ r txn, e.running r = some txn → e.sys.tm.isVisible tup.xmin tup.xmax txn = false
  | _ => True

/-- The next version to be pruned, if the horizon has passed its deleter: no running transaction
has created it, and none that had the deleter in its active list counts the creator as
committed. -/
def PruneSafe (e : Engine β κ) : Action β → Prop
  | .prune t _ => ∀ x o rid rest, e.sys.sessions t = some x → x.phase = .recorded o → t < o →
      e.pruneQueue t = rid :: rest → ∀ tup, e.heap.tupleAt rid = some tup → tup.xmax = t →
        ∀ r txn, e.running r = some txn → tup.xmin ≠ r ∧
          (t ∈ txn.activeSnapshot → tup.xmin = kFrozenTxnId ∨ e.sys.tm.countsAsCommitted tup.xmin txn = false)
  | _ => True

lemma prunesInvisible_of_safe {e : Engine β κ} (hi : EngineInv e) {a : Action β}
    (hsafe : PruneSafe e a) : PrunesInvisible e a := by
  cases a with
  | prune t lsn =>
    intro x o rid rest hx hph hq hpruned tup htup r txn hr
    obtain ⟨hp, hpr⟩ := ne_none_iff_exists'.1 hpruned
    obtain ⟨ht0, hto, tup', htup', hxmax, -⟩ := HeapFile.pruneObsoleteVersion_eq_some hpr
    obtain rfl : tup = tup' := some.inj (htup.symm.trans htup')
    obtain ⟨hne, hact⟩ := hsafe x o rid rest hx hph hto hq tup htup hxmax r txn hr
    have hr' := running_eq_some.1 hr
    have hid : txn.id = r := (hi.txn.session_ok r _ hr').id_eq
    have hcom : .committed t ∈ e.sys.hist := by
      have := (hi.txn.session_ok t x hx).phase
      rwa [hph] at this
    -- the horizon is below every running id
    have htr : t < r :=
      hto.trans_le ((hi.horizon t x o hx (by rw [hph]; rfl)).2 r txn hr')
    rw [hxmax]
    refine isVisible_eq_false ht0 (hid ▸ hne) ?_
    by_cases hmem : t ∈ txn.activeSnapshot
    · exact (hact hmem).imp_right Or.inl
    · exact Or.inr (Or.inr (countsAsCommitted_of_before hi.txn hr'
        ((committedBefore_iff hi.txn hr' hcom).2 ⟨htr, hmem⟩)))
  | _ => trivial

/-- **Pruning at commit is safe when no reader still counts on the version.**  In every run whose
pruning steps are safe, no running transaction sees a version at the moment it is pruned. -/
theorem prunedVersions_invisible [DecidableEq κ] {slotCount next : ℕ} {log : Option TxnStatusLog}
    (hnext : 0 < next) (hlog : ∀ l ∈ log, ∀ c, next ≤ c → l.states c = none)
    (keys : List (β → κ)) {acts : List (Action β)}
    (hsafe : StepsMeet Engine.step PruneSafe (Engine.init (TxnSystem.init slotCount next log) keys) acts) :
    StepsMeet Engine.step PrunesInvisible
      (Engine.init (TxnSystem.init slotCount next log) keys) acts := by
  refine .of_invariant (I := EngineInv) ?_ ?_ (.init hnext hlog keys) hsafe
  · intro e a e' hi _ h
    exact hi.step h
  · intro e a hi hs
    exact prunesInvisible_of_safe hi hs

/-- Transaction 1 inserts a row and commits, transaction 3 deletes it and commits; transaction 5
begins before the row is pruned. -/
def deleteBeforeReader : List (Action ℕ) :=
  [.txn .begin] ++ insertStmt 1 7 40 1 ++ commitTxn 1 ++ [.txn (.finish 1)] ++
    [.txn .begin] ++ deleteStmt 3 ⟨1, 0⟩ 2 ++ commitTxn 3 ++ [.txn .begin]

/-- A reader that began after the deleter had committed does not miss what is pruned. -/
theorem prunedVersions_invisible_after_commit :
    StepsMeet Engine.step PrunesInvisible
      (Engine.init (TxnSystem.init 4 1 (some TxnStatusLog.empty)) ([] : List (ℕ → ℕ)))
      (deleteBeforeReader ++ [.prune 3 3]) := by
  refine prunedVersions_invisible (by decide) TxnStatusLog.empty_unused [] (.concat (.of_forall ?_) fun m hm => ?_)
  · intro a ha e
    cases a with
    | prune t lsn =>
      revert ha
      simp [deleteBeforeReader, insertStmt, deleteStmt, commitTxn]
    | _ => trivial
  · have hi := (EngineInv.init (by decide) TxnStatusLog.empty_unused []).runs hm
    intro x o rid rest hx hph hto hq tup htup hxmax r txn hr
    have hq' := runs_eval (f := fun m => m.pruneQueue 3) (v := [⟨1, 0⟩]) (by decide +kernel) hm
    cases hq.symm.trans hq'
    have hxmin := runs_eval (f := fun m => (m.heap.tupleAt ⟨1, 0⟩).map Tuple.xmin) (v := some 1)
      (by decide +kernel) hm
    rw [htup] at hxmin
    have hxmin : tup.xmin = 1 := some.inj hxmin
    -- a running transaction, which is 5, has an empty active list
    have hact := runs_eval (f := fun m => decide (∀ ev ∈ m.sys.hist, ∀ txn ∈ m.running ev.txn,
      3 < ev.txn ∧ txn.activeSnapshot = [])) (v := true) (by decide +kernel) hm
    obtain ⟨hlt, hnil⟩ := of_decide_eq_true hact _ (hi.began hr) txn hr
    have hlt : 3 < r := hlt
    refine ⟨by omega, fun hmem => ?_⟩
    rw [hnil] at hmem
    cases hmem

/-- Transaction 1 inserts a row; transaction 3 deletes it while transaction 4, which began after 3,
is running; 3 commits. -/
def deleteUnderReader : List (Action ℕ) :=
  [.txn .begin] ++ insertStmt 1 7 40 1 ++ commitTxn 1 ++ [.txn (.finish 1)] ++
    [.txn .begin, .txn .begin] ++ deleteStmt 3 ⟨1, 0⟩ 2 ++ commitTxn 3

/-- Transaction 4 sees the row that the commit of transaction 3 prunes. -/
theorem pruned_under_reader :
    ¬ StepsMeet Engine.step PrunesInvisible
      (Engine.init (TxnSystem.init 4 1 (some TxnStatusLog.empty)) ([] : List (ℕ → ℕ)))
      (deleteUnderReader ++ [.prune 3 3]) := by
  intro h
  obtain ⟨m, ⟨hx, hq, hpr, hvis⟩, hp⟩ := h.eval (R := fun m =>
    (m.sys.sessions 3).map Session.phase = some (.recorded 4) ∧ m.pruneQueue 3 = [⟨1, 0⟩] ∧
    (m.heap.pruneObsoleteVersion ⟨1, 0⟩ 4 3 3).isSome = true ∧ ((m.heap.tupleAt ⟨1, 0⟩).bind fun tup =>
      (m.running 4).map fun txn => m.sys.tm.isVisible tup.xmin tup.xmax txn) = some true) (by decide +kernel)
  obtain ⟨x, hx, hph⟩ := map_eq_some_iff.1 hx
  obtain ⟨tup, htup, hvis⟩ := bind_eq_some_iff.1 hvis
  obtain ⟨txn, hr, hvis⟩ := map_eq_some_iff.1 hvis
  have hfalse := hp x 4 ⟨1, 0⟩ [] hx hph hq (isSome_iff_ne_none.1 hpr) tup htup 4 txn hr
  rw [hvis] at hfalse
  cases hfalse

end MiniDb
