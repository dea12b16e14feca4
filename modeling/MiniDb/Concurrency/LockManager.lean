import MiniDb.Common.Defs
import Mathlib.Logic.Function.Basic
import Mathlib.Tactic

/-!
# Record locks

The lock table for records: each record has a list of requests, in the order in which they were
made.  `lock_record` grants a request when its mode is compatible with every granted request of
another transaction.

All data-changing statements ask for record locks in the mode `rowExclusive`, and that mode is
compatible with itself.  `lockRecord_rowExclusive` says what follows: such a request is granted at
once, whoever else holds the record.
-/

namespace MiniDb

open List

inductive LockMode where
  | accessShare
  | rowExclusive
  | exclusive
  | accessExclusive
  deriving DecidableEq, Repr

/-- The strength of a mode, in the order of the source's enumeration. -/
def LockMode.rank : LockMode → ℕ
  | .accessShare => 0
  | .rowExclusive => 1
  | .exclusive => 2
  | .accessExclusive => 3

/-- The compatibility matrix, `kLockCompatibility[held][requested]`. -/
def isCompatible : LockMode → LockMode → Bool
  | .accessShare, .accessExclusive => false
  | .accessShare, _ => true
  | .rowExclusive, .accessShare => true
  | .rowExclusive, .rowExclusive => true
  | .rowExclusive, _ => false
  | .exclusive, .accessShare => true
  | .exclusive, _ => false
  | .accessExclusive, _ => false

structure LockRequest where
  txnId : ℕ
  mode : LockMode
  granted : Bool
  deriving DecidableEq, Repr

structure LockManager where
  recordLocks : RecordId → List LockRequest

/-- What `lock_record` comes to: granted at once, queued behind an incompatible holder, or refused
because the transaction holds a weaker lock on the record already. -/
inductive LockResult where
  | granted (lm : LockManager)
  | waiting (lm : LockManager)
  | conflict

namespace LockManager

def empty : LockManager := ⟨fun _ => []⟩

def canGrant (requests : List LockRequest) (txnId : ℕ) (mode : LockMode) : Bool :=
  requests.all fun req =>
    !req.granted || req.txnId == txnId || isCompatible req.mode mode && isCompatible mode req.mode

/-- `grant_pending`: one pass over the requests, each tested against the grants made so far. -/
def grantPending (done : List LockRequest) : List LockRequest → List LockRequest
  | [] => done
  | req :: rest =>
    let req' := if req.granted then req
      else { req with granted := canGrant (done ++ req :: rest) req.txnId req.mode }
    grantPending (done ++ [req']) rest

/-- `lock_record`, up to the point where the caller has its lock or waits for it. -/
def lockRecord (lm : LockManager) (txnId : ℕ) (rid : RecordId) (mode : LockMode) : LockResult :=
  let requests := lm.recordLocks rid
  match requests.find? fun req => req.txnId == txnId && req.granted with
  | some req => if mode.rank ≤ req.mode.rank then .granted lm else .conflict
  | none =>
    let requests' := grantPending [] (requests ++ [⟨txnId, mode, false⟩])
    let lm' : LockManager := ⟨Function.update lm.recordLocks rid requests'⟩
    if requests'.any fun req => req.txnId == txnId && req.mode == mode && req.granted then
      .granted lm'
    else .waiting lm'

/-- `unlock_all`, for the record locks of a transaction. -/
def unlockAll (lm : LockManager) (txnId : ℕ) : LockManager :=
  ⟨fun rid => grantPending [] ((lm.recordLocks rid).filter fun req => req.txnId ≠ txnId)⟩

/-! ## Row-exclusive locks exclude nobody -/

/-- Every request in the lock table is row-exclusive. -/
def OnlyRowExclusive (lm : LockManager) : Prop :=
  ∀ rid, ∀ req ∈ lm.recordLocks rid, req.mode = .rowExclusive

lemma canGrant_rowExclusive {requests : List LockRequest}
    (h : ∀ req ∈ requests, req.mode = .rowExclusive) (txnId : ℕ) :
    canGrant requests txnId .rowExclusive = true := by
  unfold canGrant
  rw [all_eq_true]
  intro req hreq
  rw [h req hreq]
  simp [isCompatible]

lemma grantPending_rowExclusive {rest : List LockRequest} :
    ∀ {done : List LockRequest}, (∀ req ∈ done ++ rest, req.mode = .rowExclusive) →
      grantPending done rest = done ++ rest.map fun req => { req with granted := true } := by
  induction rest with
  | nil => intro done _; simp [grantPending]
  | cons req rest ih =>
    intro done h
    have hreq : req.mode = .rowExclusive := h req (by simp)
    have hone : (if req.granted then req
        else { req with granted := canGrant (done ++ req :: rest) req.txnId req.mode }) =
        { req with granted := true } := by
      split
      · next hg => cases req; simp_all
      · rw [hreq, canGrant_rowExclusive h]
    rw [grantPending]
    simp only [hone]
    rw [ih]
    · simp
    · intro r hr
      simp only [mem_append, mem_cons, not_mem_nil, or_false] at hr
      rcases hr with (hr | rfl) | hr
      · exact h r (by simp [hr])
      · exact hreq
      · exact h r (by simp [hr])

/-- **A row-exclusive request is granted at once**, whoever else holds the record. -/
theorem lockRecord_rowExclusive {lm : LockManager} (h : OnlyRowExclusive lm) (txnId : ℕ) (rid : RecordId) :
    ∃ lm', lm.lockRecord txnId rid .rowExclusive = .granted lm' ∧ OnlyRowExclusive lm' := by
  unfold lockRecord
  simp only
  split
  · next req hreq =>
    have hmode := h rid req (mem_of_find?_eq_some hreq)
    exact ⟨lm, by rw [hmode]; rfl, h⟩
  · have hall : ∀ req ∈ [] ++ (lm.recordLocks rid ++ [⟨txnId, .rowExclusive, false⟩]), req.mode = .rowExclusive := by
      intro req hreq
      simp only [nil_append, mem_append, mem_singleton] at hreq
      rcases hreq with hreq | rfl
      · exact h rid req hreq
      · rfl
    rw [grantPending_rowExclusive hall]
    refine ⟨_, if_pos (by simp), fun r req hreq => ?_⟩
    simp only at hreq
    by_cases hr : r = rid
    · subst hr
      rw [Function.update_self] at hreq
      simp only [nil_append, mem_map] at hreq
      obtain ⟨req', hreq', rfl⟩ := hreq
      exact hall req' (by simpa using hreq')
    · rw [Function.update_of_ne hr] at hreq
      exact h r req hreq

end LockManager

end MiniDb
