import MiniDb.Concurrency.LockManager
import MiniDb.Core.Search

/-!
# Deadlock detection

`detect_deadlock` searches the wait-for graph from a transaction for an edge back to it; the edges are
read off the request queues of the tables at each node.  `detectDeadlock_exact` says that it answers, and
that it answers yes for the transactions on a cycle and for no others.
-/

namespace MiniDb

open List Relation

section

variable (objects : List (List LockRequest))

/-- `find_holder_for`: the owners of the granted requests that stand in the way of the waiter. -/
def findHolderFor (waiter : ℕ) : List ℕ :=
  objects.flatMap fun requests =>
    requests.flatMap fun req =>
      if !req.granted && req.txnId == waiter then
        (requests.filter fun held => held.granted && !isCompatible held.mode req.mode).map LockRequest.txnId
      else []

/-- `detect_deadlock`, in at most so many rounds of its loop. -/
def detectDeadlock (txnId rounds : ℕ) : Option Bool :=
  search (findHolderFor objects) txnId rounds ∅ [txnId]

/-- The first transaction has an ungranted request on an object on which the second has a granted one
that is not compatible with it. -/
def WaitsFor (waiter holder : ℕ) : Prop :=
  ∃ requests ∈ objects, ∃ req ∈ requests, ∃ held ∈ requests, req.granted = false ∧ req.txnId = waiter ∧
    held.granted = true ∧ isCompatible held.mode req.mode = false ∧ held.txnId = holder

end

variable {objects : List (List LockRequest)}

lemma mem_findHolderFor {waiter holder : ℕ} :
    holder ∈ findHolderFor objects waiter ↔ WaitsFor objects waiter holder := by
  simp only [findHolderFor, WaitsFor, mem_flatMap]
  refine exists_congr fun requests => and_congr_right fun _ => exists_congr fun req => and_congr_right fun _ => ?_
  by_cases hreq : req.granted = false ∧ req.txnId = waiter
  · simp [hreq, and_assoc]
  · simp [← and_assoc, hreq]

lemma WaitsFor.mem {waiter holder : ℕ} (h : WaitsFor objects waiter holder) :
    holder ∈ (objects.flatten.map LockRequest.txnId).toFinset := by
  obtain ⟨requests, hobj, -, -, held, hheld, -, -, -, -, rfl⟩ := h
  exact mem_toFinset.2 (mem_map_of_mem (mem_flatten_of_mem hobj hheld))

/-- **Deadlock detection is exact**: with enough rounds it answers, and the answer is whether the
transaction is on a cycle of the wait-for graph. -/
theorem detectDeadlock_exact (objects : List (List LockRequest)) (txnId : ℕ) :
    ∃ answer, (∃ enough, ∀ rounds ≥ enough, detectDeadlock objects txnId rounds = some answer) ∧
      (answer = true ↔ TransGen (WaitsFor objects) txnId txnId) := by
  set nodes := insert txnId (objects.flatten.map LockRequest.txnId).toFinset
  set enough := 2 + ∑ x ∈ nodes, (findHolderFor objects x).length with henough
  have hsome : ∀ rounds ≥ enough, (detectDeadlock objects txnId rounds).isSome = true := by
    intro rounds hrounds
    refine search_isSome nodes (fun x _ y hy => ?_) (by simp [nodes]) ?_
    · exact Finset.mem_insert_of_mem (mem_findHolderFor.1 hy).mem
    · rw [Finset.sdiff_empty, length_singleton]
      omega
  have hright : ∀ rounds b, detectDeadlock objects txnId rounds = some b →
      (b = true ↔ TransGen (WaitsFor objects) txnId txnId) := by
    intro rounds b hb
    have h := search_eq_some (by simpa using ReflTransGen.refl) (by simp) (by simp) hb
    simpa only [mem_findHolderFor] using h
  obtain ⟨b, hb⟩ := Option.isSome_iff_exists.1 (hsome enough le_rfl)
  refine ⟨b, ⟨enough, fun rounds hrounds => ?_⟩, hright _ _ hb⟩
  obtain ⟨b', hb'⟩ := Option.isSome_iff_exists.1 (hsome rounds hrounds)
  have hiff : b' = true ↔ b = true := (hright _ _ hb').trans (hright _ _ hb).symm
  rw [hb', Bool.eq_iff_iff.2 hiff]

end MiniDb
