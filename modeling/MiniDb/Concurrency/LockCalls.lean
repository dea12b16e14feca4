import MiniDb.Concurrency.KeyLocks

/-!
# Calls on the lock manager that wait

The lock manager with what a call leaves behind when it gives the latch back: the queues, the lists of what each
transaction has to release, the calls that wait and the calls of `unlock_all` under way.  A step is what one call
does under the latch.

A request is granted by the caller itself, by raising the mode of a granted request, or by whoever releases a lock
on the object.  All of them keep the holders compatible: `compatible_always`.

What a transaction has to release is on its lists only once the waiting call has seen its grant; a call whose time is
up leaves a request that was granted in the meantime, and it is on no list.  `released_of_orderly`: without this, and
without `unlock_all` turning back for a transaction that has no table on its list, nothing is held after `unlock_all`.

`shows_of_runs` is the link to `LockTables`, where a call is one step and the lists are left out.
-/

namespace MiniDb

open Function List

/-- A lock object: that of a table, or one of the map that the records and keys of all tables share. -/
inductive LockTarget where
  | table (tableId : ℕ)
  | record (key : UInt64)
  deriving DecidableEq

def LockTarget.isTable : LockTarget → Bool
  | .table _ => true
  | .record _ => false

/-- What `lock_table`, `lock_record` and `lock_key` are called for. -/
inductive LockName where
  | table (tableId : ℕ)
  | record (tableId : ℕ) (rid : RecordId)
  | key (tableId : ℕ) (name : String)

def LockName.target : LockName → LockTarget
  | .table tableId => .table tableId
  | .record tableId rid => .record (recordLockKey tableId rid)
  | .key tableId name => .record (recordLockKey tableId ⟨(logicalLockKey tableId name).toNat, 0⟩)

/-- A call that waits, with its request in the queue of the object. -/
structure Waiter where
  txnId : ℕ
  target : LockTarget
  mode : LockMode
  deriving DecidableEq

/-- A call of `unlock_all` after its first section, with the tables it has still to release. -/
structure Releasing where
  txnId : ℕ
  tableIds : List ℕ
  deriving DecidableEq

structure LockSystem where
  /-- `lock_table_` and `record_locks_` -/
  objects : LockTarget → List LockRequest
  /-- `txn_locks_`; a transaction can have no entry -/
  txnLocks : ℕ → Option (List ℕ)
  txnRecordLocks : ℕ → List UInt64
  waiting : List Waiter
  releasing : List Releasing

open LockSystem

inductive LockAction where
  /-- the call up to its return or its first wait; `deadlock` is what `detect_deadlock` says, if it is asked -/
  | lock (txnId : ℕ) (name : LockName) (mode : LockMode) (deadlock : Bool)
  /-- a call that waits is woken up -/
  | wake (w : Waiter) (deadlock : Bool)
  /-- the time of a call that waits is up; `moved` says that the map of the tables has grown since -/
  | timeout (w : Waiter) (moved : Bool)
  /-- `unlock_table`, `unlock_record` or `unlock_key` -/
  | unlock (txnId : ℕ) (name : LockName)
  /-- the first section of `unlock_all` -/
  | unlockAll (txnId : ℕ)
  /-- `unlock_all` releases the next table -/
  | unlockAllTable (r : Releasing)
  /-- the last section of `unlock_all` -/
  | unlockAllRecords (txnId : ℕ)

namespace LockManager

/-- The first loop of `lock_record`: unlike `lock_table` it does not raise a mode. -/
def recordHeld (txnId : ℕ) (mode : LockMode) (requests : List LockRequest) : Option TableLockResult :=
  (requests.find? fun req => req.txnId == txnId && req.granted).map fun req =>
    if mode.rank ≤ req.mode.rank then .granted requests else .conflict

section

variable {requests requests' : List LockRequest} (h : Compatible requests)
include h

lemma Compatible.grantPending : Compatible (grantPending [] requests) :=
  (grantPending_spec requests [] (forall_mem_nil _) h).2.2

/-- A part of the queue, and more requests that are not granted. -/
lemma Compatible.mono (hsub : ∀ req ∈ requests', req.granted = true → req ∈ requests) : Compatible requests' :=
  fun r hr t ht hrg htg => h r (hsub r hr hrg) t (hsub t ht htg) hrg htg

lemma Compatible.release (txnId : ℕ) : Compatible (release requests txnId) :=
  (h.mono fun _ hreq _ => mem_of_mem_filter hreq).grantPending

lemma Compatible.giveUp (txnId : ℕ) (mode : LockMode) : Compatible (giveUp requests txnId mode) :=
  h.mono fun _ hreq _ => mem_of_mem_eraseP hreq

end

end LockManager

variable {requests' : List LockRequest}

namespace LockSystem

open LockManager

def empty : LockSystem where
  objects := fun _ => []
  txnLocks := fun _ => none
  txnRecordLocks := fun _ => []
  waiting := []
  releasing := []

section

variable (s : LockSystem)

def setObject (target : LockTarget) (requests : List LockRequest) : LockSystem :=
  { s with objects := update s.objects target requests }

/-- A list gets the object, if it is not there. -/
def addHeld {α : Type*} [DecidableEq α] (held : List α) (a : α) : List α :=
  if a ∈ held then held else held ++ [a]

/-- The object is put on the list of the transaction. -/
def remember (txnId : ℕ) : LockTarget → LockSystem
  | .table tableId =>
    let held := addHeld ((s.txnLocks txnId).getD []) tableId
    { s with txnLocks := update s.txnLocks txnId (some held) }
  | .record key =>
    let held := addHeld (s.txnRecordLocks txnId) key
    { s with txnRecordLocks := update s.txnRecordLocks txnId held }

/-- What the call looks for in the queue. -/
def hasGrant (requests : List LockRequest) (w : Waiter) : Bool :=
  requests.any fun req => req.txnId == w.txnId && req.mode == w.mode && req.granted

/-- The end of a call without its lock: a request that is not granted is taken back. -/
def abandon (w : Waiter) : LockSystem :=
  s.setObject w.target (giveUp (s.objects w.target) w.txnId w.mode)

/-- The body of the loop: the call returns with its lock, returns because of a deadlock, or waits.  Only `lock_table`
looks for deadlocks. -/
def attempt (w : Waiter) (deadlock : Bool) : LockSystem :=
  let s' := s.setObject w.target (grantPending [] (s.objects w.target))
  if hasGrant (s'.objects w.target) w then s'.remember w.txnId w.target
  else if w.target.isTable && deadlock then s'.abandon w
  else { s' with waiting := w :: s'.waiting }

/-- The check whether the transaction holds the object already. -/
def heldAlready (target : LockTarget) (txnId : ℕ) (mode : LockMode) (requests : List LockRequest) :
    Option TableLockResult :=
  match target with
  | .table _ => lockHeld txnId mode [] requests
  | .record _ => recordHeld txnId mode requests

/-- `unlock_table`, and `unlock_record`, which leaves the object on the list. -/
def unlock (txnId : ℕ) (target : LockTarget) : LockSystem :=
  let s' := s.setObject target (release (s.objects target) txnId)
  match target with
  | .table tableId =>
    { s' with txnLocks := update s'.txnLocks txnId ((s'.txnLocks txnId).map (·.filter (· ≠ tableId))) }
  | .record _ => s'

def step : LockAction → Option LockSystem
  | .lock txnId name mode deadlock =>
    let requests := s.objects name.target
    match heldAlready name.target txnId mode requests with
    | some result => some (s.setObject name.target (TableLockResult.requests requests result))
    | none =>
      some ((s.setObject name.target (requests ++ [⟨txnId, mode, false⟩])).attempt ⟨txnId, name.target, mode⟩ deadlock)
  | .wake w deadlock =>
    if w ∈ s.waiting then some ({ s with waiting := s.waiting.erase w }.attempt w deadlock) else none
  | .timeout w moved =>
    if w ∈ s.waiting then
      let s' := { s with waiting := s.waiting.erase w }
      -- `lock_table` goes on with the pointer it had before it waited, into storage that the map has given back: this
      -- is undefined behaviour, and stands here as finding nothing
      if w.target.isTable && moved then some s' else some (s'.abandon w)
    else none
  | .unlock txnId name => some (s.unlock txnId name.target)
  | .unlockAll txnId =>
    match s.txnLocks txnId with
    | none => some s
    | some tableIds => some { s with releasing := ⟨txnId, tableIds⟩ :: s.releasing }
  | .unlockAllTable r =>
    match r with
    | ⟨_, []⟩ => none
    | ⟨txnId, tableId :: tableIds⟩ =>
      if r ∈ s.releasing then
        let s' := s.unlock txnId (.table tableId)
        some { s' with releasing := ⟨txnId, tableIds⟩ :: s'.releasing.erase r }
      else none
  | .unlockAllRecords txnId =>
    if ⟨txnId, []⟩ ∈ s.releasing then
      let s' := (s.txnRecordLocks txnId).foldl (fun s key => s.unlock txnId (.record key)) s
      some { s' with
        txnRecordLocks := update s'.txnRecordLocks txnId []
        txnLocks := update s'.txnLocks txnId none
        releasing := s'.releasing.erase ⟨txnId, []⟩ }
    else none

/-! ## Holders are compatible -/

/-- Every lock object has compatible holders. -/
def AllCompatible : Prop := ∀ target, Compatible (s.objects target)

end

section

variable {requests : List LockRequest} {s s' : LockSystem}

/-- What a transaction does with an object that it holds already: nothing, or it raises its mode. -/
lemma heldAlready_cases (target : LockTarget) (txnId : ℕ) (mode : LockMode) (requests : List LockRequest) :
    (heldAlready target txnId mode requests = none ∧ ∀ req ∈ requests, req.txnId = txnId → req.granted = false) ∨
    ∃ result, heldAlready target txnId mode requests = some result ∧
      (TableLockResult.requests requests result = requests ∨
        ∃ l req r, requests = l ++ req :: r ∧ req.txnId = txnId ∧ req.granted = true ∧
          (∀ other ∈ l ++ r, other.granted = true → isCompatible other.mode mode = true) ∧
          TableLockResult.requests requests result = l ++ { req with mode := mode } :: r) := by
  cases target with
  | table tableId =>
    rcases lockHeld_cases txnId mode requests [] with ⟨hnone, hpend⟩ | ⟨l, req, r, heq, hid, hgr, hres⟩
    · exact .inl ⟨hnone, hpend⟩
    · right
      rcases hres with ⟨-, hres⟩ | ⟨-, hothers, hres⟩ | ⟨-, -, hres⟩
      · exact ⟨_, hres, .inl rfl⟩
      · exact ⟨_, hres, .inr ⟨l, req, r, heq, hid, hgr, hothers, rfl⟩⟩
      · exact ⟨_, hres, .inl rfl⟩
  | record key =>
    cases hfind : requests.find? fun req => req.txnId == txnId && req.granted with
    | none =>
      refine .inl ⟨by rw [heldAlready, recordHeld, hfind]; rfl, fun req hreq hid => ?_⟩
      have hno := find?_eq_none.1 hfind req hreq
      simpa [hid] using hno
    | some req =>
      refine .inr ⟨_, by rw [heldAlready, recordHeld, hfind]; rfl, .inl ?_⟩
      dsimp only
      split_ifs <;> rfl

lemma objects_setObject (s : LockSystem) (target : LockTarget) (requests : List LockRequest)
    (target' : LockTarget) :
    (s.setObject target requests).objects target' = if target' = target then requests else s.objects target' :=
  update_apply ..

section

variable (h : s.AllCompatible)
include h

lemma AllCompatible.setObject (target : LockTarget) (hr : Compatible requests) :
    (s.setObject target requests).AllCompatible := by
  intro target'
  rw [objects_setObject]
  split_ifs
  · exact hr
  · exact h target'

omit h in
@[simp] lemma objects_remember (s : LockSystem) (txnId : ℕ) (target : LockTarget) :
    (s.remember txnId target).objects = s.objects := by
  cases target <;> rfl

omit h in
@[simp] lemma waiting_remember (s : LockSystem) (txnId : ℕ) (target : LockTarget) :
    (s.remember txnId target).waiting = s.waiting := by
  cases target <;> rfl

lemma AllCompatible.attempt (w : Waiter) (deadlock : Bool) : (s.attempt w deadlock).AllCompatible := by
  have hpass := h.setObject w.target (h w.target).grantPending
  rw [LockSystem.attempt]
  split_ifs
  · intro target
    rw [objects_remember]
    exact hpass target
  · exact hpass.setObject w.target ((hpass w.target).giveUp w.txnId w.mode)
  · exact hpass

lemma AllCompatible.unlock (txnId : ℕ) (target : LockTarget) : (s.unlock txnId target).AllCompatible := by
  have hrel := h.setObject target ((h target).release txnId)
  cases target with
  | table tableId => exact hrel
  | record key => exact hrel

lemma AllCompatible.unlockRecords (txnId : ℕ) (keys : List UInt64) :
    (keys.foldl (fun s key => s.unlock txnId (.record key)) s).AllCompatible :=
  foldlRecOn keys _ h fun _ h key _ => h.unlock txnId (.record key)

lemma AllCompatible.step {a : LockAction} (hs : s.step a = some s') : s'.AllCompatible := by
  cases a <;> simp only [LockSystem.step] at hs
  case lock txnId name mode deadlock =>
    rcases heldAlready_cases name.target txnId mode (s.objects name.target) with
      ⟨hnone, -⟩ | ⟨result, hsome, hkept | ⟨l, req, r, heq, -, -, hothers, hraised⟩⟩
    · rw [hnone] at hs
      cases hs
      refine (h.setObject _ ((h name.target).mono fun req hreq hg => ?_)).attempt _ _
      rcases mem_append.1 hreq with hreq | hreq
      · exact hreq
      · rw [mem_singleton.1 hreq] at hg
        cases hg
    · rw [hsome] at hs
      cases hs
      rw [hkept]
      exact h.setObject _ (h name.target)
    · rw [hsome] at hs
      cases hs
      rw [hraised]
      have hcomp := h name.target
      rw [heq] at hcomp
      exact h.setObject _ (hcomp.replace fun other ho hog _ => hothers other ho hog)
  case wake w deadlock =>
    split_ifs at hs
    cases hs
    exact .attempt (s := { s with waiting := s.waiting.erase w }) h w deadlock
  case timeout w moved =>
    split_ifs at hs
    · cases hs
      exact h
    · cases hs
      exact h.setObject _ ((h w.target).giveUp w.txnId w.mode)
  case unlock txnId name =>
    cases hs
    exact h.unlock txnId name.target
  case unlockAll txnId =>
    split at hs
    · cases hs
      exact h
    · cases hs
      exact h
  case unlockAllTable r =>
    obtain ⟨txnId, tableIds⟩ := r
    cases tableIds with
    | nil => cases hs
    | cons tableId tableIds =>
      split_ifs at hs
      cases hs
      exact h.unlock txnId (.table tableId)
  case unlockAllRecords txnId =>
    split_ifs at hs
    cases hs
    exact h.unlockRecords txnId (s.txnRecordLocks txnId)

end

end

/-- **Different holders of an object are compatible**, in every interleaving, whenever the latch is free. -/
theorem compatible_always (acts : List LockAction) : Always step AllCompatible empty acts :=
  always_of_invariant (P := fun _ _ => True) (fun _ _ _ h _ hs => h.step hs) (fun _ h => h) (fun _ _ hr => nomatch hr)
    (.of_forall fun _ _ _ => trivial)

/-! ## Nothing is held after `unlock_all` -/

section

variable (s : LockSystem)

/-- No object has a granted request of the transaction. -/
def HoldsNothing (txnId : ℕ) : Prop :=
  ∀ target, ∀ req ∈ s.objects target, req.granted = true → req.txnId ≠ txnId

/-- If `unlock_all` returns with the step, nothing is held then. -/
def Released : LockAction → Prop
  | .unlockAll txnId => s.txnLocks txnId = none →
      ∀ s', s.step (.unlockAll txnId) = some s' → s'.HoldsNothing txnId
  | .unlockAllRecords txnId => ∀ s', s.step (.unlockAllRecords txnId) = some s' → s'.HoldsNothing txnId
  | _ => True

/-- The condition on a step.

* A call whose time is up has not been granted its request, and its object has not moved.
* `unlock_all` finds a list of tables, or the transaction holds no record.
* A transaction does not ask for a lock, or wait for one, while its `unlock_all` is under way, and does not ask twice
  for an object at the same time. -/
def Orderly : LockAction → Prop
  | .lock txnId name _ _ =>
    (∀ w ∈ s.waiting, w.txnId = txnId → w.target ≠ name.target) ∧ ∀ r ∈ s.releasing, r.txnId ≠ txnId
  | .timeout w moved => moved = false ∧ hasGrant (s.objects w.target) w = false
  | .unlockAll txnId => (∀ w ∈ s.waiting, w.txnId ≠ txnId) ∧
      (s.txnLocks txnId = none → ∀ key ∈ s.txnRecordLocks txnId, ∀ req ∈ s.objects (.record key),
        req.granted = true → req.txnId ≠ txnId)
  | _ => True

instance (s : LockSystem) : DecidablePred s.Orderly
  | .lock _ _ _ _ => inferInstanceAs (Decidable (_ ∧ _))
  | .wake _ _ => isTrue trivial
  | .timeout _ _ => inferInstanceAs (Decidable (_ ∧ _))
  | .unlock _ _ => isTrue trivial
  | .unlockAll txnId =>
    -- the keys of the list are looked at, not all keys
    have : Decidable (∀ key ∈ s.txnRecordLocks txnId, ∀ req ∈ s.objects (.record key),
      req.granted = true → req.txnId ≠ txnId) := decidableBAll ..
    inferInstanceAs (Decidable (_ ∧ _))
  | .unlockAllTable _ => isTrue trivial
  | .unlockAllRecords _ => isTrue trivial

def Remembered (txnId : ℕ) : LockTarget → Prop
  | .table tableId => tableId ∈ (s.txnLocks txnId).getD []
  | .record key => key ∈ s.txnRecordLocks txnId

/-- Each request is either granted and on the list, or has a call that waits for it. -/
def Accounted (target : LockTarget) (requests : List LockRequest) : Prop :=
  ∀ req ∈ requests, req.granted = true ∧ s.Remembered req.txnId target ∨ ⟨req.txnId, target, req.mode⟩ ∈ s.waiting

end

structure Inv (s : LockSystem) : Prop where
  one : ∀ target, ((s.objects target).map LockRequest.txnId).Nodup
  accounted : ∀ target, s.Accounted target (s.objects target)
  idle : ∀ r ∈ s.releasing, ∀ w ∈ s.waiting, w.txnId ≠ r.txnId
  left : ∀ r ∈ s.releasing, ∀ tableId, ∀ req ∈ s.objects (.table tableId), req.txnId = r.txnId →
    tableId ∈ r.tableIds

section

variable {requests : List LockRequest} {s s' : LockSystem} {target : LockTarget}
  {req : LockRequest} {txnId : ℕ} {w : Waiter} {mode : LockMode} {target : LockTarget} {a : LockAction}

lemma mem_grantPending {done rest : List LockRequest} (h : req ∈ grantPending done rest) :
    req ∈ done ++ rest ∨ { req with granted := false } ∈ done ++ rest := by
  induction rest generalizing done with
  | nil => exact .inl (by simpa [grantPending] using h)
  | cons first rest ih =>
    rw [grantPending] at h
    by_cases hg : first.granted = true
    · rw [if_pos hg] at h
      simpa using ih h
    · rw [if_neg hg] at h
      rw [Bool.not_eq_true] at hg
      have hfirst : ({ first with granted := false } : LockRequest) = first := by rw [← hg]
      have hback : ∀ x : LockRequest,
          x ∈ done ++ [{ first with granted := canGrant (done ++ first :: rest) first.txnId first.mode }] ++ rest →
          x ∈ done ++ first :: rest ∨ { x with granted := false } ∈ done ++ first :: rest := by
        intro x hx
        simp only [append_assoc, mem_append, mem_cons, not_mem_nil, or_false] at hx ⊢
        rcases hx with hx | rfl | hx
        · exact .inl (.inl hx)
        · exact .inr (.inr (.inl hfirst))
        · exact .inl (.inr (.inr hx))
      rcases ih h with h | h
      · exact hback req h
      · exact .inr ((hback _ h).elim id id)

lemma txnId_grantPending (requests : List LockRequest) :
    (grantPending [] requests).map LockRequest.txnId = requests.map LockRequest.txnId := by
  suffices h : ∀ done rest : List LockRequest, (grantPending done rest).map LockRequest.txnId =
      (done ++ rest).map LockRequest.txnId from h [] requests
  intro done rest
  induction rest generalizing done with
  | nil => rw [grantPending, append_nil]
  | cons req rest ih =>
    rw [grantPending, ih]
    split_ifs <;> simp

lemma Accounted.grantPending (h : s.Accounted target requests) :
    s.Accounted target (grantPending [] requests) := by
  intro req hreq
  rcases mem_grantPending hreq with hmem | hmem
  · exact h req hmem
  · rcases h _ hmem with ⟨hg, -⟩ | hw
    · cases hg
    · exact .inr hw

lemma Accounted.subset (h : s.Accounted target requests) (hsub : requests' ⊆ requests) :
    s.Accounted target requests' :=
  fun req hreq => h req (hsub hreq)

/-- A queue gets other requests of transactions that were in it. -/
lemma Inv.setObject (h : s.Inv) (hone : (requests.map LockRequest.txnId).Nodup)
    (hacc : s.Accounted target requests)
    (hsub : ∀ req ∈ requests, req.txnId ∈ (s.objects target).map LockRequest.txnId ∨
      ∀ r ∈ s.releasing, r.txnId ≠ req.txnId) : (s.setObject target requests).Inv := by
  refine ⟨fun target' => ?_, fun target' => ?_, h.idle, fun r hr tableId req hreq hid => ?_⟩
  · rw [objects_setObject]
    split_ifs
    · exact hone
    · exact h.one target'
  · rw [objects_setObject]
    split_ifs with ht
    · subst ht
      exact hacc
    · exact h.accounted target'
  · rw [objects_setObject] at hreq
    split_ifs at hreq with ht
    · rcases hsub req hreq with hmem | hno
      · obtain ⟨old, hold, hidold⟩ := mem_map.1 hmem
        refine h.left r hr tableId old ?_ (hidold.trans hid)
        rw [ht]
        exact hold
      · exact absurd hid.symm (hno r hr)
    · exact h.left r hr tableId req hreq hid

lemma Inv.grantPending (h : s.Inv) (target : LockTarget) :
    (s.setObject target (grantPending [] (s.objects target))).Inv := by
  refine h.setObject ?_ (h.accounted target).grantPending fun req hreq => .inl ?_
  · rw [txnId_grantPending]
    exact h.one target
  · rw [← txnId_grantPending]
    exact mem_map_of_mem hreq

lemma not_mem_release (h : req ∈ release requests txnId) : req.txnId ≠ txnId := by
  rcases mem_grantPending h with h | h
  · simpa using of_mem_filter h
  · simpa using of_mem_filter h

lemma Inv.release (h : s.Inv) (txnId : ℕ) (target : LockTarget) :
    (s.setObject target (release (s.objects target) txnId)).Inv := by
  refine h.setObject ?_ ((h.accounted target).subset filter_sublist.subset).grantPending fun req hreq => .inl ?_
  · rw [LockManager.release, txnId_grantPending]
    exact (h.one target).sublist (filter_sublist.map _)
  · have hmem := mem_map_of_mem (f := LockRequest.txnId) hreq
    rw [LockManager.release, txnId_grantPending] at hmem
    exact (filter_sublist.map _).subset hmem

/-- The lists, and the calls of `unlock_all` that have returned, matter only for the transactions that have requests. -/
lemma Inv.of_lists (h : s.Inv) (hobj : s'.objects = s.objects) (hwait : s'.waiting = s.waiting)
    (hreleasing : s'.releasing ⊆ s.releasing)
    (hrem : ∀ target, ∀ req ∈ s.objects target, s.Remembered req.txnId target → s'.Remembered req.txnId target) :
    s'.Inv := by
  refine ⟨fun target => ?_, fun target req hreq => ?_, fun r hr => ?_, fun r hr tableId => ?_⟩
  · rw [hobj]
    exact h.one target
  · rw [hobj] at hreq
    rw [hwait]
    exact (h.accounted target req hreq).imp_left (.imp_right (hrem target req hreq))
  · rw [hwait]
    exact h.idle r (hreleasing hr)
  · rw [hobj]
    exact h.left r (hreleasing hr) tableId

lemma Inv.drop (h : Inv { s with waiting := w :: s.waiting })
    (hdone : ∀ req ∈ s.objects w.target, req.txnId = w.txnId → req.mode = w.mode →
      req.granted = true ∧ s.Remembered w.txnId w.target) : s.Inv := by
  refine ⟨h.one, fun target req hreq => ?_, fun r hr w' hw' => h.idle r hr w' (mem_cons_of_mem w hw'), h.left⟩
  rcases h.accounted target req hreq with hrem | hwait
  · exact .inl hrem
  · rcases mem_cons.1 hwait with heq | hwait
    · subst heq
      exact .inl (hdone req hreq rfl rfl)
    · exact .inr hwait

lemma mem_addHeld {α : Type*} [DecidableEq α] {held : List α} {a b : α} :
    b ∈ addHeld held a ↔ b ∈ held ∨ b = a := by
  rw [addHeld]
  split_ifs with ha
  · exact ⟨.inl, fun h => h.elim id fun h => h ▸ ha⟩
  · simp

lemma remembered_remember (s : LockSystem) (txnId : ℕ) (target : LockTarget) (txnId' : ℕ)
    (target' : LockTarget) :
    (s.remember txnId target).Remembered txnId' target' ↔
      s.Remembered txnId' target' ∨ txnId' = txnId ∧ target' = target := by
  cases target <;> cases target' <;> by_cases h : txnId' = txnId <;> simp [remember, Remembered, h, mem_addHeld]

lemma Inv.remember (h : s.Inv) (txnId : ℕ) (target : LockTarget) : (s.remember txnId target).Inv := by
  refine h.of_lists (objects_remember ..) (waiting_remember ..) ?_
    fun _ _ _ hrem => (remembered_remember ..).2 (.inl hrem)
  cases target <;> exact .refl _

lemma Inv.remember_waiting {waiting : List Waiter} (h : Inv { s with waiting := waiting }) (txnId : ℕ)
    (target : LockTarget) : Inv { s.remember txnId target with waiting := waiting } := by
  cases target with
  | table tableId => exact h.remember txnId (.table tableId)
  | record key => exact h.remember txnId (.record key)

/-- Of a transaction with one request nothing is left that could be taken back. -/
lemma not_mem_giveUp (hone : (requests.map LockRequest.txnId).Nodup)
    (h : req ∈ giveUp requests txnId mode) : ¬ (req.txnId = txnId ∧ req.mode = mode ∧ req.granted = false) := by
  rintro ⟨hid, hmode, hg⟩
  obtain ⟨first, l, r, hbefore, hfirst, heq, herase⟩ :=
    exists_of_eraseP (p := fun req => req.txnId == txnId && req.mode == mode && !req.granted)
      (mem_of_mem_eraseP h) (by simp [hid, hmode, hg])
  rw [giveUp, herase] at h
  rcases mem_append.1 h with h | h
  · exact absurd (by simp [hid, hmode, hg]) (hbefore req h)
  · have hids : first.txnId = req.txnId := by
      simp only [Bool.and_eq_true, beq_iff_eq] at hfirst
      rw [hfirst.1.1, hid]
    rw [heq, map_append, map_cons, hids] at hone
    exact (nodup_cons.1 (nodup_append.1 hone).2.1).1 (mem_map_of_mem h)

lemma hasGrant_eq_false : hasGrant requests w = false ↔
    ∀ req ∈ requests, req.txnId = w.txnId → req.mode = w.mode → req.granted = false := by
  rw [hasGrant, any_eq_false]
  refine forall₂_congr fun req _ => ?_
  simp

lemma Inv.abandon (h : Inv { s with waiting := w :: s.waiting })
    (hno : hasGrant (s.objects w.target) w = false) : (s.abandon w).Inv := by
  have hsub : giveUp (s.objects w.target) w.txnId w.mode ⊆ s.objects w.target := eraseP_sublist.subset
  have hset : Inv (.setObject _ w.target _) := h.setObject
    ((h.one w.target).sublist (eraseP_sublist.map _)) ((h.accounted w.target).subset hsub)
    fun req hreq => .inl (mem_map_of_mem (hsub hreq))
  refine .drop (w := w) hset fun req hreq hid hmode => ?_
  rw [LockSystem.abandon, objects_setObject, if_pos rfl] at hreq
  have hpending := hasGrant_eq_false.1 hno req (hsub hreq) hid hmode
  exact absurd ⟨hid, hmode, hpending⟩ (not_mem_giveUp (h.one w.target) hreq)

/-- The body of the loop, for a call whose request is in the queue. -/
lemma Inv.attempt (h : Inv { s with waiting := w :: s.waiting }) (deadlock : Bool) :
    (s.attempt w deadlock).Inv := by
  have hpass := h.grantPending w.target
  rw [LockSystem.attempt]
  split_ifs with hgrant
  · refine .drop (w := w) ?_ fun req hreq hid hmode => ⟨?_, ?_⟩
    · have hremember := Inv.remember_waiting
        (s := s.setObject w.target (LockManager.grantPending [] (s.objects w.target))) hpass w.txnId w.target
      rw [waiting_remember]
      exact hremember
    · -- the transaction has one request in the queue, and that is granted
      rw [objects_remember] at hreq
      obtain ⟨found, hfound, hgranted⟩ := any_eq_true.1 hgrant
      simp only [Bool.and_eq_true, beq_iff_eq] at hgranted
      have hsame : req = found :=
        inj_on_of_nodup_map (hpass.one w.target) hreq hfound (hid.trans hgranted.1.1.symm)
      rw [hsame]
      exact hgranted.2
    · exact (remembered_remember ..).2 (.inr ⟨rfl, rfl⟩)
  · exact .abandon hpass (by simpa using hgrant)
  · exact hpass

section

variable (h : s.Inv)
include h

lemma Inv.unlock (txnId : ℕ) (target : LockTarget) : (s.unlock txnId target).Inv := by
  have hrelease := h.release txnId target
  cases target with
  | record key => exact hrelease
  | table tableId =>
    refine hrelease.of_lists rfl rfl (List.Subset.refl _) fun target' req hreq hrem => ?_
    cases target' with
    | record key => exact hrem
    | table tableId' =>
      by_cases hid : req.txnId = txnId
      · have hne : tableId' ≠ tableId := by
          rintro rfl
          rw [objects_setObject, if_pos rfl] at hreq
          exact not_mem_release hreq hid
        subst hid
        simp only [Remembered, LockSystem.unlock, update_self]
        simp only [Remembered] at hrem
        cases hlist : (s.setObject (.table tableId) (LockManager.release (s.objects (.table tableId)) req.txnId)).txnLocks
            req.txnId with
        | none => simp [hlist] at hrem
        | some held => simpa [hlist, hne] using hrem
      · simpa only [Remembered, LockSystem.unlock, update_of_ne hid] using hrem

lemma Inv.unlockRecords (txnId : ℕ) (keys : List UInt64) :
    (keys.foldl (fun s key => s.unlock txnId (.record key)) s).Inv :=
  foldlRecOn keys _ h fun _ h key _ => h.unlock txnId (.record key)

omit h in
/-- The last section of `unlock_all` removes the transaction from the queues of the records on its list. -/
lemma not_mem_unlockRecords (s : LockSystem) (txnId : ℕ) {keys : List UInt64}
    (h : req ∈ (keys.foldl (fun s key => s.unlock txnId (.record key)) s).objects target) (hid : req.txnId = txnId) :
    req.txnId ∈ (s.objects target).map LockRequest.txnId ∧ ∀ key ∈ keys, target ≠ .record key := by
  induction keys generalizing s with
  | nil => exact ⟨mem_map_of_mem h, fun _ hk => nomatch hk⟩
  | cons key keys ih =>
    obtain ⟨hmem, hrest⟩ := ih (s.unlock txnId (.record key)) h
    obtain ⟨req', hreq', heq⟩ := mem_map.1 hmem
    rw [unlock, objects_setObject] at hreq'
    split_ifs at hreq' with ht
    · exact absurd (heq.trans hid) (not_mem_release hreq')
    · exact ⟨heq ▸ mem_map_of_mem hreq', forall_mem_cons.2 ⟨ht, hrest⟩⟩

/-- What `unlock_all` leaves when it is through: no request of the transaction. -/
lemma Inv.not_mem_of_unlockRecords (hr : ⟨txnId, []⟩ ∈ s.releasing)
    (hreq : req ∈ ((s.txnRecordLocks txnId).foldl (fun s key => s.unlock txnId (.record key)) s).objects target) :
    req.txnId ≠ txnId := by
  intro hid
  obtain ⟨hmem, hother⟩ := not_mem_unlockRecords s txnId hreq hid
  obtain ⟨req', hreq', heq⟩ := mem_map.1 hmem
  have hid' : req'.txnId = txnId := heq.trans hid
  cases target with
  | table tableId => exact absurd (h.left _ hr tableId req' hreq' hid') not_mem_nil
  | record key =>
    rcases h.accounted (.record key) req' hreq' with ⟨-, hrem⟩ | hwait
    · rw [hid'] at hrem
      exact hother key hrem rfl
    · exact h.idle _ hr _ hwait hid'

lemma Inv.lock {name : LockName} {deadlock : Bool}
    (hord : s.Orderly (.lock txnId name mode deadlock)) (hs : s.step (.lock txnId name mode deadlock) = some s') :
    s'.Inv := by
  rw [step] at hs
  have hrecorded : ∀ req ∈ s.objects name.target, req.txnId = txnId →
      req.granted = true ∧ s.Remembered req.txnId name.target := by
    intro req hreq hid
    rcases h.accounted name.target req hreq with hrem | hwait
    · exact hrem
    · exact absurd rfl (hord.1 _ hwait hid)
  rcases heldAlready_cases name.target txnId mode (s.objects name.target) with
    ⟨hnone, hfree⟩ | ⟨result, hsome, hkept | ⟨l, req, r, heq, hid, hgr, -, hraised⟩⟩
  · rw [hnone] at hs
    cases hs
    refine .attempt ?_ deadlock
    have hnew : Inv { s with waiting := ⟨txnId, name.target, mode⟩ :: s.waiting } := by
      refine ⟨h.one, fun target req hreq => ?_, fun r hr => forall_mem_cons.2 ⟨?_, h.idle r hr⟩, h.left⟩
      · exact (h.accounted target req hreq).imp_right (mem_cons_of_mem _)
      · exact fun heq => hord.2 r hr heq.symm
    refine hnew.setObject ?_ ?_ fun req hreq => ?_
    · rw [map_append, nodup_append]
      refine ⟨h.one name.target, by simp, ?_⟩
      rintro a ha b hb rfl
      obtain ⟨req, hreq, hid⟩ := mem_map.1 ha
      have hid' : req.txnId = txnId := by simpa [hid] using hb
      have := hfree req hreq hid'
      rw [(hrecorded req hreq hid').1] at this
      cases this
    · intro req hreq
      rcases mem_append.1 hreq with hreq | hreq
      · exact hnew.accounted name.target req hreq
      · rw [mem_singleton.1 hreq]
        exact .inr mem_cons_self
    · rcases mem_append.1 hreq with hreq | hreq
      · exact .inl (mem_map_of_mem hreq)
      · rw [mem_singleton.1 hreq]
        exact .inr hord.2
  · rw [hsome] at hs
    cases hs
    rw [hkept]
    exact h.setObject (h.one _) (h.accounted _) fun req hreq => .inl (mem_map_of_mem hreq)
  · rw [hsome] at hs
    cases hs
    rw [hraised]
    have hids : (l ++ { req with mode := mode } :: r).map LockRequest.txnId =
        (s.objects name.target).map LockRequest.txnId := by
      rw [heq]
      simp
    refine h.setObject (by rw [hids]; exact h.one _) (fun x hx => ?_) fun x hx => .inl ?_
    · rw [heq] at hrecorded
      have hold := h.accounted name.target
      rw [heq] at hold
      rcases mem_append.1 hx with hx | hx
      · exact hold x (mem_append_left _ hx)
      · rcases mem_cons.1 hx with rfl | hx
        · exact .inl (hrecorded req (by simp) hid)
        · exact hold x (mem_append_right _ (mem_cons_of_mem _ hx))
    · rw [← hids]
      exact mem_map_of_mem hx

lemma Inv.erase (hw : w ∈ s.waiting) : Inv { s with waiting := w :: s.waiting.erase w } := by
  have hperm : ∀ w', w' ∈ w :: s.waiting.erase w ↔ w' ∈ s.waiting := fun w' => (perm_cons_erase hw).mem_iff.symm
  refine ⟨h.one, fun target req hreq => ?_, fun r hr w' hw' => h.idle r hr w' ((hperm w').1 hw'), h.left⟩
  exact (h.accounted target req hreq).imp_right (hperm _).2

lemma Inv.step (hord : s.Orderly a) (hs : s.step a = some s') : s'.Inv := by
  cases a <;> simp only [step] at hs
  case lock txnId name mode deadlock => exact h.lock hord hs
  case wake w deadlock =>
    split_ifs at hs with hw
    cases hs
    exact .attempt (h.erase hw) deadlock
  case timeout w moved =>
    split_ifs at hs with hw hmoved
    · rw [hord.1, Bool.and_false] at hmoved
      cases hmoved
    cases hs
    exact .abandon (s := { s with waiting := s.waiting.erase w }) (h.erase hw) hord.2
  case unlock txnId name =>
    cases hs
    exact h.unlock txnId name.target
  case unlockAll txnId =>
    split at hs
    · cases hs
      exact h
    · next tableIds hlist =>
      cases hs
      refine ⟨h.one, h.accounted, forall_mem_cons.2 ⟨hord.1, h.idle⟩, forall_mem_cons.2 ⟨?_, h.left⟩⟩
      intro tableId req hreq hid
      rcases h.accounted (.table tableId) req hreq with ⟨-, hrem⟩ | hwait
      · simpa [Remembered, hid, hlist] using hrem
      · exact absurd hid (hord.1 _ hwait)
  case unlockAllTable r =>
    obtain ⟨txnId, tableIds⟩ := r
    cases tableIds with
    | nil => cases hs
    | cons tableId tableIds =>
      split_ifs at hs with hr
      cases hs
      have hunlock := h.unlock txnId (.table tableId)
      refine ⟨hunlock.one, hunlock.accounted, forall_mem_cons.2 ⟨fun w hw => h.idle _ hr w hw, fun r' hr' =>
        hunlock.idle r' (mem_of_mem_erase hr')⟩, forall_mem_cons.2 ⟨?_, fun r' hr' =>
        hunlock.left r' (mem_of_mem_erase hr')⟩⟩
      intro tableId' req hreq hid
      have hleft := hunlock.left _ hr tableId' req hreq hid
      rcases mem_cons.1 hleft with rfl | hmem
      · -- the transaction has just left this queue
        have hreq' : req ∈ LockManager.release (s.objects (.table tableId')) txnId := by
          simpa [LockSystem.unlock, LockSystem.setObject] using hreq
        exact absurd hid (not_mem_release hreq')
      · exact hmem
  case unlockAllRecords txnId =>
    split_ifs at hs with hr
    cases hs
    refine (h.unlockRecords txnId _).of_lists rfl rfl (erase_sublist.subset) fun target req hreq hrem => ?_
    have hid := h.not_mem_of_unlockRecords hr hreq
    cases target with
    | table tableId | record key => simpa [Remembered, update_of_ne hid] using hrem

lemma Inv.released (hord : s.Orderly a) : s.Released a := by
  cases a with
  | unlockAll txnId =>
    intro hnone s' hs target req hreq hg hid
    simp only [LockSystem.step, hnone] at hs
    cases hs
    rcases h.accounted target req hreq with ⟨-, hrem⟩ | hwait
    · rw [hid] at hrem
      cases target with
      | table tableId => simp [Remembered, hnone] at hrem
      | record key => exact hord.2 hnone key hrem req hreq hg hid
    · exact hord.1 _ hwait hid
  | unlockAllRecords txnId =>
    intro s' hs target req hreq _
    simp only [LockSystem.step] at hs
    split_ifs at hs with hr
    cases hs
    exact h.not_mem_of_unlockRecords hr hreq
  | _ => trivial

end

lemma inv_empty : empty.Inv where
  one := fun _ => nodup_nil
  accounted := fun _ _ hreq => nomatch hreq
  idle := fun _ hr => nomatch hr
  left := fun _ hr => nomatch hr

end

/-- **Nothing is held after `unlock_all`**, in every interleaving in which no grant meets a call whose time is up and
`unlock_all` does not turn back. -/
theorem released_of_orderly {acts : List LockAction} (hord : StepsMeet step Orderly empty acts) :
    StepsMeet step Released empty acts :=
  StepsMeet.of_invariant (fun _ _ _ h ho hs => h.step ho hs) (fun _ _ h ho => h.released ho) inv_empty hord

/-- Two transactions wait for a third one; the time of the first of them is up, and the other gets the table. -/
theorem released_after_wait :
    StepsMeet step Released empty
      [.lock 1 (.table 5) .accessExclusive false, .lock 2 (.table 5) .rowExclusive false,
        .lock 3 (.table 5) .rowExclusive false, .timeout ⟨2, .table 5, .rowExclusive⟩ false, .unlockAll 1,
        .unlockAllTable ⟨1, [5]⟩, .unlockAllRecords 1, .wake ⟨3, .table 5, .rowExclusive⟩ false, .unlockAll 2,
        .unlockAll 3, .unlockAllTable ⟨3, [5]⟩, .unlockAllRecords 3] :=
  released_of_orderly (by decide)

/-- A transaction waits for a table, its time is up, and before it has the latch again the holder releases the
table. -/
def lateGrant : List LockAction :=
  [.lock 1 (.table 5) .accessExclusive false, .lock 2 (.table 5) .rowExclusive false, .unlockAll 1,
    .unlockAllTable ⟨1, [5]⟩, .unlockAllRecords 1, .timeout ⟨2, .table 5, .rowExclusive⟩ false]

/-- The request stays granted when the call has returned an error, and `unlock_all` does not find it. -/
theorem grant_after_timeout_kept : ¬ StepsMeet step Released empty (lateGrant ++ [.unlockAll 2]) := by
  intro h
  obtain ⟨s, ⟨hqueue, hnone⟩, hreleased⟩ := h.eval (R := fun s =>
    s.objects (.table 5) = [⟨2, .rowExclusive, true⟩] ∧ s.txnLocks 2 = none) (by decide +kernel)
  have hstep : s.step (.unlockAll 2) = some s := by rw [step, hnone]
  exact hreleased hnone s hstep (.table 5) ⟨2, .rowExclusive, true⟩ (by simp [hqueue]) rfl rfl

/-! ## The lock tables -/

/-- The step of the system that a call on the lock tables is; it finds no deadlock. -/
def callAction : LockCall → LockAction
  | .lockTable txnId tableId mode => .lock txnId (.table tableId) mode false
  | .giveUp txnId tableId mode => .timeout ⟨txnId, .table tableId, mode⟩ false
  | .unlockTable txnId tableId => .unlock txnId (.table tableId)
  | .lockRecord txnId tableId rid => .lock txnId (.record tableId rid) .rowExclusive false
  | .unlockRecord txnId tableId rid => .unlock txnId (.record tableId rid)

/-- The lock tables have the queues of the system. -/
structure Shows (s : LockSystem) (L : LockTables) : Prop where
  tables : ∀ tableId, s.objects (.table tableId) = L.tables tableId
  records : ∀ key, s.objects (.record key) = L.records.recordLocks ⟨key.toNat, 0⟩

section

variable {requests : List LockRequest} {s s' : LockSystem} {L L' : LockTables} (h : s.Shows L)
include h

lemma Shows.setTable {tableId : ℕ} (hobj : s'.objects = update s.objects (.table tableId) requests) :
    s'.Shows (L.setTable tableId requests) where
  tables := fun t => by
    rw [hobj, update_apply, h.tables]
    simp [LockTables.setTable, update_apply]
  records := fun key => by rw [hobj, update_of_ne (by simp), h.records]; rfl

lemma Shows.setRecord {key : UInt64} (hobj : s'.objects = update s.objects (.record key) requests) :
    s'.Shows { L with records := ⟨update L.records.recordLocks ⟨key.toNat, 0⟩ requests⟩ } where
  tables := fun t => by rw [hobj, update_of_ne (by simp), h.tables]
  records := fun key' => by
    rw [hobj, update_apply, h.records]
    simp [update_apply, UInt64.toNat_inj]

omit h in
/-- The queues after a request that finds no deadlock. -/
lemma objects_attempt (target : LockTarget) (w : Waiter) (hw : w.target = target) :
    ((s.setObject target requests).attempt w false).objects = update s.objects target (grantPending [] requests) := by
  subst hw
  simp only [attempt, objects_setObject, if_true, Bool.and_false, Bool.false_eq_true, if_false]
  split_ifs <;> simp [setObject]

/-- The system and the lock tables do the same with the queues in a call. -/
lemma Shows.call {c : LockCall} (hs : s.step (callAction c) = some s') (hc : L.call c = some L') :
    s'.Shows L' := by
  cases c with
  | lockTable txnId tableId mode =>
    simp only [LockTables.call, Option.ite_none_right_eq_some] at hc
    obtain ⟨-, hc⟩ := hc
    cases hc
    simp only [callAction, step, LockName.target, heldAlready, h.tables] at hs
    rw [LockManager.lockTable]
    cases hheld : lockHeld txnId mode [] (L.tables tableId) with
    | some result =>
      simp only [hheld] at hs
      cases hs
      exact h.setTable rfl
    | none =>
      simp only [hheld] at hs
      cases hs
      dsimp only
      split <;> exact h.setTable (objects_attempt _ _ rfl)
  | giveUp txnId tableId mode =>
    cases hc
    simp only [callAction, step, Option.ite_none_right_eq_some] at hs
    obtain ⟨-, hs⟩ := hs
    cases hs
    exact h.setTable (by rw [← h.tables]; rfl)
  | unlockTable txnId tableId =>
    cases hs
    cases hc
    exact h.setTable (by rw [← h.tables]; rfl)
  | lockRecord txnId tableId rid =>
    obtain ⟨key, hkey⟩ : ∃ key, recordLockKey tableId rid = key := ⟨_, rfl⟩
    simp only [callAction, step, LockName.target, heldAlready, recordHeld, hkey, h.records] at hs
    simp only [LockTables.call, LockManager.lockRecord, recordLock, hkey] at hc
    cases hfind : (L.records.recordLocks ⟨key.toNat, 0⟩).find? fun req => req.txnId == txnId && req.granted with
    | some req =>
      simp only [hfind] at hs hc
      have hsame : s'.objects = s.objects := by
        cases hs
        refine update_eq_self_iff.2 ?_
        rw [h.records]
        dsimp only
        split_ifs <;> rfl
      split_ifs at hc <;> cases hc <;> exact ⟨hsame ▸ h.tables, hsame ▸ h.records⟩
    | none =>
      simp only [hfind] at hs
      rw [hfind] at hc
      cases hs
      dsimp only at hc
      split_ifs at hc <;> cases hc <;> exact h.setRecord (objects_attempt _ _ rfl)
  | unlockRecord txnId tableId rid =>
    cases hs
    cases hc
    exact h.setRecord (by rw [recordLock, ← h.records]; rfl)

end

/-- **The lock tables and the system agree**: after the same calls they have the same queues. -/
theorem shows_of_runs {calls : List LockCall} {L : LockTables} {s : LockSystem}
    (hL : runs LockTables.call .empty calls = some L) (hs : runs step empty (calls.map callAction) = some s) :
    s.Shows L := by
  suffices hall : ∀ (calls : List LockCall) (s₀ : LockSystem) (L₀ : LockTables), s₀.Shows L₀ →
      runs LockTables.call L₀ calls = some L → runs step s₀ (calls.map callAction) = some s → s.Shows L from
    hall calls empty .empty ⟨fun _ => rfl, fun _ => rfl⟩ hL hs
  intro calls
  induction calls with
  | nil =>
    intro s₀ L₀ h hL hs
    cases hL
    cases hs
    exact h
  | cons c calls ih =>
    intro s₀ L₀ h hL hs
    obtain ⟨L₁, hc, hL⟩ := runs_cons_eq_some.1 hL
    obtain ⟨s₁, ha, hs⟩ := runs_cons_eq_some.1 hs
    exact ih s₁ L₁ (h.call ha hc) hL hs

end LockSystem

end MiniDb
