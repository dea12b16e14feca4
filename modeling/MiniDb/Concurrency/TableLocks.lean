import MiniDb.Core.Run
import MiniDb.Concurrency.LockManager

/-!
# Table locks

`lock_table` keeps one list of requests for each table.  Unlike `lock_record` it raises a lock that
the transaction holds already, in place, when no other holder objects.

The calls of all sessions on the lock manager are a run of `LockTables.call`.  `RequestsOk` is what
such a run keeps for every table: a transaction has at most one request, no request that could be
granted is left pending, and no two transactions hold the table in incompatible modes.  From it,
`granted_lockTable_rowExclusive_iff` says when a writer gets its table lock.
-/

namespace MiniDb

open List LockRequest

lemma isCompatible_comm (a b : LockMode) : isCompatible a b = isCompatible b a := by
  cases a <;> cases b <;> rfl

lemma isCompatible_of_rank_le {a b m : LockMode} (hab : a.rank ≤ b.rank)
    (h : isCompatible b m = true) : isCompatible a m = true := by
  revert hab h
  cases a <;> cases b <;> cases m <;> decide

/-- The modes in which a table shuts out the writers of other transactions. -/
lemma isCompatible_rowExclusive_iff (m : LockMode) :
    isCompatible m .rowExclusive = true ↔ m.rank < LockMode.exclusive.rank := by
  cases m <;> decide

/-- What `lock_table` comes to, with the requests it leaves. -/
inductive TableLockResult where
  | granted (requests : List LockRequest)
  | waiting (requests : List LockRequest)
  | conflict

namespace LockManager

/-- The first loop of `lock_table`: the transaction's granted request, if there is one, is enough,
is raised in place, or is blocked by another holder. -/
def lockHeld (txnId : ℕ) (mode : LockMode) (before : List LockRequest) :
    List LockRequest → Option TableLockResult
  | [] => none
  | req :: rest =>
    if req.txnId == txnId && req.granted then
      if mode.rank ≤ req.mode.rank then some (.granted (before ++ req :: rest))
      else if (before ++ rest).all fun other => !other.granted || isCompatible other.mode mode then
        some (.granted (before ++ { req with mode := mode } :: rest))
      else some .conflict
    else lockHeld txnId mode (before ++ [req]) rest

section

variable (requests : List LockRequest)

/-- `lock_table`, up to the point where the caller has its lock, waits for it or is refused. -/
def lockTable (txnId : ℕ) (mode : LockMode) : TableLockResult :=
  match lockHeld txnId mode [] requests with
  | some result => result
  | none =>
    let requests' := grantPending [] (requests ++ [⟨txnId, mode, false⟩])
    if requests'.any fun req => req.txnId == txnId && req.mode == mode && req.granted then
      .granted requests'
    else .waiting requests'

/-- The requests without those of one transaction, and what can be granted then. -/
def release (txnId : ℕ) : List LockRequest :=
  grantPending [] (requests.filter fun req => req.txnId ≠ txnId)

def unlockRecord (lm : LockManager) (txnId : ℕ) (rid : RecordId) : LockManager :=
  ⟨Function.update lm.recordLocks rid (release (lm.recordLocks rid) txnId)⟩

/-! ## The grant rule -/

lemma canGrant_iff {requests : List LockRequest} {txnId : ℕ} {mode : LockMode} :
    canGrant requests txnId mode = true ↔
      ∀ req ∈ requests, req.granted = true → req.txnId ≠ txnId → isCompatible req.mode mode = true := by
  unfold canGrant
  rw [all_eq_true]
  refine forall₂_congr fun req _ => ?_
  rw [isCompatible_comm mode req.mode, Bool.and_self]
  cases req.granted <;> simp [or_iff_not_imp_left]

/-- The holders of an object that are different transactions hold it in compatible modes. -/
def Compatible : Prop :=
  ∀ r ∈ requests, ∀ t ∈ requests, r.granted = true → t.granted = true → r.txnId ≠ t.txnId →
    isCompatible r.mode t.mode = true

end

/-- A list of requests as `lock_table` and `unlock_table` leave it. -/
structure RequestsOk (requests : List LockRequest) : Prop where
  /-- A transaction has at most one request. -/
  one : (requests.map LockRequest.txnId).Nodup
  /-- A request is pending only while some holder objects to it. -/
  settled : ∀ req ∈ requests, req.granted = false →
    canGrant requests req.txnId req.mode = false
  compatible : Compatible requests

lemma requestsOk_nil : RequestsOk [] where
  one := nodup_nil
  settled := by simp
  compatible := by simp [Compatible]

/-- The pending ones among the first requests stay pending. -/
def Settled (done requests : List LockRequest) : Prop :=
  ∀ req ∈ done, req.granted = false → canGrant requests req.txnId req.mode = false

variable {l r : List LockRequest} {req req' : LockRequest}

lemma mem_middle {x : LockRequest} : x ∈ l ++ req :: r ↔ x = req ∨ x ∈ l ++ r :=
  perm_middle.mem_iff.trans mem_cons

lemma Compatible.replace (h : Compatible (l ++ req :: r)) (hothers : ∀ other ∈ l ++ r, other.granted = true →
      other.txnId ≠ req'.txnId → isCompatible other.mode req'.mode = true) : Compatible (l ++ req' :: r) := by
  intro x hx y hy hxg hyg hne
  rcases mem_middle.1 hx with rfl | hx'
  · rcases mem_middle.1 hy with rfl | hy'
    · exact absurd rfl hne
    · rw [isCompatible_comm]
      exact hothers y hy' hyg (.symm hne)
  · rcases mem_middle.1 hy with rfl | hy'
    · exact hothers x hx' hxg hne
    · exact h x (mem_middle.2 (.inr hx')) y (mem_middle.2 (.inr hy')) hxg hyg hne

/-- A pass of `grant_pending` keeps holders compatible, and settles the requests it has passed. -/
lemma grantPending_spec (rest : List LockRequest) : ∀ done : List LockRequest, Settled done (done ++ rest) →
      Compatible (done ++ rest) → (grantPending done rest).map txnId = (done ++ rest).map txnId ∧
      Settled (grantPending done rest) (grantPending done rest) ∧ Compatible (grantPending done rest) := by
  induction rest with
  | nil =>
    intro done hset hcomp
    simp only [append_nil] at hset hcomp ⊢
    exact ⟨rfl, hset, hcomp⟩
  | cons req rest ih =>
    intro done hset hcomp
    have hlist : ∀ req : LockRequest, done ++ [req] ++ rest = done ++ req :: rest := by simp
    -- the pass goes on behind the request
    have hnext : ∀ req', Settled done (done ++ req' :: rest) → (req'.granted = false →
        canGrant (done ++ req' :: rest) req'.txnId req'.mode = false) →
        Settled (done ++ [req']) (done ++ req' :: rest) :=
      fun req' hset hreq => forall_mem_append.2 ⟨hset, forall_mem_singleton.2 hreq⟩
    rw [grantPending]
    by_cases hg : req.granted = true
    · simp only [hg, if_true]
      have := ih (done ++ [req])
      rw [hlist] at this
      exact this (hnext req hset fun hp => by simp [hg] at hp) hcomp
    · rw [Bool.not_eq_true] at hg
      rw [if_neg (by simp [hg])]
      by_cases hc : canGrant (done ++ req :: rest) req.txnId req.mode = true
      · -- the request is granted: it objects to more, and it is compatible with every holder
        simp only [hc]
        set req' : LockRequest := { req with granted := true } with hreq'
        have key := ih (done ++ [req'])
        rw [hlist] at key
        have hkeep : Settled done (done ++ req' :: rest) := by
          intro x hx hp
          have hno := hset x hx hp
          rw [← Bool.not_eq_true, canGrant_iff] at hno ⊢
          refine fun hall => hno fun y hy hyg hyt => ?_
          rcases mem_middle.1 hy with rfl | hy
          · rw [hg] at hyg
            cases hyg
          · exact hall y (mem_middle.2 (.inr hy)) hyg hyt
        have hcan := canGrant_iff.1 hc
        have := key (hnext req' hkeep fun hp => by simp [hreq'] at hp)
          (hcomp.replace fun other ho => hcan other (mem_middle.2 (.inr ho)))
        simpa [hreq'] using this
      · rw [Bool.not_eq_true] at hc
        have hreq : ({ req with granted := canGrant (done ++ req :: rest) req.txnId req.mode } :
            LockRequest) = req := by
          rw [hc, ← hg]
        rw [hreq]
        have := ih (done ++ [req])
        rw [hlist] at this
        exact this (hnext req hset fun _ => hc) hcomp

lemma requestsOk_grantPending {requests : List LockRequest} (hone : (requests.map txnId).Nodup)
    (hcomp : Compatible requests) : RequestsOk (grantPending [] requests) := by
  obtain ⟨hids, hset, hcomp'⟩ := grantPending_spec requests [] (forall_mem_nil _) hcomp
  exact ⟨by rw [hids]; exact hone, hset, hcomp'⟩

/-- After a pass over settled requests only the new one at the end can have been granted. -/
lemma grantPending_append {new : LockRequest} (hnew : new.granted = false) {rest : List LockRequest} :
    ∀ {done : List LockRequest}, (∀ req ∈ rest, req.granted = false →
        canGrant (done ++ rest) req.txnId req.mode = false) → grantPending done (rest ++ [new]) =
        done ++ rest ++ [{ new with granted := canGrant (done ++ rest) new.txnId new.mode }] := by
  have hcan : ∀ l t m, canGrant (l ++ [new]) t m = canGrant l t m := by
    intro l t m
    simp [canGrant, hnew]
  induction rest with
  | nil => simp [grantPending, hnew, hcan]
  | cons req rest ih =>
    intro done hset
    have hlist : done ++ [req] ++ rest = done ++ req :: rest := by simp
    have hreq : (if req.granted then req else
        { req with granted := canGrant (done ++ req :: (rest ++ [new])) req.txnId req.mode }) =
        req := by
      split
      · rfl
      · next hg =>
        rw [Bool.not_eq_true] at hg
        rw [← cons_append, ← append_assoc, hcan, hset req (by simp) hg, ← hg]
    rw [cons_append, grantPending]
    simp only [hreq]
    rw [ih, hlist]
    intro r hr hp
    rw [hlist]
    exact hset r (mem_cons_of_mem _ hr) hp

/-! ## What the operations keep -/

/-- Either the transaction holds nothing, or its request is found and left, raised or refused. -/
lemma lockHeld_cases (txnId : ℕ) (mode : LockMode) (rest : List LockRequest) : ∀ before : List LockRequest,
      (lockHeld txnId mode before rest = none ∧ ∀ req ∈ rest, req.txnId = txnId → req.granted = false) ∨
      ∃ l req r, rest = l ++ req :: r ∧ req.txnId = txnId ∧ req.granted = true ∧ ((mode.rank ≤ req.mode.rank ∧
            lockHeld txnId mode before rest = some (.granted (before ++ rest))) ∨
          (req.mode.rank < mode.rank ∧ (∀ other ∈ before ++ l ++ r, other.granted = true →
              isCompatible other.mode mode = true) ∧
            lockHeld txnId mode before rest = some (.granted (before ++ l ++ { req with mode := mode } :: r))) ∨
          (req.mode.rank < mode.rank ∧ (∃ other ∈ before ++ l ++ r, other.granted = true ∧
              isCompatible other.mode mode = false) ∧ lockHeld txnId mode before rest = some .conflict)) := by
  induction rest with
  | nil => intro before; exact .inl ⟨rfl, by simp⟩
  | cons req rest ih =>
    intro before
    by_cases hown : (req.txnId == txnId && req.granted) = true
    · obtain ⟨hid, hgr⟩ : req.txnId = txnId ∧ req.granted = true := by simpa using hown
      refine .inr ⟨[], req, rest, rfl, hid, hgr, ?_⟩
      rw [lockHeld, if_pos hown, append_nil]
      by_cases hrank : mode.rank ≤ req.mode.rank
      · exact .inl ⟨hrank, by rw [if_pos hrank]⟩
      · rw [if_neg hrank]
        have hlt : req.mode.rank < mode.rank := Nat.lt_of_not_le hrank
        by_cases hall : ((before ++ rest).all fun other =>
            !other.granted || isCompatible other.mode mode) = true
        · refine .inr (.inl ⟨hlt, fun other hmem hog => ?_, by rw [if_pos hall]⟩)
          have := all_eq_true.1 hall other hmem
          simpa [hog] using this
        · refine .inr (.inr ⟨hlt, ?_, by rw [if_neg hall]⟩)
          rw [Bool.not_eq_true, all_eq_false] at hall
          obtain ⟨other, hmem, hother⟩ := hall
          exact ⟨other, hmem, by simpa using hother⟩
    · rw [lockHeld, if_neg hown]
      rcases ih (before ++ [req]) with ⟨hnone, hrest⟩ | ⟨l, own, r, rfl, hid, hgr, hres⟩
      · refine .inl ⟨hnone, fun r hr hid => ?_⟩
        rcases mem_cons.1 hr with rfl | hr
        · simpa [hid] using hown
        · exact hrest r hr hid
      · refine .inr ⟨req :: l, own, r, rfl, hid, hgr, ?_⟩
        simpa only [append_assoc, cons_append, nil_append] using hres

lemma RequestsOk.raise {mode : LockMode} (h : RequestsOk (l ++ req :: r))
    (hgr : req.granted = true) (hrank : req.mode.rank ≤ mode.rank)
    (hothers : ∀ other ∈ l ++ r, other.granted = true → isCompatible other.mode mode = true) :
    RequestsOk (l ++ { req with mode := mode } :: r) := by
  set req' : LockRequest := { req with mode := mode } with hreq'
  refine ⟨by simpa [hreq'] using h.one, fun x hx hp => ?_,
    Compatible.replace h.compatible fun other ho hog _ => hothers other ho hog⟩
  rcases mem_middle.1 hx with rfl | hx
  · rw [hreq'] at hp
    simp [hgr] at hp
  · have hno := h.settled x (mem_middle.2 (.inr hx)) hp
    rw [← Bool.not_eq_true, canGrant_iff] at hno ⊢
    refine fun hall => hno fun y hy hyg hyt => ?_
    rcases mem_middle.1 hy with rfl | hy
    · exact isCompatible_of_rank_le hrank (hall req' (by simp) hgr hyt)
    · exact hall y (mem_middle.2 (.inr hy)) hyg hyt

/-- The requests a call of `lock_table` leaves; a refused call leaves them as they were. -/
def TableLockResult.requests (before : List LockRequest) : TableLockResult → List LockRequest
  | .granted requests => requests
  | .waiting requests => requests
  | .conflict => before

lemma requestsOk_lockTable {requests : List LockRequest} (h : RequestsOk requests) {txnId : ℕ}
    (hidle : ∀ req ∈ requests, req.txnId = txnId → req.granted = true) (mode : LockMode) :
    RequestsOk (TableLockResult.requests requests (lockTable requests txnId mode)) := by
  rw [lockTable]
  rcases lockHeld_cases txnId mode requests [] with
    ⟨hnone, hpend⟩ | ⟨l, req, r, rfl, -, hgr, hres⟩
  · rw [hnone]
    have hfresh : txnId ∉ requests.map LockRequest.txnId := by
      intro hmem
      obtain ⟨req, hreq, hid⟩ := mem_map.1 hmem
      have := hpend req hreq hid
      rw [hidle req hreq hid] at this
      cases this
    have hok : RequestsOk (grantPending [] (requests ++ [⟨txnId, mode, false⟩])) := by
      refine requestsOk_grantPending ?_ fun r hr s hs hrg hsg hne => ?_
      · rw [map_append, nodup_append]
        refine ⟨h.one, by simp, ?_⟩
        rintro a ha b hb rfl
        simp only [map_cons, map_nil, mem_singleton] at hb
        exact hfresh (hb ▸ ha)
      · simp only [mem_append, mem_singleton] at hr hs
        rcases hr with hr | rfl
        · rcases hs with hs | rfl
          · exact h.compatible r hr s hs hrg hsg hne
          · cases hsg
        · cases hrg
    simp only
    split <;> exact hok
  · rcases hres with ⟨-, hres⟩ | ⟨hlt, hothers, hres⟩ | ⟨-, -, hres⟩
    · rw [hres]
      exact h
    · rw [hres]
      exact h.raise hgr hlt.le hothers
    · rw [hres]
      exact h

lemma requestsOk_release {requests : List LockRequest} (h : RequestsOk requests) (txnId : ℕ) :
    RequestsOk (release requests txnId) := by
  refine requestsOk_grantPending (h.one.sublist (filter_sublist.map _)) ?_
  intro r hr s hs
  exact h.compatible r (mem_of_mem_filter hr) s (mem_of_mem_filter hs)

/-- The caller that stops waiting takes its pending request back. -/
def giveUp (requests : List LockRequest) (txnId : ℕ) (mode : LockMode) : List LockRequest :=
  requests.eraseP fun req => req.txnId == txnId && req.mode == mode && !req.granted

lemma requestsOk_giveUp {requests : List LockRequest} (h : RequestsOk requests) (txnId : ℕ)
    (mode : LockMode) : RequestsOk (giveUp requests txnId mode) := by
  have hsub : (giveUp requests txnId mode).Sublist requests := eraseP_sublist
  refine ⟨h.one.sublist (hsub.map _), fun req hreq hp => ?_, fun r hr s hs =>
    h.compatible r (hsub.subset hr) s (hsub.subset hs)⟩
  have hno := h.settled req (hsub.subset hreq) hp
  rw [← Bool.not_eq_true, canGrant_iff] at hno ⊢
  -- what was taken back was not granted, so it objected to nothing
  refine fun hall => hno fun r hr hrg => hall r ?_ hrg
  exact (mem_eraseP_of_neg (by simp [hrg])).2 hr

/-- **When a writer gets its table lock.**  The row-exclusive table lock is granted at once unless
another transaction holds the table in exclusive or access-exclusive mode. -/
theorem granted_lockTable_rowExclusive_iff {requests : List LockRequest} (h : RequestsOk requests) (txnId : ℕ) :
    (∃ requests', lockTable requests txnId .rowExclusive = .granted requests') ↔
      ¬ ∃ req ∈ requests, req.granted = true ∧ req.txnId ≠ txnId ∧ LockMode.exclusive.rank ≤ req.mode.rank := by
  have hcan : canGrant requests txnId .rowExclusive = true ↔
      ¬ ∃ req ∈ requests, req.granted = true ∧ req.txnId ≠ txnId ∧ LockMode.exclusive.rank ≤ req.mode.rank := by
    rw [canGrant_iff]
    push Not
    refine forall₂_congr fun req _ => forall₂_congr fun _ _ => ?_
    exact isCompatible_rowExclusive_iff req.mode
  rw [← hcan]
  rw [lockTable]
  rcases lockHeld_cases txnId .rowExclusive requests [] with
    ⟨hnone, hpend⟩ | ⟨l, req, r, rfl, hid, hgr, hres⟩
  · rw [hnone]
    simp only
    rw [grantPending_append rfl (by simpa using h.settled)]
    have hany : ((requests ++ [LockRequest.mk txnId .rowExclusive
        (canGrant requests txnId .rowExclusive)]).any fun req =>
          req.txnId == txnId && req.mode == .rowExclusive && req.granted) =
        canGrant requests txnId .rowExclusive := by
      have hold : (requests.any fun req =>
          req.txnId == txnId && req.mode == .rowExclusive && req.granted) = false := by
        rw [any_eq_false]
        intro req hreq
        by_cases hid : req.txnId = txnId
        · simp [hpend req hreq hid]
        · simp [hid]
      rw [any_append, hold]
      simp
    rw [nil_append]
    rw [hany]
    by_cases hc : canGrant requests txnId .rowExclusive = true <;> simp [hc]
  · -- a holder is compatible with every other holder, and different entries have different owners
    have hne : ∀ other ∈ l ++ r, other.txnId ≠ txnId := by
      intro other hother heq
      have hone := h.one
      rw [map_append, map_cons] at hone
      have hmid := (nodup_middle.1 hone)
      rw [nodup_cons, ← map_append] at hmid
      exact hmid.1 (mem_map.2 ⟨other, hother, by rw [heq, hid]⟩)
    rcases hres with ⟨hrank, hres⟩ | ⟨-, hothers, hres⟩ | ⟨-, ⟨other, hmem, hog, hno⟩, hres⟩
    · rw [hres]
      refine iff_of_true ⟨_, rfl⟩ (canGrant_iff.2 fun other hother hog hot => ?_)
      have := h.compatible other hother req (by simp) hog hgr (by rw [hid]; exact hot)
      rw [isCompatible_comm] at this ⊢
      exact isCompatible_of_rank_le hrank this
    · rw [hres]
      refine iff_of_true ⟨_, rfl⟩ (canGrant_iff.2 fun other hother hog hot => ?_)
      rcases mem_middle.1 hother with rfl | hother
      · exact absurd hid hot
      · exact hothers other hother hog
    · rw [hres]
      refine iff_of_false (by rintro ⟨_, ⟨⟩⟩) fun hall => ?_
      have := canGrant_iff.1 hall other (mem_middle.2 (.inr hmem)) hog (hne other hmem)
      rw [hno] at this
      cases this

end LockManager

/-! ## The lock manager of all sessions -/

/-- The lock manager: the requests for each table and those for each record. -/
structure LockTables where
  tables : ℕ → List LockRequest
  records : LockManager

/-- `record_lock_key`: the records of all tables share one map, under a 64-bit key. -/
def recordLockKey (tableId : ℕ) (rid : RecordId) : UInt64 :=
  let h : UInt64 := .ofNat tableId * 11400714819323198485
  let h : UInt64 := h ^^^ (.ofNat rid.pageId + (0x9e3779b97f4a7c15 : UInt64) +
    (h <<< (6 : UInt64)) + (h >>> (2 : UInt64)))
  h ^^^ (.ofNat rid.slotIdx + (0x9e3779b97f4a7c15 : UInt64) + (h <<< (6 : UInt64)) + (h >>> (2 : UInt64)))

/-- The place of a record of a table in the map of record locks. -/
def recordLock (tableId : ℕ) (rid : RecordId) : RecordId :=
  ⟨(recordLockKey tableId rid).toNat, 0⟩

/-- A call of some session on the lock manager.  The source asks for record locks in row-exclusive
mode only; `unlock_all` is a run of `unlockTable` and `unlockRecord`. -/
inductive LockCall where
  | lockTable (txnId tableId : ℕ) (mode : LockMode)
  | giveUp (txnId tableId : ℕ) (mode : LockMode)
  | unlockTable (txnId tableId : ℕ)
  | lockRecord (txnId tableId : ℕ) (rid : RecordId)
  | unlockRecord (txnId tableId : ℕ) (rid : RecordId)

namespace LockTables

open LockManager

def empty : LockTables := ⟨fun _ => [], .empty⟩

def setTable (L : LockTables) (tableId : ℕ) (requests : List LockRequest) : LockTables :=
  { L with tables := Function.update L.tables tableId requests }

/-- One call.  A session that waits for a table makes no further call for it. -/
def call (L : LockTables) : LockCall → Option LockTables
  | .lockTable txnId tableId mode =>
    let requests := L.tables tableId
    if requests.all fun req => req.txnId != txnId || req.granted then
      some (L.setTable tableId (TableLockResult.requests requests (LockManager.lockTable requests txnId mode)))
    else none
  | .giveUp txnId tableId mode =>
    some (L.setTable tableId (LockManager.giveUp (L.tables tableId) txnId mode))
  | .unlockTable txnId tableId =>
    some (L.setTable tableId (release (L.tables tableId) txnId))
  | .lockRecord txnId tableId rid =>
    match L.records.lockRecord txnId (recordLock tableId rid) .rowExclusive with
    | .granted lm => some { L with records := lm }
    | .waiting lm => some { L with records := lm }
    | .conflict => some L
  | .unlockRecord txnId tableId rid =>
    some { L with records := L.records.unlockRecord txnId (recordLock tableId rid) }

/-- What every run of calls keeps. -/
structure Ok (L : LockTables) : Prop where
  tables : ∀ tableId, RequestsOk (L.tables tableId)
  records : OnlyRowExclusive L.records

lemma ok_empty : empty.Ok := ⟨fun _ => requestsOk_nil, fun _ _ h => by cases h⟩

lemma Ok.setTable {L : LockTables} (h : L.Ok) {tableId : ℕ} {requests : List LockRequest}
    (hr : RequestsOk requests) : (L.setTable tableId requests).Ok := by
  refine ⟨fun t => ?_, h.records⟩
  by_cases ht : t = tableId
  · subst ht
    simpa [LockTables.setTable] using hr
  · simpa [LockTables.setTable, Function.update_of_ne ht] using h.tables t

lemma onlyRowExclusive_unlockRecord {lm : LockManager} (h : OnlyRowExclusive lm) (txnId : ℕ)
    (rid : RecordId) : OnlyRowExclusive (lm.unlockRecord txnId rid) := by
  intro r req hreq
  simp only [unlockRecord, release] at hreq
  by_cases hr : r = rid
  · subst hr
    have hall : ∀ req ∈ [] ++ (lm.recordLocks r).filter fun req => req.txnId ≠ txnId,
        req.mode = .rowExclusive := fun req hreq => h r req (mem_of_mem_filter hreq)
    rw [Function.update_self, grantPending_rowExclusive hall, nil_append, mem_map] at hreq
    obtain ⟨req', hreq', rfl⟩ := hreq
    exact hall req' hreq'
  · rw [Function.update_of_ne hr] at hreq
    exact h r req hreq

lemma Ok.call {L L' : LockTables} (h : L.Ok) {c : LockCall} (hc : L.call c = some L') : L'.Ok := by
  cases c with
  | lockTable txnId tableId mode =>
    simp only [LockTables.call] at hc
    split at hc
    · next hidle =>
      cases hc
      refine h.setTable (requestsOk_lockTable (h.tables tableId) (fun req hreq hid => ?_) mode)
      have := all_eq_true.1 hidle req hreq
      simpa [hid] using this
    · cases hc
  | giveUp txnId tableId mode =>
    cases hc
    exact h.setTable (requestsOk_giveUp (h.tables tableId) txnId mode)
  | unlockTable txnId tableId =>
    cases hc
    exact h.setTable (requestsOk_release (h.tables tableId) txnId)
  | lockRecord txnId tableId rid =>
    obtain ⟨lm, hlm, hok⟩ :=
      lockRecord_rowExclusive h.records txnId (recordLock tableId rid)
    simp only [LockTables.call, hlm] at hc
    cases hc
    exact ⟨h.tables, hok⟩
  | unlockRecord txnId tableId rid =>
    cases hc
    exact ⟨h.tables, onlyRowExclusive_unlockRecord h.records txnId _⟩

/-- **Table locks exclude.**  After any calls of any sessions, two transactions that hold one table
hold it in compatible modes, and no request waits that could be granted. -/
theorem ok_of_runs {calls : List LockCall} {L : LockTables}
    (hr : runs LockTables.call empty calls = some L) : L.Ok :=
  runs_invariant_of_step (fun _ _ _ h hc => .call h hc) ok_empty hr

end LockTables

end MiniDb
