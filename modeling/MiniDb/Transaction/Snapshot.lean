import MiniDb.Transaction.System

/-!
# Snapshot isolation of `is_visible`

Under `TxnInv` and `AbortKnown`, `isVisible` amounts to the textbook rule (`isVisible_iff`): a reader sees what others
committed before it began, less what it deleted itself and less what was deleted by a transaction that committed before
it began.

`TxnInv` holds in every run.  `AbortKnown` does not: `rollback` flips its slot first and calls the status log
afterwards, and in between the slot counts as free.  A `begin` that takes it over erases the only trace of the abort,
and its reader then takes the aborted creator for a committed one.  `snapshotIsolated_iff_beginSafe`: a run is snapshot
isolated all along if and only if no `begin` does so.
-/

namespace MiniDb

open List Option TxnSystem

open TransactionManager

/-- Ids that are not reserved for "none" and "frozen". -/
def Ordinary (c : ℕ) : Prop := c ≠ kInvalidTxnId ∧ c ≠ kFrozenTxnId

instance (c : ℕ) : Decidable (Ordinary c) := inferInstanceAs (Decidable (_ ∧ _))

/-- No reader sees a version of another transaction that had not committed before the reader
began, and none misses a version committed before it began on account of a deleter, other than the
reader, that had not committed before it began. -/
def SnapshotIsolated (sys : TxnSystem) : Prop :=
  ∀ t x, sys.sessions t = some x →
    ∀ xmin, .began xmin ∈ sys.hist → Ordinary xmin → xmin ≠ t →
      (∀ xmax, sys.tm.isVisible xmin xmax x.txn = true → CommittedBefore sys.hist xmin t) ∧
      (∀ xmax, .began xmax ∈ sys.hist → Ordinary xmax → xmax ≠ t →
        CommittedBefore sys.hist xmin t → ¬ CommittedBefore sys.hist xmax t →
          sys.tm.isVisible xmin xmax x.txn = true)

/-- A `begin` may take over the slot of an aborted transaction only if the status log already
knows of the abort. -/
def BeginSafe (sys : TxnSystem) : TxnAction → Prop
  | .begin => ∀ s ∈ sys.tm.txnSlots.find? TxnSlot.isFree,
      s.state = .aborted → Ordinary s.txnId → (sys.tm.status s.txnId).isSome
  | _ => True

/-- Aborted transactions are in the status log, or still have their slot. -/
def AbortKnown (sys : TxnSystem) : Prop :=
  ∀ c, Ordinary c → .aborted c ∈ sys.hist →
    sys.tm.status c = some .aborted ∨ ∃ s ∈ sys.tm.txnSlots, s.txnId = c

/-! ## `is_visible` as a statement about the history -/

variable {tm : TransactionManager} {c : ℕ}

lemma getTxnState_eq_some {st : TxnState}
    (h : tm.getTxnState c = some st) : ∃ s ∈ tm.txnSlots, s.txnId = c ∧ s.state = st := by
  rw [getTxnState, map_eq_some_iff] at h
  obtain ⟨s, hs, hst⟩ := h
  have hid := find?_some hs
  exact ⟨s, mem_of_find?_eq_some hs, by simpa using hid, hst⟩

lemma getTxnState_eq_none : tm.getTxnState c = none ↔ ∀ s ∈ tm.txnSlots, s.txnId ≠ c := by
  rw [getTxnState, map_eq_none_iff, find?_eq_none]
  simp

section

variable {sys : TxnSystem}

section

variable (hi : TxnInv sys)
include hi

variable {c t : ℕ} {x : Session}

/-- A committed transaction is never taken for an uncommitted one. -/
lemma isUncommitted_of_committed (hc : .committed c ∈ sys.hist) : sys.tm.isUncommitted c = false := by
  have hb := hi.histOk.began_of_mem hc
  unfold isUncommitted
  cases hst : sys.tm.status c with
  | some st =>
    have hf := hi.status_ok c st hb hst
    cases st with
    | committed => rfl
    | aborted => exact (hi.histOk.not_both hc hf).elim
  | none =>
    cases hslot : sys.tm.getTxnState c with
    | none => rfl
    | some live =>
      obtain ⟨s, hs, rfl, rfl⟩ := getTxnState_eq_some hslot
      have hin := (hi.slot_state s hs (hi.began_ne _ hb)).2
      cases hlive : s.state with
      | active => rw [hlive] at hin; exact absurd hc hin.2.1
      | committed => rfl
      | aborted => rw [hlive] at hin; exact (hi.histOk.not_both hc hin).elim

/-- What readers know of a transaction's outcome is right. -/
lemma isUncommitted_iff (hk : AbortKnown sys) (hc : .began c ∈ sys.hist) (ho : Ordinary c) :
    sys.tm.isUncommitted c = true ↔ .committed c ∉ sys.hist := by
  constructor
  · intro h hcom
    rw [isUncommitted_of_committed hi hcom] at h
    cases h
  intro hnc
  unfold isUncommitted
  cases hst : sys.tm.status c with
  | some st =>
    cases st with
    | committed => exact absurd (hi.status_ok c _ hc hst) hnc
    | aborted => rfl
  | none =>
    cases hslot : sys.tm.getTxnState c with
    | some live =>
      obtain ⟨s, hs, rfl, rfl⟩ := getTxnState_eq_some hslot
      have hin := (hi.slot_state s hs ho.1).2
      cases hlive : s.state with
      | active => rfl
      | committed => rw [hlive] at hin; exact absurd hin hnc
      | aborted => rfl
    | none =>
      -- neither log nor slot: not aborted and not running, so committed after all
      rw [getTxnState_eq_none] at hslot
      exfalso
      by_cases ha : .aborted c ∈ sys.hist
      · rcases hk c ho ha with h | ⟨s, hs, hsc⟩
        · rw [hst] at h; cases h
        · exact hslot s hs hsc
      · obtain ⟨s, hs, hsc⟩ := hi.unfinished_slot c ⟨hc, hnc, ha⟩
        exact hslot s hs hsc

/-- A committed transaction committed before `t` began if it has a smaller id and was not running
when `t` took its snapshot. -/
lemma committedBefore_iff (hx : sys.sessions t = some x) (hc : .committed c ∈ sys.hist) :
    CommittedBefore sys.hist c t ↔ c < t ∧ c ∉ x.txn.activeSnapshot := by
  have hs := hi.session_ok t x hx
  have hok := hi.histOk
  rw [hs.snap c]
  constructor
  · intro hcb
    have hb := (hok.before t).began_of_mem hcb
    exact ⟨((hok.began_before_iff hs.began).1 hb).2, fun hun => hun.2.1 hcb⟩
  · rintro ⟨hlt, hna⟩
    have hb : .began c ∈ before t sys.hist :=
      (hok.began_before_iff hs.began).2 ⟨hok.began_of_mem hc, hlt⟩
    -- finished before the reader began, and not by aborting
    by_contra hncb
    exact hna ⟨hb, hncb, fun ha => hok.not_both hc (before_sublist t _ _ ha)⟩

/-- What committed before a reader began counts as committed for it. -/
lemma countsAsCommitted_of_before (hx : sys.sessions t = some x) (hcb : CommittedBefore sys.hist c t) :
    sys.tm.countsAsCommitted c x.txn = true := by
  have hc := before_sublist t _ _ hcb
  obtain ⟨hlt, hna⟩ := (committedBefore_iff hi hx hc).1 hcb
  rw [countsAsCommitted, (hi.session_ok t x hx).snapshot_eq, isUncommitted_of_committed hi hc]
  simp [Nat.lt_succ_of_lt hlt, hna]

/-- **The tests of `is_visible` ask whether a transaction committed before the reader began.** -/
theorem countsAsCommitted_iff (hk : AbortKnown sys) (hx : sys.sessions t = some x) (hc : .began c ∈ sys.hist)
    (ho : Ordinary c)
    (hne : c ≠ t) : sys.tm.countsAsCommitted c x.txn = true ↔ CommittedBefore sys.hist c t := by
  refine ⟨fun h => ?_, countsAsCommitted_of_before hi hx⟩
  simp only [countsAsCommitted, (hi.session_ok t x hx).snapshot_eq, Bool.and_eq_true,
    decide_eq_true_eq, Bool.not_eq_true', contains_eq_mem, decide_eq_false_iff_not] at h
  obtain ⟨⟨hlt, hna⟩, hun⟩ := h
  have hcom : .committed c ∈ sys.hist := by
    by_contra hnc
    rw [(isUncommitted_iff hi hk hc ho).2 hnc] at hun
    cases hun
  exact (committedBefore_iff hi hx hcom).2 ⟨by omega, hna⟩

/-- **`is_visible` is the snapshot rule**, for versions of other transactions. -/
theorem isVisible_iff (hk : AbortKnown sys) (hx : sys.sessions t = some x) {xmin xmax : ℕ}
    (hmin : .began xmin ∈ sys.hist)
    (homin : Ordinary xmin) (hne : xmin ≠ t) (hmax : .began xmax ∈ sys.hist) (homax : Ordinary xmax) :
    sys.tm.isVisible xmin xmax x.txn = true ↔
      CommittedBefore sys.hist xmin t ∧ xmax ≠ t ∧ ¬ CommittedBefore sys.hist xmax t := by
  have hid := (hi.session_ok t x hx).id_eq
  rw [isVisible_other _ _ homin.1 homin.2 (hid ▸ hne), hid, Bool.and_eq_true,
    countsAsCommitted_iff hi hk hx hmin homin hne]
  by_cases hxt : xmax = t
  · simp [hxt, hi.began_ne t (hi.session_ok t x hx).began]
  · have hmax' := countsAsCommitted_iff hi hk hx hmax homax hxt
    simp [homax.1, hxt, ← hmax']

end

end

/-! ## Who keeps the trace of an abort -/

lemma exists_id_modifyFirst {p : TxnSlot → Bool} {f : TxnSlot → TxnSlot} {l : List TxnSlot}
    (hf : ∀ s, (f s).txnId = s.txnId) (h : ∃ s ∈ l, s.txnId = c) : ∃ s ∈ modifyFirst p f l, s.txnId = c := by
  have hids : ∀ l, (modifyFirst p f l).map TxnSlot.txnId = l.map TxnSlot.txnId := by
    intro l
    induction l with
    | nil => rfl
    | cons s l ih =>
      unfold modifyFirst
      split <;> simp [hf, ih]
  rw [← List.mem_map] at h ⊢
  rwa [hids]

section

variable {sys sys' : TxnSystem}

/-- A slot whose transaction is in the history as aborted shows it. -/
lemma TxnInv.slot_aborted (hi : TxnInv sys) {s : TxnSlot} (hs : s ∈ sys.tm.txnSlots)
    (hne : s.txnId ≠ kInvalidTxnId) (ha : .aborted s.txnId ∈ sys.hist) : s.state = .aborted := by
  have hst := (hi.slot_state s hs hne).2
  cases hstate : s.state with
  | active => rw [hstate] at hst; exact absurd ha hst.2.2
  | committed => rw [hstate] at hst; exact (hi.histOk.not_both hst ha).elim
  | aborted => rfl

lemma AbortKnown.begin (hi : TxnInv sys) (hk : AbortKnown sys) (hsafe : BeginSafe sys .begin)
    (h : sys.step .begin = some sys') : AbortKnown sys' := by
  obtain @⟨s0, hs0⟩ := step_cases h
  intro c ho hc
  have hc : .aborted c ∈ sys.hist := by simpa using hc
  rcases hk c ho hc with hst | ⟨s, hs, rfl⟩
  · exact Or.inl hst
  obtain ⟨-, l1, l2, hl, hm⟩ := modifyFirst_split
    (fun _ => { txnId := sys.tm.nextTxnId, snapshotId := sys.tm.nextTxnId + 1, commitId := 0
                state := .active }) hs0
  by_cases heq : s = s0
  · -- the slot taken over is the aborted one, so the log must know
    subst heq
    have hab := hi.slot_aborted hs ho.1 hc
    obtain ⟨st, hst⟩ := isSome_iff_exists.1 (hsafe s hs0 hab ho)
    have hf := hi.status_ok _ st (hi.histOk.began_of_mem hc) hst
    cases st with
    | committed => exact (hi.histOk.not_both hf hc).elim
    | aborted => exact Or.inl hst
  · refine Or.inr ⟨s, ?_, rfl⟩
    show s ∈ modifyFirst TxnSlot.isFree _ sys.tm.txnSlots
    rw [hm]
    rw [hl, mem_append, mem_cons] at hs
    simp only [mem_append, mem_cons]
    tauto

variable {t : ℕ} {a : TxnAction}

/-- Sections other than `begin` never lose an abort, and a safe `begin` does not either. -/
theorem AbortKnown.step (hi : TxnInv sys) (hk : AbortKnown sys)
    (hsafe : BeginSafe sys a) (h : sys.step a = some sys') : AbortKnown sys' := by
  cases step_cases h with
  | begin => exact AbortKnown.begin hi hk hsafe h
  | publish =>
    intro c ho hc
    rcases hk c ho (by simpa using hc) with hst | hs
    · left
      rw [publish_status]
      exact hst
    · right
      rw [publish_txnSlots]
      refine exists_id_modifyFirst ?_ hs
      exact fun _ => rfl
  | @recordCommitted t txn o hx =>
    intro c ho hc
    have hct : c ≠ t := by
      rintro rfl
      exact hi.histOk.not_both (hi.session_ok _ _ hx).phase hc
    refine (hk c ho hc).imp_left fun hst => ?_
    exact (sys.tm.recordStatus_status_of_ne _ hct).trans hst
  | flip hx =>
    intro c ho hc
    have hslot : sys.tm.status c = some .aborted ∨ ∃ s ∈ sys.tm.txnSlots, s.txnId = c := by
      rcases mem_cons.1 hc with hc | hc
      · cases hc
        exact Or.inr (hi.unfinished_slot _ (hi.session_ok _ _ hx).phase)
      · exact hk c ho hc
    refine hslot.imp_right fun hs => exists_id_modifyFirst ?_ hs
    exact fun _ => rfl
  | @recordAborted t =>
    intro c ho hc
    refine (hk c ho hc).imp_left fun hst => ?_
    by_cases hct : c = t
    · subst hct
      rcases sys.tm.recordStatus_status_self c .aborted with heq | heq
      · exact heq.trans hst
      · exact heq
    · exact (sys.tm.recordStatus_status_of_ne _ hct).trans hst
  | finish => exact hk

/-- The two halves of the invariant give snapshot isolation. -/
lemma snapshotIsolated_of_abortKnown (hi : TxnInv sys) (hk : AbortKnown sys) : SnapshotIsolated sys := by
  intro t x hx xmin hmin homin hne
  constructor
  · intro xmax hv
    have hid := (hi.session_ok t x hx).id_eq
    rw [isVisible_other _ _ homin.1 homin.2 (hid ▸ hne), Bool.and_eq_true] at hv
    exact (countsAsCommitted_iff hi hk hx hmin homin hne).1 hv.1
  · intro xmax hmax homax hxt hcb hncb
    exact (isVisible_iff hi hk hx hmin homin hne hmax homax).2 ⟨hcb, hxt, hncb⟩

/-- An unsafe `begin` hands out a reader that sees the version of an aborted transaction. -/
lemma not_snapshotIsolated_of_unsafe (hi : TxnInv sys)
    (hbad : ¬ BeginSafe sys a) (h : sys.step a = some sys') : ¬ SnapshotIsolated sys' := by
  cases a with
  | begin =>
    simp only [BeginSafe, not_forall] at hbad
    obtain ⟨s, hs, hab, ho, hst⟩ := hbad
    cases step_cases h
    have hmem := mem_of_find?_eq_some hs
    obtain ⟨hbegan, hin⟩ := hi.slot_state s hmem ho.1
    rw [hab] at hin
    have hlt : s.txnId < sys.tm.nextTxnId := hi.began_lt _ hbegan
    have hnone : sys.tm.status s.txnId = none := by simpa using hst
    -- no slot carries the id any more
    have hgone : sys.tm.takeFreeSlot.getTxnState s.txnId = none := by
      rw [getTxnState_eq_none]
      intro a ha
      obtain ⟨-, l1, l2, hl, hm⟩ := modifyFirst_split
        (fun _ => { txnId := sys.tm.nextTxnId, snapshotId := sys.tm.nextTxnId + 1
                    commitId := 0, state := .active }) hs
      rw [takeFreeSlot, hm, mem_append, mem_cons] at ha
      rcases ha with ha | rfl | ha
      · exact (hl ▸ hi.distinct).ne_of_mem ho.1 (mem_append_left _ ha)
      · exact hlt.ne'
      · exact (hl ▸ hi.distinct).ne_of_mem ho.1 (mem_append_right _ ha)
    have hun : sys.tm.takeFreeSlot.isUncommitted s.txnId = false := by
      unfold isUncommitted
      rw [takeFreeSlot_status, hnone, hgone]
    have hnact : s.txnId ∉ sys.tm.activeIds := fun h =>
      ((hi.mem_activeIds _).1 h).2.2 hin
    have hvis : sys.tm.takeFreeSlot.isVisible s.txnId kInvalidTxnId sys.tm.newTransaction = true := by
      unfold isVisible
      rw [if_neg ho.1, if_neg ho.2]
      simp [newTransaction, hlt.ne, Nat.lt_succ_of_lt hlt, hnact, hun]
    intro hsi
    have hcb := (hsi sys.tm.nextTxnId _ (setSession_self ..) s.txnId
      (mem_cons_of_mem _ hbegan) ho hlt.ne).1 kInvalidTxnId hvis
    have hcb : .committed s.txnId ∈ before sys.tm.nextTxnId (.began sys.tm.nextTxnId :: sys.hist) := hcb
    rw [before_began_self] at hcb
    exact hi.histOk.not_both hcb hin
  | _ => exact absurd trivial hbad

end

/-- **When visibility is snapshot isolated.**  A run keeps snapshot isolation in every state it
passes through if and only if none of its begins takes over the slot of an aborted transaction
that the status log does not know yet. -/
theorem snapshotIsolated_iff_beginSafe {slotCount next : ℕ} {log : Option TxnStatusLog}
    (hnext : 0 < next) (hlog : ∀ l ∈ log, ∀ c, next ≤ c → l.states c = none)
    {acts : List TxnAction} {sys : TxnSystem}
    (hr : runs TxnSystem.step (TxnSystem.init slotCount next log) acts = some sys) :
    Always TxnSystem.step SnapshotIsolated (TxnSystem.init slotCount next log) acts ↔
      StepsMeet TxnSystem.step BeginSafe (TxnSystem.init slotCount next log) acts := by
  refine always_iff_stepsMeet (I := fun s => TxnInv s ∧ AbortKnown s) ?_ ?_ ?_ ?_ hr
  · rintro s a s' ⟨hi, hk⟩ hsafe hs
    exact ⟨hi.step hs, AbortKnown.step hi hk hsafe hs⟩
  · rintro s ⟨hi, hk⟩
    exact snapshotIsolated_of_abortKnown hi hk
  · rintro s a s' ⟨hi, -⟩ hbad hs
    exact not_snapshotIsolated_of_unsafe hi hbad hs
  · exact ⟨TxnInv.init hnext hlog, fun c _ hc => by cases hc⟩

/-- A rollback that reaches its status-log call before the next `begin` is harmless. -/
theorem snapshotIsolated_after_recorded_abort :
    Always TxnSystem.step SnapshotIsolated (TxnSystem.init 1 1 (some TxnStatusLog.empty))
      [.begin, .flip 1, .recordAborted 1, .finish 1, .begin] := by
  refine (snapshotIsolated_iff_beginSafe (by decide) ?_ rfl).2 ?_
  · rintro l hl c -
    cases hl
    rfl
  · refine ⟨by simp [BeginSafe, init, TxnSlot.isFree], fun s1 h1 => ?_⟩
    obtain rfl := some.inj h1
    refine ⟨trivial, fun s2 h2 => ?_⟩
    obtain rfl := some.inj h2
    refine ⟨trivial, fun s3 h3 => ?_⟩
    obtain rfl := some.inj h3
    refine ⟨trivial, fun s4 h4 => ?_⟩
    obtain rfl := some.inj h4
    refine ⟨?_, fun _ _ => trivial⟩
    intro s hs _ _
    obtain rfl := some.inj hs
    rfl

/-- Transaction 3 flips its slot to aborted; before it reaches its status-log call, transaction 4
begins, takes over the slot, and sees what transaction 3 wrote. -/
theorem aborted_creator_visible :
    ∃ sys, runs TxnSystem.step (TxnSystem.init 4 1 (some TxnStatusLog.empty))
        [.begin, .publish 1, .recordCommitted 1, .finish 1, .begin, .flip 3, .begin] = some sys ∧
      ¬ SnapshotIsolated sys := by
  refine ⟨_, rfl, fun h => ?_⟩
  have hcb := (h 4 _ rfl 3 (by decide) (by decide) (by decide)).1 kInvalidTxnId (by decide)
  exact absurd hcb (by decide)

end MiniDb
