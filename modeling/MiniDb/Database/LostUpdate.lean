import MiniDb.Database.UndoLedger
import MiniDb.Database.Verdict

/-!
# Lost updates

Writers of one row are kept apart by the record lock, the second look at `xmax` after the lock was granted, and
`mark_deleted_if_current`, which refuses a version that another transaction has marked.  The lock is taken in the mode
`rowExclusive`, which is compatible with itself; and `commit_old_tuple` sets `xmax` whatever it was.  Between the
second look and the stamp another transaction may stamp the row, commit, and be overwritten.

`StoreSafe` excludes stamps in that window, and stamps on versions that another transaction can still take back.
`noLostUpdate_of_storeSafe`: then no version is superseded by two transactions that commit, and no stamp overwrites
that of another transaction.

The proof reads the heap as an array of cells that bear stamps, the undo records as ledgers and the ghost `superseded`
as a stamp log.
-/

namespace MiniDb

open Function List Option Engine HeapFile Stmt UndoRecord

open TransactionManager

variable {β κ : Type*}

/-! ## The statement -/

section

variable (e : Engine β κ)

/-- No version has been superseded by two transactions that committed. -/
def NoLostUpdate : Prop :=
  ∀ v t t', (v, t) ∈ e.superseded → (v, t') ∈ e.superseded →
    .committed t ∈ e.sys.hist → .committed t' ∈ e.sys.hist → t = t'

/-- A stamp finds no `xmax` of another transaction that is active or committed. -/
def OverwritesNobody : Action β → Prop
  | .delete t lsn => ∀ st rid, e.stmts t = some st → st.pc = .deleting rid →
      e.heap.markDeletedIfCurrent rid t lsn ≠ none → ∀ tup, e.heap.tupleAt rid = some tup →
        tup.xmax = kInvalidTxnId ∨ tup.xmax = t ∨ .aborted tup.xmax ∈ e.sys.hist
  | .commitOld t => ∀ st old new row hot lsn, e.stmts t = some st →
      st.pc = .installed old new row hot lsn → e.heap.commitOldTuple old new t lsn ≠ none →
        ∀ tup, e.heap.tupleAt old = some tup →
          tup.xmax = kInvalidTxnId ∨ tup.xmax = t ∨ .aborted tup.xmax ∈ e.sys.hist
  | _ => True

/-- The row that an `UPDATE` has looked at again and not stamped yet. -/
def Pc.checkedRid : Pc β → Option RecordId
  | .checked old _ => some old
  | .installed old _ _ _ _ => some old
  | _ => none

/-- Nobody else is between the second look and the stamp on this row, and nobody else can still
take the version back. -/
def Undisturbed (t : ℕ) (rid : RecordId) : Prop :=
  (∀ t' st, t' ≠ t → e.stmts t' = some st → st.pc.checkedRid ≠ some rid) ∧
    ∀ t', t' ≠ t → .fill rid ∉ e.ledger t'

/-- The stamps that lose no update. -/
def StoreSafe : Action β → Prop
  | .delete t _ => ∀ st rid, e.stmts t = some st → st.pc = .deleting rid → Undisturbed e t rid
  | .commitOld t => ∀ st old new row hot lsn, e.stmts t = some st →
      st.pc = .installed old new row hot lsn → Undisturbed e t old ∧ old ≠ new
  | _ => True

end

/-! ## The heap as cells -/

/-- The stamps of the heap. -/
def HeapFile.cells (h : HeapFile β) : Cells RecordId ℕ := fun r =>
  (h.tupleAt r).map fun tup => if tup.xmax = kInvalidTxnId then none else some tup.xmax

variable {t lsn : ℕ} {hot : Bool} {txn : Transaction} {st : Stmt β}

namespace HeapFile

variable {h h' : HeapFile β} {rid r : RecordId}

lemma cells_eq_none : h.cells r = none ↔ h.tupleAt r = none := by
  rw [cells, map_eq_none_iff]

variable {tup : Tuple β}

section

variable (ht : h.tupleAt r = some tup)
include ht

lemma cells_of_tupleAt : h.cells r = some (if tup.xmax = kInvalidTxnId then none else some tup.xmax) := by
  rw [cells, ht]
  rfl

lemma xmax_of_cells {x : ℕ} (hc : h.cells r = some (some x)) : tup.xmax = x := by
  rw [cells_of_tupleAt ht] at hc
  split at hc
  · cases hc
  · exact some.inj (some.inj hc)

lemma xmax_eq_of_cells_none (hc : h.cells r = some none) : tup.xmax = kInvalidTxnId := by
  rw [cells_of_tupleAt ht] at hc
  split at hc
  · next h => exact h
  · cases hc

end

lemma cells_of_look {v : SlotView β} (hlook : ∀ r, h'.look r = if r = rid then v else h.look r) :
    h'.cells = update h.cells rid
      (v.tuple?.map fun tup => if tup.xmax = kInvalidTxnId then none else some tup.xmax) := by
  funext r
  rw [cells, tupleAt_eq_look, hlook r]
  by_cases hr : r = rid
  · rw [if_pos hr, hr, update_self]
  · rw [if_neg hr, update_of_ne hr]
    rfl

lemma cells_of_tuple {x : Option ℕ} (hlook : ∀ r, h'.look r = if r = rid then .tuple tup else h.look r)
    (hx : (if tup.xmax = kInvalidTxnId then none else some tup.xmax) = x) :
    h'.cells = update h.cells rid (some x) := by
  rw [cells_of_look hlook, ← hx]
  rfl

end HeapFile

/-! ## Statements -/

/-- The row that a statement has in hand. -/
def Pc.inHand : Pc β → Option RecordId
  | .read old _ => some old
  | .locked old _ => some old
  | .checked old _ => some old
  | .installed old _ _ _ _ => some old
  | .deleting rid => some rid
  | _ => none

/-- The addresses that a statement has in hand or has still to visit. -/
def Stmt.rids (st : Stmt β) : List RecordId := st.pc.inHand.toList ++ st.targets

/-- What session `t` may rely on: a row it has looked at again bears no other stamp, and it has
not itself stamped a row that it has in hand or will visit. -/
structure StmtOk (c : Cells RecordId ℕ) (t : ℕ) (st : Stmt β) : Prop where
  checked : ∀ r, st.pc.checkedRid = some r → ∀ x, c r = some (some x) → x = t
  nodup : st.rids.Nodup
  unstamped : ∀ r ∈ st.rids, c r ≠ some (some t)

def StmtsOk (c : Cells RecordId ℕ) (stmts : ℕ → Option (Stmt β)) : Prop :=
  ∀ t st, stmts t = some st → StmtOk c t st

variable {c c' : Cells RecordId ℕ} {t : ℕ} {st st' : Stmt β}

/-- Stamps that disappear disturb nobody. -/
lemma StmtOk.mono (h : StmtOk c t st) (hc : ∀ r x, c' r = some (some x) → c r = some (some x)) :
    StmtOk c' t st :=
  ⟨fun r hr x hx => h.checked r hr x (hc r x hx), h.nodup, fun r hr hx => h.unstamped r hr (hc r t hx)⟩

lemma StmtOk.rest (h : StmtOk c t st)
    (hck : st'.pc.checkedRid = none) (hsub : st'.rids.Sublist st.rids) : StmtOk c t st' := by
  refine ⟨fun r hr => ?_, h.nodup.sublist hsub, fun r hr => h.unstamped r (hsub.mem hr)⟩
  rw [hck] at hr
  cases hr

/-- A step of session `t` changes its own statement and stamps only rows that nobody else has
looked at again. -/
lemma StmtsOk.update {stmts : ℕ → Option (Stmt β)} {st' : Option (Stmt β)} (h : StmtsOk c stmts)
    (hc : ∀ r x, c' r = some (some x) → c r = some (some x) ∨
      x = t ∧ ∀ t' st, t' ≠ t → stmts t' = some st → st.pc.checkedRid ≠ some r)
    (hself : ∀ st, st' = some st → StmtOk c' t st) : StmtsOk c' (update stmts t st') := by
  intro t' st hst
  rcases update_eq_some hst with ⟨rfl, hs⟩ | ⟨ht, hst⟩
  · exact hself st hs
  · obtain ⟨hch, hnd, hun⟩ := h t' st hst
    refine ⟨fun r hr x hx => ?_, hnd, fun r hr hx => ?_⟩
    · rcases hc r x hx with hx | ⟨-, hrace⟩
      · exact hch r hr x hx
      · exact absurd hr (hrace t' st ht hst)
    · rcases hc r t' hx with hx | ⟨heq, -⟩
      · exact hun r hr hx
      · exact ht heq

/-- The session stamps the row it has in hand and goes on with its targets. -/
lemma StmtOk.stamped {rid : RecordId}
    (h : StmtOk c t st) (hpc : st.pc.inHand = some rid) (hck : st'.pc.checkedRid = none)
    (hrids : st'.rids = st.targets) : StmtOk (update c rid (some (some t))) t st' := by
  obtain ⟨-, hnd, hun⟩ := h
  simp only [rids, hpc, toList_some, singleton_append, nodup_cons] at hnd hun
  -- the row just stamped is not among those to come
  refine ⟨fun r hr => ?_, hrids ▸ hnd.2, fun r hr => ?_⟩
  · rw [hck] at hr
    cases hr
  · rw [hrids] at hr
    rw [update_of_ne (ne_of_mem_of_not_mem hr hnd.1)]
    exact hun r (mem_cons_of_mem rid hr)

section

variable {hp : HeapFile β} {t : ℕ} {st : Stmt β} {rid : RecordId} {tup : Tuple β}

section

variable (h : StmtOk hp.cells t st)
include h

/-- A row that session `t` has in hand and that bears no other stamp bears none. -/
lemma StmtOk.cells_eq_some_none (hrid : rid ∈ st.rids)
    (htup : hp.tupleAt rid = some tup) (hx : ∀ x, hp.cells rid = some (some x) → x = t) : hp.cells rid = some none := by
  have hc := cells_of_tupleAt htup
  cases hv : (if tup.xmax = kInvalidTxnId then none else some tup.xmax : Option ℕ) with
  | none => rw [hc, hv]
  | some x =>
    rw [hv] at hc
    obtain rfl := hx x hc
    exact absurd hc (h.unstamped rid hrid)

lemma StmtOk.cells_of_checked {new : RecordId} {row : β}
    (hpc : st.pc = .installed rid new row hot lsn) (htup : hp.tupleAt rid = some tup) : hp.cells rid = some none := by
  refine h.cells_eq_some_none ?_ htup fun x hx => ?_
  · rw [rids, hpc]
    exact mem_cons_self
  · exact h.checked rid (by rw [hpc]; rfl) x hx

lemma StmtOk.cells_of_current (hpc : st.pc = .deleting rid)
    (htup : hp.tupleAt rid = some tup) (hcur : tup.xmax = kInvalidTxnId ∨ tup.xmax = t) : hp.cells rid = some none := by
  refine h.cells_eq_some_none ?_ htup fun x hx => ?_
  · rw [rids, hpc]
    exact mem_cons_self
  · have heq := xmax_of_cells htup hx
    rcases hcur with h0 | ht
    · rw [cells_of_tupleAt htup, h0, if_pos rfl] at hx
      cases hx
    · exact heq.symm.trans ht

end

end

lemma stamp_of_update {a : RecordId} {v : Option (Option ℕ)} (hv : v = none ∨ v = some none) :
    ∀ r x, update c a v r = some (some x) → c r = some (some x) := by
  intro r x hx
  rcases update_eq_some hx with ⟨-, rfl⟩ | ⟨-, hx⟩
  · rcases hv with hv | hv <;> cases hv
  · exact hx

namespace Engine

variable {e e' : Engine β κ}

lemma ledgerOk_of_running (hs : ∀ t', t' ≠ t → e'.sys.sessions t' = e.sys.sessions t')
    (hst : e'.stmts = update e.stmts t (some st)) (hr : e'.running t = some txn)
    (h : LedgerOk e'.heap.cells (update e.ledger t
      (txn.undoRecords.filterMap entry? ++ st.pc.inFlight.toList.map .fill))) :
    LedgerOk e'.heap.cells e'.ledger := ledger_eq_update hs hst hr ▸ h

lemma StmtMove.stmtOk (hi : EngineInv e) (hs : ∀ st, e.stmts t = some st → StmtOk e.heap.cells t st)
    (hm : StmtMove e t (some st)) : StmtOk e.heap.cells t st := by
  cases hm with
  | begin mark hst => exact ⟨fun r hr => (by cases hr), nodup_nil, fun r hr => (by cases hr)⟩
  | scan st0 txn rid tup hst hpc hnew htup hr hvis =>
    obtain ⟨-, hnd, hun⟩ := hs st0 hst
    simp only [rids, hpc, Pc.inHand, toList_none, nil_append] at hnd hun
    refine ⟨fun r hr => (by cases hr), ?_, fun r hmem hc => ?_⟩
    · show (st0.targets ++ [rid]).Nodup
      simpa [nodup_append, hnd] using fun a ha => ne_of_mem_of_not_mem ha hnew
    · rcases mem_append.1 (show r ∈ st0.targets ++ [rid] from hmem) with hmem | hmem
      · exact hun r hmem hc
      · obtain rfl := mem_singleton.1 hmem
        -- a version with the session's own stamp would not have been seen
        have hok := hi.txn.session_ok t _ (running_eq_some.1 hr)
        have hid : txn.id = t := hok.id_eq
        refine xmax_ne_of_isVisible ?_ hvis ((xmax_of_cells htup hc).trans hid.symm)
        rw [hid]
        exact hi.txn.began_ne t hok.began
  | skip st0 rid rest hst hpc htg | read st0 rid rest tup hst hpc htg htup
  | lockDelete st0 rid rest hst hpc htg =>
    refine (hs st0 hst).rest rfl ?_
    simp [rids, hpc, htg, Pc.inHand]
  | lock st0 rid row hst hpc =>
    refine (hs st0 hst).rest rfl ?_
    simp [rids, hpc, Pc.inHand]
  | check st0 rid row tup hst hpc htup hxmax =>
    obtain ⟨-, hnd, hun⟩ := hs st0 hst
    simp only [rids, hpc, Pc.inHand] at hnd hun
    refine ⟨fun r hr x hx => ?_, hnd, hun⟩
    cases hr
    have heq := xmax_of_cells htup hx
    rcases hxmax with h0 | ht
    · rw [cells_of_tupleAt htup, h0, if_pos rfl] at hx
      cases hx
    · exact heq.symm.trans ht
  | fail st0 targets hst hpc htg => exact (hs st0 hst).rest rfl (htg.trans (sublist_append_right _ _))

end Engine

/-! ## The invariant -/

/-- Statements, ledgers and the stamp log agree with the heap. -/
structure UpdateInv (e : Engine β κ) : Prop where
  stmts : StmtsOk e.heap.cells e.stmts
  ledger : LedgerOk e.heap.cells e.ledger
  log : StampLog e.heap.cells e.ver e.nextVer e.superseded

namespace UpdateInv

variable {e e' : Engine β κ}

section

variable (hu : UpdateInv e)
include hu

lemma noLostUpdate : NoLostUpdate e :=
  fun v t t' ht ht' _ _ => hu.log.unique v t t' ht ht'

variable {t length lsn : ℕ} {txn : Transaction} {st : Stmt β} {rid : RecordId} {tup : Tuple β} {row : β}

lemma controlled (hi : EngineInv e) (hc : Engine.Controlled e e' t) : UpdateInv e' := by
  have hheap : e'.heap = e.heap := congrArg GcTable.heap hc.table
  obtain ⟨st', hst', hmove⟩ := hc.stmts
  refine ⟨?_, ?_, ?_⟩
  · rw [hheap, hst']
    refine hu.stmts.update (fun r x hx => .inl hx) fun st hst => ?_
    subst hst
    exact hmove.stmtOk hi (hu.stmts t)
  · rw [hheap, ledger_of_controlled hc]
    exact hu.ledger
  · rw [hheap, hc.ver, hc.nextVer, hc.superseded]
    exact hu.log

lemma inserted (hins : HeapFile.Inserted e.heap e'.heap rid tup)
    (hx : tup.xmax = kInvalidTxnId) (hself : StmtOk e.heap.cells t st)
    (hs : ∀ t', t' ≠ t → e'.sys.sessions t' = e.sys.sessions t')
    (hst : e'.stmts = update e.stmts t (some st)) (hr : e'.running t = some txn)
    (hL : txn.undoRecords.filterMap entry? ++ st.pc.inFlight.toList.map .fill = e.ledger t ++ [.fill rid])
    (hver : e'.ver = update e.ver rid e.nextVer) (hnext : e'.nextVer = e.nextVer + 1)
    (hsup : e'.superseded = e.superseded) : UpdateInv e' := by
  have hcells := cells_of_tuple hins.look (if_pos hx)
  have hempty : e.heap.cells rid = none := by
    rw [cells_eq_none, tupleAt_eq_look, hins.empty]
    rfl
  refine ⟨?_, ?_, ?_⟩
  · rw [hcells, hst]
    refine hu.stmts.update (fun r x hx => .inl (stamp_of_update (.inr rfl) r x hx)) ?_
    rintro st' ⟨⟩
    exact hself.mono (stamp_of_update (.inr rfl))
  · rw [hcells, ledger_eq_update hs hst hr, hL]
    exact hu.ledger.fill hempty
  · rw [hcells, hver, hnext, hsup]
    exact hu.log.fill

lemma install [DecidableEq κ] (hi : EngineInv e) (h : e.install t row length lsn hot = some e') :
    UpdateInv e' := by
  obtain ⟨txn, st, old, oldRow, hp, new, hr, hst, hpc, hlen, -, hins, rfl⟩ :=
    install_eq_some h
  obtain ⟨hck, hnd, hun⟩ := hu.stmts t st hst
  simp only [Stmt.rids, hpc, Pc.inHand, Pc.checkedRid] at hck hnd hun
  have hself : StmtOk e.heap.cells t { st with pc := .installed old new row hot lsn } :=
    ⟨hck, hnd, hun⟩
  refine hu.inserted (hi.install_heap hst hpc hlen hins).1 rfl hself (fun _ _ => rfl) rfl hr ?_ rfl rfl rfl
  rw [ledger_of_running hr hst, hpc]
  simp [Pc.inFlight]

lemma insert (hi : EngineInv e) (h : e.insert t row length lsn = some e') : UpdateInv e' := by
  obtain ⟨txn, st, hr, hst, hpc, hlen, ⟨hp, rid, lm, hins, rfl⟩ | hc⟩ := insert_eq_some h
  · have hself : StmtOk e.heap.cells t { st with pc := .indexing rid row } :=
      (hu.stmts t st hst).rest rfl (by simp [Stmt.rids, hpc, Pc.inHand])
    refine hu.inserted (HeapFile.insertVersion_eq_some hlen hi.heap.heapOk hins).1 rfl hself
      (fun t' ht => sessions_setUndo_of_ne ht _) rfl (running_setUndo hr _) ?_
      rfl rfl rfl
    rw [ledger_of_running hr hst, hpc]
    simp [Pc.inFlight, UndoRecord.entry?]
  · exact hu.controlled hi hc

/-- A stamp on a row that the session has in hand and that bears none. -/
lemma stamped {st' : Stmt β} {u w : List (Entry RecordId)} (ht : t ≠ kInvalidTxnId)
    (hcell : e.heap.cells rid = some none) (hst : e.stmts t = some st)
    (hpc : st.pc.inHand = some rid) (hsafe : Undisturbed e t rid)
    (hw : HeapFile.SlotWrite e.heap e'.heap rid (.tuple tup)) (hx : tup.xmax = t)
    (hs : ∀ t', t' ≠ t → e'.sys.sessions t' = e.sys.sessions t')
    (hst' : e'.stmts = update e.stmts t (some st')) (hr : e'.running t = some txn)
    (hck : st'.pc.checkedRid = none) (hrids : st'.rids = st.targets) (hL : e.ledger t = u ++ w)
    (hL' : txn.undoRecords.filterMap entry? ++ st'.pc.inFlight.toList.map .fill = u ++ .stamp rid :: w)
    (hne : ∀ b ∈ w, b.cell ≠ rid) (hver : e'.ver = e.ver) (hnext : e'.nextVer = e.nextVer)
    (hsup : e'.superseded = (e.ver rid, t) :: e.superseded) : UpdateInv e' := by
  have hcells := cells_of_tuple hw.look (by rw [hx, if_neg ht])
  refine ⟨?_, ?_, ?_⟩
  · rw [hcells, hst']
    refine hu.stmts.update (fun r x hx => ?_) ?_
    · rcases update_eq_some hx with ⟨rfl, ⟨⟩⟩ | ⟨-, hx⟩
      · exact .inr ⟨rfl, hsafe.1⟩
      · exact .inl hx
    · rintro st'' ⟨⟩
      exact (hu.stmts t st hst).stamped hpc hck hrids
  · rw [hcells, ledger_eq_update hs hst' hr, hL']
    exact hu.ledger.stamp hL hcell hsafe.2 hne
  · rw [hcells, hver, hnext, hsup]
    exact hu.log.stamp hcell

end

lemma began_ne_of_running (hi : EngineInv e) (hr : e.running t = some txn) : t ≠ kInvalidTxnId :=
  hi.txn.began_ne t (hi.began hr)

section

variable (hu : UpdateInv e)
include hu

variable {t n : ℕ} {rid : RecordId} {u : List (Entry RecordId)} {hp : HeapFile β}

lemma delete (hi : EngineInv e) (hsafe : StoreSafe e (.delete t lsn : Action β))
    (h : e.delete t lsn = some e') :
    UpdateInv e' := by
  obtain ⟨txn, st, rid, hr, hst, hpc, ⟨-, -, hc⟩ | ⟨hp, hd, rfl⟩⟩ := delete_eq_some h
  · exact hu.controlled hi hc
  · obtain ⟨tup, htup, hcur, hw, -⟩ := HeapFile.markDeletedIfCurrent_eq_some hd
    have hL : e.ledger t = txn.undoRecords.filterMap entry? ++ [] := by
      rw [ledger_of_running hr hst, hpc]
      rfl
    refine hu.stamped (began_ne_of_running hi hr) ((hu.stmts t st hst).cells_of_current hpc htup hcur) hst
      (by rw [hpc]; rfl) (hsafe st rid hst hpc) hw rfl
      (fun t' ht => sessions_setUndo_of_ne ht _) rfl (running_setUndo hr _) rfl rfl
      hL ?_ (fun b hb => by cases hb) rfl rfl rfl
    simp [UndoRecord.entry?, Pc.inFlight]

/-- Stamps and statements may go away. -/
lemma weaken (hstmts : ∀ t st, e'.stmts t = some st → e.stmts t = some st)
    (hcells : ∀ r x, e'.heap.cells r = some (some x) → e.heap.cells r = some (some x))
    (hledger : LedgerOk e'.heap.cells e'.ledger)
    (hlog : StampLog e'.heap.cells e'.ver e'.nextVer e'.superseded) : UpdateInv e' :=
  ⟨fun t st hst => (hu.stmts t st (hstmts t st hst)).mono hcells, hledger, hlog⟩

lemma takeBackFill (hL : e.ledger t = u ++ [.fill rid]) (hhp : hp = (e.heap.rollbackInsert rid n).getD e.heap) :
    (∀ r x, hp.cells r = some (some x) → e.heap.cells r = some (some x)) ∧ LedgerOk hp.cells (update e.ledger t u) ∧
      StampLog hp.cells e.ver e.nextVer e.superseded := by
  subst hhp
  cases hr : e.heap.rollbackInsert rid n with
  | none => exact ⟨fun r x hx => hx, hu.ledger.shrink (LedgerOk.sublist_update hL), hu.log⟩
  | some h' =>
    rw [getD_some, cells_of_look (rollbackInsert_eq_some hr).1.look]
    refine ⟨stamp_of_update (.inl rfl), hu.ledger.unfill hL, hu.log.forget fun r => ?_⟩
    by_cases heq : r = rid
    · exact .inr (by rw [heq, update_self]; rfl)
    · exact .inl (update_of_ne heq ..)

lemma takeBackStamp (hL : e.ledger t = u ++ [.stamp rid])
    (hhp : hp = (e.heap.rollbackDelete rid n).getD e.heap) :
    (∀ r x, hp.cells r = some (some x) → e.heap.cells r = some (some x)) ∧ LedgerOk hp.cells (update e.ledger t u) ∧
      StampLog hp.cells e.ver e.nextVer (e.superseded.filter fun p => p ≠ (e.ver rid, t)) := by
  subst hhp
  have hcell : e.heap.cells rid = some (some t) := hu.ledger.holds t (.stamp rid) (by simp [hL])
  cases hr : e.heap.rollbackDelete rid n with
  | none =>
    exact ⟨fun r x hx => hx, hu.ledger.shrink (LedgerOk.sublist_update hL),
      hu.log.shrink fun p hp => mem_of_mem_filter hp⟩
  | some h' =>
    obtain ⟨tup, htup, hw, -⟩ := rollbackDelete_eq_some hr
    rw [getD_some, cells_of_tuple hw.look (if_pos rfl)]
    exact ⟨stamp_of_update (.inr rfl), hu.ledger.unstamp hL, hu.log.unstamp hcell⟩

lemma commitOld (hi : EngineInv e) (hsafe : StoreSafe e (.commitOld t : Action β))
    (h : e.commitOld t = some e') :
    UpdateInv e' := by
  obtain ⟨txn, st, old, new, row, hot, lsn, hr, hst, hpc, hc⟩ := commitOld_eq_some h
  have hL : e.ledger t = txn.undoRecords.filterMap entry? ++ [.fill new] := by
    rw [ledger_of_running hr hst, hpc]
    rfl
  rcases hc with ⟨-, rfl⟩ | ⟨hp, hc, rfl⟩
  · -- the new version is taken back before the statement fails
    obtain ⟨hcells, hledger, hlog⟩ := hu.takeBackFill (n := lsn) hL rfl
    refine ⟨hu.stmts.update (fun r x hx => .inl (hcells r x hx)) ?_, ?_, hlog⟩
    · rintro st' ⟨⟩
      exact ((hu.stmts t st hst).rest rfl (sublist_append_right _ _)).mono hcells
    · refine ledgerOk_of_running (e := e) (fun _ _ => rfl) rfl hr ?_
      simpa [Pc.inFlight] using hledger
  · obtain ⟨tup, htup, hw, -⟩ := commitOldTuple_eq_some hc
    obtain ⟨hund, hne⟩ := hsafe st old new row hot lsn hst hpc
    refine hu.stamped (began_ne_of_running hi hr) ((hu.stmts t st hst).cells_of_checked hpc htup) hst
      (by rw [hpc]; rfl) hund hw rfl (fun t' ht => sessions_setUndo_of_ne ht _) rfl
      (running_setUndo hr _) (by cases hot <;> rfl) (by cases hot <;> rfl) hL ?_ ?_
      rfl rfl rfl
    · cases hot <;> simp [updateUndo, UndoRecord.entry?, Pc.inFlight]
    · intro b hb
      obtain rfl := mem_singleton.1 hb
      exact hne.symm

lemma indexRow (h : e.indexRow t = some e') : UpdateInv e' := by
  obtain ⟨txn, st, new, row, hr, hst, hpc, rfl⟩ := indexRow_eq_some h
  refine ⟨hu.stmts.update (fun r x hx => .inl hx) ?_, ?_, hu.log⟩
  · rintro st' ⟨⟩
    exact (hu.stmts t st hst).rest rfl (by simp [rids, hpc, Pc.inHand])
  · refine ledgerOk_of_running (e := e) (fun _ _ => rfl) rfl hr ?_
    refine hu.ledger.shrink (LedgerOk.sublist_update (w := []) ?_)
    rw [ledger_of_running hr hst, hpc]
    simp [Pc.inFlight]

section

variable (hi : EngineInv e)
include hi

/-- Undo takes the last entry off the ledger. -/
lemma undo [DecidableEq κ] (h : e.undo t lsn = some e') : UpdateInv e' := by
  obtain ⟨x, rec, hx, hrec, hmay, rfl⟩ := undo_eq_some h
  obtain ⟨hL, hledger⟩ := ledger_of_undo hi hx hmay hrec (n := lsn)
  obtain ⟨type, tableId, rid⟩ := rec
  cases type with
  | insert | hotInsert =>
    obtain ⟨hc, hl, hs⟩ := hu.takeBackFill (n := lsn) hL rfl
    exact hu.weaken (fun _ _ h => h) hc (hledger ▸ hl) hs
  | delete | hotDelete =>
    obtain ⟨hc, hl, hs⟩ := hu.takeBackStamp (n := lsn) hL rfl
    exact hu.weaken (fun _ _ h => h) hc (hledger ▸ hl) hs
  | ddl =>
    exact hu.weaken (fun _ _ h => h) (fun _ _ h => h) (hledger ▸ hu.ledger.shrink (LedgerOk.sublist_update hL)) hu.log

/-- Cells that lose their value bore the stamp of a transaction that committed. -/
lemma forget (hsys : e'.sys = e.sys)
    (hstmts : e'.stmts = e.stmts) (hver : e'.ver = e.ver) (hnext : e'.nextVer = e.nextVer)
    (hsup : e'.superseded = e.superseded) (hcells : ∀ r, e'.heap.cells r = e.heap.cells r ∨
      e'.heap.cells r = none ∧ ∃ x, e.heap.cells r = some (some x) ∧ .committed x ∈ e.sys.hist) : UpdateInv e' := by
  have hledger : e'.ledger = e.ledger := by
    funext t
    rw [Engine.ledger, Engine.ledger, Engine.inFlight, Engine.inFlight, hsys, hstmts]
  refine hu.weaken (fun t st h => hstmts ▸ h) (fun r x hx => ?_) ?_ ?_
  · rcases hcells r with heq | ⟨hnone, -⟩
    · exact heq ▸ hx
    · rw [hnone] at hx
      cases hx
  · rw [hledger]
    refine hu.ledger.forget fun r => (hcells r).imp_right ?_
    rintro ⟨-, x, hx, hcom⟩
    exact ⟨x, hx, ledger_eq_nil hi.txn hcom⟩
  · rw [hver, hnext, hsup]
    exact hu.log.forget fun r => (hcells r).imp_right And.left

lemma prune (h : e.prune t lsn = some e') : UpdateInv e' := by
  obtain ⟨x, o, rid, rest, hx, hph, hq, rfl⟩ := prune_eq_some h
  refine hu.forget hi rfl rfl rfl rfl rfl fun r => ?_
  show ((e.heap.pruneObsoleteVersion rid o t lsn).getD e.heap).cells r = _ ∨
    ((e.heap.pruneObsoleteVersion rid o t lsn).getD e.heap).cells r = none ∧ _
  cases hp : e.heap.pruneObsoleteVersion rid o t lsn with
  | none => exact .inl rfl
  | some h' =>
    obtain ⟨ht0, -, tup, htup, hxmax, hw, -⟩ := pruneObsoleteVersion_eq_some hp
    have hcells := cells_of_look hw.look
    by_cases heq : r = rid
    · subst heq
      refine .inr ⟨?_, t, ?_, ?_⟩
      · rw [getD_some, hcells, update_self]
        split <;> rfl
      · rw [cells_of_tupleAt htup, hxmax, if_neg ht0]
      · have hc := (hi.txn.session_ok t x hx).phase
        rwa [hph] at hc
    · exact .inl (by rw [getD_some, hcells, update_of_ne heq])

/-- A collector empties only cells with the stamp of a transaction that committed. -/
lemma collected {oldest : ℕ} {freezing : Bool} {tb : GcTable β κ}
    (hc : Collected e.sys.tm oldest freezing e.table tb) :
    UpdateInv { e with table := tb } := by
  refine hu.forget hi rfl rfl rfl rfl rfl fun r => ?_
  show tb.heap.cells r = e.table.heap.cells r ∨ tb.heap.cells r = none ∧ _
  have hl := hc.look r
  simp only [cells, tupleAt_eq_look]
  generalize hv : e.table.heap.look r = v at hl
  generalize tb.heap.look r = v' at hl
  have hgarbage : ∀ t, v = .tuple t → isGarbage e.sys.tm oldest t = true →
      ∃ x, e.heap.cells r = some (some x) ∧ .committed x ∈ e.sys.hist := by
    rintro t rfl hg
    have htup : e.heap.tupleAt r = some t := tupleAt_eq_some_iff.2 hv
    simp only [isGarbage, Bool.and_eq_true, bne_iff_ne] at hg
    obtain ⟨⟨⟨-, hx⟩, hcom⟩, -⟩ := hg
    refine ⟨t.xmax, by rw [cells_of_tupleAt htup, if_neg hx], ?_⟩
    exact hi.txn.committed_of_isTxnCommitted ((hi.heap.stamps r t htup).2.resolve_left hx) hcom
  cases hl with
  | keep => exact .inl rfl
  | redirect t hg | remove t hg => exact .inr ⟨rfl, hgarbage t rfl hg⟩
  | freeze t => exact .inl rfl

lemma txnStep {a : TxnAction} (h : e.txnStep a = some e') : UpdateInv e' := by
  obtain ⟨hmay, sys, hs, rfl⟩ := txnStep_eq_some h
  refine hu.weaken (fun t st hst => (EngineInv.afterTxn_stmts hst).1) (fun r x hx => ?_) ?_ ?_
  · rwa [afterTxn_heap] at hx
  · rw [afterTxn_heap]
    exact hu.ledger.shrink (ledger_of_txnStep hi hs)
  · cases a <;> exact hu.log

theorem step [DecidableEq κ] {a : Action β} (hsafe : StoreSafe e a) (h : e.step a = some e') :
    UpdateInv e' := by
  cases a with
  | txn a => exact hu.txnStep hi h
  | install t row length lsn hot => exact hu.install hi h
  | commitOld t => exact hu.commitOld hi hsafe h
  | insert t row length lsn => exact hu.insert hi h
  | indexRow t => exact hu.indexRow h
  | delete t lsn => exact hu.delete hi hsafe h
  | undo t lsn => exact hu.undo hi h
  | prune t lsn => exact hu.prune hi h
  | gc maxPages =>
    obtain rfl := some.inj h
    exact hu.collected hi (collected_runGc ..)
  | vacuum =>
    obtain rfl := some.inj h
    exact hu.collected hi (collected_runVacuum ..)
  | _ => exact hu.controlled hi (controlled_of_step h rfl)

end

lemma overwritesNobody (a : Action β) : OverwritesNobody e a := by
  cases a with
  | delete t lsn =>
    intro st rid hst hpc hd tup htup
    obtain ⟨hp, hd⟩ := ne_none_iff_exists'.1 hd
    obtain ⟨tup', htup', hcur, -⟩ := markDeletedIfCurrent_eq_some hd
    obtain rfl : tup = tup' := some.inj (htup.symm.trans htup')
    exact hcur.imp_right .inl
  | commitOld t =>
    intro st old new row hot lsn hst hpc _ tup htup
    exact .inl (xmax_eq_of_cells_none htup ((hu.stmts t st hst).cells_of_checked hpc htup))
  | _ => trivial

end

lemma init (slotCount next : ℕ) (log : Option TxnStatusLog) (keys : List (β → κ)) :
    UpdateInv (init (TxnSystem.init slotCount next log) keys) where
  stmts t st hst := by cases hst
  ledger := ⟨fun t en hen => (by cases hen), fun t => List.Pairwise.nil,
    fun t t' _ en hen => (by cases hen)⟩
  log := ⟨fun t r x ht => (by cases ht), fun v t t' ht => (by cases ht), fun p hp => (by cases hp),
    fun r => Nat.one_pos, fun r r' hr => absurd rfl hr⟩

end UpdateInv

/-- **No update is lost when the stamps are undisturbed.**  In every run whose stamps are safe, no
version is ever superseded by two transactions that committed, and no stamp replaces that of
another transaction that is active or committed. -/
theorem noLostUpdate_of_storeSafe [DecidableEq κ] {slotCount next : ℕ} {log : Option TxnStatusLog}
    (hnext : 0 < next) (hlog : ∀ l ∈ log, ∀ c, next ≤ c → l.states c = none)
    (keys : List (β → κ)) {acts : List (Action β)}
    (hsafe : StepsMeet Engine.step StoreSafe (Engine.init (TxnSystem.init slotCount next log) keys) acts) :
    Always Engine.step NoLostUpdate
        (Engine.init (TxnSystem.init slotCount next log) keys) acts ∧
      StepsMeet Engine.step OverwritesNobody
        (Engine.init (TxnSystem.init slotCount next log) keys) acts := by
  have hinit : EngineInv (init (TxnSystem.init slotCount next log) keys) ∧
      UpdateInv (init (TxnSystem.init slotCount next log) keys) :=
    ⟨EngineInv.init hnext hlog keys, UpdateInv.init slotCount next log keys⟩
  have hstep : ∀ (e : Engine β κ) (a : Action β) (e' : Engine β κ), EngineInv e ∧ UpdateInv e →
      StoreSafe e a → e.step a = some e' → EngineInv e' ∧ UpdateInv e' :=
    fun e a e' hi hs h => ⟨hi.1.step h, hi.2.step hi.1 hs h⟩
  exact ⟨always_of_invariant hstep (fun e hi => hi.2.noLostUpdate) hinit hsafe,
    StepsMeet.of_invariant hstep (fun e a hi _ => hi.2.overwritesNobody a) hinit hsafe⟩

/-- The row that a `DELETE` is about to mark. -/
def Pc.deletingRid : Pc β → Option RecordId
  | .deleting rid => some rid
  | _ => none

/-- Transaction 1 inserts two rows and commits; transaction 4 has written a new version of one of them and not stamped
the old one yet, and transaction 3 is about to delete the other. -/
def deleteBesideUpdate : List (Action ℕ) :=
  [.txn .begin] ++ insertStmt 1 7 40 1 ++ insertStmt 1 8 40 2 ++ commitTxn 1 ++ [.txn (.finish 1)] ++
    [.txn .begin, .txn .begin, .beginStmt 4, .scan 4 ⟨1, 1⟩, .readRow 4, .lockRow 4, .recheck 4,
      .install 4 9 40 3 true, .beginStmt 3, .scan 3 ⟨1, 0⟩, .lockDelete 3]

/-- A deletion while another transaction is between the second look and the stamp on another row. -/
theorem noLostUpdate_beside_update :
    Always Engine.step NoLostUpdate
        (Engine.init (TxnSystem.init 4 1 (some TxnStatusLog.empty)) ([] : List (ℕ → ℕ)))
        (deleteBesideUpdate ++ [.delete 3 4]) ∧
      StepsMeet Engine.step OverwritesNobody
        (Engine.init (TxnSystem.init 4 1 (some TxnStatusLog.empty)) ([] : List (ℕ → ℕ)))
        (deleteBesideUpdate ++ [.delete 3 4]) := by
  refine noLostUpdate_of_storeSafe (by decide) TxnStatusLog.empty_unused [] (.concat (.of_forall ?_) fun m hm => ?_)
  · intro a ha e
    cases a with
    | delete t lsn | commitOld t =>
      revert ha
      simp [deleteBesideUpdate, insertStmt, commitTxn]
    | _ => trivial
  · have hi := (EngineInv.init (by decide) TxnStatusLog.empty_unused []).runs hm
    -- the other transactions that have begun are elsewhere
    have helse := runs_eval (f := fun m => decide (∀ ev ∈ m.sys.hist, ev.txn ≠ 3 →
      (∀ st ∈ m.stmts ev.txn, st.pc.checkedRid ≠ some ⟨1, 0⟩) ∧ .fill ⟨1, 0⟩ ∉ m.ledger ev.txn)) (v := true)
      (by decide +kernel) hm
    have hrid := runs_eval (f := fun m => (m.stmts 3).map fun st => st.pc.deletingRid) (v := some (some ⟨1, 0⟩))
      (by decide +kernel) hm
    intro st rid hst hpc
    obtain rfl : rid = ⟨1, 0⟩ := by simpa [hst, hpc, Pc.deletingRid] using hrid
    refine ⟨fun t' st' hne hst' => ?_, fun t' hne hfill => ?_⟩
    · obtain ⟨txn, hr⟩ := hi.stmt_running t' st' hst'
      exact (of_decide_eq_true helse _ (hi.began hr) hne).1 st' hst'
    · exact (of_decide_eq_true helse _ (began_of_mem_ledger hi.txn hfill) hne).2 hfill

/-- Transactions 3 and 4 have both looked at the row again before either of them stamps it. -/
def updateUnderUpdate : List (Action ℕ) :=
  [.txn .begin] ++ insertStmt 1 7 40 1 ++ commitTxn 1 ++ [.txn (.finish 1)] ++
    [.txn .begin, .txn .begin, .beginStmt 3, .scan 3 ⟨1, 0⟩, .readRow 3, .lockRow 3, .recheck 3,
      .beginStmt 4, .scan 4 ⟨1, 0⟩, .readRow 4, .lockRow 4, .recheck 4,
      .install 3 8 40 2 true, .commitOld 3, .endStmt 3] ++ commitTxn 3 ++
    [.install 4 9 40 3 true, .commitOld 4, .endStmt 4] ++ commitTxn 4

/-- Both commit, and the update of transaction 3 is lost. -/
theorem update_lost :
    ¬ (Always Engine.step NoLostUpdate (Engine.init (TxnSystem.init 4 1 (some TxnStatusLog.empty)) ([] : List (ℕ → ℕ)))
        updateUnderUpdate ∧
      StepsMeet Engine.step OverwritesNobody
        (Engine.init (TxnSystem.init 4 1 (some TxnStatusLog.empty)) ([] : List (ℕ → ℕ)))
        updateUnderUpdate) := by
  rintro ⟨h, -⟩
  obtain ⟨m, ⟨hsup, h3, h4⟩, hlast⟩ := h.eval (R := fun m => m.superseded = [(1, 4), (1, 3)] ∧
    .committed 3 ∈ m.sys.hist ∧ .committed 4 ∈ m.sys.hist) (by decide +kernel)
  have heq := hlast 1 3 4 (by simp [hsup]) (by simp [hsup]) h3 h4
  omega

end MiniDb
