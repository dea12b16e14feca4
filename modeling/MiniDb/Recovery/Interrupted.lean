import MiniDb.Recovery.PageReplay

/-!
# Recovery that is interrupted

While recovery runs, the buffer pool may write changed pages back at any time.  If the system crashes then, recovery
starts again from the beginning of the log with the pages as they are on disk, each as of another time.

The redo of an update is up to four heap calls: the new version is placed, the old one is marked, then linked, and the
new one is taken back if this failed.  The first stamps the page of the new version and the second that of the old one,
and a stamped page is not looked at again.  `WholePage`: no page reaches the disk with half of an update.
-/

namespace MiniDb

open Function List Option HeapFile RecoveryOp

variable {β : Type*}

/-- What a crash leaves: LSNs were given out in order, and addresses are on data pages. -/
structure CrashState (β : Type*) where
  log : List (WalRecord β)
  heaps : Heaps β
  increasing : log.Pairwise fun r r' => r.lsn < r'.lsn
  proper : ∀ r ∈ log, r.lsn ≠ 0 ∧ r.op.OnDataPages

open CrashState

/-- An update whose new version is placed. -/
structure HalfUpdate (β : Type*) where
  table : ℕ
  txnId : ℕ
  lsn : ℕ
  old : RecordId
  new : RecordId
  data : Tuple β
  length : ℕ
  /-- A tuple was written for the new version. -/
  inserted : Bool

/-- Where the redo of a record is. -/
inductive RedoStage (β : Type*) where
  | whole
  | placed (u : HalfUpdate β)
  | marked (u : HalfUpdate β) (marked : Bool)
  | refused (u : HalfUpdate β)

def RedoStage.isWhole : RedoStage β → Bool
  | .whole => true
  | _ => false

structure RecoveryRun (β : Type*) where
  disk : Heaps β
  mem : Heaps β
  /-- The operations that are finished. -/
  done : ℕ
  stage : RedoStage β

open RecoveryRun

inductive RecoveryAction where
  /-- Recovery makes its next call. -/
  | next
  /-- A page reaches the disk. -/
  | flush (table page : ℕ)
  | crash
  deriving DecidableEq

namespace CrashState

variable (cs : CrashState β)

def committed : ℕ → Bool := isCommitted cs.log

def ops : List (RecoveryOp β) := recoveryOps cs.log

/-- The heap files after the first operations of a recovery that is not interrupted. -/
def after (j : ℕ) : Heaps β := (cs.ops.take j).foldl (RecoveryOp.apply cs.committed) cs.heaps

def start : RecoveryRun β := ⟨cs.heaps, cs.heaps, 0, .whole⟩

end CrashState

def Heaps.savePage (disk mem : Heaps β) (table page : ℕ) : Heaps β :=
  match mem table with
  | none => disk
  | some h => disk.modify table fun d => d.setPage page (h.pages page)

namespace RecoveryRun

variable (cs : CrashState β) (s : RecoveryRun β)

def finishOp (mem : Heaps β) : RecoveryRun β :=
  { s with mem := mem, done := s.done + 1, stage := .whole }

def begin (op : RecoveryOp β) : RecoveryRun β :=
  match op with
  | .redo ⟨lsn, txnId, .update table old new data length⟩ =>
    if cs.committed txnId then
      let mem := s.mem.modify table fun h => (h.beginUpdate lsn old new data length).1
      match (s.mem table).bind fun h => (h.beginUpdate lsn old new data length).2 with
      | none => s.finishOp mem
      | some inserted =>
        { s with mem := mem, stage := .placed ⟨table, txnId, lsn, old, new, data, length, inserted⟩ }
    else s.finishOp s.mem
  | op => s.finishOp (op.apply cs.committed s.mem)

/-- The next call of recovery; nothing once it has come to the end. -/
def next : Option (RecoveryRun β) :=
  match s.stage with
  | .whole => cs.ops[s.done]?.map (s.begin cs)
  | .placed u =>
    some { s with
      mem := s.mem.modify u.table fun h => (h.markDeleted u.old u.txnId u.lsn).getD h
      stage := .marked u ((s.mem u.table).any fun h => (h.markDeleted u.old u.txnId u.lsn).isSome) }
  | .marked u marked =>
    let mem := s.mem.modify u.table fun h => (h.setNextVersion u.old u.new u.lsn).getD h
    let linked := (s.mem u.table).any fun h => (h.setNextVersion u.old u.new u.lsn).isSome
    if marked && linked then some (s.finishOp mem)
    else if u.inserted then some { s with mem := mem, stage := .refused u }
    else some (s.finishOp mem)
  | .refused u =>
    some (s.finishOp (s.mem.modify u.table fun h => (h.rollbackInsert u.new u.lsn).getD h))

def step : RecoveryAction → Option (RecoveryRun β)
  | .next => s.next cs
  | .flush table page => some { s with disk := s.disk.savePage s.mem table page }
  | .crash => some { s with mem := s.disk, done := 0, stage := .whole }

def Ended : Prop := s.done = cs.ops.length ∧ s.stage.isWhole = true

/-- The page does not hold half of an update: the new version but not the mark of the old one, or the mark but
not the link. -/
def WholePage : RecoveryAction → Prop
  | .flush table page =>
    match s.stage with
    | .placed u => ¬ (table = u.table ∧ page = u.old.pageId ∧ page = u.new.pageId)
    | .marked u _ => ¬ (table = u.table ∧ page = u.old.pageId)
    | _ => True
  | _ => True

instance : DecidablePred (WholePage s)
  | .next => isTrue trivial
  | .crash => isTrue trivial
  | .flush table page =>
    match h : s.stage with
    | .whole => isTrue (by simp only [WholePage, h])
    | .placed u =>
      decidable_of_iff (¬ (table = u.table ∧ page = u.old.pageId ∧ page = u.new.pageId))
        (by simp only [WholePage, h])
    | .marked u _ =>
      decidable_of_iff (¬ (table = u.table ∧ page = u.old.pageId)) (by simp only [WholePage, h])
    | .refused _ => isTrue (by simp only [WholePage, h])

end RecoveryRun

/-! ## The calls together -/

namespace RecoveryRun

variable {cs : CrashState β} {s : RecoveryRun β} {hs : Heaps β} {table : ℕ} {h : HeapFile β}

/-- The redo of an update that does not reach the old version is done. -/
lemma modify_beginUpdate {committed : ℕ → Bool} {lsn txnId length : ℕ} {old new : RecordId}
    {data : Tuple β} (hc : committed txnId = true)
    (hnone : ((hs table).bind fun h => (h.beginUpdate lsn old new data length).2) = none) :
    (hs.modify table fun h => (h.beginUpdate lsn old new data length).1) =
      (redo ⟨lsn, txnId, .update table old new data length⟩).apply committed hs := by
  simp only [apply, redoRecord, hc, if_true]
  unfold Heaps.modify
  cases hh : hs table with
  | none => rfl
  | some h =>
    rw [hh] at hnone
    have hbegun : (h.beginUpdate lsn old new data length).2 = none := hnone
    simp only
    rw [redoUpdate_eq]
    generalize h.beginUpdate lsn old new data length = begun at hbegun
    obtain ⟨h1, pending⟩ := begun
    cases hbegun
    rfl

end RecoveryRun

/-! ## The recovery that is not interrupted -/

namespace CrashState

variable {cs : CrashState β} {j k : ℕ} {a : ℕ × ℕ} {op : RecoveryOp β} {p : Page β}

/-- The pages along the recovery that is not interrupted. -/
def pages (cs : CrashState β) (j : ℕ) (a : ℕ × ℕ) : Option (Page β) := (cs.after j).page a

lemma after_succ (hop : cs.ops[j]? = some op) : cs.after (j + 1) = op.apply cs.committed (cs.after j) := by
  unfold after
  rw [take_add_one, hop, foldl_append]
  rfl

lemma after_of_le (h : cs.ops.length ≤ j) : cs.after j = recover cs.log cs.heaps := by
  unfold after
  rw [take_of_length_le h, recover_eq_foldl]
  rfl

variable {r : WalRecord β}

lemma log_of_redo (h : cs.ops[j]? = some (.redo r)) : cs.log[j]? = some r := by
  unfold ops recoveryOps at h
  rw [getElem?_append] at h
  split at h
  · rw [getElem?_map, map_eq_some_iff] at h
    obtain ⟨r', hr', heq⟩ := h
    cases heq
    exact hr'
  · obtain ⟨r', -, hmem⟩ := mem_flatMap.1 (mem_of_getElem? h)
    unfold WalRecord.undoOps at hmem
    split at hmem <;> simp at hmem

lemma ops_of_log (h : cs.log[j]? = some r) : cs.ops[j]? = some (.redo r) := by
  unfold ops recoveryOps
  have hlt : j < cs.log.length := (List.getElem?_eq_some_iff.1 h).1
  rw [getElem?_append_left (by rwa [length_map]), getElem?_map, h]
  rfl

/-- Before the redo of a record only earlier records were redone. -/
lemma redo_of_lt (hjk : j < k) (hk : cs.ops[k]? = some (.redo r))
    (hj : cs.ops[j]? = some op) : ∃ r', op = .redo r' ∧ r'.lsn < r.lsn := by
  obtain ⟨hlt, hr⟩ := List.getElem?_eq_some_iff.1 (log_of_redo hk)
  have hj' : cs.log[j]? = some (cs.log[j]) := getElem?_eq_getElem (hjk.trans hlt)
  refine ⟨cs.log[j], some.inj (hj.symm.trans (ops_of_log hj')), ?_⟩
  have := pairwise_iff_getElem.1 cs.increasing j k (hjk.trans hlt) hlt hjk
  rwa [hr] at this

lemma proper_of_ops (hop : cs.ops[j]? = some op) : op.Proper := by
  cases op with
  | redo r => exact cs.proper r (mem_of_getElem? (log_of_redo hop))
  | undoDelete => trivial
  | undoInsert => trivial

/-- Every redo of the recovery that is not interrupted finds a place for its tuple, and the old version. -/
def Goes (cs : CrashState β) : Prop :=
  StepsMeet (total (RecoveryOp.apply cs.committed)) (fun hs op => op.Goes cs.committed hs) cs.heaps cs.ops

instance : Decidable cs.Goes := decidableStepsMeet ..

lemma Goes.at (hgoes : cs.Goes) (hop : cs.ops[j]? = some op) : op.Goes cs.committed (cs.after j) := by
  obtain ⟨hlt, hget⟩ := List.getElem?_eq_some_iff.1 hop
  have hsplit : cs.ops = cs.ops.take j ++ op :: cs.ops.drop (j + 1) := by
    rw [← hget, ← drop_eq_getElem_cons hlt, take_append_drop]
  unfold Goes at hgoes
  rw [hsplit] at hgoes
  exact (hgoes.append.2 (cs.after j) (runs_total ..)).1

variable (hgoes : cs.Goes)
include hgoes

section

variable (hop : cs.ops[j]? = some op)
include hop

lemma pages_succ (a : ℕ × ℕ) : cs.pages (j + 1) a = (cs.pages j a).map fun p => op.onPage cs.committed a p := by
  unfold pages
  rw [after_succ hop]
  exact page_apply (proper_of_ops hop) (hgoes.at hop) a

/-- **Once an operation is done it is settled on every page, for good.** -/
lemma settled_pages (hjk : j < k) : ∀ p ∈ cs.pages k a, op.Settled cs.committed a p := by
  induction k, hjk using Nat.le_induction with
  | base =>
    rw [pages_succ hgoes hop a]
    intro p hp
    obtain ⟨p0, hp0, rfl⟩ := map_eq_some_iff.1 hp
    cases op with
    | redo r => exact settled_redo (hgoes.at hop) hp0
    | undoDelete table rid lsn => exact settled_undoDelete table rid lsn p0
    | undoInsert table rid txnId lsn => exact settled_undoInsert table rid txnId lsn p0
  | succ k hjk ih =>
    cases hop' : cs.ops[k]? with
    | none =>
      have hle := getElem?_eq_none_iff.1 hop'
      have hsame : cs.pages (k + 1) a = cs.pages k a := by
        unfold pages
        rw [after_of_le hle, after_of_le (hle.trans (Nat.le_succ k))]
      rwa [hsame]
    | some op' =>
      rw [pages_succ hgoes hop' a]
      intro p hp
      obtain ⟨p0, hp0, rfl⟩ := map_eq_some_iff.1 hp
      cases op' with
      | redo r' =>
        obtain ⟨r, rfl, hlt⟩ := redo_of_lt hjk hop' hop
        exact settled_redo_later hlt (ih p0 hp0)
      | undoDelete table rid lsn => exact (ih p0 hp0).trims (.ite fun _ => trims_rewrite ..)
      | undoInsert table rid txnId lsn => exact (ih p0 hp0).trims (.ite fun _ => .ite fun _ => trims_free ..)

omit hop in
lemma isSome_pages (k : ℕ) (a : ℕ × ℕ) : (cs.pages k a).isSome = (cs.pages 0 a).isSome := by
  induction k with
  | zero => rfl
  | succ k ih =>
    rw [← ih]
    cases hop : cs.ops[k]? with
    | none =>
      have hle := getElem?_eq_none_iff.1 hop
      unfold pages
      rw [after_of_le hle, after_of_le (hle.trans (Nat.le_succ k))]
    | some op => rw [pages_succ hgoes hop, isSome_map]

/-- An operation leaves the pages alone on which it is done. -/
lemma onPage_pages (hjk : j < k) : (cs.pages k a).map (fun p => op.onPage cs.committed a p) = cs.pages k a := by
  cases hp : cs.pages k a with
  | none => rfl
  | some p => exact congrArg some (settled_pages hgoes hop hjk p hp).onPage

/-- One operation of a replay that starts from pages of different ages. -/
lemma mixed_pages (f : ℕ × ℕ → ℕ) (a : ℕ × ℕ) :
    (mixed cs.pages f j a).map (fun p => op.onPage cs.committed a p) = mixed cs.pages f (j + 1) a :=
  mixed_succ (g := Option.map fun p => op.onPage cs.committed a p) (pages_succ hgoes hop a)
    fun _ hjk => onPage_pages hgoes hop hjk

/-- A redo that finds what it needs finds it, or a page past it, in the replay too. -/
lemma goes_mixed {f : ℕ × ℕ → ℕ} {hs : Heaps β}
    (hs_eq : ∀ a, hs.page a = mixed cs.pages f j a) : op.Goes cs.committed hs := by
  -- a page is as it was, or the operation is settled on it
  have hpage : ∀ a, ∀ p ∈ hs.page a, p ∈ cs.pages j a ∨ op.Settled cs.committed a p := by
    intro a p hp
    rw [hs_eq] at hp
    rcases Nat.lt_or_ge j (f a) with hlt | hle
    · rw [mixed_of_lt hlt] at hp
      exact .inr (settled_pages hgoes hop hlt p hp)
    · rw [mixed_of_le hle] at hp
      exact .inl hp
  have hat := hgoes.at hop
  cases op with
  | undoDelete | undoInsert => trivial
  | redo r =>
    intro hc
    obtain ⟨lsn, txnId, wop⟩ := r
    cases wop with
    | insert table rid data length =>
      intro p hp
      rcases hpage _ p hp with hsame | hlsn | hidle
      · exact hat hc p hsame
      · exact .inl hlsn
      · exact absurd rfl (hidle hc)
    | update table old new data length =>
      obtain ⟨hnew, hold⟩ := hat hc
      refine ⟨fun p hp => ?_, fun p hp => ?_⟩
      · rcases hpage _ p hp with hsame | hlsn | hidle
        · exact hnew p hsame
        · exact .inl hlsn
        · exact absurd rfl (hidle hc).2
      · rcases hpage _ p hp with hsame | hlsn | hidle
        · exact hold p hsame
        · exact .inl hlsn
        · exact absurd rfl (hidle hc).1
    | _ => trivial

end

end CrashState

/-! ## An update in the middle -/

namespace HalfUpdate

variable (u : HalfUpdate β)

def op : RecoveryOp β := .redo ⟨u.lsn, u.txnId, .update u.table u.old u.new u.data u.length⟩

def placeOn (a : ℕ × ℕ) (p : Page β) : Page β := placeNew u.lsn u.table u.new u.data u.length a p

def markOn (a : ℕ × ℕ) (p : Page β) : Page β := markOld u.txnId u.lsn u.table u.old a p

def linkOn (a : ℕ × ℕ) (p : Page β) : Page β := linkOld u.lsn u.table u.old u.new a p

/-- The update is being redone and the page of the old version is not past it. -/
structure Due (cs : CrashState β) (f : ℕ × ℕ → ℕ) (j : ℕ) : Prop where
  op : cs.ops[j]? = some u.op
  committed : cs.committed u.txnId = true
  age : f (u.table, u.old.pageId) ≤ j
  due : ∃ p ∈ cs.pages j (u.table, u.old.pageId), p.lsn < u.lsn

variable {u} {cs : CrashState β} {f : ℕ × ℕ → ℕ} {j : ℕ} {a : ℕ × ℕ} {p : Page β}

lemma markOn_of_ne (ha : a ≠ (u.table, u.old.pageId)) (p : Page β) : u.markOn a p = p := if_neg ha

lemma linkOn_of_ne (ha : a ≠ (u.table, u.old.pageId)) (p : Page β) : u.linkOn a p = p := if_neg ha

lemma placeOn_of_ne (ha : a ≠ (u.table, u.new.pageId)) (p : Page β) : u.placeOn a p = p :=
  if_neg fun h => ha h.1

lemma placeOn_of_le (hle : u.lsn ≤ p.lsn) (a : ℕ × ℕ) : u.placeOn a p = p :=
  if_neg fun h => absurd h.2 (not_lt.2 hle)

/-- The calls of the redo together, on a page that is not past it or does not hold the old version. -/
lemma onPage_op (hc : cs.committed u.txnId = true) (ha : a = (u.table, u.old.pageId) → p.lsn < u.lsn) :
    u.op.onPage cs.committed a p = u.linkOn a (u.markOn a (u.placeOn a p)) := by
  show (if u.lsn ≤ p.lsn then p else (WalRecord.mk u.lsn u.txnId _).redoOnPage cs.committed a p) = _
  split
  · next hle =>
    have hne : a ≠ (u.table, u.old.pageId) := fun h => absurd (ha h) (not_lt.2 hle)
    rw [linkOn_of_ne hne, markOn_of_ne hne, placeOn_of_le hle]
  · exact if_pos hc

lemma Due.lsn_lt (h : u.Due cs f j) (hp : p ∈ mixed cs.pages f j (u.table, u.old.pageId)) : p.lsn < u.lsn := by
  obtain ⟨p', hp', hlt⟩ := h.due
  rw [mixed_of_le h.age] at hp
  obtain rfl := some.inj (hp.symm.trans hp')
  exact hlt

lemma Due.exists_page (h : u.Due cs f j) : ∃ p, mixed cs.pages f j (u.table, u.old.pageId) = some p := by
  obtain ⟨p, hp, -⟩ := h.due
  exact ⟨p, (mixed_of_le h.age).trans hp⟩

lemma Due.onPage (h : u.Due cs f j) (hp : p ∈ mixed cs.pages f j a) :
    u.op.onPage cs.committed a p = u.linkOn a (u.markOn a (u.placeOn a p)) :=
  onPage_op h.committed fun ha => h.lsn_lt (ha ▸ hp)

lemma Due.fits (hgoes : cs.Goes) (h : u.Due cs f j)
    (hp : p ∈ mixed cs.pages f j (u.table, u.old.pageId)) : p.fits u.old.slotIdx 26 = true := by
  have hlt := h.lsn_lt hp
  rw [mixed_of_le h.age] at hp
  exact ((hgoes.at h.op h.committed).2 p hp).resolve_left (not_le.2 hlt)

end HalfUpdate

/-! ## The invariant -/

/-- What the calls made so far for the current record have done to a page. -/
def RedoStage.onPage : RedoStage β → ℕ × ℕ → Page β → Page β
  | .whole, _, p => p
  | .placed u, a, p => u.placeOn a p
  | .marked u _, a, p => u.markOn a (u.placeOn a p)
  | .refused _, _, p => p

def RedoStage.Ok (cs : CrashState β) (f : ℕ × ℕ → ℕ) (j : ℕ) : RedoStage β → Prop
  | .whole => True
  | .placed u => u.Due cs f j
  | .marked u ok => ok = true ∧ u.Due cs f j
  | .refused _ => False

namespace RecoveryRun

/-- Every page on disk is as of some time of the recovery that is not interrupted, and memory is on the way from
these pages to the end. -/
structure Inv (cs : CrashState β) (f : ℕ × ℕ → ℕ) (s : RecoveryRun β) : Prop where
  disk : ∀ a, s.disk.page a = cs.pages (f a) a
  mem : ∀ a, s.mem.page a = (mixed cs.pages f s.done a).map (s.stage.onPage a)
  stage : s.stage.Ok cs f s.done

variable {cs : CrashState β} {f : ℕ × ℕ → ℕ} {s s' : RecoveryRun β}

lemma inv_start (cs : CrashState β) : cs.start.Inv cs fun _ => 0 where
  disk _ := rfl
  mem a := by
    exact map_id'.symm
  stage := trivial

lemma Inv.crash (h : s.Inv cs f) : ({ s with mem := s.disk, done := 0, stage := .whole } : RecoveryRun β).Inv cs f where
  disk := h.disk
  mem a := by
    rw [mixed_zero, h.disk]
    exact map_id'.symm
  stage := trivial

variable {mem : Heaps β} {table page : ℕ}

lemma Inv.finishOp (hgoes : cs.Goes) (h : s.Inv cs f) {op : RecoveryOp β} (hop : cs.ops[s.done]? = some op)
    (hmem : ∀ a, mem.page a = (mixed cs.pages f s.done a).map fun p => op.onPage cs.committed a p) :
    (s.finishOp mem).Inv cs f where
  disk := h.disk
  mem a := by
    show mem.page a = _
    rw [hmem, mixed_pages hgoes hop]
    exact map_id'.symm
  stage := trivial

lemma Inv.mem_of_whole (h : s.Inv cs f) (hstage : s.stage = .whole) (a : ℕ × ℕ) :
    s.mem.page a = mixed cs.pages f s.done a := by
  rw [h.mem a, hstage]
  exact map_id'

section

variable (hgoes : cs.Goes) (h : s.Inv cs f)
include hgoes h

variable {op : RecoveryOp β} {u : HalfUpdate β}

lemma Inv.finishWhole (hstage : s.stage = .whole) (hop : cs.ops[s.done]? = some op) :
    (s.finishOp (op.apply cs.committed s.mem)).Inv cs f := by
  have hmem := h.mem_of_whole hstage
  refine h.finishOp hgoes hop fun a => ?_
  rw [page_apply (proper_of_ops hop) (goes_mixed hgoes hop hmem), hmem]

lemma Inv.placed (hstage : s.stage = .whole) (hop : cs.ops[s.done]? = some u.op)
    (hc : cs.committed u.txnId = true)
    (hsome : ((s.mem u.table).bind fun h => (h.beginUpdate u.lsn u.old u.new u.data u.length).2) = some u.inserted) :
    ({ s with
        mem := s.mem.modify u.table fun h => (h.beginUpdate u.lsn u.old u.new u.data u.length).1
        stage := .placed u } : RecoveryRun β).Inv cs f := by
  have hmem := h.mem_of_whole hstage
  obtain ⟨hlsn, hold, hnew⟩ := proper_of_ops hop
  obtain ⟨heap, hheap, hbegun⟩ := bind_eq_some_iff.1 hsome
  have hthere : ∀ q, heap.pages q ∈ s.mem.page (u.table, q) := by
    intro q
    show (s.mem u.table).map _ = _
    rw [hheap]
    rfl
  have hplace := (goes_mixed hgoes hop hmem hc).1 _ (hthere u.new.pageId)
  -- the page of the old version is not past the update, and so it is not ahead in the replay
  have hlt : (heap.pages u.old.pageId).lsn < u.lsn := by
    have hflag := isSome_beginUpdate (h := heap) hold hnew hlsn hplace
    rw [show (heap.beginUpdate u.lsn u.old u.new u.data u.length).2 = _ from hbegun] at hflag
    exact of_decide_eq_true hflag.symm
  have hpage : heap.pages u.old.pageId ∈ mixed cs.pages f s.done (u.table, u.old.pageId) :=
    hmem (u.table, u.old.pageId) ▸ hthere u.old.pageId
  have hage : f (u.table, u.old.pageId) ≤ s.done := by
    by_contra hahead
    rw [mixed_of_lt (not_le.1 hahead)] at hpage
    rcases settled_pages hgoes hop (not_le.1 hahead) _ hpage with hle | hidle
    · exact absurd hlt (not_lt.2 hle)
    · exact (hidle hc).1 rfl
  rw [mixed_of_le hage] at hpage
  refine ⟨h.disk, fun a => ?_, ⟨hop, hc, hage, _, hpage, hlt⟩⟩
  rw [Heaps.page_modify (g := u.placeOn)
    (fun h _ q => pages_beginUpdate hold hnew hlsn u.table q) fun a p ha => ?_, hmem]
  · rfl
  · exact u.placeOn_of_ne (fun heq => ha (congrArg Prod.fst heq)) p

lemma Inv.begin (hstage : s.stage = .whole) (hop : cs.ops[s.done]? = some op) : (s.begin cs op).Inv cs f := by
  have hwhole := h.finishWhole hgoes hstage hop
  unfold RecoveryRun.begin
  split
  · next lsn txnId table old new data length =>
    split
    · next hc =>
      split
      · next hnone =>
        rw [modify_beginUpdate hc hnone]
        exact hwhole
      · next inserted hsome =>
        exact h.placed hgoes hstage (u := ⟨table, txnId, lsn, old, new, data, length, inserted⟩) hop hc hsome
    · next hc =>
      -- the record of a loser is only noted
      have hsame : (redo ⟨lsn, txnId, .update table old new data length⟩).apply cs.committed s.mem = s.mem := by
        simp [apply, redoRecord, if_neg hc]
      rwa [hsame] at hwhole
  · exact hwhole

lemma Inv.marked (hstage : s.stage = .placed u) : ({ s with
        mem := s.mem.modify u.table fun h => (h.markDeleted u.old u.txnId u.lsn).getD h
        stage := .marked u ((s.mem u.table).any fun h => (h.markDeleted u.old u.txnId u.lsn).isSome) } :
      RecoveryRun β).Inv cs f := by
  have hdue : u.Due cs f s.done := by
    have := h.stage
    rwa [hstage] at this
  have hmem : ∀ a, s.mem.page a = (mixed cs.pages f s.done a).map (u.placeOn a) := by
    intro a
    rw [h.mem, hstage]
    rfl
  refine ⟨h.disk, fun a => ?_, ?_, hdue⟩
  · rw [Heaps.page_modify (g := u.markOn)
      (fun h _ q => HeapFile.pages_markDeleted_onPage u.table q) fun a p ha => ?_, hmem, Option.map_map]
    · rfl
    · exact u.markOn_of_ne (fun heq => ha (congrArg Prod.fst heq)) p
  · obtain ⟨p, hp⟩ := hdue.exists_page
    have hpage := hmem (u.table, u.old.pageId)
    rw [hp, map_some] at hpage
    obtain ⟨heap, hheap, hplaced⟩ := map_eq_some_iff.1 hpage
    rw [show s.mem u.table = some heap from hheap]
    show (heap.markDeleted u.old u.txnId u.lsn).isSome = true
    rw [isSome_markDeleted, show heap.pages u.old.pageId = _ from hplaced]
    exact fits_le (by decide) (fits_placeNew (hdue.fits hgoes hp))

lemma Inv.linked {ok : Bool} (hstage : s.stage = .marked u ok) :
    (ok && (s.mem u.table).any fun h => (h.setNextVersion u.old u.new u.lsn).isSome) = true ∧
      (s.finishOp (s.mem.modify u.table fun h => (h.setNextVersion u.old u.new u.lsn).getD h)).Inv cs f := by
  obtain ⟨rfl, hdue⟩ : ok = true ∧ u.Due cs f s.done := by
    have := h.stage
    rwa [hstage] at this
  have hmem : ∀ a, s.mem.page a = (mixed cs.pages f s.done a).map fun p => u.markOn a (u.placeOn a p) := by
    intro a
    rw [h.mem, hstage]
    rfl
  refine ⟨?_, h.finishOp hgoes hdue.op fun a => ?_⟩
  · obtain ⟨p, hp⟩ := hdue.exists_page
    have hpage := hmem (u.table, u.old.pageId)
    rw [hp, map_some] at hpage
    obtain ⟨heap, hheap, hmarked⟩ := map_eq_some_iff.1 hpage
    rw [show s.mem u.table = some heap from hheap, Bool.true_and]
    show (heap.setNextVersion u.old u.new u.lsn).isSome = true
    unfold setNextVersion
    rw [isSome_updateTuple, show heap.pages u.old.pageId = _ from hmarked, HalfUpdate.markOn, markOld,
      if_pos rfl, fits_rewrite]
    exact fits_placeNew (hdue.fits hgoes hp)
  · rw [Heaps.page_modify (g := u.linkOn)
      (fun h _ q => HeapFile.pages_setNextVersion_onPage u.table q) fun a p ha => ?_, hmem, Option.map_map]
    · cases hp : mixed cs.pages f s.done a with
      | none => rfl
      | some p => exact congrArg some (hdue.onPage hp).symm
    · exact u.linkOn_of_ne (fun heq => ha (congrArg Prod.fst heq)) p

lemma Inv.next (hs : s.next cs = some s') : s'.Inv cs f := by
  unfold RecoveryRun.next at hs
  split at hs
  · next hstage =>
    obtain ⟨op, hop, rfl⟩ := map_eq_some_iff.1 hs
    exact h.begin hgoes hstage hop
  · next u hstage =>
    cases hs
    exact h.marked hgoes hstage
  · next u ok hstage =>
    obtain ⟨hok, hinv⟩ := h.linked hgoes hstage
    simp only [hok, if_true, some.injEq] at hs
    exact hs ▸ hinv
  · next u hstage =>
    have := h.stage
    rw [hstage] at this
    exact this.elim

end

/-! ### A page reaches the disk -/

lemma page_savePage {disk : Heaps β}
    (hsome : (disk.page (table, page)).isSome = (mem.page (table, page)).isSome) (a : ℕ × ℕ) :
    (disk.savePage mem table page).page a = if a = (table, page) then mem.page a else disk.page a := by
  unfold Heaps.savePage
  cases hm : mem table with
  | none =>
    have hnone : mem.page (table, page) = none := by
      show (mem table).map _ = none
      rw [hm]
      rfl
    show disk.page a = _
    split
    · next ha =>
      subst ha
      rw [hnone] at hsome ⊢
      exact not_isSome_iff_eq_none.1 (hsome ▸ Bool.false_ne_true)
    · rfl
  | some h =>
    have hpage : mem.page (table, page) = some (h.pages page) := by
      show (mem table).map _ = _
      rw [hm]
      rfl
    rw [Heaps.page_modify (g := fun a p => if a = (table, page) then h.pages page else p)
      (fun d _ q => ?_) fun a p ha => if_neg fun heq => ha (congrArg Prod.fst heq)]
    · split
      · next ha =>
        subst ha
        rw [hpage] at hsome ⊢
        obtain ⟨p, hp⟩ := isSome_iff_exists.1 hsome
        rw [hp]
        rfl
      · exact map_id'
    · simp [setPage, update_apply]

section

variable (hgoes : cs.Goes)
include hgoes

lemma Inv.page_disk (h : s.Inv cs f) (table page : ℕ) (a : ℕ × ℕ) :
    (s.disk.savePage s.mem table page).page a = if a = (table, page) then s.mem.page a else s.disk.page a := by
  refine page_savePage ?_ a
  rw [h.disk, h.mem, isSome_map, mixed, isSome_pages hgoes (f _), isSome_pages hgoes (max _ _)]

/-- A page that the current operation has not changed yet reaches the disk. -/
lemma Inv.flush_untouched (h : s.Inv cs f) (hid : ∀ p, s.stage.onPage (table, page) p = p) :
    ({ s with disk := s.disk.savePage s.mem table page } : RecoveryRun β).Inv cs (savedAt f (table, page) s.done) where
  disk a := by
    rw [h.page_disk hgoes]
    split
    · next ha =>
      subst ha
      rw [h.mem, funext hid, savedAt_self]
      exact map_id'
    · next ha => rw [savedAt_of_ne ha, h.disk]
  mem a := by
    rw [h.mem, mixed_savedAt le_rfl]
  stage := by
    -- the page of the old version gets no older than the position
    have hage : ∀ {u : HalfUpdate β}, u.Due cs f s.done → u.Due cs (savedAt f (table, page) s.done) s.done := by
      intro u hdue
      refine ⟨hdue.op, hdue.committed, ?_, hdue.due⟩
      by_cases ha : (u.table, u.old.pageId) = (table, page)
      · rw [← ha, savedAt_self]
        exact max_le le_rfl hdue.age
      · rw [savedAt_of_ne ha]
        exact hdue.age
    have hok := h.stage
    cases hstage : s.stage with
    | whole => trivial
    | placed u =>
      rw [hstage] at hok
      exact hage hok
    | marked u ok =>
      rw [hstage] at hok
      exact ⟨hok.1, hage hok.2⟩
    | refused u =>
      rw [hstage] at hok
      exact hok.elim

lemma Inv.flush_placed (h : s.Inv cs f) {u : HalfUpdate β} (hdue : u.Due cs f s.done)
    (hne : (u.table, u.new.pageId) ≠ (u.table, u.old.pageId))
    (hon : ∀ p, s.stage.onPage (u.table, u.new.pageId) p = u.placeOn (u.table, u.new.pageId) p)
    (hstage : ∀ f, u.Due cs f s.done → s.stage.Ok cs f s.done) :
    ({ s with disk := s.disk.savePage s.mem u.table u.new.pageId } : RecoveryRun β).Inv cs
      (savedAt f (u.table, u.new.pageId) (s.done + 1)) := by
  set a := (u.table, u.new.pageId) with ha
  -- the update is done on this page
  have hplaced : s.mem.page a = mixed cs.pages f (s.done + 1) a := by
    rw [h.mem, ← mixed_pages hgoes hdue.op]
    cases hp : mixed cs.pages f s.done a with
    | none => rfl
    | some p =>
      refine congrArg some ?_
      show s.stage.onPage a p = u.op.onPage cs.committed a p
      rw [hon, hdue.onPage hp, u.linkOn_of_ne hne, u.markOn_of_ne hne]
  have hsaved : mixed cs.pages (savedAt f a (s.done + 1)) s.done a = mixed cs.pages f (s.done + 1) a := by
    unfold mixed
    rw [savedAt_self, ← Nat.max_assoc, Nat.max_eq_right (Nat.le_succ s.done)]
  refine ⟨fun b => ?_, fun b => ?_, hstage _ ⟨hdue.op, hdue.committed, ?_, hdue.due⟩⟩
  · rw [h.page_disk hgoes]
    split
    · next hb =>
      rw [hb, ← ha, savedAt_self]
      exact hplaced
    · next hb => rw [savedAt_of_ne hb, h.disk]
  · by_cases hb : b = a
    · subst hb
      rw [hsaved, hplaced]
      -- placing the new version again changes nothing
      cases hp : mixed cs.pages f (s.done + 1) a with
      | none => rfl
      | some p =>
        refine congrArg some ?_
        rw [hon]
        rcases settled_pages hgoes hdue.op
          (Nat.lt_of_lt_of_le (Nat.lt_succ_self s.done) (Nat.le_max_left ..)) p hp with hle | hidle
        · exact (u.placeOn_of_le hle a).symm
        · exact absurd rfl (hidle hdue.committed).2
    · rw [h.mem]
      unfold mixed
      rw [savedAt_of_ne hb]
  · rw [savedAt_of_ne hne.symm]
    exact hdue.age

lemma Inv.flush (h : s.Inv cs f) (hwhole : s.WholePage (.flush table page)) :
    ∃ f', ({ s with disk := s.disk.savePage s.mem table page } : RecoveryRun β).Inv cs f' := by
  have hok := h.stage
  obtain ⟨stage, hstage⟩ : ∃ stage, s.stage = stage := ⟨_, rfl⟩
  rw [hstage] at hok
  cases stage with
  | whole => exact ⟨_, h.flush_untouched hgoes fun p => by rw [hstage]; rfl⟩
  | refused u => exact hok.elim
  | placed u =>
    by_cases hnew : (table, page) = (u.table, u.new.pageId)
    · have hapart : ¬ (table = u.table ∧ page = u.old.pageId ∧ page = u.new.pageId) := by
        unfold WholePage at hwhole
        simpa only [hstage] using hwhole
      cases hnew
      exact ⟨_, h.flush_placed hgoes hok (fun heq => hapart ⟨rfl, congrArg Prod.snd heq, rfl⟩)
        (fun p => by rw [hstage]; rfl) fun f hdue => by rw [hstage]; exact hdue⟩
    · refine ⟨_, h.flush_untouched hgoes fun p => ?_⟩
      rw [hstage]
      exact u.placeOn_of_ne hnew p
  | marked u ok =>
    have hold : (table, page) ≠ (u.table, u.old.pageId) := by
      intro heq
      unfold WholePage at hwhole
      simp only [hstage] at hwhole
      exact hwhole ⟨congrArg Prod.fst heq, congrArg Prod.snd heq⟩
    have hon : ∀ p, s.stage.onPage (table, page) p = u.placeOn (table, page) p := by
      intro p
      rw [hstage]
      exact u.markOn_of_ne hold _
    by_cases hnew : (table, page) = (u.table, u.new.pageId)
    · cases hnew
      exact ⟨_, h.flush_placed hgoes hok.2 hold hon fun f hdue => by rw [hstage]; exact ⟨hok.1, hdue⟩⟩
    · exact ⟨_, h.flush_untouched hgoes fun p => (hon p).trans (u.placeOn_of_ne hnew p)⟩

lemma inv_step {a : RecoveryAction} (h : ∃ f, s.Inv cs f) (hwhole : s.WholePage a)
    (hs : s.step cs a = some s') : ∃ f, s'.Inv cs f := by
  obtain ⟨f, h⟩ := h
  cases a with
  | next => exact ⟨f, h.next hgoes hs⟩
  | crash =>
    cases hs
    exact ⟨f, h.crash⟩
  | flush table page =>
    cases hs
    exact h.flush hgoes hwhole

end

/-- **Recovery that is interrupted and run again ends with the pages of a recovery that is not interrupted**, if
no page reaches the disk with half of an update and every redo finds a place for its tuple and the old
version. -/
theorem pages_eq_of_wholePage (cs : CrashState β) (hgoes : cs.Goes) {acts : List RecoveryAction}
    (hwhole : StepsMeet (step cs) WholePage cs.start acts) {s : RecoveryRun β}
    (hr : runs (step cs) cs.start acts = some s) (hend : s.Ended cs) (a : ℕ × ℕ) :
    s.mem.page a = (recover cs.log cs.heaps).page a := by
  obtain ⟨f, h⟩ := runs_invariant (I := fun s => ∃ f, s.Inv cs f)
    (fun s a s' h hw hs => inv_step hgoes h hw hs) ⟨_, inv_start cs⟩ hwhole hr
  obtain ⟨hdone, hstage⟩ := hend
  have hwhole : s.stage = .whole := by
    cases hcase : s.stage <;> rw [hcase] at hstage <;> first | rfl | cases hstage
  rw [h.mem_of_whole hwhole, mixed, hdone, CrashState.pages, CrashState.after_of_le (Nat.le_max_left ..)]

/-- An update of a row that moves to another page; nothing of it is on disk. -/
def movingUpdate : CrashState Unit where
  log := [⟨1, 3, .insert 1 ⟨1, 0⟩ ⟨3, 0, 0, 0, ()⟩ 40⟩,
    ⟨2, 3, .update 1 ⟨1, 0⟩ ⟨2, 0⟩ ⟨3, 0, 0, 0, ()⟩ 40⟩, ⟨3, 3, .txnCommit⟩]
  heaps := fun table => if table = 1 then some .create else none
  increasing := by decide
  proper := by simp [WalOp.OnDataPages, kNullPageId]

/-- The page of the new version reaches the disk between two calls of the redo, and then the system crashes. -/
theorem pages_eq_after_crash : ∃ s, runs (step movingUpdate) movingUpdate.start
      ([.next, .next, .flush 1 2, .crash] ++ List.replicate 5 .next) = some s ∧
    s.mem.page (1, 1) = (recover movingUpdate.log movingUpdate.heaps).page (1, 1) := by
  obtain ⟨s, hs, hdone⟩ : ∃ s, runs (step movingUpdate) movingUpdate.start ([.next, .next, .flush 1
      2, .crash] ++ replicate 5 .next) = some s ∧ (s.done, s.stage.isWhole) = (3, true) :=
    exists_run (by decide +kernel)
  refine ⟨s, hs, pages_eq_of_wholePage movingUpdate (by decide +kernel) (by decide +kernel) hs ?_ (1, 1)⟩
  exact ⟨congrArg Prod.fst hdone, congrArg Prod.snd hdone⟩

/-- The page holds a long tuple of a transaction that was rolled back later; its slot was used again by a
transaction that committed, and so was its space. -/
def reusedSpace : CrashState Unit where
  log := [⟨5, 3, .insert 1 ⟨1, 0⟩ ⟨3, 0, 0, 0, ()⟩ 5000⟩, ⟨6, 3, .txnAbort⟩,
    ⟨7, 5, .insert 1 ⟨1, 0⟩ ⟨5, 0, 0, 0, ()⟩ 40⟩, ⟨8, 5, .insert 1 ⟨1, 1⟩ ⟨5, 0, 0, 0, ()⟩ 5000⟩, ⟨9, 5, .txnCommit⟩]
  heaps := fun table =>
    if table = 1 then
      some { (HeapFile.create : HeapFile Unit) with
        pages := fun q =>
          if q = 1 then (((Page.empty : Page Unit).insertTupleAt ⟨3, 0, 0, 0, ()⟩ 5000 0).getD .empty).setLsn 5
          else .empty
        numDataPages := 1
        lastDataPage := 1 }
    else none
  increasing := by decide
  proper := by simp [WalOp.OnDataPages, kNullPageId]

/-- The first recovery finds no room for the second tuple and frees the space afterwards.  If the page reaches the
disk then, a second recovery finds room. -/
theorem tuple_placed_by_second_recovery :
    ¬ ∀ (cs : CrashState Unit) (acts : List RecoveryAction) (s : RecoveryRun Unit),
      runs (step cs) cs.start acts = some s → s.Ended cs →
      ∀ a, s.mem.page a = (recover cs.log cs.heaps).page a := by
  intro h
  obtain ⟨s, hs, hdone⟩ : ∃ s, runs (step reusedSpace) reusedSpace.start (replicate 6 .next ++
      [.flush 1 1, .crash] ++ replicate 6 .next) = some s ∧
      (s.done, s.stage.isWhole) = (6, true) := exists_run (by decide +kernel)
  have hpage := h reusedSpace _ s hs ⟨congrArg Prod.fst hdone, congrArg Prod.snd hdone⟩ (1, 1)
  have hfirst : ((recover reusedSpace.log reusedSpace.heaps).page (1, 1)).map Page.numTuples = some 1 := by
    decide +kernel
  have hsecond := runs_eval (f := fun s => (s.mem.page (1, 1)).map Page.numTuples) (v := some 2)
    (by decide +kernel) hs
  rw [hpage, hfirst] at hsecond
  cases hsecond

end RecoveryRun

end MiniDb
