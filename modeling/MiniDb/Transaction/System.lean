import MiniDb.Core.Run
import MiniDb.Transaction.Manager
import Mathlib.Order.Nat
import Mathlib.Tactic

/-!
# Interleavings of begin, commit and rollback

`TxnSystem` is the manager together with the transaction objects that its sessions own.  Each session is running, or
between two sections of `commit` or `rollback`.  An action is one latch-protected section or one status-log call of one
session, so a list of actions is an interleaving.

The ghost `hist` is the list of begins, commits and aborts so far, newest first; it is what "committed before `T`
began" refers to.

The invariant `TxnInv` ties slots, status log and snapshots to the history, and holds in every reachable state.  It
does *not* say that an aborted transaction is always known to be aborted: that is `AbortKnown`, which a `begin` can
break.
-/

namespace MiniDb

open List TransactionManager

/-- What happened to transactions, as the history records it. -/
inductive TxnEvent where
  | began (t : ℕ)
  | committed (t : ℕ)
  | aborted (t : ℕ)
  deriving DecidableEq, Repr

open TxnEvent

/-- The events that precede the begin of `t` in a newest-first history. -/
def before (t : ℕ) : List TxnEvent → List TxnEvent
  | [] => []
  | e :: h => if e = .began t then h else before t h

/-- `c` committed before `t` began. -/
def CommittedBefore (h : List TxnEvent) (c t : ℕ) : Prop := committed c ∈ before t h

instance (h : List TxnEvent) (c t : ℕ) : Decidable (CommittedBefore h c t) :=
  inferInstanceAs (Decidable (_ ∈ _))

/-- Begun, and neither committed nor aborted. -/
def Unfinished (h : List TxnEvent) (c : ℕ) : Prop :=
  .began c ∈ h ∧ .committed c ∉ h ∧ .aborted c ∉ h

/-- Where a session stands: `commit` passes through `published` and `recorded`, carrying the
horizon it computed; `rollback` through `flipped` and `abortRecorded`. -/
inductive Phase where
  | running
  | published (oldestActive : ℕ)
  | recorded (oldestActive : ℕ)
  | flipped
  | abortRecorded
  deriving DecidableEq, Repr

structure Session where
  txn : Transaction
  phase : Phase
  deriving DecidableEq, Repr

structure TxnSystem where
  tm : TransactionManager
  sessions : ℕ → Option Session
  hist : List TxnEvent

inductive TxnAction where
  | begin
  | publish (t : ℕ)
  | recordCommitted (t : ℕ)
  | flip (t : ℕ)
  | recordAborted (t : ℕ)
  | finish (t : ℕ)
  deriving DecidableEq, Repr

variable {t : ℕ} {a : TxnAction} {st : TxnFinalState} {ph : Phase}

namespace TxnSystem

section

variable (sys : TxnSystem)

def setSession (t : ℕ) (x : Option Session) : TxnSystem :=
  { sys with sessions := Function.update sys.sessions t x }

@[simp] lemma setSession_self (t : ℕ) (x : Option Session) :
    (sys.setSession t x).sessions t = x := Function.update_self ..

lemma setSession_of_ne {t' : ℕ} (x : Option Session) (h : t' ≠ t) :
    (sys.setSession t x).sessions t' = sys.sessions t' := Function.update_of_ne h ..

lemma setSession_eq_some {sys : TxnSystem} {t' : ℕ} {x : Option Session} {y : Session}
    (h : (sys.setSession t x).sessions t' = some y) : t' = t ∧ x = some y ∨ t' ≠ t ∧ sys.sessions t' = some y := by
  exact update_eq_some h

/-- One section of one session.  A `commit` that fails its serializability check or its log write
continues as a rollback, so a running session may always take `flip`. -/
def step : TxnAction → Option TxnSystem
  | .begin =>
    match sys.tm.begin with
    | none => none
    | some (tm, txn) =>
      some { sys.setSession txn.id (some ⟨txn, .running⟩) with
        tm := tm, hist := .began txn.id :: sys.hist }
  | .publish t =>
    match sys.sessions t with
    | some ⟨txn, .running⟩ =>
      let (tm, oldestActive, txn') := sys.tm.publish txn
      some { sys.setSession t (some ⟨txn', .published oldestActive⟩) with
        tm := tm, hist := .committed t :: sys.hist }
    | _ => none
  | .recordCommitted t =>
    match sys.sessions t with
    | some ⟨txn, .published oldestActive⟩ =>
      some { sys.setSession t (some ⟨txn, .recorded oldestActive⟩) with
        tm := sys.tm.recordStatus t .committed }
    | _ => none
  | .flip t =>
    match sys.sessions t with
    | some ⟨txn, .running⟩ =>
      some { sys.setSession t (some ⟨txn, .flipped⟩) with
        tm := sys.tm.flipAborted t, hist := .aborted t :: sys.hist }
    | _ => none
  | .recordAborted t =>
    match sys.sessions t with
    | some ⟨txn, .flipped⟩ =>
      some { sys.setSession t (some ⟨txn, .abortRecorded⟩) with
        tm := sys.tm.recordStatus t .aborted }
    | _ => none
  | .finish t =>
    match sys.sessions t with
    | some ⟨_, .recorded _⟩ => some (sys.setSession t none)
    | some ⟨_, .abortRecorded⟩ => some (sys.setSession t none)
    | _ => none

end

/-- Everything a section can do, in one place. -/
inductive Steps (sys : TxnSystem) : TxnAction → TxnSystem → Prop
  | begin {s : TxnSlot} (hs : sys.tm.txnSlots.find? TxnSlot.isFree = some s) : Steps sys .begin
      { sys.setSession sys.tm.nextTxnId (some ⟨sys.tm.newTransaction, .running⟩) with
        tm := sys.tm.takeFreeSlot, hist := .began sys.tm.nextTxnId :: sys.hist }
  | publish {t : ℕ} {txn : Transaction} (hx : sys.sessions t = some ⟨txn, .running⟩) : Steps sys (.publish t)
      { sys.setSession t (some ⟨(sys.tm.publish txn).2.2, .published (sys.tm.publish txn).2.1⟩) with
        tm := (sys.tm.publish txn).1, hist := .committed t :: sys.hist }
  | recordCommitted {t : ℕ} {txn : Transaction} {o : ℕ} (hx : sys.sessions t = some ⟨txn, .published o⟩) :
      Steps sys (.recordCommitted t) { sys.setSession t (some ⟨txn, .recorded o⟩) with
        tm := sys.tm.recordStatus t .committed }
  | flip {t : ℕ} {txn : Transaction} (hx : sys.sessions t = some ⟨txn, .running⟩) : Steps sys (.flip t)
      { sys.setSession t (some ⟨txn, .flipped⟩) with tm := sys.tm.flipAborted t, hist := .aborted t :: sys.hist }
  | recordAborted {t : ℕ} {txn : Transaction} (hx : sys.sessions t = some ⟨txn, .flipped⟩) :
      Steps sys (.recordAborted t) { sys.setSession t (some ⟨txn, .abortRecorded⟩) with
        tm := sys.tm.recordStatus t .aborted }
  | finish {t : ℕ} {txn : Transaction} {ph : Phase} (hx : sys.sessions t = some ⟨txn, ph⟩)
      (hph : (∃ o, ph = .recorded o) ∨ ph = .abortRecorded) : Steps sys (.finish t) (sys.setSession t none)

lemma step_cases {sys sys' : TxnSystem} (h : sys.step a = some sys') : Steps sys a sys' := by
  cases a with
  | begin =>
    simp only [step] at h
    split at h
    · cases h
    next tm txn hb =>
    obtain ⟨⟨s, hs⟩, rfl, rfl⟩ := begin_eq_some hb
    cases h
    exact .begin hs
  | finish t =>
    simp only [step] at h
    split at h
    · next txn o hx => cases h; exact .finish hx (.inl ⟨o, rfl⟩)
    · next txn hx => cases h; exact .finish hx (.inr rfl)
    · cases h
  | _ =>
    simp only [step] at h
    split at h
    · next hx => cases h; constructor; exact hx
    · cases h

/-- A manager that has just been started: empty slots, no sessions. -/
def init (slotCount : ℕ) (nextTxnId : ℕ) (log : Option TxnStatusLog) : TxnSystem where
  tm :=
    { txnSlots := List.replicate slotCount {}
      nextTxnId := nextTxnId
      defaultIsolation := .snapshot
      statusLog := log
      committedHistory := [] }
  sessions := fun _ => none
  hist := []

end TxnSystem

/-! ## Histories -/

/-- Ids are drawn in increasing order, and a transaction finishes once, after it began. -/
def HistOk : List TxnEvent → Prop
  | [] => True
  | .began t :: h => HistOk h ∧ ∀ c, .began c ∈ h → c < t
  | .committed t :: h => HistOk h ∧ Unfinished h t
  | .aborted t :: h => HistOk h ∧ Unfinished h t

variable {h : List TxnEvent} {c t : ℕ} {e : TxnEvent}

lemma HistOk.tail (hok : HistOk (e :: h)) : HistOk h := by
  cases e <;> exact hok.1

lemma before_sublist (t : ℕ) (h : List TxnEvent) : ∀ e ∈ before t h, e ∈ h := by
  induction h with
  | nil => intro e he; exact he
  | cons a h ih =>
    intro e he
    simp only [before] at he
    split at he
    · exact mem_cons_of_mem a he
    · exact mem_cons_of_mem a (ih e he)

lemma before_cons_of_ne (h : List TxnEvent) (hne : e ≠ .began t) : before t (e :: h) = before t h := if_neg hne

@[simp] lemma before_began_self (t : ℕ) (h : List TxnEvent) : before t (.began t :: h) = h := if_pos rfl

/-- The transaction an event is about. -/
def TxnEvent.txn : TxnEvent → ℕ
  | .began t => t
  | .committed t => t
  | .aborted t => t

section

variable (hok : HistOk h)
include hok

lemma HistOk.began_of_mem (he : e ∈ h) : .began e.txn ∈ h := by
  induction h with
  | nil => cases he
  | cons e' h ih =>
    rcases mem_cons.1 he with rfl | he
    · cases e with
      | began t => exact mem_cons_self
      | committed t | aborted t => exact mem_cons_of_mem _ hok.2.1
    · exact mem_cons_of_mem _ (ih hok.tail he)

lemma HistOk.not_both (hc : .committed c ∈ h) (ha : .aborted c ∈ h) : False := by
  induction h with
  | nil => cases hc
  | cons e h ih =>
    rcases mem_cons.1 hc with rfl | hc
    · rcases mem_cons.1 ha with ha | ha
      · cases ha
      · exact hok.2.2.2 ha
    · rcases mem_cons.1 ha with rfl | ha
      · exact hok.2.2.1 ((mem_cons.1 hc).resolve_left (by simp))
      · exact ih hok.tail hc ha

lemma HistOk.before (t : ℕ) : HistOk (before t h) := by
  induction h with
  | nil => exact hok
  | cons e h ih =>
    rw [MiniDb.before]
    split
    · exact hok.tail
    · exact ih hok.tail

/-- Ids order the begins: `c` began before `t` exactly when its id is smaller. -/
lemma HistOk.began_before_iff (ht : .began t ∈ h) : .began c ∈ MiniDb.before t h ↔ .began c ∈ h ∧ c < t := by
  induction h with
  | nil => cases ht
  | cons e h ih =>
    by_cases he : e = .began t
    · subst he
      rw [before_began_self]
      refine ⟨fun hc => ⟨mem_cons_of_mem _ hc, hok.2 c hc⟩, fun ⟨hc, hlt⟩ => ?_⟩
      rcases mem_cons.1 hc with hc | hc
      · cases hc; omega
      · exact hc
    · have ht' : .began t ∈ h := (mem_cons.1 ht).resolve_left (Ne.symm he)
      rw [before_cons_of_ne h he, ih hok.tail ht']
      refine and_congr_left fun hlt => ⟨mem_cons_of_mem _, fun hc => ?_⟩
      rcases mem_cons.1 hc with rfl | hc
      · exact absurd (hok.2 t ht') (by omega)
      · exact hc

end

lemma TxnEvent.mem_cons_of_txn_ne {a : TxnEvent} (hne : a.txn ≠ e.txn) : a ∈ e :: h ↔ a ∈ h := by
  rw [mem_cons, or_iff_right]
  rintro rfl
  exact hne rfl

lemma unfinished_cons_of_ne (hne : c ≠ e.txn) : Unfinished (e :: h) c ↔ Unfinished h c := by
  have hb : .began c ∈ e :: h ↔ .began c ∈ h := mem_cons_of_txn_ne hne
  have hc : .committed c ∈ e :: h ↔ .committed c ∈ h := mem_cons_of_txn_ne hne
  have ha : .aborted c ∈ e :: h ↔ .aborted c ∈ h := mem_cons_of_txn_ne hne
  rw [Unfinished, Unfinished, hb, hc, ha]

/-! ## The invariant -/

section

variable (h : List TxnEvent)

/-- What the history says about a transaction whose slot shows the given state. -/
def StateIn (c : ℕ) : TxnState → Prop
  | .active => Unfinished h c
  | .committed => .committed c ∈ h
  | .aborted => .aborted c ∈ h

def FinalIn (c : ℕ) : TxnFinalState → Prop
  | .committed => .committed c ∈ h
  | .aborted => .aborted c ∈ h

def PhaseIn (t : ℕ) : Phase → Prop
  | .running => Unfinished h t
  | .published _ => .committed t ∈ h
  | .recorded _ => .committed t ∈ h
  | .flipped => .aborted t ∈ h
  | .abortRecorded => .aborted t ∈ h

end

lemma stateIn_cons_of_ne (hne : c ≠ e.txn) (st : TxnState) : StateIn (e :: h) c st ↔ StateIn h c st := by
  cases st with
  | active => exact unfinished_cons_of_ne hne
  | committed | aborted => exact mem_cons_of_txn_ne hne

lemma phaseIn_cons_of_ne (hne : t ≠ e.txn) (ph : Phase) : PhaseIn (e :: h) t ph ↔ PhaseIn h t ph := by
  cases ph with
  | running => exact unfinished_cons_of_ne hne
  | published _ | recorded _ | flipped | abortRecorded => exact mem_cons_of_txn_ne hne

lemma FinalIn.cons (hf : FinalIn h c st) : FinalIn (e :: h) c st := by
  cases st <;> exact mem_cons_of_mem e hf

/-- What a session knows: its own id and snapshot, and who was unfinished when it began. -/
structure SessionOk (h : List TxnEvent) (t : ℕ) (x : Session) : Prop where
  id_eq : x.txn.id = t
  snapshot_eq : x.txn.snapshotId = t + 1
  began : .began t ∈ h
  phase : PhaseIn h t x.phase
  snap : ∀ c, c ∈ x.txn.activeSnapshot ↔ Unfinished (before t h) c

variable {x : Session} {txn : Transaction} {l1 l2 : List TxnSlot} {s : TxnSlot} {sys sys' : TxnSystem}

/-- A session after an event that is not its begin; its transaction object may have been stamped. -/
lemma SessionOk.cons (hs : SessionOk h t x) (hne : e ≠ .began t)
    (hph : PhaseIn (e :: h) t ph) (hid : txn.id = x.txn.id) (hsnap : txn.snapshotId = x.txn.snapshotId)
    (hact : txn.activeSnapshot = x.txn.activeSnapshot) : SessionOk (e :: h) t ⟨txn, ph⟩ :=
  ⟨hid.trans hs.id_eq, hsnap.trans hs.snapshot_eq, mem_cons_of_mem _ hs.began, hph,
    by rw [before_cons_of_ne h hne]; exact hact ▸ hs.snap⟩

/-- Two slots never carry the same id, unless both are unused. -/
def SlotsDistinct (slots : List TxnSlot) : Prop :=
  slots.Pairwise fun a b => a.txnId = b.txnId → a.txnId = kInvalidTxnId

/-- The slots, the status log and the sessions agree with the history. -/
structure TxnInv (sys : TxnSystem) : Prop where
  histOk : HistOk sys.hist
  next_pos : 0 < sys.tm.nextTxnId
  began_ne : ∀ c, .began c ∈ sys.hist → c ≠ kInvalidTxnId
  began_lt : ∀ c, .began c ∈ sys.hist → c < sys.tm.nextTxnId
  distinct : SlotsDistinct sys.tm.txnSlots
  slot_state : ∀ s ∈ sys.tm.txnSlots, s.txnId ≠ kInvalidTxnId →
    .began s.txnId ∈ sys.hist ∧ StateIn sys.hist s.txnId s.state
  unfinished_slot : ∀ c, Unfinished sys.hist c → ∃ s ∈ sys.tm.txnSlots, s.txnId = c
  unfinished_session : ∀ c, Unfinished sys.hist c →
    ∃ txn, sys.sessions c = some ⟨txn, .running⟩
  status_ok : ∀ c st, .began c ∈ sys.hist → sys.tm.status c = some st → FinalIn sys.hist c st
  status_fresh : ∀ c, sys.tm.nextTxnId ≤ c → sys.tm.status c = none
  session_ok : ∀ t x, sys.sessions t = some x → SessionOk sys.hist t x

/-- In a split of the slots around one of them, no other slot has that one's id. -/
lemma SlotsDistinct.ne_of_mem {a : TxnSlot} (hd : SlotsDistinct (l1 ++ s :: l2)) (hs : s.txnId ≠ kInvalidTxnId)
    (ha : a ∈ l1 ++ l2) : a.txnId ≠ s.txnId := by
  rw [SlotsDistinct, pairwise_append, pairwise_cons] at hd
  obtain ⟨-, ⟨h2, -⟩, h1⟩ := hd
  intro heq
  rcases mem_append.1 ha with ha | ha
  · exact hs (heq ▸ h1 a ha s mem_cons_self heq)
  · exact hs (h2 a ha heq.symm)

/-- A slot may be replaced by one with the same id, or with an id that no slot carries. -/
lemma SlotsDistinct.replace {s' : TxnSlot}
    (hd : SlotsDistinct (l1 ++ s :: l2)) (hs : ∀ a ∈ l1 ++ l2, a.txnId ≠ s'.txnId) :
    SlotsDistinct (l1 ++ s' :: l2) := by
  rw [SlotsDistinct, pairwise_append, pairwise_cons] at hd ⊢
  obtain ⟨hd1, ⟨-, hd2⟩, hd12⟩ := hd
  refine ⟨hd1, ⟨fun a ha h => absurd h.symm (hs a (by simp [ha])), hd2⟩, fun a ha b hb h => ?_⟩
  rcases mem_cons.1 hb with rfl | hb
  · exact absurd h (hs a (by simp [ha]))
  · exact hd12 a ha b (mem_cons_of_mem s hb) h

lemma TxnInv.slot_unfinished (hi : TxnInv sys)
    (hc : Unfinished sys.hist c) : ∃ s ∈ sys.tm.txnSlots, s.txnId = c ∧ s.state = .active := by
  obtain ⟨s, hs, rfl⟩ := hi.unfinished_slot c hc
  refine ⟨s, hs, rfl, ?_⟩
  have hst := (hi.slot_state s hs (hi.began_ne _ hc.1)).2
  cases hstate : s.state with
  | active => rfl
  | committed => rw [hstate] at hst; exact absurd hst hc.2.1
  | aborted => rw [hstate] at hst; exact absurd hst hc.2.2

/-- The running ids in the slots are the unfinished transactions. -/
lemma TxnInv.mem_activeIds (hi : TxnInv sys) (c : ℕ) : c ∈ sys.tm.activeIds ↔ Unfinished sys.hist c := by
  simp only [activeIds, mem_map, mem_filter, TxnSlot.isActive_iff]
  constructor
  · rintro ⟨s, ⟨hs, hne, hact⟩, rfl⟩
    have hst := (hi.slot_state s hs hne).2
    rwa [hact] at hst
  · intro hc
    obtain ⟨s, hs, rfl, hact⟩ := hi.slot_unfinished hc
    exact ⟨s, ⟨hs, (hi.began_ne _ hc.1), hact⟩, rfl⟩

/-! ## Every section keeps the invariant -/

namespace TxnInv

variable {sys sys' : TxnSystem}

section

variable (hi : TxnInv sys)
include hi

lemma not_began_fresh : .began sys.tm.nextTxnId ∉ sys.hist := fun h =>
  absurd (hi.began_lt _ h) (lt_irrefl _)

/-- A transaction that begins is unfinished, and so it was the only change to the history. -/
lemma unfinished_fresh : Unfinished (.began sys.tm.nextTxnId :: sys.hist) sys.tm.nextTxnId := by
  refine ⟨mem_cons_self, fun h => ?_, fun h => ?_⟩
  · have h : .committed sys.tm.nextTxnId ∈ sys.hist := by simpa using h
    exact hi.not_began_fresh (hi.histOk.began_of_mem h)
  · have h : .aborted sys.tm.nextTxnId ∈ sys.hist := by simpa using h
    exact hi.not_began_fresh (hi.histOk.began_of_mem h)

variable {t : ℕ} {x : Session} {p : TxnSlot → Bool} {s0 : TxnSlot} {txn : Transaction}

lemma session_ne_fresh (h : sys.sessions t = some x) : t ≠ sys.tm.nextTxnId := by
  rintro rfl
  exact hi.not_began_fresh (hi.session_ok _ x h).began

/-- Something happens to a transaction: the history gets the event, a slot that is free or the transaction's own gets
its id and state, and its session is replaced. -/
lemma happens {e : TxnEvent} {f : TxnSlot → TxnSlot}
    (hok : HistOk (e :: sys.hist)) (hne : e.txn ≠ kInvalidTxnId) (hlt : e.txn < sys'.tm.nextTxnId)
    (hx : SessionOk (e :: sys.hist) e.txn x) (hrun : Unfinished (e :: sys.hist) e.txn → x.phase = .running)
    (hs0 : sys.tm.txnSlots.find? p = some s0)
    (hcase : s0.txnId = e.txn ∧ .began e.txn ∈ sys.hist ∨ s0.isFree = true ∧ sys.tm.nextTxnId ≤ e.txn)
    (htm : sys'.tm.txnSlots = modifyFirst p f sys.tm.txnSlots)
    (hf : (f s0).txnId = e.txn ∧ StateIn (e :: sys.hist) e.txn (f s0).state)
    (hnext : sys.tm.nextTxnId ≤ sys'.tm.nextTxnId) (hstatus : sys'.tm.status = sys.tm.status)
    (hsess : sys'.sessions = (sys.setSession e.txn (some x)).sessions) (hhist : sys'.hist = e :: sys.hist) :
    TxnInv sys' := by
  obtain ⟨-, l1, l2, hl, hm⟩ := modifyFirst_split f hs0
  rw [hm] at htm
  have hold : ∀ a ∈ l1 ++ l2, a ∈ sys.tm.txnSlots := by
    intro a ha
    rw [hl]
    exact perm_middle.mem_iff.2 (mem_cons_of_mem _ ha)
  have hother : ∀ a ∈ l1 ++ l2, a.txnId ≠ e.txn := by
    intro a ha heq
    rcases hcase with ⟨hid, -⟩ | ⟨-, hfresh⟩
    · exact (hl ▸ hi.distinct).ne_of_mem (hid ▸ hne) ha (heq.trans hid.symm)
    · have hbegan := (hi.slot_state a (hold a ha) (heq ▸ hne)).1
      exact absurd (hi.began_lt _ hbegan) (not_lt.2 (heq ▸ hfresh))
  have hbegan : ∀ c, .began c ∈ e :: sys.hist → c = e.txn ∨ .began c ∈ sys.hist := by
    intro c hc
    rcases mem_cons.1 hc with rfl | hc
    · exact .inl rfl
    · exact .inr hc
  constructor
  case histOk => rwa [hhist]
  case next_pos => exact hi.next_pos.trans_le hnext
  case began_ne =>
    rw [hhist]
    intro c hc
    rcases hbegan c hc with rfl | hc
    · exact hne
    · exact hi.began_ne c hc
  case began_lt =>
    rw [hhist]
    intro c hc
    rcases hbegan c hc with rfl | hc
    · exact hlt
    · exact (hi.began_lt c hc).trans_le hnext
  case distinct =>
    rw [htm]
    exact (hl ▸ hi.distinct).replace fun a ha => hf.1.symm ▸ hother a ha
  case slot_state =>
    rw [htm, hhist]
    intro a ha hz
    rcases mem_cons.1 (perm_middle.mem_iff.1 ha) with rfl | ha
    · rw [hf.1]
      exact ⟨hx.began, hf.2⟩
    · obtain ⟨hb, hst⟩ := hi.slot_state a (hold a ha) hz
      exact ⟨mem_cons_of_mem _ hb, (stateIn_cons_of_ne (hother a ha) _).2 hst⟩
  case unfinished_slot =>
    rw [htm, hhist]
    intro c hc
    by_cases hce : c = e.txn
    · exact ⟨f s0, mem_append_right _ mem_cons_self, hf.1.trans hce.symm⟩
    · have hc := (unfinished_cons_of_ne hce).1 hc
      obtain ⟨s, hs, hsc, hact⟩ := hi.slot_unfinished hc
      refine ⟨s, ?_, hsc⟩
      rw [hl] at hs
      rcases mem_cons.1 (perm_middle.mem_iff.1 hs) with rfl | hs
      · -- the slot taken over was free, so its transaction had finished
        rcases hcase with ⟨hid, -⟩ | ⟨hfree, -⟩
        · exact absurd (hsc.symm.trans hid) hce
        · have hz : s.txnId ≠ kInvalidTxnId := hsc ▸ hi.began_ne c hc.1
          simp [TxnSlot.isFree, hact, hz] at hfree
      · exact perm_middle.mem_iff.2 (mem_cons_of_mem _ hs)
  case unfinished_session =>
    rw [hhist, hsess]
    intro c hc
    by_cases hce : c = e.txn
    · subst hce
      exact ⟨x.txn, by rw [sys.setSession_self, ← hrun hc]⟩
    · rw [sys.setSession_of_ne _ hce]
      exact hi.unfinished_session c ((unfinished_cons_of_ne hce).1 hc)
  case status_ok =>
    rw [hhist, hstatus]
    intro c st hc hst
    rcases hbegan c hc with rfl | hc
    · rcases hcase with ⟨-, hb⟩ | ⟨-, hfresh⟩
      · exact (hi.status_ok _ st hb hst).cons
      · cases (hi.status_fresh _ hfresh).symm.trans hst
    · exact (hi.status_ok c st hc hst).cons
  case status_fresh => rw [hstatus]; exact fun c hc => hi.status_fresh c (hnext.trans hc)
  case session_ok =>
    rw [hhist, hsess]
    intro t y hy
    by_cases ht : t = e.txn
    · subst ht
      rw [sys.setSession_self] at hy
      exact Option.some.inj hy ▸ hx
    · rw [sys.setSession_of_ne _ ht] at hy
      have hs := hi.session_ok t y hy
      exact hs.cons (by rintro rfl; exact ht rfl) ((phaseIn_cons_of_ne ht _).2 hs.phase) rfl rfl rfl

/-- The section of `begin`. -/
theorem begin (hs0 : sys.tm.txnSlots.find? TxnSlot.isFree = some s0) :
    TxnInv { sys.setSession sys.tm.nextTxnId (some ⟨sys.tm.newTransaction, .running⟩) with
      tm := sys.tm.takeFreeSlot, hist := .began sys.tm.nextTxnId :: sys.hist } := by
  have hx : SessionOk (.began sys.tm.nextTxnId :: sys.hist) sys.tm.nextTxnId ⟨sys.tm.newTransaction, .running⟩ := by
    refine ⟨rfl, rfl, mem_cons_self, hi.unfinished_fresh, fun c => ?_⟩
    rw [before_began_self]
    exact hi.mem_activeIds c
  exact hi.happens (e := .began sys.tm.nextTxnId) ⟨hi.histOk, fun c hc => hi.began_lt c hc⟩
    hi.next_pos.ne' (Nat.lt_succ_self _) hx (fun _ => rfl) hs0 (.inr ⟨find?_some hs0, le_rfl⟩)
    rfl ⟨rfl, hi.unfinished_fresh⟩ (Nat.le_succ _) rfl rfl rfl

section

variable (hx : sys.sessions t = some ⟨txn, .running⟩)
include hx

lemma find_slot (hp : ∀ s, s.txnId = t → s.state = .active → p s = true) :
    ∃ s, sys.tm.txnSlots.find? p = some s := by
  obtain ⟨s, hs, hst, hact⟩ := hi.slot_unfinished (hi.session_ok _ _ hx).phase
  exact Option.isSome_iff_exists.1 (find?_isSome.2 ⟨s, hs, hp s hst hact⟩)

/-- The first section of `commit`. -/
theorem publish : TxnInv { sys.setSession t (some ⟨(sys.tm.publish txn).2.2, .published (sys.tm.publish txn).2.1⟩) with
      tm := (sys.tm.publish txn).1, hist := .committed t :: sys.hist } := by
  have hs := hi.session_ok _ _ hx
  have hid : txn.id = t := hs.id_eq
  obtain ⟨s, hfind⟩ := hi.find_slot hx (p := fun s => s.txnId == txn.id && s.state == .active)
    fun s hst hact => by simp [hst, hact, hid]
  have hst : s.txnId = t := by
    have := find?_some hfind
    simp only [Bool.and_eq_true, beq_iff_eq] at this
    exact this.1.trans hid
  have hx' : SessionOk (.committed t :: sys.hist) t ⟨(sys.tm.publish txn).2.2, .published (sys.tm.publish txn).2.1⟩ :=
    hs.cons (by simp) mem_cons_self rfl rfl rfl
  exact hi.happens (e := .committed t) ⟨hi.histOk, hs.phase⟩ (hi.began_ne t hs.began)
    ((hi.began_lt t hs.began).trans_le (by simp)) hx' (fun hu => absurd mem_cons_self hu.2.1) hfind (.inl ⟨hst, hs.began⟩)
    (sys.tm.publish_txnSlots txn) ⟨hst, mem_cons_self⟩ (by simp) (sys.tm.publish_status txn) rfl rfl

/-- The first section of `rollback`. -/
theorem flip : TxnInv { sys.setSession t (some ⟨txn, .flipped⟩) with
      tm := sys.tm.flipAborted t, hist := .aborted t :: sys.hist } := by
  have hs := hi.session_ok _ _ hx
  obtain ⟨s, hfind⟩ := hi.find_slot hx (p := fun s => s.txnId == t) fun s hst _ => by simp [hst]
  have hst : s.txnId = t := by simpa using find?_some hfind
  exact hi.happens (e := .aborted t) ⟨hi.histOk, hs.phase⟩ (hi.began_ne t hs.began) (hi.began_lt t hs.began)
    (hs.cons (by simp) mem_cons_self rfl rfl rfl) (fun hu => absurd mem_cons_self hu.2.2) hfind
    (.inl ⟨hst, hs.began⟩) rfl ⟨hst, mem_cons_self⟩ le_rfl rfl rfl rfl

end

/-- The status-log calls: the entry written is the one the history asks for. -/
lemma recordStatus {ph' : Phase} (hx : sys.sessions t = some ⟨txn, ph⟩) (hrun : ph ≠ .running)
    (hph : PhaseIn sys.hist t ph') (hst : FinalIn sys.hist t st) :
    TxnInv { sys.setSession t (some ⟨txn, ph'⟩) with tm := sys.tm.recordStatus t st } := by
  have hs := hi.session_ok _ _ hx
  refine { hi with unfinished_session := ?_, status_ok := ?_, status_fresh := ?_, session_ok := ?_ }
  · intro c hc
    obtain ⟨txn', htxn'⟩ := hi.unfinished_session c hc
    have hct : c ≠ t := by
      rintro rfl
      rw [hx] at htxn'
      cases htxn'
      exact hrun rfl
    exact ⟨txn', (sys.setSession_of_ne _ hct).trans htxn'⟩
  · intro c st' hc h
    by_cases hct : c = t
    · subst hct
      rcases sys.tm.recordStatus_status_self c st with heq | heq
      · exact hi.status_ok c st' hc (heq ▸ h)
      · obtain rfl : st = st' := Option.some.inj (heq.symm.trans h)
        exact hst
    · exact hi.status_ok c st' hc ((sys.tm.recordStatus_status_of_ne st hct).symm.trans h)
  · intro c hc
    have hct : c ≠ t := by
      rintro rfl
      exact absurd (hi.began_lt _ hs.began) (not_lt.2 hc)
    exact (sys.tm.recordStatus_status_of_ne st hct).trans (hi.status_fresh c hc)
  · intro t' x' hx'
    rcases TxnSystem.setSession_eq_some hx' with ⟨rfl, ⟨⟩⟩ | ⟨-, hx'⟩
    · exact ⟨hs.id_eq, hs.snapshot_eq, hs.began, hph, hs.snap⟩
    · exact hi.session_ok t' x' hx'

/-- Dropping the object of a finished transaction loses nothing that the invariant speaks of. -/
lemma dropSession (hfin : ¬ Unfinished sys.hist t) : TxnInv (sys.setSession t none) := by
  refine { hi with unfinished_session := fun c hc => ?_, session_ok := fun t' x' hx' => ?_ }
  · have hct : c ≠ t := by rintro rfl; exact hfin hc
    rw [sys.setSession_of_ne _ hct]
    exact hi.unfinished_session c hc
  · rcases TxnSystem.setSession_eq_some hx' with ⟨-, ⟨⟩⟩ | ⟨-, hx'⟩
    exact hi.session_ok t' x' hx'

/-- **Every section keeps the invariant.** -/
theorem step (h : sys.step a = some sys') : TxnInv sys' := by
  cases TxnSystem.step_cases h with
  | begin hs => exact hi.begin hs
  | publish hx => exact hi.publish hx
  | recordCommitted hx =>
    have hc := (hi.session_ok _ _ hx).phase
    exact hi.recordStatus hx (by simp) hc hc
  | flip hx => exact hi.flip hx
  | recordAborted hx =>
    have ha := (hi.session_ok _ _ hx).phase
    exact hi.recordStatus hx (by simp) ha ha
  | finish hx hph =>
    have hphase := (hi.session_ok _ _ hx).phase
    rcases hph with ⟨o, rfl⟩ | rfl
    · exact hi.dropSession fun hu => hu.2.1 hphase
    · exact hi.dropSession fun hu => hu.2.2 hphase

end

end TxnInv

/-! ## Undo records play no part -/

/-- A session without its undo records. -/
def Session.forgetUndo (x : Session) : Session := { x with txn := { x.txn with undoRecords := [] } }

/-- The two systems differ at most in undo records. -/
structure SameTxns (sys sys' : TxnSystem) : Prop where
  tm : sys'.tm = sys.tm
  hist : sys'.hist = sys.hist
  sessions : ∀ t, (sys'.sessions t).map Session.forgetUndo =
    (sys.sessions t).map Session.forgetUndo

lemma SameTxns.refl (sys : TxnSystem) : SameTxns sys sys := ⟨rfl, rfl, fun _ => rfl⟩

lemma SameTxns.symm (h : SameTxns sys sys') : SameTxns sys' sys :=
  ⟨h.tm.symm, h.hist.symm, fun t => (h.sessions t).symm⟩

lemma SameTxns.session (h : SameTxns sys sys') (hx : sys'.sessions t = some x) :
    ∃ x0, sys.sessions t = some x0 ∧ x.forgetUndo = x0.forgetUndo := by
  have hs := h.sessions t
  rw [hx, Option.map_some] at hs
  obtain ⟨x0, hx0, heq⟩ := Option.map_eq_some_iff.1 hs.symm
  exact ⟨x0, hx0, heq.symm⟩

lemma Session.forgetUndo_eq {y : Session} (h : x.forgetUndo = y.forgetUndo) :
    x.phase = y.phase ∧ x.txn.id = y.txn.id ∧ x.txn.snapshotId = y.txn.snapshotId ∧
      x.txn.activeSnapshot = y.txn.activeSnapshot := by
  simp only [forgetUndo, Session.mk.injEq, Transaction.mk.injEq] at h
  exact ⟨h.2, h.1.1, h.1.2.1, h.1.2.2.2.2.1⟩

lemma SameTxns.running (h : SameTxns sys sys') {r : ℕ} (hr : sys'.sessions r = some ⟨txn, .running⟩) :
    ∃ txn0, sys.sessions r = some ⟨txn0, .running⟩ ∧ txn.id = txn0.id ∧
      txn.snapshotId = txn0.snapshotId ∧ txn.activeSnapshot = txn0.activeSnapshot := by
  obtain ⟨⟨txn0, ph⟩, hx0, heq⟩ := h.session hr
  obtain ⟨hph, hrest⟩ := Session.forgetUndo_eq heq
  subst hph
  exact ⟨txn0, hx0, hrest⟩

/-- The invariant reads the slots, the counter, the log and, of the sessions, who they are. -/
lemma TxnInv.carry (hi : TxnInv sys) (hhist : sys'.hist = sys.hist)
    (hslots : sys'.tm.txnSlots = sys.tm.txnSlots) (hnext : sys'.tm.nextTxnId = sys.tm.nextTxnId)
    (hstatus : sys'.tm.status = sys.tm.status)
    (hsessions : ∀ t x', sys'.sessions t = some x' → ∃ x, sys.sessions t = some x ∧ x'.phase = x.phase ∧
      x'.txn.id = x.txn.id ∧ x'.txn.snapshotId = x.txn.snapshotId ∧ x'.txn.activeSnapshot = x.txn.activeSnapshot)
    (hsome : ∀ t, (sys'.sessions t).isSome = (sys.sessions t).isSome) : TxnInv sys' := by
  constructor
  case histOk => rw [hhist]; exact hi.histOk
  case next_pos => rw [hnext]; exact hi.next_pos
  case began_ne => rw [hhist]; exact hi.began_ne
  case began_lt => rw [hhist, hnext]; exact hi.began_lt
  case distinct => rw [hslots]; exact hi.distinct
  case slot_state => rw [hslots, hhist]; exact hi.slot_state
  case unfinished_slot => rw [hslots, hhist]; exact hi.unfinished_slot
  case unfinished_session =>
    rw [hhist]
    intro c hc
    obtain ⟨txn, hx⟩ := hi.unfinished_session c hc
    obtain ⟨x', hx'⟩ := Option.isSome_iff_exists.1 ((hsome c).trans (by rw [hx]; rfl))
    obtain ⟨x, hx0, hph, -⟩ := hsessions c x' hx'
    cases hx.symm.trans hx0
    exact ⟨x'.txn, by rw [hx', show Phase.running = x'.phase from hph.symm]⟩
  case status_ok => rw [hhist, hstatus]; exact hi.status_ok
  case status_fresh => rw [hnext, hstatus]; exact hi.status_fresh
  case session_ok =>
    rw [hhist]
    intro t x' hx'
    obtain ⟨x, hx, hph, hid, hsnap, hact⟩ := hsessions t x' hx'
    obtain ⟨h1, h2, h3, h4, h5⟩ := hi.session_ok t x hx
    exact ⟨hid.trans h1, hsnap.trans h2, h3, hph ▸ h4, hact ▸ h5⟩

lemma TxnInv.congr (hi : TxnInv sys) (h : SameTxns sys sys') : TxnInv sys' := by
  refine hi.carry h.hist (by rw [h.tm]) (by rw [h.tm]) (by rw [h.tm]) (fun t x hx => ?_) fun t => ?_
  · obtain ⟨x0, hx0, heq⟩ := h.session hx
    exact ⟨x0, hx0, Session.forgetUndo_eq heq⟩
  · simpa using congrArg Option.isSome (h.sessions t)

/-- A freshly started manager satisfies the invariant, whatever earlier runs left in the status
log, as long as the id counter is past them. -/
lemma TxnInv.init {slotCount next : ℕ} {log : Option TxnStatusLog} (hnext : 0 < next)
    (hlog : ∀ l ∈ log, ∀ c, next ≤ c → l.states c = none) : TxnInv (TxnSystem.init slotCount next log) := by
  constructor
  case distinct =>
    refine pairwise_replicate.2 (Or.inr fun _ => rfl)
  case slot_state =>
    intro s hs hz
    rw [eq_of_mem_replicate hs] at hz
    exact absurd rfl hz
  case status_fresh =>
    intro c hc
    cases log with
    | none => rfl
    | some l => exact hlog l rfl c hc
  case next_pos => exact hnext
  case histOk => trivial
  all_goals simp [TxnSystem.init, Unfinished]

end MiniDb
