import MiniDb.Core.Run
import MiniDb.Index.SlotBytes
import MiniDb.Transaction.Manager

/-!
# The file of the transaction status log

`TxnStatusLog::record` appends nine bytes to `txn_status.log`, the id and the final state of a transaction, and syncs
the file.  The constructor reads the file record by record and stops where less than a record is left.

A record that was cut off stays in the file, and the next one is appended behind it.  From there on the constructor
reads records that no call wrote.  The states are as they were acknowledged as long as records are only appended behind
whole records (`reopenedKept_of_framed`).
-/

namespace MiniDb

open List Function

/-- The byte of a final state. -/
def TxnFinalState.toByte : TxnFinalState → UInt8
  | .committed => 1
  | .aborted => 2

/-- The log's file and its map.  `acknowledged` is what callers were told: for every transaction the state of
the last call of `record` that returned true. -/
structure StatusFile where
  file : List UInt8
  states : UInt64 → Option UInt8
  acknowledged : UInt64 → Option TxnFinalState

/-- `record` can fail, or the process die in it, with any part of the record in the file. -/
inductive StatusCall where
  | record (xid : UInt64) (state : TxnFinalState)
  | fail (xid : UInt64) (state : TxnFinalState) (written : ℕ)
  | reopen
  deriving DecidableEq, Repr

namespace StatusFile

def kRecordSize : ℕ := 9

def recordBytes (xid : UInt64) (state : TxnFinalState) : List UInt8 :=
  Sql.wordBytes 8 xid.toNat ++ [state.toByte]

/-- A whole record is put into the map. -/
def insertRecord (states : UInt64 → Option UInt8) (buf : List UInt8) : UInt64 → Option UInt8 :=
  Function.update states (UInt64.ofNat (leNat (buf.take 8))) buf[8]?

/-- The first records of a file, put into the map one after the other. -/
def readRecords (file : List UInt8) (n : ℕ) : UInt64 → Option UInt8 :=
  (List.range n).foldl
    (fun states i => insertRecord states ((file.drop (i * kRecordSize)).take kRecordSize)) fun _ => none

/-- The map that the constructor makes of a file. -/
def load (file : List UInt8) : UInt64 → Option UInt8 := readRecords file (file.length / kRecordSize)

section

variable (s : StatusFile)

def apply : StatusCall → StatusFile
  | .record xid state =>
    { file := s.file ++ recordBytes xid state
      states := Function.update s.states xid (some state.toByte)
      acknowledged := Function.update s.acknowledged xid (some state) }
  | .fail xid state written =>
    { s with
      file := s.file ++ (recordBytes xid state).take written
      states := Function.update s.states xid (some state.toByte) }
  | .reopen => { s with states := load s.file }

def status (xid : UInt64) : Option UInt8 := s.states xid

/-- A new log. -/
def init : StatusFile := ⟨[], fun _ => none, fun _ => none⟩

/-- The log knows every state that was acknowledged. -/
def Kept : Prop :=
  ∀ xid st, s.acknowledged xid = some st → s.status xid = some st.toByte

/-- After a reopen the log knows every state that was acknowledged. -/
def ReopenedKept (c : StatusCall) : Prop := c = .reopen → (s.apply c).Kept

/-- Records are appended behind whole records.  Of a call that fails too little is left to complete a record, or
a whole one that does not contradict what was acknowledged. -/
def Framed : StatusCall → Prop
  | .record _ _ => s.file.length % kRecordSize = 0
  | .fail xid state written =>
    s.file.length % kRecordSize + written < kRecordSize ∨
      s.file.length % kRecordSize = 0 ∧ kRecordSize ≤ written ∧
        (s.acknowledged xid = none ∨ s.acknowledged xid = some state)
  | .reopen => True

end

instance (s : StatusFile) : ∀ c, Decidable (s.Framed c)
  | .record _ _ => inferInstanceAs (Decidable (_ = _))
  | .fail _ _ _ => inferInstanceAs (Decidable (_ ∨ _))
  | .reopen => inferInstanceAs (Decidable True)

/-! ## Reading what was appended -/

variable {file : List UInt8} {xid : UInt64} {state : TxnFinalState}

@[simp] lemma length_recordBytes (xid : UInt64) (state : TxnFinalState) :
    (recordBytes xid state).length = kRecordSize := by
  simp [recordBytes, kRecordSize]

lemma insertRecord_recordBytes (states : UInt64 → Option UInt8) :
    insertRecord states (recordBytes xid state) = update states xid (some state.toByte) := by
  have hid : leNat (Sql.wordBytes 8 xid.toNat) = xid.toNat := Sql.leNat_wordBytes xid.toNat_lt
  simp [insertRecord, recordBytes, hid]

lemma readRecords_append (rest : List UInt8) {n : ℕ} (hn : n * kRecordSize ≤ file.length) :
    readRecords (file ++ rest) n = readRecords file n := by
  refine foldl_ext _ _ _ fun states i hi => ?_
  have hi : (i + 1) * kRecordSize ≤ n * kRecordSize := Nat.mul_le_mul_right _ (mem_range.1 hi)
  rw [Nat.succ_mul] at hi
  rw [drop_append_of_le_length (by omega), take_append_of_le_length (by rw [length_drop]; omega)]

lemma load_append_of_lt {rest : List UInt8} (h : file.length % kRecordSize + rest.length < kRecordSize) :
    load (file ++ rest) = load file := by
  have hlen : (file ++ rest).length / kRecordSize = file.length / kRecordSize := by
    rw [length_append]
    unfold kRecordSize at *
    omega
  rw [load, hlen]
  exact readRecords_append rest (Nat.div_mul_le_self _ _)

lemma load_append_recordBytes (h : file.length % kRecordSize = 0) :
    load (file ++ recordBytes xid state) = update (load file) xid (some state.toByte) := by
  have hlen : (file ++ recordBytes xid state).length / kRecordSize = file.length / kRecordSize + 1 := by
    rw [length_append, length_recordBytes]
    exact Nat.add_div_right _ (by decide)
  have hend : file.length / kRecordSize * kRecordSize = file.length := Nat.div_mul_cancel (Nat.dvd_of_mod_eq_zero h)
  have hlast : ((file ++ recordBytes xid state).drop file.length).take kRecordSize = recordBytes xid state := by
    rw [drop_left, ← length_recordBytes xid state, take_length]
  rw [load, hlen, readRecords, range_succ, foldl_append]
  show insertRecord (readRecords _ _) _ = _
  rw [readRecords_append _ hend.le, hend, hlast, insertRecord_recordBytes]
  rfl

/-! ## The states after a reopen -/

/-- Every step keeps what a reopen would find. -/
lemma kept_reopen_apply {s : StatusFile} {c : StatusCall} (h : (s.apply .reopen).Kept) (hc : s.Framed c) :
    ((s.apply c).apply .reopen).Kept := by
  intro x st hack
  have hold : s.acknowledged x = some st → load s.file x = some st.toByte := h x st
  cases c with
  | record xid state =>
    show load (s.file ++ recordBytes xid state) x = _
    rw [load_append_recordBytes hc]
    change update s.acknowledged xid (some state) x = some st at hack
    by_cases hx : x = xid
    · subst hx
      rw [update_self] at hack ⊢
      cases hack
      rfl
    · rw [update_of_ne hx]
      exact hold (by rwa [update_of_ne hx] at hack)
  | fail xid state written =>
    show load (s.file ++ (recordBytes xid state).take written) x = _
    rcases hc with hc | ⟨haligned, hwhole, hagree⟩
    · rw [load_append_of_lt (by rw [length_take]; omega)]
      exact hold hack
    · rw [take_of_length_le (by rwa [length_recordBytes]), load_append_recordBytes haligned]
      by_cases hx : x = xid
      · subst hx
        change s.acknowledged x = some st at hack
        obtain rfl : state = st := by simpa [hack, eq_comm] using hagree
        exact update_self ..
      · rw [update_of_ne hx]
        exact hold hack
  | reopen => exact hold hack

/-- **Acknowledged states survive.**  In a run in which records are only appended behind whole records, every
reopen gives every transaction the state of its last acknowledged record. -/
theorem reopenedKept_of_framed (calls : List StatusCall) (h : StepsMeet (total apply) Framed init calls) :
    StepsMeet (total apply) ReopenedKept init calls := by
  refine StepsMeet.of_invariant (I := fun s => (s.apply .reopen).Kept) (fun s c s' hs hc hstep => ?_)
    (fun s c hs _ => ?_) ?_ h
  · cases hstep
    exact kept_reopen_apply hs hc
  · rintro rfl
    exact hs
  · intro xid st hack
    cases hack

/-- A crash in a first record of the second transaction leaves it unfinished. -/
theorem reopenedKept_torn_last :
    StepsMeet (total apply) ReopenedKept init [.record 1 .committed, .fail 2 .aborted 3, .reopen] :=
  reopenedKept_of_framed _ (by decide)

/-- Three bytes of a record are left by a crash, and the next record is read from three bytes too early. -/
theorem not_reopenedKept_after_torn :
    ¬ StepsMeet (total apply) ReopenedKept init
      [.record 1 .committed, .fail 2 .aborted 3, .reopen, .record 3 .committed, .reopen] := by
  intro h
  have hlast := ((((h.2 _ rfl).2 _ rfl).2 _ rfl).2 _ rfl).1 rfl 3 .committed (by decide)
  revert hlast
  decide

end StatusFile

end MiniDb
