import MiniDb.Recovery.Watermark

/-!
# The reader of the log

`recover` reads records from the beginning of the log file and stops at the first one that is not intact: its header is
cut off or has the wrong magic number, its payload is longer than `kMaxReplayDataLen` or cut off, or the checksum does
not match.  The checksum is taken to be perfect.

A crash keeps what was synced; of the rest of the file it may cut off an end, and leave zeros for any of the other
bytes (`CrashOf`).
-/

namespace MiniDb

open List

variable {β : Type*}

def kMaxReplayDataLen : ℕ := kPageSize + 256

/-- `read_record`, with the rest of the file. -/
def readRecord [DecidableEq β] (file : List (LogByte β)) : Option (LogRecord β × List (LogByte β)) :=
  file.head?.join.bind fun b =>
    if b.2 = 0 ∧ b.1.dataLen ≤ kMaxReplayDataLen ∧ b.1.bytes <+: file then
      some (b.1, file.drop b.1.bytes.length)
    else none

def readRecords [DecidableEq β] : ℕ → List (LogByte β) → List (LogRecord β)
  | 0, _ => []
  | fuel + 1, file =>
    match readRecord file with
    | none => []
    | some (r, rest) => r :: readRecords fuel rest

/-- The records that recovery gets from a log file. -/
def readLog [DecidableEq β] (file : List (LogByte β)) : List (LogRecord β) := readRecords file.length file

section

variable [DecidableEq β] {file rest : List (LogByte β)} {r : LogRecord β}

lemma readRecord_eq_some (h : readRecord file = some (r, rest)) :
    r.dataLen ≤ kMaxReplayDataLen ∧ file = r.bytes ++ rest := by
  obtain ⟨b, -, h⟩ := Option.bind_eq_some_iff.1 h
  split_ifs at h with hif
  cases h
  obtain ⟨tail, htail⟩ := hif.2.2
  refine ⟨hif.2.1, ?_⟩
  rw [← htail, drop_left]

lemma readRecord_append (hlen : r.dataLen ≤ kMaxReplayDataLen) (rest : List (LogByte β)) :
    readRecord (r.bytes ++ rest) = some (r, rest) := by
  have hhead : (r.bytes ++ rest).head?.join = some (r, 0) := rfl
  rw [readRecord, hhead, Option.bind_some, if_pos ⟨rfl, hlen, prefix_append _ _⟩, drop_left]

/-- A record that is read has its first byte in the file, and a payload that the reader allows. -/
lemma of_mem_readRecords {fuel : ℕ} (hr : r ∈ readRecords fuel file) :
    some (r, 0) ∈ file ∧ r.dataLen ≤ kMaxReplayDataLen := by
  induction fuel generalizing file with
  | zero => exact absurd hr not_mem_nil
  | succ fuel ih =>
    rw [readRecords] at hr
    cases hread : readRecord file with
    | none =>
      rw [hread] at hr
      exact absurd hr not_mem_nil
    | some p =>
      rw [hread] at hr
      obtain ⟨hshort, hfile⟩ : p.1.dataLen ≤ kMaxReplayDataLen ∧ file = p.1.bytes ++ p.2 :=
        readRecord_eq_some hread
      rw [hfile]
      rcases mem_cons.1 hr with rfl | hr
      · exact ⟨mem_append_left _ (mem_cons_self ..), hshort⟩
      · exact ⟨mem_append_right _ (ih hr).1, (ih hr).2⟩

end

namespace LogManager

def file (l : LogManager β) : List (LogByte β) := l.written.drop l.base

/-- A crash may leave this log file. -/
@[mk_iff]
structure CrashOf (l : LogManager β) (left : List (LogByte β)) : Prop where
  length : left.length ≤ l.file.length
  kept : l.synced - l.base ≤ left.length
  byte : ∀ i < left.length, left[i]? = l.file[i]? ∨ l.synced - l.base ≤ i ∧ left[i]? = some none

/-- A crash makes no new bytes. -/
lemma CrashOf.mem {l : LogManager β} {left : List (LogByte β)} (h : l.CrashOf left) {b : LogRecord β × ℕ}
    (hb : some b ∈ left) : some b ∈ l.written := by
  obtain ⟨i, hi, heq⟩ := mem_iff_getElem.1 hb
  have hget : left[i]? = some (some b) := by rw [getElem?_eq_getElem hi, heq]
  rcases h.byte i hi with hbyte | ⟨-, hbyte⟩
  · rw [hget] at hbyte
    exact mem_of_mem_drop (mem_of_getElem? hbyte.symm)
  · rw [hget] at hbyte
    cases hbyte

end LogManager

end MiniDb
