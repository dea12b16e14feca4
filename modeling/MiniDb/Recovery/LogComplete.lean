import MiniDb.Recovery.LogReader

/-!
# No acknowledged record is lost

The reader stops at the first record that is not intact, so that a record is lost as soon as something stands in front
of it that is none: a payload that the reader refuses, the first bytes of a write that failed, a header whose payload
could not be copied, or the torn end that a crash left behind and that the next life of the log appends to.

`log_complete` says that these are the only ways: without them every record that was appended and then synced is read
after a crash, in order.  Lives of the log follow each other by `restart`, with any file that a crash can leave.
-/

namespace MiniDb

open List LogRecord

variable {β : Type*}

/-- A write that fails has written nothing. -/
def LogIo.NoPartial (io : LogIo) : Prop := ∀ n k, io.write n = some k → k = 0

def endsFrom : ℕ → List (LogRecord β) → List (LogRecord β × ℕ)
  | _, [] => []
  | pos, r :: rs => (r, pos + r.bytes.length) :: endsFrom (pos + r.bytes.length) rs

lemma endsFrom_append (pos : ℕ) (rs : List (LogRecord β)) (r : LogRecord β) : endsFrom pos (rs ++ [r]) =
      endsFrom pos rs ++ [(r, pos + (rs.flatMap bytes).length + r.bytes.length)] := by
  induction rs generalizing pos with
  | nil => rfl
  | cons r' rs ih =>
    rw [cons_append, endsFrom, ih, endsFrom, flatMap_cons, length_append, ← Nat.add_assoc]
    rfl

variable {rs : List (LogRecord β)}

lemma lt_of_mem_endsFrom {pos : ℕ} {p : LogRecord β × ℕ} (h : p ∈ endsFrom pos rs) : pos < p.2 := by
  induction rs generalizing pos with
  | nil => exact absurd h not_mem_nil
  | cons r rs ih =>
    have hpos : 0 < r.bytes.length := by simp [bytes, kWalHeaderSize]
    rcases mem_cons.1 h with rfl | h
    · exact Nat.lt_add_of_pos_right hpos
    · exact (Nat.lt_add_of_pos_right hpos).trans (ih h)

variable {c : List (LogByte β)} {r : LogRecord β} {sys : LogSystem β}

/-- What is intact at the beginning of a file is read. -/
lemma sublist_readLog [DecidableEq β] (hshort : ∀ r ∈ rs, r.dataLen ≤ kMaxReplayDataLen)
    {n : ℕ} (pos : ℕ) (hc : (rs.flatMap bytes).take n <+: c) (hn : n ≤ c.length) (fuel : ℕ) (hfuel : c.length ≤ fuel) :
    ((endsFrom pos rs).filter fun p => p.2 ≤ pos + n).map Prod.fst <+ readRecords fuel c := by
  induction rs generalizing n pos c fuel with
  | nil => exact nil_sublist _
  | cons r rs ih =>
    by_cases hfit : r.bytes.length ≤ n
    · -- The record is there with all its bytes, and the reader goes on behind it.
      rw [flatMap_cons, take_append, take_of_length_le hfit] at hc
      obtain ⟨tail, rfl⟩ := (prefix_append r.bytes _).trans hc
      rw [prefix_append_right_inj] at hc
      have hpos : 0 < r.bytes.length := by simp [bytes, kWalHeaderSize]
      simp only [length_append] at hn hfuel
      obtain ⟨fuel, rfl⟩ : ∃ fuel', fuel = fuel' + 1 := ⟨fuel - 1, by omega⟩
      have hrest := ih (fun r' hr' => hshort r' (mem_cons_of_mem _ hr')) (pos + r.bytes.length) hc
        (by omega) fuel (by omega)
      rw [readRecords, readRecord_append (hshort r mem_cons_self)]
      simp only [endsFrom]
      rw [filter_cons_of_pos (by simpa using hfit), map_cons]
      refine List.Sublist.cons_cons r ?_
      rwa [Nat.add_assoc, Nat.add_sub_cancel' hfit] at hrest
    · -- Neither this record nor a later one ends in the intact part.
      have hnone : (endsFrom pos (r :: rs)).filter (fun p => p.2 ≤ pos + n) = [] := by
        refine filter_eq_nil_iff.2 fun p hp => ?_
        rw [decide_eq_true_eq]
        rcases mem_cons.1 hp with rfl | hp
        · omega
        · have hlt := lt_of_mem_endsFrom hp
          omega
      rw [hnone]
      exact nil_sublist _

namespace LogManager

variable (cfg : LogConfig) (io : LogIo)

def all (l : LogManager β) : List (LogByte β) := l.written ++ l.buf

/-- The bytes of `data` were put behind the others, and the file was not truncated. -/
structure Grows (l : LogManager β) (data : List (LogByte β)) (l' : LogManager β) : Prop where
  all : l'.all = l.all ++ data
  base : l'.base = l.base
  written : l.written.length ≤ l'.written.length
  covered : l.synced ≤ l.written.length → l'.synced ≤ l'.written.length

section

variable {cfg} {io} {l l' l'' : LogManager β} {data data' : List (LogByte β)}

lemma Grows.refl (l : LogManager β) : l.Grows [] l := ⟨(append_nil _).symm, rfl, le_rfl, id⟩

lemma Grows.trans (h : l.Grows data l') (h' : l'.Grows data' l'') : l.Grows (data ++ data') l'' :=
  ⟨by rw [h'.all, h.all, append_assoc], h'.base.trans h.base, h.written.trans h'.written,
    fun hc => h'.covered (h.covered hc)⟩

lemma Grows.before (h : l.Grows data l') (h' : l'.Grows [] l'') : l.Grows data l'' := by
  have htrans := h.trans h'
  rwa [append_nil] at htrans

lemma Grows.after (h : l.Grows [] l') (h' : l'.Grows data l'') : l.Grows data l'' := h.trans h'

section

variable (hio : io.NoPartial)
include hio

lemma grows_writeDirect (hok : (l.writeDirect io data).2 = false) : l.Grows [] (l.writeDirect io data).1 := by
  rw [writeDirect] at hok ⊢
  split_ifs at hok ⊢
  · exact .refl l
  · cases hw : io.write l.ioCalls with
    | none => simp [hw] at hok
    | some k =>
      obtain rfl := hio _ _ hw
      simp only [take_zero, append_nil]
      exact ⟨(append_nil _).symm, rfl, le_rfl, id⟩

lemma grows_flushBuffer (l : LogManager β) : l.Grows [] (l.flushBuffer io).1 := by
  have hw := flushBuffer_wrote io l
  simp only [flushBuffer] at hw ⊢
  split_ifs at hw ⊢ with hbuf hok
  · exact .refl l
  · refine ⟨?_, hw.base, hw.written.length_le, hw.covered⟩
    simp [all, writeDirect_ok io hok]
  · exact grows_writeDirect hio (by simpa using hok)

omit hio in
lemma grows_copy (l : LogManager β) (data : List (LogByte β)) : l.Grows data { l with buf := l.buf ++ data } :=
  ⟨(append_assoc _ _ _).symm, rfl, le_rfl, id⟩

lemma grows_copyToBuffer (l : LogManager β) (data : List (LogByte β)) :
    l.Grows data (l.copyToBuffer io data).1 := by
  simp only [copyToBuffer]
  split_ifs
  · exact (grows_copy l data).before (grows_flushBuffer hio _)
  · exact grows_copy l data

/-- There is room for the bytes, or room is made for them. -/
def RoomFor (io : LogIo) (l : LogManager β) (data : List (LogByte β)) : Prop :=
  (l.appendToBuffer io data).2 = true ∨
    data.length ≤ kWalBufferSize ∧
      (l.buf.length + data.length ≤ kWalBufferSize ∨ (l.flushBuffer io).2 = true)

/-- With room for them, the bytes are put behind the others; otherwise nothing is. -/
lemma grows_appendToBuffer (l : LogManager β) (data : List (LogByte β)) :
    (l.RoomFor io data → l.Grows data (l.appendToBuffer io data).1) ∧
      (¬ l.RoomFor io data → l.Grows [] (l.appendToBuffer io data).1) := by
  have hflush := grows_flushBuffer hio l
  constructor
  · intro hroom
    simp only [RoomFor, appendToBuffer] at hroom ⊢
    split_ifs at hroom ⊢ with hnil hlarge hok hfull hok
    · rw [hnil]
      exact .refl l
    · have hdirect : ((l.flushBuffer io).1.writeDirect io data).2 = true :=
        hroom.resolve_right fun h => by omega
      refine hflush.after ⟨?_, ?_, ?_, ?_⟩
      · rw [writeDirect_ok io hdirect]
        simp [all, flushBuffer_ok io hok]
      · rw [writeDirect_ok io hdirect]
      · rw [writeDirect_ok io hdirect]
        simp
      · rw [writeDirect_ok io hdirect]
        simp only [length_append]
        omega
    · simp only [false_or] at hroom
      omega
    · exact hflush.after (grows_copyToBuffer hio _ data)
    · simp only [false_or] at hroom
      rcases hroom.2 with h | h
      · omega
      · exact absurd h hok
    · exact grows_copyToBuffer hio l data
  · intro hroom
    simp only [RoomFor, not_or, not_and] at hroom
    obtain ⟨hfail, hroom⟩ := hroom
    simp only [appendToBuffer] at hfail ⊢
    split_ifs at hfail ⊢ with hnil hlarge hok hfull hok
    · exact absurd rfl hfail
    · exact hflush.before (grows_writeDirect hio (by simpa using hfail))
    · exact hflush
    · exact absurd hok (hroom (by omega)).2
    · exact hflush
    · exact absurd (Nat.not_lt.1 hfull) (hroom (by omega)).1

omit hio in
lemma grows_fsync (io : LogIo) (l : LogManager β) : l.Grows [] (l.fsync io).1 := by
  rw [fsync]
  split_ifs
  · exact ⟨(append_nil _).symm, rfl, le_rfl, fun _ => le_rfl⟩
  · exact ⟨(append_nil _).symm, rfl, le_rfl, id⟩

omit hio in
lemma grows_flushAndSync (cfg : LogConfig) (hio : io.NoPartial) (l : LogManager β) :
    l.Grows [] (l.flushAndSync cfg io).1 := by
  have hflush := grows_flushBuffer hio l
  simp only [flushAndSync]
  split_ifs
  · exact hflush.after (grows_fsync io _)
  · exact hflush

omit hio in
/-- The watermark, the LSNs and the other counters are not among the bytes. -/
lemma Grows.congr (h : l.Grows data l') (hwritten : l''.written = l'.written) (hbuf : l''.buf = l'.buf)
    (hbase : l''.base = l'.base) (hsynced : l''.synced = l'.synced) : l.Grows data l'' := by
  refine ⟨?_, hbase.trans h.base, hwritten ▸ h.written, hwritten ▸ hsynced ▸ h.covered⟩
  rw [LogManager.all, hwritten, hbuf]
  exact h.all

lemma Flushed.grows {lsn : ℕ} {back : Prop} (h : l.Flushed cfg io lsn back l') : l.Grows [] l' := by
  induction h with
  | refl => exact .refl l
  | write _ ih => exact ih.before (grows_flushBuffer hio _)
  | sync _ ih => exact ih.before (grows_fsync io _)
  | store _ _ ih | given _ _ _ ih | count _ _ _ _ _ ih => exact ih.congr rfl rfl rfl rfl

/-- A record is copied as a whole or not at all. -/
def AppendsWhole (io : LogIo) (l : LogManager β) (r : LogRecord β) : Prop :=
  l.RoomFor io r.header → r.dataLen = 0 ∨
    (l.appendToBuffer io r.header).2 = true ∧ (l.appendToBuffer io r.header).1.RoomFor io r.payload

lemma grows_appendRecord (hwhole : l.AppendsWhole io r) :
    l.Grows r.bytes (l.appendRecord io r).1 ∨ l.Grows [] (l.appendRecord io r).1 ∧ (l.appendRecord io r).2 = false := by
  obtain ⟨hcopied, hnot⟩ := grows_appendToBuffer hio l r.header
  by_cases hroom : l.RoomFor io r.header
  · left
    have hheader := hcopied hroom
    simp only [appendRecord]
    rcases hwhole hroom with hlen | ⟨hok, hpayload⟩
    · have hnil : r.payload = [] := by simp [payload, hlen]
      rw [bytes, hnil, append_nil]
      split_ifs
      · rw [appendToBuffer, if_pos rfl]
        exact hheader
      · exact hheader
    · rw [if_pos hok]
      exact hheader.trans ((grows_appendToBuffer hio _ r.payload).1 hpayload)
  · right
    have hfail : (l.appendToBuffer io r.header).2 = false := by
      by_contra hok
      exact hroom (.inl (by simpa using hok))
    simp only [appendRecord, hfail]
    exact ⟨hnot hroom, rfl⟩

end

section

variable (cfg : LogConfig)

/-- `write_record` with the bytes of its record, or without. -/
lemma grows_writeRecord (hio : io.NoPartial) {txnId : ℕ} {op : WalOp β} {dataLen : ℕ}
    (hwhole : l.AppendsWhole io (l.nextRecord txnId op dataLen)) :
    l.Grows (l.nextRecord txnId op dataLen).bytes (l.writeRecord cfg io txnId op dataLen).1 ∨
      l.Grows [] (l.writeRecord cfg io txnId op dataLen).1 ∧ (l.writeRecord cfg io txnId op dataLen).2 = 0 := by
  simp only [writeRecord]
  split_ifs with hopen hok
  · exact .inr ⟨.refl l, rfl⟩
  · rcases grows_appendRecord hio hwhole with hgrows | ⟨-, hfail⟩
    · have hadvance : l.Grows (l.nextRecord txnId op dataLen).bytes
          (l.appendRecord io (l.nextRecord txnId op dataLen)).1.advance := hgrows.congr rfl rfl rfl rfl
      exact .inl (hadvance.before ((flushed_closeSegment cfg io _).grows hio))
    · rw [hok] at hfail
      cases hfail
  · rcases grows_appendRecord hio hwhole with hgrows | ⟨hgrows, -⟩
    · exact .inl hgrows
    · exact .inr ⟨hgrows, rfl⟩

/-- `checkpoint`: the marker is copied or not, and the file may be truncated behind it. -/
lemma grows_checkpoint (hio : io.NoPartial) (l : LogManager β) (allowTruncate : Bool) :
    l.Grows (l.nextRecord 0 .other 0).bytes (l.checkpoint cfg io allowTruncate) ∨
    (l.Grows [] (l.checkpoint cfg io allowTruncate) ∧
      (l.isOpen && (l.appendToBuffer io (l.nextRecord 0 .other 0).header).2) = false) ∨
    ((l.checkpoint cfg io allowTruncate).buf = [] ∧
      (l.checkpoint cfg io allowTruncate).base = (l.checkpoint cfg io allowTruncate).written.length ∧
      l.all.length ≤ (l.checkpoint cfg io allowTruncate).written.length ∧ (l.synced ≤ l.written.length →
        (l.checkpoint cfg io allowTruncate).synced ≤ (l.checkpoint cfg io allowTruncate).written.length)) := by
  -- The marker is copied, gets its LSN, and everything is flushed.
  obtain ⟨hcopied, hnot⟩ := grows_appendToBuffer hio l (l.nextRecord 0 .other 0).header
  have hflushed : (l.appendToBuffer io (l.nextRecord 0 .other 0).header).2 = true →
      l.Grows (l.nextRecord 0 .other 0).header
        ((l.appendToBuffer io (l.nextRecord 0 .other 0).header).1.advance.flushAndSync cfg io).1 := by
    intro hok
    have hadvance : l.Grows (l.nextRecord 0 .other 0).header
        (l.appendToBuffer io (l.nextRecord 0 .other 0).header).1.advance :=
      (hcopied (.inl hok)).congr rfl rfl rfl rfl
    exact hadvance.before (grows_flushAndSync cfg hio _)
  simp only [checkpoint]
  split_ifs with hopen hok hsync htrunc
  · simp only [Bool.not_eq_true'] at hopen
    exact .inr (.inl ⟨.refl l, by simp [hopen]⟩)
  · by_cases hroom : l.RoomFor io (l.nextRecord 0 .other 0).header
    · exact .inl (hcopied hroom)
    · refine .inr (.inl ⟨hnot hroom, ?_⟩)
      simp only [Bool.not_eq_true'] at hok
      simp [hok]
  · exact .inl (hflushed (by simpa using hok))
  · have hstable := flushAndSync_ok cfg io (by simpa using hsync)
    have hgrows := hflushed (by simpa using hok)
    refine .inr (.inr ⟨hstable.buf, rfl, ?_, hgrows.covered⟩)
    have hlen := congrArg length hgrows.all
    rw [all, hstable.buf, append_nil, length_append] at hlen
    exact (Nat.le_add_right _ _).trans hlen.ge
  · exact .inl ((hflushed (by simpa using hok)).congr rfl rfl rfl rfl)

end

end

end LogManager

/-! ## Lives of the log -/

/-- The log in one of its lives, and for each acknowledged record the number of bytes in the log right
after the step that appended it. -/
structure LogLife (β : Type*) where
  sys : LogSystem β
  ends : List ℕ

inductive LifeAction (β : Type*) where
  | log (a : LogAction β)
  /-- a crash that leaves the file; the next life begins with the LSN -/
  | restart (file : List (LogByte β)) (nextLsn : ℕ)

namespace LogManager

instance [DecidableEq β] (l : LogManager β) (left : List (LogByte β)) : Decidable (l.CrashOf left) :=
  have : Decidable (∀ i < left.length, left[i]? = l.file[i]? ∨ l.synced - l.base ≤ i ∧ left[i]? = some none) :=
    inferInstance
  decidable_of_iff' _ (l.crashOf_iff left)

end LogManager

namespace LogLife

open LogManager

variable (cfg : LogConfig) (io : LogIo)

def create : LogLife β := ⟨.create, []⟩

def step [DecidableEq β] (s : LogLife β) : LifeAction β → Option (LogLife β)
  | .log a => (s.sys.step cfg io a).map fun sys =>
    ⟨sys, s.ends ++ List.replicate (sys.acked.length - s.sys.acked.length) sys.log.all.length⟩
  | .restart file nextLsn =>
    if s.sys.log.CrashOf file then
      some ⟨{ LogSystem.create with log := .reopened file nextLsn s.sys.log.ioCalls }, []⟩
    else none

/-- The records that were acknowledged and then synced, and not truncated since. -/
def required (s : LogLife β) : List (LogRecord β) :=
  ((s.sys.acked.zip s.ends).filter fun p =>
    decide (p.2 ≤ s.sys.log.synced) && decide (s.sys.log.base < p.2)).map Prod.fst

/-- Whatever a crash leaves, the reader returns these records, in order. -/
def Complete [DecidableEq β] (s : LogLife β) : Prop :=
  ∀ c, s.sys.log.CrashOf c → s.required <+ readLog c

/-- The condition on a step: a payload is not longer than the reader allows, a record is copied as a whole
or not at all, and a crash leaves the file at the end of a record. -/
def WholeOk [DecidableEq β] (s : LogLife β) : LifeAction β → Prop
  | .log (.append txnId op dataLen) =>
    dataLen ≤ kMaxReplayDataLen ∧ s.sys.log.AppendsWhole io (s.sys.log.nextRecord txnId op dataLen)
  | .restart file _ => (readLog file).flatMap bytes = file
  | _ => True

/-- The log is made of these records. -/
structure Whole (s : LogLife β) (rs : List (LogRecord β)) : Prop where
  base : s.sys.log.base ≤ s.sys.log.written.length
  covered : s.sys.log.synced ≤ s.sys.log.written.length
  bytes : s.sys.log.all.drop s.sys.log.base = rs.flatMap bytes
  short : ∀ r ∈ rs, r.dataLen ≤ kMaxReplayDataLen
  length : s.sys.acked.length = s.ends.length
  bound : ∀ e ∈ s.ends, e ≤ s.sys.log.all.length
  acked : (s.sys.acked.zip s.ends).filter (fun p => decide (s.sys.log.base < p.2)) <+ endsFrom s.sys.log.base rs

section

variable {cfg} {io} {s s' : LogLife β} {rs : List (LogRecord β)}

/-- The intact part of a crashed file is the beginning of the records. -/
lemma Whole.take_prefix (h : s.Whole rs) (hc : s.sys.log.CrashOf c) :
    (rs.flatMap LogRecord.bytes).take (s.sys.log.synced - s.sys.log.base) <+: c := by
  have hkept := hc.kept
  have hlen := hc.length
  have hfile : s.sys.log.all.drop s.sys.log.base = s.sys.log.file ++ s.sys.log.buf := by
    rw [LogManager.all, drop_append_of_le_length h.base, LogManager.file]
  rw [← h.bytes, hfile, take_append_of_le_length (hkept.trans hlen)]
  have htake : s.sys.log.file.take (s.sys.log.synced - s.sys.log.base) =
      c.take (s.sys.log.synced - s.sys.log.base) := by
    refine ext_getElem? fun i => ?_
    by_cases hi : i < s.sys.log.synced - s.sys.log.base
    · rw [getElem?_take_of_lt hi, getElem?_take_of_lt hi]
      rcases hc.byte i (by omega) with hbyte | ⟨hle, -⟩
      · exact hbyte.symm
      · omega
    · rw [getElem?_take_eq_none (by omega), getElem?_take_eq_none (by omega)]
  rw [htake]
  exact List.take_prefix _ _

lemma Whole.complete [DecidableEq β] (h : s.Whole rs) : s.Complete := by
  intro c hc
  have hread := sublist_readLog h.short s.sys.log.base (h.take_prefix hc) hc.kept c.length le_rfl
  refine List.Sublist.trans ?_ hread
  refine List.Sublist.map _ ?_
  have hfilter : (endsFrom s.sys.log.base rs).filter
        (fun p => decide (p.2 ≤ s.sys.log.base + (s.sys.log.synced - s.sys.log.base))) =
      (endsFrom s.sys.log.base rs).filter fun p => decide (p.2 ≤ s.sys.log.synced) := by
    refine filter_congr fun p hp => ?_
    have hlt := lt_of_mem_endsFrom hp
    rw [decide_eq_decide]
    omega
  rw [hfilter]
  have hsub := h.acked.filter fun p => decide (p.2 ≤ s.sys.log.synced)
  rwa [filter_filter] at hsub

/-- What a step of the log does to its bytes and to the acknowledged records. -/
inductive Effect (l : LogManager β) (acked : List (LogRecord β)) (l' : LogManager β)
    (acked' : List (LogRecord β)) : Prop where
  | same (h : l.Grows [] l') (hacked : acked' = acked)
  | grown (r : LogRecord β) (hshort : r.dataLen ≤ kMaxReplayDataLen) (h : l.Grows r.bytes l')
      (hacked : acked' = acked ∨ acked' = acked ++ [r])
  | truncated (hbuf : l'.buf = []) (hbase : l'.base = l'.written.length) (hall : l.all.length ≤ l'.written.length)
      (hcovered : l.synced ≤ l.written.length → l'.synced ≤ l'.written.length)
      (new : List (LogRecord β)) (hacked : acked' = acked ++ new)

lemma effect_record (cfg : LogConfig) (hio : io.NoPartial) {s : LogSystem β} {txnId : ℕ}
    {op : WalOp β} {dataLen : ℕ}
    (hshort : dataLen ≤ kMaxReplayDataLen) (hwhole : s.log.AppendsWhole io (s.log.nextRecord txnId op dataLen)) :
    Effect s.log s.acked (s.record cfg io txnId op dataLen).1.log (s.record cfg io txnId op dataLen).1.acked := by
  simp only [LogSystem.record]
  rcases grows_writeRecord cfg hio hwhole with hgrows | ⟨hgrows, hzero⟩
  · split_ifs
    · exact .grown _ hshort hgrows (.inl rfl)
    · exact .grown _ hshort hgrows (.inr rfl)
  · rw [if_pos hzero]
    exact .same hgrows rfl

lemma effect_record_empty (cfg : LogConfig) (hio : io.NoPartial) (s : LogSystem β) (txnId : ℕ) (op : WalOp β) :
    Effect s.log s.acked (s.record cfg io txnId op 0).1.log (s.record cfg io txnId op 0).1.acked :=
  effect_record cfg hio (Nat.zero_le _) fun _ => .inl rfl

lemma acked_endCommit (s : LogSystem β) (txnId : ℕ) (ok : Bool) : (s.endCommit txnId ok).acked = s.acked := by
  cases ok <;> rfl

lemma effect_step (hio : io.NoPartial) {s s' : LogSystem β} {a : LogAction β}
    (hs : LogSystem.step cfg io s a = some s')
    (hok : ∀ txnId op dataLen, a = .append txnId op dataLen →
      dataLen ≤ kMaxReplayDataLen ∧ s.log.AppendsWhole io (s.log.nextRecord txnId op dataLen)) :
    Effect s.log s.acked s'.log s'.acked := by
  cases a <;> simp only [LogSystem.step] at hs
  case append txnId op dataLen =>
    split_ifs at hs
    cases hs
    obtain ⟨hshort, hwhole⟩ := hok txnId op dataLen rfl
    exact effect_record cfg hio hshort hwhole
  case commitAppend txnId =>
    have heffect := effect_record_empty cfg hio { s with commitCalls := txnId :: s.commitCalls } txnId .txnCommit
    split_ifs at hs with hmem hzero
    · rw [Option.some.injEq] at hs
      subst hs
      exact heffect
    · rw [Option.some.injEq] at hs
      subst hs
      exact heffect
  case commitFlush lsn txnId =>
    split_ifs at hs
    have hgrows := (flushed_flushCommit cfg io s.log lsn).grows hio
    cases hout : (s.log.flushCommit cfg io lsn).2 with
    | done ok =>
      simp only [hout, Option.some.injEq] at hs
      subst hs
      rw [LogSystem.log_endCommit, acked_endCommit]
      exact .same hgrows rfl
    | wait batch =>
      simp only [hout, Option.some.injEq] at hs
      subst hs
      exact .same hgrows rfl
  case commitWake lsn txnId batch =>
    split_ifs at hs
    cases hs
    rw [LogSystem.log_endCommit, acked_endCommit]
    exact .same (.refl _) rfl
  case abortAppend txnId =>
    have heffect := effect_record_empty cfg hio s txnId .txnAbort
    simp only [Option.some.injEq] at hs
    subst hs
    split_ifs
    · exact heffect
    · exact heffect
  case abortFlush lsn =>
    split_ifs at hs
    cases hs
    exact .same ((flushed_flushAbort cfg io s.log lsn).grows hio) rfl
  case flush =>
    cases hs
    exact .same ((flushed_flush cfg io s.log).grows hio) rfl
  case flushUntil lsn =>
    cases hs
    exact .same ((flushed_flushUntil cfg io s.log lsn).grows hio) rfl
  case checkpoint allowTruncate =>
    simp only [Option.some.injEq] at hs
    subst hs
    rcases grows_checkpoint cfg hio s.log allowTruncate with hgrows | ⟨hgrows, hok⟩ | ⟨hbuf, hbase, hall, hcov⟩
    · refine .grown _ (Nat.zero_le _) hgrows ?_
      split_ifs
      · exact .inr rfl
      · exact .inl rfl
    · exact .same hgrows (by simp [hok])
    · refine .truncated hbuf hbase hall hcov
        (if s.log.isOpen && (s.log.appendToBuffer io (s.log.nextRecord 0 .other 0).header).2 then
          [s.log.nextRecord 0 .other 0] else []) ?_
      split_ifs
      · rfl
      · simp

section

variable (h : s.Whole rs)
include h

lemma Whole.length_all : s.sys.log.all.length = s.sys.log.base + (rs.flatMap LogRecord.bytes).length := by
  have hle : s.sys.log.base ≤ s.sys.log.all.length := by
    rw [LogManager.all, length_append]
    exact h.base.trans (Nat.le_add_right _ _)
  have hdrop := congrArg List.length h.bytes
  rw [length_drop] at hdrop
  omega

/-- A record is put behind the others, and acknowledged or not. -/
lemma Whole.grown (hshort : r.dataLen ≤ kMaxReplayDataLen)
    (hgrows : s.sys.log.Grows r.bytes sys.log) (new : List (LogRecord β × ℕ))
    (hacked : sys.acked = s.sys.acked ++ new.map Prod.fst) (hnew : new = [] ∨ new = [(r, sys.log.all.length)]) :
    Whole ⟨sys, s.ends ++ new.map Prod.snd⟩ (rs ++ [r]) := by
  have hlen := h.length_all
  have hall : sys.log.all.length = s.sys.log.all.length + r.bytes.length := by
    rw [hgrows.all, length_append]
  refine ⟨?_, hgrows.covered h.covered, ?_, ?_, ?_, ?_, ?_⟩
  · rw [hgrows.base]
    exact h.base.trans hgrows.written
  · rw [hgrows.base, hgrows.all, drop_append_of_le_length (by omega), h.bytes, flatMap_append,
      flatMap_singleton]
  · intro r' hr'
    rcases mem_append.1 hr' with hr' | hr'
    · exact h.short r' hr'
    · rw [mem_singleton.1 hr']
      exact hshort
  · simp [hacked, h.length]
  · intro e he
    dsimp only
    rcases mem_append.1 he with he | he
    · have hold := h.bound e he
      omega
    · rcases hnew with rfl | rfl
      · exact absurd he not_mem_nil
      · simp at he
        omega
  · rw [hacked, hgrows.base, zip_append h.length, filter_append, endsFrom_append]
    refine h.acked.append ?_
    rcases hnew with rfl | rfl
    · exact nil_sublist _
    · rw [hall, hlen]
      exact filter_sublist

lemma Whole.truncated (hbuf : sys.log.buf = [])
    (hbase : sys.log.base = sys.log.written.length) (hall : s.sys.log.all.length ≤ sys.log.written.length)
    (hcovered : s.sys.log.synced ≤ s.sys.log.written.length → sys.log.synced ≤ sys.log.written.length)
    {new : List (LogRecord β)} (hacked : sys.acked = s.sys.acked ++ new) :
    Whole ⟨sys, s.ends ++ replicate new.length sys.log.all.length⟩ [] := by
  have hwritten : sys.log.all = sys.log.written := by rw [LogManager.all, hbuf, append_nil]
  have hends : ∀ e ∈ s.ends ++ replicate new.length sys.log.all.length, e ≤ sys.log.all.length := by
    intro e he
    rcases mem_append.1 he with he | he
    · rw [hwritten]
      exact (h.bound e he).trans hall
    · rw [eq_of_mem_replicate he]
  refine ⟨hbase.le, hcovered h.covered, ?_, fun _ hr => absurd hr not_mem_nil, ?_, hends, ?_⟩
  · rw [hwritten, hbase, drop_length]
    rfl
  · simp [hacked, h.length]
  · -- Every record that was there ends before the new beginning of the file.
    rw [filter_eq_nil_iff.2]
    · exact nil_sublist _
    · intro p hp
      have hle := hends p.2 (of_mem_zip hp).2
      rw [hwritten, ← hbase] at hle
      simpa using hle

/-- A step of the log, with the ends of the acknowledged records. -/
lemma Whole.effect (heffect : Effect s.sys.log s.sys.acked sys.log sys.acked) :
    ∃ rs', Whole ⟨sys, s.ends ++ replicate (sys.acked.length - s.sys.acked.length) sys.log.all.length⟩ rs' := by
  cases heffect with
  | same hgrows hacked =>
    have hall : sys.log.all = s.sys.log.all := hgrows.all.trans (append_nil _)
    refine ⟨rs, ?_⟩
    rw [hacked, Nat.sub_self, replicate_zero, append_nil]
    exact ⟨hgrows.base ▸ h.base.trans hgrows.written, hgrows.covered h.covered,
      by rw [hall, hgrows.base]; exact h.bytes, h.short, by rw [hacked]; exact h.length,
      by rw [hall]; exact h.bound, by rw [hacked, hgrows.base]; exact h.acked⟩
  | grown r hshort hgrows hacked =>
    refine ⟨rs ++ [r], ?_⟩
    rcases hacked with hacked | hacked
    · have hgrown := h.grown hshort hgrows [] (by simp [hacked]) (.inl rfl)
      simpa [hacked] using hgrown
    · have hgrown := h.grown hshort hgrows [(r, sys.log.all.length)] (by simp [hacked]) (.inr rfl)
      simpa [hacked] using hgrown
  | truncated hbuf hbase hall hcovered new hacked =>
    refine ⟨[], ?_⟩
    have htrunc := h.truncated hbuf hbase hall hcovered hacked
    simpa [hacked] using htrunc

end

lemma whole_create : (create : LogLife β).Whole [] :=
  ⟨le_rfl, le_rfl, rfl, fun _ h => absurd h not_mem_nil, rfl, fun _ h => absurd h not_mem_nil, nil_sublist _⟩

lemma Whole.step [DecidableEq β] (hio : io.NoPartial) (h : s.Whole rs) {a : LifeAction β} (hok : s.WholeOk io a)
    (hs : LogLife.step cfg io s a = some s') : ∃ rs', s'.Whole rs' := by
  cases a with
  | log a =>
    obtain ⟨sys, hsys, rfl⟩ := Option.map_eq_some_iff.1 hs
    refine h.effect (effect_step hio hsys fun txnId op dataLen heq => ?_)
    subst heq
    exact hok
  | restart file nextLsn =>
    simp only [LogLife.step] at hs
    split_ifs at hs
    cases hs
    refine ⟨readLog file, Nat.zero_le _, le_rfl, ?_, fun r hr => (of_mem_readRecords hr).2, rfl,
      fun _ h => absurd h not_mem_nil, nil_sublist _⟩
    rw [hok]
    exact append_nil file

end

/-- **The log loses no acknowledged record.**  If a write that fails has written nothing, then in every run in
which payloads are not longer than the reader allows, records are copied as a whole or not at all, and
crashes that are followed by another life leave no torn record, the reader returns after a crash at any
time all records that were acknowledged and then synced, in order. -/
theorem log_complete [DecidableEq β] (hio : io.NoPartial) (actions : List (LifeAction β))
    (hok : StepsMeet (step cfg io) (WholeOk io) create actions) :
    Always (step cfg io) Complete create actions :=
  always_of_invariant (I := fun s => ∃ rs, Whole s rs) (fun _ _ _ ⟨_, h⟩ hok hs => h.step hio hok hs)
    (fun _ ⟨_, h⟩ => h.complete) ⟨[], whole_create⟩ hok

def firstRecord : LogRecord Unit := ⟨1, 3, .other, 0⟩

/-- A record is appended and flushed; after a crash that leaves it, another one follows. -/
theorem log_complete_two_lives :
    Always (step .default .ok) Complete create
      [.log (.append 3 .other 0), .log .flush, .restart firstRecord.bytes 2, .log (.append 5 .other 0),
        .log .flush] := by
  have hempty : ∀ (s : LogLife Unit) txnId, WholeOk LogIo.ok s (.log (.append txnId .other 0)) :=
    fun _ _ => ⟨Nat.zero_le _, fun _ => .inl rfl⟩
  have hfile : (readLog firstRecord.bytes).flatMap bytes = firstRecord.bytes := by decide +kernel
  have hio : LogIo.ok.NoPartial := fun n k h => by simp [LogIo.ok] at h
  refine log_complete _ _ hio _ ⟨hempty _ 3, fun _ _ => ⟨trivial, fun _ _ => ⟨hfile, fun _ _ => ?_⟩⟩⟩
  exact ⟨hempty _ 5, fun _ _ => ⟨trivial, fun _ _ => trivial⟩⟩

/-- Half of a record is left by a crash, and the next life of the log appends to it: its record is
acknowledged, flushed and synced, and the reader does not get to it. -/
theorem torn_tail_hides_record :
    ¬ Always (step .default { LogIo.ok with fsync := fun n => n != 2 }) Complete create
      [.log (.append 3 .other 0), .log .flush, .restart (firstRecord.bytes.take 16) 2,
        .log (.append 5 .other 0), .log .flush] := by
  intro h
  obtain ⟨s, ⟨hrequired, hread, hcrash⟩, hcomplete⟩ := h.eval (R := fun s => s.required = [⟨2, 5, .other, 0⟩] ∧
    readLog s.sys.log.file = [] ∧ s.sys.log.CrashOf s.sys.log.file) (by decide +kernel)
  have hsub := hcomplete s.sys.log.file hcrash
  rw [hrequired, hread] at hsub
  exact absurd hsub (by simp)

end LogLife

end MiniDb
