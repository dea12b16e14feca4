import MiniDb.Core.Volatile
import MiniDb.Index.SlotKey

/-!
# Encoded keys

A slot of an index page holds a magic number, the number of columns, the length of the columns, and the columns: a
byte for the type and then the value.  What stands behind them is left from earlier keys.

For a slot that an encoded key was written to, `decode` gives the key back (`decode_encode`), and `compare_slot_key`
and `slot_starts_with` do what `compareSlotKey` and `slotStartsWith` do with the key.  What is left is a matter of the
two orders (`slotOrdersAgree_iff`) and of the two tests (`startsWith_of_slotStartsWithBytes`).

The lengths have 16 bits, which is too short for some keys: `roundTrips_iff`.

The bytes of floating-point numbers are a parameter.
-/

namespace MiniDb.Sql

open List Option SlotKey

def kIndexKeyMagic : ℕ := 0x494b

structure FloatBytes where
  ofFloat : FloatNum → List UInt8
  toFloat : List UInt8 → FloatNum
  ofDouble : FloatNum → List UInt8
  toDouble : List UInt8 → FloatNum

/-! ## Words -/

def wordBytes (width n : ℕ) : List UInt8 := (List.range width).map (leByte n)

section

variable (width : ℕ)

/-- Two's complement. -/
def intBytes (v : ℤ) : List UInt8 := wordBytes width (v % (256 ^ width : ℕ)).toNat

def bytesInt (bytes : List UInt8) : ℤ := (leNat bytes : ℤ).bmod (256 ^ width)

/-- The next bytes and those after them; none if they are not all there. -/
def readBytes (p : List UInt8) : Option (List UInt8 × List UInt8) :=
  if p.length < width then none else some (p.take width, p.drop width)

@[simp] lemma length_wordBytes (width n : ℕ) : (wordBytes width n).length = width := by
  simp [wordBytes]

@[simp] lemma length_intBytes (v : ℤ) : (intBytes width v).length = width :=
  length_wordBytes _ _

end

variable {width : ℕ} {v : Value}

lemma leNat_wordBytes {n : ℕ} (h : n < 256 ^ width) : leNat (wordBytes width n) = n :=
  leNat_leByte h

lemma bytesInt_intBytes {v : ℤ} (hlow : -(256 ^ width : ℕ) ≤ v * 2)
    (hhigh : v * 2 < (256 ^ width : ℕ)) : bytesInt width (intBytes width v) = v := by
  have hpos : (0 : ℤ) < (256 ^ width : ℕ) := by exact_mod_cast Nat.pow_pos (by decide)
  have hnonneg := Int.emod_nonneg v hpos.ne'
  rw [bytesInt, intBytes, leNat_wordBytes (by omega), Int.toNat_of_nonneg hnonneg, Int.emod_bmod,
    Int.bmod_eq_of_le_mul_two hlow hhigh]

lemma readBytes_append {l : List UInt8} (h : l.length = width) (rest : List UInt8) :
    readBytes width (l ++ rest) = some (l, rest) := by
  simp [readBytes, take_left' h, drop_left' h, h]

/-! ## Columns -/

/-- The type that a byte stands for; `decode` takes all others for NULL. -/
def TypeId.ofByte (c : UInt8) : TypeId :=
  match c.toNat with
  | 0 => bool
  | 1 => int32
  | 2 => int64
  | 3 => float
  | 4 => double
  | 5 => varchar
  | 6 => timestamp
  | 7 => datetime
  | _ => null

def TypeId.toByte (t : TypeId) : UInt8 := UInt8.ofNat t.code

@[simp] lemma TypeId.toNat_toByte (t : TypeId) : t.toByte.toNat = t.code := by cases t <;> rfl

@[simp] lemma TypeId.ofByte_toByte (t : TypeId) : ofByte t.toByte = t := by cases t <;> rfl

section

variable (fp : FloatBytes)

/-- The bytes of a value behind its type. -/
def Value.bytes : Value → List UInt8
  | null => []
  | bool b => [if b then 1 else 0]
  | int32 v => intBytes 4 v
  | int64 v => intBytes 8 v
  | float x => fp.ofFloat x
  | double x => fp.ofDouble x
  | varchar s => wordBytes 2 s.length ++ s.take (s.length % 256 ^ 2)
  | timestamp m => intBytes 8 m
  | datetime m => intBytes 8 m

/-- The value of a type that is read next. -/
def readValue : TypeId → List UInt8 → Option (Value × List UInt8)
  | .null, p => some (.null, p)
  | .bool, p => (readBytes 1 p).map fun (b, p) => (.bool (b == [1]), p)
  | .int32, p => (readBytes 4 p).map fun (b, p) => (.int32 (bytesInt 4 b), p)
  | .int64, p => (readBytes 8 p).map fun (b, p) => (.int64 (bytesInt 8 b), p)
  | .float, p => (readBytes 4 p).map fun (b, p) => (.float (fp.toFloat b), p)
  | .double, p => (readBytes 8 p).map fun (b, p) => (.double (fp.toDouble b), p)
  | .varchar, p => (readBytes 2 p).bind fun (b, p) =>
    (readBytes (leNat b) p).map fun (s, p) => (.varchar s, p)
  | .timestamp, p => (readBytes 8 p).map fun (b, p) => (.timestamp (bytesInt 8 b), p)
  | .datetime, p => (readBytes 8 p).map fun (b, p) => (.datetime (bytesInt 8 b), p)

namespace IndexKey

def columnBytes (key : IndexKey) : List UInt8 := key.flatMap fun v => v.typeId.toByte :: v.bytes fp

/-- What `IndexKey::encode` writes. -/
def encode (key : IndexKey) : List UInt8 :=
  wordBytes 2 kIndexKeyMagic ++ wordBytes 2 key.length ++ wordBytes 2 (encodedSize key - 6) ++ key.columnBytes fp

section

variable (slot : List UInt8)

/-- The number of columns in a slot and their bytes; none if the slot holds no key. -/
def readHeader : Option (ℕ × List UInt8) := do
  let (magic, p) ← readBytes 2 slot
  let (count, p) ← readBytes 2 p
  let (payload, p) ← readBytes 2 p
  if leNat magic ≠ kIndexKeyMagic ∨ p.length < leNat payload then none
  else some (leNat count, p.take (leNat payload))

/-- The loop of `decode`; none where it gives up. -/
def decodeColumns : ℕ → List UInt8 → Option IndexKey
  | 0, _ => some []
  | _ + 1, [] => some []
  | n + 1, c :: p => (readValue fp (.ofByte c) p).bind fun (v, p) =>
    (decodeColumns n p).map (v :: ·)

/-- `IndexKey::decode`, which gives up with a key without columns. -/
def decode : IndexKey :=
  ((readHeader slot).bind fun (n, p) => decodeColumns fp n p).getD []

/-- The loop of `compare_slot_key`.  Values of one type compare as in `Value::compare`. -/
def compareColumns : ℕ → List UInt8 → IndexKey → Option Ordering
  | 0, _, [] => some .eq
  | 0, _, _ :: _ => some .lt
  | _ + 1, _, [] => some .gt
  | _ + 1, [], _ :: _ => none
  | n + 1, c :: p, v :: key =>
    if c.toNat ≠ v.typeId.code then some (Ord.compare c.toNat v.typeId.code)
    else if v.typeId = .varchar then none
    else (readValue fp v.typeId p).bind fun (w, p) =>
      match w.compare v with
      | .eq => compareColumns n p key
      | cmp => some cmp

/-- `compare_slot_key`; none if it returns false. -/
def compareSlotBytes (key : IndexKey) : Option Ordering :=
  (readHeader slot).bind fun (n, p) => compareColumns fp n p key

/-- The loop of `slot_starts_with`. -/
def matchColumns : List UInt8 → IndexKey → Option Bool
  | _, [] => some true
  | [], _ :: _ => none
  | c :: p, v :: start =>
    if c.toNat ≠ v.typeId.code then some false
    else if v.typeId = .varchar then none
    else (readValue fp v.typeId p).bind fun (w, p) =>
      if w.compare v = .eq then matchColumns p start else some false

/-- `slot_starts_with`; none if it returns false. -/
def slotStartsWithBytes (start : IndexKey) : Option Bool :=
  (readHeader slot).bind fun (n, p) => if n < start.length then some false else matchColumns fp p start

end

end IndexKey

/-! ## What was encoded is read -/

/-- A value that is no floating-point number, with a number that its type can hold. -/
def Value.Plain : Value → Prop
  | int32 v => -2 ^ 31 ≤ v ∧ v < 2 ^ 31
  | int64 v | timestamp v | datetime v => -2 ^ 63 ≤ v ∧ v < 2 ^ 63
  | float _ | double _ => False
  | _ => True

/-- A value with a number that its type can hold. -/
def Value.Held : Value → Prop
  | float x => (fp.ofFloat x).length = 4 ∧ fp.toFloat (fp.ofFloat x) = x
  | double x => (fp.ofDouble x).length = 8 ∧ fp.toDouble (fp.ofDouble x) = x
  | v => v.Plain

lemma Value.Plain.held (hv : v.Plain) : v.Held fp := by
  cases v <;> first | exact hv | exact hv.elim

section

lemma Value.bytes_varchar {s : List UInt8} (hlen : payloadSize (.varchar s) < 256 ^ 2) :
    s.length < 256 ^ 2 ∧ bytes fp (.varchar s) = wordBytes 2 s.length ++ s := by
  have hs : s.length < 256 ^ 2 := lt_of_le_of_lt (Nat.le_add_left _ _) hlen
  exact ⟨hs, by rw [bytes, Nat.mod_eq_of_lt hs, take_length]⟩

variable (hv : v.Held fp) (hlen : payloadSize v < 256 ^ 2)
include hv hlen

lemma Value.length_bytes : (v.bytes fp).length = payloadSize v := by
  cases v with
  | varchar s => simp [(bytes_varchar fp hlen).2, payloadSize]
  | float x | double x => exact hv.1
  | _ => simp [Value.bytes, payloadSize]

lemma readValue_bytes (rest : List UInt8) : readValue fp v.typeId (v.bytes fp ++ rest) = some (v, rest) := by
  cases v with
  | null => rfl
  | bool b => cases b <;> rfl
  | float x | double x => simp [Value.typeId, Value.bytes, readValue, readBytes_append hv.1, hv.2]
  | varchar s =>
    obtain ⟨hs, hbytes⟩ := Value.bytes_varchar fp hlen
    simp [Value.typeId, hbytes, readValue, readBytes_append (length_wordBytes 2 _), leNat_wordBytes hs,
      readBytes_append rfl]
  | int32 v | int64 v | timestamp v | datetime v =>
    simp only [Value.Held, Value.Plain] at hv
    simp only [Value.typeId, Value.bytes, readValue, readBytes_append (length_intBytes _ _), map_some]
    rw [bytesInt_intBytes] <;> push_cast <;> omega

end

namespace IndexKey

variable {key slot : IndexKey}

lemma columnBytes_cons (v : Value) (key : IndexKey) : columnBytes fp (v :: key) =
    v.typeId.toByte :: (v.bytes fp ++ key.columnBytes fp) := by
  simp [columnBytes]

lemma payloadSize_lt_of_mem (hsize : encodedSize slot < 6 + 256 ^ 2) (hv : v ∈ slot) :
    payloadSize v < 256 ^ 2 := by
  have hle := le_sum_of_mem (mem_map_of_mem (f := fun v => 1 + payloadSize v) hv)
  change 6 + _ < _ at hsize
  omega

section

variable (hread : ∀ v ∈ slot, ∀ rest, readValue fp v.typeId (v.bytes fp ++ rest) = some (v, rest))
include hread

lemma decodeColumns_eq : decodeColumns fp slot.length (slot.columnBytes fp) = some slot := by
  induction slot with
  | nil => rfl
  | cons v slot ih =>
    rw [length_cons, columnBytes_cons, decodeColumns, TypeId.ofByte_toByte, hread v mem_cons_self, bind_some]
    dsimp only
    rw [ih fun w hw => hread w (mem_cons_of_mem v hw), map_some]

lemma matchColumns_eq (hlen : key.length ≤ slot.length) :
    matchColumns fp (slot.columnBytes fp) key = slotColumnsMatch slot key := by
  induction slot generalizing key with
  | nil =>
    cases key with
    | nil => rfl
    | cons w key => cases hlen
  | cons v slot ih =>
    cases key with
    | nil => simp [matchColumns, slotColumnsMatch]
    | cons w key =>
      rw [columnBytes_cons, matchColumns, slotColumnsMatch, TypeId.toNat_toByte]
      refine ite_congr (by simp [TypeId.code_injective.eq_iff]) (fun _ => rfl) fun htype => ?_
      rw [← not_not.1 htype, hread v mem_cons_self, bind_some]
      dsimp only
      rw [ih (fun w hw => hread w (mem_cons_of_mem v hw)) (Nat.le_of_succ_le_succ hlen)]

lemma compareColumns_eq : compareColumns fp slot.length (slot.columnBytes fp) key = compareSlotKey slot key := by
  induction slot generalizing key with
  | nil => cases key <;> rfl
  | cons v slot ih =>
    cases key with
    | nil => rfl
    | cons w key =>
      rw [length_cons, columnBytes_cons, compareColumns, compareSlotKey, TypeId.toNat_toByte]
      refine ite_congr (by simp [TypeId.code_injective.eq_iff]) (fun _ => rfl) fun htype => ?_
      rw [← not_not.1 htype, hread v mem_cons_self, bind_some]
      refine ite_congr rfl (fun _ => rfl) fun _ => ?_
      dsimp only
      cases v.compare w with
      | eq => exact ih fun w hw => hread w (mem_cons_of_mem v hw)
      | lt | gt => rfl

end

variable (hheld : ∀ v ∈ slot, v.Held fp) (hcount : slot.length ≤ 255) (hsize : encodedSize slot < 6 + 256 ^ 2)

include hheld hsize

lemma length_columnBytes : (slot.columnBytes fp).length + 6 = encodedSize slot := by
  rw [columnBytes, length_flatMap, Nat.add_comm]
  refine congrArg (6 + sum ·) (map_congr_left fun v hv => ?_)
  rw [length_cons, Value.length_bytes fp (hheld v hv) (payloadSize_lt_of_mem hsize hv), Nat.add_comm]

/-- The columns of a slot, one after the other: what the loops of all functions read. -/
lemma readValue_of_mem (hv : v ∈ slot) (rest : List UInt8) :
    readValue fp v.typeId (v.bytes fp ++ rest) = some (v, rest) :=
  readValue_bytes fp (hheld v hv) (payloadSize_lt_of_mem hsize hv) rest

include hcount

section

variable (tail : List UInt8)

lemma readHeader_encode : readHeader (slot.encode fp ++ tail) = some (slot.length, slot.columnBytes fp) := by
  have hmagic : kIndexKeyMagic < 256 ^ 2 := by decide
  have hcolumns : slot.length < 256 ^ 2 := by omega
  have hpayload : encodedSize slot - 6 = (slot.columnBytes fp).length := by
    rw [← length_columnBytes fp hheld hsize, Nat.add_sub_cancel]
  have hlen : (slot.columnBytes fp).length < 256 ^ 2 := by omega
  simp [readHeader, encode, readBytes_append (length_wordBytes 2 _), leNat_wordBytes hmagic,
    leNat_wordBytes hcolumns, hpayload, leNat_wordBytes hlen]

/-- **A key is decoded as it was encoded.** -/
theorem decode_encode : decode fp (slot.encode fp ++ tail) = slot := by
  rw [decode, readHeader_encode fp hheld hcount hsize, bind_some]
  dsimp only
  rw [decodeColumns_eq fp fun v hv => readValue_of_mem fp hheld hsize hv, getD_some]

/-- **The bytes compare as the key does.** -/
theorem compareSlotBytes_encode (key : IndexKey) :
    compareSlotBytes fp (slot.encode fp ++ tail) key = compareSlotKey slot key := by
  rw [compareSlotBytes, readHeader_encode fp hheld hcount hsize, bind_some]
  exact compareColumns_eq fp fun v hv => readValue_of_mem fp hheld hsize hv

/-- **The bytes start with a key as the slot's key does.** -/
theorem slotStartsWithBytes_encode (start : IndexKey) :
    slotStartsWithBytes fp (slot.encode fp ++ tail) start = slotStartsWith slot start := by
  rw [slotStartsWithBytes, slotStartsWith, readHeader_encode fp hheld hcount hsize, bind_some]
  dsimp only
  split_ifs with hlt
  · rfl
  · exact matchColumns_eq fp (fun v hv => readValue_of_mem fp hheld hsize hv) (not_lt.1 hlt)

end

end IndexKey

end

/-! ## The two orders -/

namespace IndexKey

lemma short_of_fits {slot : IndexKey} (hfits : @TreeKey.fits SlotKey _ slot = true) :
    encodedSize slot < 6 + 256 ^ 2 ∧ slot.length ≤ 255 := by
  obtain ⟨hsize, hcount⟩ : encodedSize slot ≤ 128 ∧ slot.length ≤ 255 := by
    simpa [TreeKey.fits] using hfits
  exact ⟨by omega, hcount⟩

/-- In the first column in which the keys differ, both have a NULL or none has, unless a string comes
before it. -/
def NullsMeet : IndexKey → IndexKey → Prop
  | v :: slot, w :: key =>
    (v.isNull ↔ w.isNull) ∧ (v = w → v.typeId ≠ .varchar → NullsMeet slot key)
  | _, _ => True

lemma compareSlotKey_agrees_iff {slot key : IndexKey} :
    (∀ c, compareSlotKey slot key = some c → c = slot.compare key) ↔ NullsMeet slot key := by
  induction slot generalizing key with
  | nil => cases key <;> simp [compareSlotKey, compare, NullsMeet]
  | cons v slot ih =>
    cases key with
    | nil => simp [compareSlotKey, compare, NullsMeet]
    | cons w key =>
      rw [compareSlotKey, NullsMeet]
      by_cases htype : v.typeId = w.typeId
      · have hnull : v.isNull = w.isNull := by
          cases v <;> cases w <;> first | rfl | cases htype
        have hcmp : compareValueWithNullOrder v w = v.compare w := by
          cases v <;> cases w <;> first | rfl | cases htype
        rw [if_neg (not_not.2 htype), compare, hcmp, hnull]
        by_cases hstr : v.typeId = .varchar
        · simp [hstr]
        · by_cases heq : v = w
          · rw [Value.compare_eq_eq_iff.2 heq]
            simpa [heq, hstr, heq ▸ hstr] using ih
          · have hne : v.compare w ≠ .eq := fun h => heq (Value.compare_eq_eq_iff.1 h)
            cases hc : v.compare w <;> simp_all
      · rw [if_pos htype, compare]
        -- NULL has the largest code, and comes first among the decoded
        cases v <;> cases w <;> first
          | exact absurd rfl htype
          | simp [compareValueWithNullOrder, Value.isNull, Value.compare, Value.typeId,
              TypeId.code, Ord.compare, compareOfLessAndEq]

/-- **Encoded and decoded comparison agree** unless a NULL meets something else. -/
theorem slotOrdersAgree_iff (fp : FloatBytes) {slot : IndexKey} (hplain : ∀ v ∈ slot, v.Plain)
    (hfits : @TreeKey.fits SlotKey _ slot = true) (tail : List UInt8) (key : IndexKey) :
    (∀ c, compareSlotBytes fp (slot.encode fp ++ tail) key = some c →
      c = (decode fp (slot.encode fp ++ tail)).compare key) ↔ NullsMeet slot key := by
  have hheld := fun v hv => (hplain v hv).held fp
  obtain ⟨hsize, hcount⟩ := short_of_fits hfits
  rw [compareSlotBytes_encode fp hheld hcount hsize, decode_encode fp hheld hcount hsize]
  exact compareSlotKey_agrees_iff

def noFloatBytes : FloatBytes := ⟨fun _ => [], fun _ => .nan, fun _ => [], fun _ => .nan⟩

/-- A NULL in both keys, and then a number. -/
theorem slotOrdersAgree_iff_null :
    NullsMeet [.null, .int32 7] [.null, .int32 9, .bool true] ∧ ∀ c,
      compareSlotBytes noFloatBytes (encode noFloatBytes [.null, .int32 7] ++ [0])
        [.null, .int32 9, .bool true] = some c →
      c = (decode noFloatBytes (encode noFloatBytes [.null, .int32 7] ++ [0])).compare
        [.null, .int32 9, .bool true] := by
  have hmeet : NullsMeet [.null, .int32 7] [.null, .int32 9, .bool true] := by
    simp [NullsMeet, Value.isNull]
  exact ⟨hmeet, (slotOrdersAgree_iff noFloatBytes (by simp [Value.Plain]) rfl _ _).2 hmeet⟩

/-- A stored NULL comes after a number, and before it once it is decoded. -/
theorem not_slotOrdersAgree_null : ¬ ∀ c,
    compareSlotBytes noFloatBytes (encode noFloatBytes [.null]) [.int32 5] = some c →
      c = (decode noFloatBytes (encode noFloatBytes [.null])).compare [.int32 5] := by
  intro h
  have heq := h .gt (by decide +kernel)
  revert heq
  decide +kernel

/-! ## The two tests -/

lemma startsWith_of_slotColumnsMatch {slot start : IndexKey} {matched : Bool}
    (h : slotColumnsMatch slot start = some matched) : matched = slot.startsWith start := by
  induction slot generalizing start with
  | nil => cases start <;> exact (some.inj h).symm
  | cons v slot ih =>
    cases start with
    | nil => exact (some.inj h).symm
    | cons w start =>
      rw [slotColumnsMatch] at h
      by_cases heq : v = w
      · subst heq
        rw [if_neg (not_not.2 rfl), if_pos (Value.compare_eq_eq_iff.2 rfl)] at h
        split_ifs at h
        rw [startsWith, compareValueWithNullOrder_eq_eq_iff.2 rfl, ih h]
        rfl
      · have hne : compareValueWithNullOrder v w ≠ .eq := fun h => heq (compareValueWithNullOrder_eq_eq_iff.1 h)
        rw [if_neg fun h => heq (Value.compare_eq_eq_iff.1 h)] at h
        rw [startsWith, beq_eq_false_iff_ne.2 hne, Bool.false_and]
        split_ifs at h
        all_goals exact (some.inj h).symm

/-- **Encoded and decoded test agree.** -/
theorem startsWith_of_slotStartsWithBytes (fp : FloatBytes) {slot : IndexKey} (hheld : ∀ v ∈ slot, v.Held fp)
    (hfits : @TreeKey.fits SlotKey _ slot = true) (tail : List UInt8) (start : IndexKey) {matched : Bool}
    (h : slotStartsWithBytes fp (slot.encode fp ++ tail) start = some matched) :
    matched = (decode fp (slot.encode fp ++ tail)).startsWith start := by
  obtain ⟨hsize, hcount⟩ := short_of_fits hfits
  rw [slotStartsWithBytes_encode fp hheld hcount hsize, slotStartsWith] at h
  rw [decode_encode fp hheld hcount hsize]
  split_ifs at h with hlt
  · obtain rfl := some.inj h
    exact (Bool.eq_false_iff.2 fun h => (startsWith_iff.1 h).length_le.not_gt hlt).symm
  · exact startsWith_of_slotColumnsMatch h

/-- A key of an integer and a NULL, and the integer as its beginning. -/
theorem startsWith_of_slotStartsWithBytes_int :
    slotStartsWithBytes noFloatBytes (encode noFloatBytes [.int32 7, .null] ++ [0]) [.int32 7] = some true ∧
      true = (decode noFloatBytes (encode noFloatBytes [.int32 7, .null] ++ [0])).startsWith [.int32 7] := by
  have h : slotStartsWithBytes noFloatBytes (encode noFloatBytes [.int32 7, .null] ++ [0]) [.int32 7] = some true := by
    decide +kernel
  exact ⟨h, startsWith_of_slotStartsWithBytes _ (by simp [Value.Held, Value.Plain]) rfl _ _ h⟩

/-! ## Keys of any size -/

/-- The result of `encoded_size`, a number of 32 bits. -/
def encodedSize32 (key : IndexKey) : ℕ := encodedSize key % 2 ^ 32

section

variable (fp : FloatBytes)

/-- The bytes that `IndexKey::encode` has written at the start of a buffer, those included that it has only cleared;
none if it returns false. -/
def encodeInto (slotSize : ℕ) (key : IndexKey) : Option (List UInt8) :=
  if key.encodedSize32 ≤ slotSize ∧ key.length ≤ 255 then
    some (key.encode fp ++ replicate (min (key.encodedSize32 + 1) slotSize - (key.encode fp).length) 0)
  else none

variable {fp} {p rest bytes : List UInt8} {key : IndexKey}

lemma readBytes_eq_some (h : readBytes width p = some (bytes, rest)) :
    bytes.length = width ∧ width + rest.length = p.length := by
  rw [readBytes] at h
  split_ifs at h
  cases h
  rw [length_take, length_drop]
  omega

lemma readValue_eq_some {t : TypeId} (h : readValue fp t p = some (v, rest)) :
    payloadSize v + rest.length = p.length := by
  cases t with
  | null =>
    cases h
    exact Nat.zero_add _
  | varchar =>
    obtain ⟨⟨len, q⟩, hlen, h⟩ := bind_eq_some_iff.1 h
    obtain ⟨⟨s, q'⟩, hs, h⟩ := map_eq_some_iff.1 h
    cases h
    have hlen := readBytes_eq_some hlen
    have hs := readBytes_eq_some hs
    rw [payloadSize]
    omega
  | _ =>
    obtain ⟨⟨b, q⟩, hb, h⟩ := map_eq_some_iff.1 h
    cases h
    exact (readBytes_eq_some hb).2

/-- What the loop of `decode` returns has the size of what it has read. -/
lemma decodeColumns_size {n : ℕ} (h : decodeColumns fp n p = some key) :
    (key.map fun v => 1 + payloadSize v).sum ≤ p.length := by
  induction n generalizing p key with
  | zero =>
    cases h
    exact Nat.zero_le _
  | succ n ih =>
    cases p with
    | nil =>
      cases h
      rfl
    | cons c p =>
      obtain ⟨⟨v, q⟩, hv, h⟩ := bind_eq_some_iff.1 h
      obtain ⟨key, hkey, rfl⟩ := map_eq_some_iff.1 h
      have hv := readValue_eq_some hv
      have hkey := ih hkey
      rw [map_cons, sum_cons, length_cons]
      omega

lemma length_of_readHeader {n : ℕ} (h : readHeader bytes = some (n, p)) : p.length < 256 ^ 2 := by
  obtain ⟨⟨magic, p₁⟩, -, h⟩ := bind_eq_some_iff.1 h
  obtain ⟨⟨count, p₂⟩, -, h⟩ := bind_eq_some_iff.1 h
  obtain ⟨⟨payload, p₃⟩, hpayload, h⟩ := bind_eq_some_iff.1 h
  dsimp only at h
  split_ifs at h
  cases h
  have hlt : leNat payload < 256 ^ (payload.map UInt8.toNat).length :=
    Nat.ofDigits_lt_base_pow_length (by decide) (by simpa using fun b _ => UInt8.toNat_lt b)
  rw [length_map, (readBytes_eq_some hpayload).1] at hlt
  exact (length_take_le _ _).trans_lt hlt

lemma encodedSize_decode_lt (bytes : List UInt8) : encodedSize (decode fp bytes) < 6 + 256 ^ 2 := by
  rw [decode]
  cases hkey : (readHeader bytes).bind fun (n, p) => decodeColumns fp n p with
  | none => decide
  | some key =>
    obtain ⟨⟨n, p⟩, hheader, hcols⟩ := bind_eq_some_iff.1 hkey
    exact Nat.add_lt_add_left ((decodeColumns_size hcols).trans_lt (length_of_readHeader hheader)) 6

/-- **A key comes back from a buffer of its size** unless one of the lengths in the header is cut. -/
theorem roundTrips_iff (hheld : ∀ v ∈ key, v.Held fp) :
    (∃ bytes, encodeInto fp key.encodedSize32 key = some bytes ∧ bytes.length = key.encodedSize32 ∧
      decode fp bytes = key) ↔ key.length ≤ 255 ∧ encodedSize key < 6 + 2 ^ 16 := by
  constructor
  · rintro ⟨bytes, hencode, -, hdecode⟩
    rw [encodeInto] at hencode
    split_ifs at hencode with hfits
    exact ⟨hfits.2, hdecode ▸ encodedSize_decode_lt bytes⟩
  · rintro ⟨hcount, hsize⟩
    have hmod : key.encodedSize32 = encodedSize key := Nat.mod_eq_of_lt (by omega)
    have hlen : (key.encode fp).length = encodedSize key := by
      have := length_columnBytes fp hheld hsize
      simp only [encode, length_append, length_wordBytes]
      omega
    refine ⟨key.encode fp, ?_, by rw [hmod, hlen], ?_⟩
    · rw [encodeInto, if_pos ⟨le_rfl, hcount⟩, hlen, hmod, min_eq_right (Nat.le_succ _), Nat.sub_self]
      exact congrArg some (append_nil _)
    · rw [← append_nil (encode fp key)]
      exact decode_encode fp hheld hcount hsize []

end

/-- A string and a negative integer. -/
theorem roundTrips_iff_string : ∃ bytes, encodeInto noFloatBytes 16 [.varchar [97, 98], .int32 (-1)] = some bytes ∧
    bytes.length = 16 ∧ decode noFloatBytes bytes = [.varchar [97, 98], .int32 (-1)] :=
  (@roundTrips_iff noFloatBytes [.varchar [97, 98], .int32 (-1)] (by simp [Value.Held, Value.Plain])).2 (by decide)

/-- A string of 65536 bytes is stored with the length 0. -/
theorem not_roundTrips_long : ¬ ∃ bytes,
    encodeInto noFloatBytes (encodedSize32 [.varchar (replicate (2 ^ 16) 97)]) [.varchar (replicate (2 ^ 16) 97)] =
      some bytes ∧ bytes.length = encodedSize32 [.varchar (replicate (2 ^ 16) 97)] ∧
      decode noFloatBytes bytes = [.varchar (replicate (2 ^ 16) 97)] := by
  rintro ⟨bytes, -, -, h⟩
  have hsize : ∀ s : List UInt8, encodedSize [.varchar s] = 9 + s.length := by
    simp [encodedSize, payloadSize, ← add_assoc]
  have hlt := @encodedSize_decode_lt noFloatBytes bytes
  rw [h, hsize, length_replicate] at hlt
  omega

end IndexKey

end MiniDb.Sql
