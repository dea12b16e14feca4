import Mathlib.Algebra.Order.Field.Rat
import Mathlib.Algebra.Order.Ring.Cast
import Mathlib.Data.Nat.Size

/-!
# Values and their orders

There are two orders on values.  `Value.compare` goes by type first and only then by value: it is the
order of index keys.  `sqlCompareValues` is the order of SQL comparisons: numbers of all types are
compared as doubles, and what is compared with a date is cast to a date first.  `compareSlotKey`, which
the index uses on encoded keys, is `Value.compare` column by column and gives up on strings;
`IndexKey.compare` puts NULL first, where the other two put it last.

Strings are lists of bytes.  A floating-point number is taken as the number it stands for, so that
there is one zero and one NaN.  Casts enter as a parameter.
-/

namespace MiniDb.Sql

inductive TypeId where
  | bool | int32 | int64 | float | double | varchar | timestamp | datetime | null
  deriving DecidableEq, Repr

namespace TypeId

def code : TypeId → ℕ
  | bool => 0
  | int32 => 1
  | int64 => 2
  | float => 3
  | double => 4
  | varchar => 5
  | timestamp => 6
  | datetime => 7
  | null => 255

def isDatetime : TypeId → Bool
  | timestamp | datetime => true
  | _ => false

def isNumericLike : TypeId → Bool
  | bool | int32 | int64 | float | double => true
  | _ => false

lemma code_injective : Function.Injective code := by
  intro s t h
  cases s <;> cases t <;> first | rfl | simp [code] at h

end TypeId

/-! ## Floating-point numbers -/

inductive FloatNum where
  | negInf
  | rat (q : ℚ)
  | posInf
  | nan
  deriving DecidableEq, Repr

namespace FloatNum

/-- The processor's `<`; false if one of the two is NaN. -/
def less : FloatNum → FloatNum → Bool
  | nan, _ | _, nan => false
  | _, negInf => false
  | negInf, _ => true
  | posInf, _ => false
  | rat _, posInf => true
  | rat p, rat q => p < q

/-- `(l < r) ? -1 : (l > r ? 1 : 0)`, which takes NaN to be equal to everything. -/
def ieeeCompare (l r : FloatNum) : Ordering :=
  if l.less r then .lt else if r.less l then .gt else .eq

/-- The order of `Value::compare`, which puts NaN last. -/
def compare : FloatNum → FloatNum → Ordering
  | nan, nan => .eq
  | nan, _ => .gt
  | _, nan => .lt
  | l, r => l.ieeeCompare r

end FloatNum

/-- The nearest number with at most `bits` significant bits, ties to even. -/
def roundToBits (bits n : ℕ) : ℕ :=
  let unit := 2 ^ (n.size - bits)
  if 2 * (n % unit) < unit ∨ (2 * (n % unit) = unit ∧ n / unit % 2 = 0) then n / unit * unit
  else (n / unit + 1) * unit

/-- The conversion of an integer to a double. -/
def roundDouble (v : ℤ) : ℤ := v.sign * roundToBits 53 v.natAbs

/-! ## Values -/

inductive Value where
  | null
  | bool (b : Bool)
  | int32 (v : ℤ)
  | int64 (v : ℤ)
  | float (x : FloatNum)
  | double (x : FloatNum)
  | varchar (s : List UInt8)
  | timestamp (micros : ℤ)
  | datetime (micros : ℤ)
  deriving DecidableEq, Repr

namespace Value

def typeId : Value → TypeId
  | null => .null
  | bool _ => .bool
  | int32 _ => .int32
  | int64 _ => .int64
  | float _ => .float
  | double _ => .double
  | varchar _ => .varchar
  | timestamp _ => .timestamp
  | datetime _ => .datetime

def isNull (v : Value) : Bool := v == null

/-- `get_datetime_micros`. -/
def micros : Value → ℤ
  | timestamp m | datetime m => m
  | _ => 0

def compare (a b : Value) : Ordering :=
  if a.typeId ≠ b.typeId then Ord.compare a.typeId.code b.typeId.code
  else
    match a, b with
    | bool x, bool y => Ord.compare x y
    | int32 x, int32 y => Ord.compare x y
    | int64 x, int64 y => Ord.compare x y
    | timestamp x, timestamp y => Ord.compare x y
    | datetime x, datetime y => Ord.compare x y
    | float x, float y => x.compare y
    | double x, double y => x.compare y
    | varchar x, varchar y => Ord.compare x y
    | _, _ => .eq

def numericAsDouble : Value → FloatNum
  | bool b => .rat (if b then 1 else 0)
  | int32 v => .rat v
  | int64 v => .rat (roundDouble v)
  | float x => x
  | double x => x
  | _ => .rat 0

end Value

/-! ## SQL comparisons -/

inductive CmpOp where
  | eq | ne | lt | gt | le | ge
  deriving DecidableEq, Repr

/-- Does the operator hold of two values that compare like this? -/
def CmpOp.holds : CmpOp → Ordering → Bool
  | eq, c => c == .eq
  | ne, c => c != .eq
  | lt, c => c == .lt
  | gt, c => c == .gt
  | le, c => c != .gt
  | ge, c => c != .lt

section

variable (castTo : Value → TypeId → Value)

/-- The two sides of a comparison in which a date occurs. -/
def datetimeOperands (left right : Value) : Value × Value :=
  if left.typeId.isDatetime && !right.typeId.isDatetime then (left, castTo right left.typeId)
  else if !left.typeId.isDatetime && right.typeId.isDatetime then (castTo left right.typeId, right)
  else if left.typeId ≠ right.typeId then (left, castTo right left.typeId)
  else (left, right)

def sqlCompareValues (left right : Value) : Ordering :=
  if left.typeId.isNumericLike && right.typeId.isNumericLike then
    left.numericAsDouble.ieeeCompare right.numericAsDouble
  else if left.typeId.isDatetime || right.typeId.isDatetime then
    let (l, r) := datetimeOperands castTo left right
    if l.isNull || r.isNull then left.compare right else Ord.compare l.micros r.micros
  else left.compare right

/-- `compare_result`: a date compared with something that is none gives NULL. -/
def compareResult (op : CmpOp) (left right : Value) : Value :=
  if left.typeId.isDatetime || right.typeId.isDatetime then
    let (l, r) := datetimeOperands castTo left right
    if l.isNull || r.isNull then .null else .bool (op.holds (Ord.compare l.micros r.micros))
  else .bool (op.holds (sqlCompareValues castTo left right))

end

/-- `predicate_truth`: NULL is not true, and what is not a BOOL is an error. -/
def predicateTruth : Value → Option Bool
  | .null => some false
  | .bool b => some b
  | _ => none

/-! ## Index keys -/

abbrev IndexKey := List Value

/-- `compare_value_with_null_order`, NULL first. -/
def compareValueWithNullOrder (a b : Value) : Ordering :=
  if a.isNull && b.isNull then .eq
  else if a.isNull then .lt
  else if b.isNull then .gt
  else a.compare b

namespace IndexKey

def compare : IndexKey → IndexKey → Ordering
  | [], [] => .eq
  | [], _ :: _ => .lt
  | _ :: _, [] => .gt
  | a :: as, b :: bs =>
    match compareValueWithNullOrder a b with
    | .eq => compare as bs
    | c => c

def startsWith : IndexKey → IndexKey → Bool
  | _, [] => true
  | [], _ :: _ => false
  | a :: as, b :: bs => compareValueWithNullOrder a b == .eq && startsWith as bs

/-- `compare_slot_key`, on the key that the slot holds: it gives up when it comes to two strings. -/
def compareSlotKey : IndexKey → IndexKey → Option Ordering
  | [], [] => some .eq
  | [], _ :: _ => some .lt
  | _ :: _, [] => some .gt
  | a :: as, b :: bs =>
    if a.typeId ≠ b.typeId then some (Ord.compare a.typeId.code b.typeId.code)
    else if a.typeId = .varchar then none
    else
      match a.compare b with
      | .eq => compareSlotKey as bs
      | c => some c

/-- How the tree compares a stored key with a search key. -/
def slotCompare (slot key : IndexKey) : Ordering :=
  (compareSlotKey slot key).getD (slot.compare key)

/-- The loop of `slot_starts_with` over the columns. -/
def slotColumnsMatch : IndexKey → IndexKey → Option Bool
  | _, [] => some true
  | [], _ :: _ => some false
  | a :: as, b :: bs =>
    if a.typeId ≠ b.typeId then some false
    else if a.typeId = .varchar then none
    else if a.compare b = .eq then slotColumnsMatch as bs
    else some false

/-- `slot_starts_with`, on the key that the slot holds; it gives up on strings as well. -/
def slotStartsWith (slot start : IndexKey) : Option Bool :=
  if slot.length < start.length then some false else slotColumnsMatch slot start

end IndexKey

/-! ## Where the two orders agree -/

lemma Value.compare_of_typeId_ne {a b : Value} (h : a.typeId ≠ b.typeId) :
    a.compare b = Ord.compare a.typeId.code b.typeId.code := if_pos h

lemma ieeeCompare_rat (p q : ℚ) :
    (FloatNum.rat p).ieeeCompare (.rat q) = if p < q then .lt else if q < p then .gt else .eq := by
  simp [FloatNum.ieeeCompare, FloatNum.less]

lemma ieeeCompare_intCast (v w : ℤ) : (FloatNum.rat v).ieeeCompare (.rat w) = Ord.compare v w := by
  rw [ieeeCompare_rat]
  rcases lt_trichotomy v w with h | rfl | h
  · rw [if_pos (Int.cast_lt.2 h), compare_lt_iff_lt.2 h]
  · rw [if_neg (lt_irrefl _), if_neg (lt_irrefl _), compare_eq_iff_eq.2 rfl]
  · rw [if_neg (not_lt.2 (Int.cast_le.2 h.le)), if_pos (Int.cast_lt.2 h), compare_gt_iff_gt.2 h]

lemma roundDouble_of_lt {v : ℤ} (h : v.natAbs < 2 ^ 53) : roundDouble v = v := by
  have hsize : v.natAbs.size - 53 = 0 := Nat.sub_eq_zero_of_le (Nat.size_le.2 h)
  have hround : roundToBits 53 v.natAbs = v.natAbs := by
    simp [roundToBits, hsize, Nat.mod_one]
  rw [roundDouble, hround]
  exact Int.sign_mul_natAbs v

end MiniDb.Sql
