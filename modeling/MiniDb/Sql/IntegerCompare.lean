import MiniDb.Sql.Value
import Mathlib.Tactic

/-!
# Comparing integers

Numbers of all types are compared as doubles, the integers too.  Rounding to a double keeps the order but
not the difference: two integers are compared right if they are equal or do not become the same double
(`comparesExactly_iff`), which 2^53 and 2^53 + 1 do.
-/

namespace MiniDb.Sql

/-! ## Rounding -/

/-- The distance of the numbers with at most `bits` significant bits around `n`. -/
def roundUnit (bits n : ℕ) : ℕ := 2 ^ (n.size - bits)

variable {bits n m k : ℕ}

lemma roundUnit_pos : 0 < roundUnit bits n := Nat.two_pow_pos _

lemma le_roundToBits (hk : roundUnit bits n ∣ k) (hle : k ≤ n) : k ≤ roundToBits bits n := by
  obtain ⟨j, rfl⟩ := hk
  have hj : j ≤ n / roundUnit bits n := (Nat.le_div_iff_mul_le roundUnit_pos).2 (by rwa [mul_comm])
  rw [mul_comm]
  unfold roundToBits
  dsimp only
  split
  · exact Nat.mul_le_mul_right _ hj
  · exact Nat.mul_le_mul_right _ (hj.trans (Nat.le_succ _))

lemma roundToBits_le (hk : roundUnit bits n ∣ k) (hlt : n < k) : roundToBits bits n ≤ k := by
  obtain ⟨j, rfl⟩ := hk
  have hj : n / roundUnit bits n < j := Nat.div_lt_of_lt_mul hlt
  rw [mul_comm]
  unfold roundToBits
  dsimp only
  split
  · exact Nat.mul_le_mul_right _ hj.le
  · exact Nat.mul_le_mul_right _ hj

/-- Between two neighbours the number that is rounded up is the greater one. -/
lemma roundToBits_le_of_div_eq (hsize : n.size = m.size) (hle : n ≤ m)
    (hdiv : n / roundUnit bits n = m / roundUnit bits n) : roundToBits bits n ≤ roundToBits bits m := by
  have hn := Nat.div_add_mod n (roundUnit bits n)
  have hm := Nat.div_add_mod m (roundUnit bits n)
  rw [hdiv] at hn
  have hmod : n % roundUnit bits n ≤ m % roundUnit bits n := by omega
  unfold roundUnit at hdiv hmod
  unfold roundToBits
  dsimp only
  rw [← hsize, hdiv]
  split_ifs with hdown hdown' hdown'
  · exact le_rfl
  · exact Nat.mul_le_mul_right _ (Nat.le_succ _)
  · omega
  · exact le_rfl

lemma roundToBits_mono (hbits : bits ≠ 0) (hle : n ≤ m) : roundToBits bits n ≤ roundToBits bits m := by
  obtain hsize | hsize := (Nat.size_le_size hle).eq_or_lt
  · obtain hdiv | hdiv := (Nat.div_le_div_right (c := roundUnit bits n) hle).eq_or_lt
    · exact roundToBits_le_of_div_eq hsize hle hdiv
    · -- there is a number of the grid between the two
      have hunit : roundUnit bits m = roundUnit bits n := by rw [roundUnit, roundUnit, hsize]
      have hk : roundUnit bits n ∣ roundUnit bits n * (n / roundUnit bits n + 1) := Nat.dvd_mul_right _ _
      refine (roundToBits_le hk (Nat.lt_mul_div_succ n roundUnit_pos)).trans (le_roundToBits (hunit ▸ hk) ?_)
      exact (Nat.mul_le_mul_left _ hdiv).trans (Nat.mul_div_le m _)
  · -- the power of two between the two is on both grids
    have hpos : m.size ≠ 0 := by omega
    have hpow : 2 ^ (m.size - 1) ≤ m := Nat.lt_size.1 (by omega)
    calc roundToBits bits n ≤ 2 ^ n.size := roundToBits_le (Nat.pow_dvd_pow 2 (Nat.sub_le _ _)) (Nat.lt_size_self n)
      _ ≤ 2 ^ (m.size - 1) := Nat.pow_le_pow_right two_pos (by omega)
      _ ≤ roundToBits bits m := le_roundToBits (Nat.pow_dvd_pow 2 (by omega)) hpow

lemma roundDouble_natCast (n : ℕ) : roundDouble n = roundToBits 53 n := by
  cases n with
  | zero => decide
  | succ n => rw [roundDouble, Int.sign_natCast_of_ne_zero n.succ_ne_zero, one_mul, Int.natAbs_natCast]

lemma roundDouble_neg (v : ℤ) : roundDouble (-v) = -roundDouble v := by
  rw [roundDouble, roundDouble, Int.sign_neg, Int.natAbs_neg, neg_mul]

lemma roundDouble_mono : Monotone roundDouble := by
  intro a b hle
  obtain ⟨n, rfl | rfl⟩ := a.eq_nat_or_neg <;> obtain ⟨m, rfl | rfl⟩ := b.eq_nat_or_neg <;>
    simp only [roundDouble_neg, roundDouble_natCast]
  · exact Int.ofNat_le.2 (roundToBits_mono (by decide) (Int.ofNat_le.1 hle))
  · obtain ⟨rfl, rfl⟩ : n = 0 ∧ m = 0 := by omega
    decide
  · omega
  · have hmono : roundToBits 53 m ≤ roundToBits 53 n := roundToBits_mono (by decide) (by omega)
    omega

/-! ## Comparisons -/

inductive IntValue where
  | bool (b : Bool)
  | int (v : Int32)
  | bigint (v : Int64)

namespace IntValue

def toValue : IntValue → Value
  | bool b => .bool b
  | int v => .int32 v.toInt
  | bigint v => .int64 v.toInt

def toInt : IntValue → ℤ
  | bool b => if b then 1 else 0
  | int v => v.toInt
  | bigint v => v.toInt

lemma isNumericLike_toValue (x : IntValue) : x.toValue.typeId.isNumericLike = true := by
  cases x <;> rfl

lemma isDatetime_toValue (x : IntValue) : x.toValue.typeId.isDatetime = false := by
  cases x <;> rfl

lemma numericAsDouble_toValue (x : IntValue) : x.toValue.numericAsDouble = .rat (roundDouble x.toInt) := by
  cases x with
  | bool b => cases b <;> rfl
  | int v =>
    have hle := v.le_toInt
    have hlt := v.toInt_lt
    rw [toInt, roundDouble_of_lt (by omega)]
    rfl
  | bigint v => rfl

end IntValue

/-- `compare_values` and the six operators compare the integers. -/
def ComparesExactly (castTo : Value → TypeId → Value) (x y : IntValue) : Prop :=
  sqlCompareValues castTo x.toValue y.toValue = Ord.compare x.toInt y.toInt ∧
    ∀ op : CmpOp, compareResult castTo op x.toValue y.toValue = .bool (op.holds (Ord.compare x.toInt y.toInt))

variable {castTo : Value → TypeId → Value}

lemma compare_eq_compare_iff {f : ℤ → ℤ} (hf : Monotone f) (a b : ℤ) :
    Ord.compare (f a) (f b) = Ord.compare a b ↔ a = b ∨ f a ≠ f b := by
  rcases lt_trichotomy a b with h | rfl | h
  · rw [compare_lt_iff_lt.2 h, compare_lt_iff_lt, (hf h.le).lt_iff_ne]
    simp [h.ne]
  · simp
  · rw [compare_gt_iff_gt.2 h, compare_gt_iff_gt, (hf h.le).lt_iff_ne, ne_comm]
    simp [h.ne']

lemma sqlCompareValues_toValue (x y : IntValue) : sqlCompareValues castTo x.toValue y.toValue =
    Ord.compare (roundDouble x.toInt) (roundDouble y.toInt) := by
  rw [sqlCompareValues, x.isNumericLike_toValue, y.isNumericLike_toValue, Bool.and_self, if_pos rfl,
    x.numericAsDouble_toValue, y.numericAsDouble_toValue, ieeeCompare_intCast]

/-- **Integers are compared right** if they are equal or become different doubles, and only then. -/
theorem comparesExactly_iff (x y : IntValue) :
    ComparesExactly castTo x y ↔ x.toInt = y.toInt ∨ roundDouble x.toInt ≠ roundDouble y.toInt := by
  rw [← compare_eq_compare_iff roundDouble_mono, ComparesExactly, sqlCompareValues_toValue]
  refine and_iff_left_of_imp fun h op => ?_
  rw [compareResult, x.isDatetime_toValue, y.isDatetime_toValue, sqlCompareValues_toValue, h]
  rfl

/-- 2^53 = 2^53 + 1 for the evaluator. -/
theorem not_comparesExactly_bigint :
    ¬ ComparesExactly (fun _ _ => .null) (.bigint 9007199254740992) (.bigint 9007199254740993) := by
  rintro ⟨h, -⟩
  rw [sqlCompareValues_toValue] at h
  revert h
  decide +kernel

end MiniDb.Sql
