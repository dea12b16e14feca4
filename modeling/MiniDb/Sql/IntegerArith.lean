import MiniDb.Sql.Expression
import MiniDb.Sql.IntegerCompare

/-!
# Integer arithmetic

The operators of `Value` take two INTs to an INT and anything with a BIGINT to a BIGINT, and give NULL if the result
does not fit.  `%` is different: it wants two operands of one type and gives NULL otherwise, and it does not look out
for the least number with divisor -1, where `%` of C++ is undefined.  `arithmetic_eq_exactOrNull_iff`: nothing else is
wrong.
-/

namespace MiniDb.Sql

/-- The mathematical result, if there is one. -/
def ArithOp.exact : ArithOp → ℤ → ℤ → Option ℤ
  | add, a, b => some (a + b)
  | sub, a, b => some (a - b)
  | mul, a, b => some (a * b)
  | div, a, b => if b = 0 then none else some (a.tdiv b)
  | mod, a, b => if b = 0 then none else some (a.tmod b)

/-- What an operator returns, unless its behaviour is undefined. -/
inductive ArithResult where
  | undefined
  | null
  | value (v : IntValue)

/-- The numbers of a BIGINT, if `wide`, or of an INT. -/
def InRange (wide : Bool) (n : ℤ) : Prop :=
  -2 ^ (if wide then 63 else 31) ≤ n ∧ n < 2 ^ (if wide then 63 else 31)

instance (wide : Bool) (n : ℤ) : Decidable (InRange wide n) := inferInstanceAs (Decidable (_ ∧ _))

variable {wide : Bool} {a b n : ℤ}

lemma InRange.widen (h : InRange false n) : InRange wide n := by
  cases wide with
  | false => exact h
  | true =>
    simp only [InRange, if_true, if_false, Bool.false_eq_true] at h ⊢
    omega

lemma InRange.of_natAbs_lt (h : InRange wide a) (hlt : n.natAbs < a.natAbs) : InRange wide n := by
  cases wide <;> simp only [InRange, if_true, if_false, Bool.false_eq_true] at h ⊢ <;> omega

namespace IntValue

/-- `promote`: whether the result is a BIGINT. -/
def promote : IntValue → IntValue → Bool
  | bigint _, _ => true
  | _, bigint _ => true
  | _, _ => false

def ofInt (wide : Bool) (n : ℤ) : IntValue := if wide then .bigint (.ofInt n) else .int (.ofInt n)

/-- A result that is checked: the BIGINT case is `__builtin_add_overflow` and the like. -/
def checked (wide : Bool) (n : ℤ) : ArithResult := if InRange wide n then .value (ofInt wide n) else .null

/-- `+`, `-` and `*`.  The INT case computes in 64 bits, where an overflow is undefined, and checks the result. -/
def addLike (f : ℤ → ℤ → ℤ) (x y : IntValue) : ArithResult :=
  let n := f x.toInt y.toInt
  if promote x y then checked true n else if InRange true n then checked false n else .undefined

/-- The one division that overflows. -/
def Overflows (wide : Bool) (a b : ℤ) : Prop := a = -2 ^ (if wide then 63 else 31) ∧ b = -1

instance (wide : Bool) (a b : ℤ) : Decidable (Overflows wide a b) := inferInstanceAs (Decidable (_ ∧ _))

/-- `/`. -/
def divide (x y : IntValue) : ArithResult :=
  if y.toInt = 0 then .null
  else if Overflows (promote x y) x.toInt y.toInt then .null
  else .value (ofInt (promote x y) (x.toInt.tdiv y.toInt))

/-- `%` of two operands of one type. -/
def modulusOf (wide : Bool) (a b : ℤ) : ArithResult :=
  if b = 0 then .null else if Overflows wide a b then .undefined else .value (ofInt wide (a.tmod b))

/-- `%`. -/
def modulus : IntValue → IntValue → ArithResult
  | int a, int b => modulusOf false a.toInt b.toInt
  | bigint a, bigint b => modulusOf true a.toInt b.toInt
  | _, _ => .null

def arithmetic : ArithOp → IntValue → IntValue → ArithResult
  | .add => addLike (· + ·)
  | .sub => addLike (· - ·)
  | .mul => addLike (· * ·)
  | .div => divide
  | .mod => modulus

/-- The exact result if it fits, and NULL otherwise. -/
def exactOrNull (op : ArithOp) (x y : IntValue) : ArithResult :=
  (op.exact x.toInt y.toInt).elim .null (checked (promote x y))

/-- Operands of one type, INT or BIGINT, that `%` can divide. -/
def ModOk : IntValue → IntValue → Prop
  | int a, int b => ¬ Overflows false a.toInt b.toInt
  | bigint a, bigint b => ¬ Overflows true a.toInt b.toInt
  | _, _ => False

variable {x y : IntValue}

lemma inRange_toInt (hwide : wide = false → ∀ v, x ≠ .bigint v) : InRange wide x.toInt := by
  cases x with
  | bool b => cases b <;> cases wide <;> decide
  | int v => exact InRange.widen ⟨v.le_toInt, v.toInt_lt⟩
  | bigint v =>
    cases wide with
    | false => exact absurd rfl (hwide rfl v)
    | true => exact ⟨v.le_toInt, v.toInt_lt⟩

lemma inRange_left (x y : IntValue) : InRange (promote x y) x.toInt :=
  inRange_toInt fun h v hx => by subst hx; cases h

lemma inRange_right (x y : IntValue) : InRange (promote x y) y.toInt :=
  inRange_toInt fun h v hy => by subst hy; cases x <;> cases h

lemma toInt_ofInt (h : InRange wide n) : (ofInt wide n).toInt = n := by
  cases wide with
  | false => exact Int32.toInt_ofInt_of_le h.1 h.2
  | true => exact Int64.toInt_ofInt_of_le h.1 h.2

lemma inRange_tdiv (ha : InRange wide a) (hb : b ≠ 0) (hover : ¬ Overflows wide a b) :
    InRange wide (a.tdiv b) := by
  by_cases ha0 : a = 0
  · rwa [ha0, Int.zero_tdiv, ← ha0]
  by_cases h1 : b = 1
  · rwa [h1, Int.tdiv_one]
  by_cases h2 : b = -1
  · rw [h2, Int.tdiv_neg, Int.tdiv_one]
    cases wide <;> simp only [InRange, Overflows, if_true, if_false, Bool.false_eq_true] at * <;> omega
  · refine ha.of_natAbs_lt ?_
    rw [Int.natAbs_tdiv]
    exact Nat.div_lt_self (Int.natAbs_pos.2 ha0) (by omega)

lemma inRange_tmod (hb : InRange wide b) (h0 : b ≠ 0) : InRange wide (a.tmod b) := by
  refine hb.of_natAbs_lt ?_
  rw [Int.natAbs_tmod]
  exact Nat.mod_lt _ (Int.natAbs_pos.2 h0)

lemma addLike_eq {f : ℤ → ℤ → ℤ} (hf : ∀ a b, InRange false a → InRange false b → InRange true (f a b)) :
    addLike f x y = checked (promote x y) (f x.toInt y.toInt) := by
  have hx := inRange_left x y
  have hy := inRange_right x y
  rw [addLike]
  cases hp : promote x y with
  | true => rfl
  | false =>
    rw [hp] at hx hy
    simp [hf _ _ hx hy]

lemma divide_eq : divide x y = exactOrNull .div x y := by
  rw [divide, exactOrNull, ArithOp.exact]
  split_ifs with h0 hover
  · rfl
  · rw [Option.elim_some, checked, if_neg]
    rw [hover.1, hover.2, Int.tdiv_neg, Int.tdiv_one]
    cases promote x y <;> decide
  · rw [Option.elim_some, checked, if_pos (inRange_tdiv (inRange_left x y) h0 hover)]

lemma modulusOf_eq_iff (hb : InRange wide b) :
    modulusOf wide a b = (if b = 0 then none else some (a.tmod b)).elim .null (checked wide) ↔
      b = 0 ∨ ¬ Overflows wide a b := by
  rw [modulusOf]
  split_ifs with h0 hover
  · simp [h0]
  · simp [checked, inRange_tmod hb h0, h0, hover]
  · simp [checked, inRange_tmod hb h0, hover]

lemma modulus_eq_iff : modulus x y = exactOrNull .mod x y ↔ y.toInt = 0 ∨ ModOk x y := by
  have hy := inRange_right x y
  have hnull : ArithResult.null = exactOrNull .mod x y ↔ y.toInt = 0 := by
    rw [exactOrNull, ArithOp.exact]
    split_ifs with h0
    · simp [h0]
    · simp [checked, inRange_tmod hy h0, h0]
  cases x with
  | bool _ => cases y <;> simpa [modulus, ModOk] using hnull
  | int a =>
    cases y with
    | int b => exact modulusOf_eq_iff hy
    | bool _ | bigint _ => simpa [modulus, ModOk] using hnull
  | bigint a =>
    cases y with
    | bigint b => exact modulusOf_eq_iff hy
    | bool _ | int _ => simpa [modulus, ModOk] using hnull

/-- **Integer arithmetic** is exact or NULL, but for `%` of operands of two types and of the least number by -1. -/
theorem arithmetic_eq_exactOrNull_iff (op : ArithOp) (x y : IntValue) :
    arithmetic op x y = exactOrNull op x y ↔ (op = .mod → y.toInt = 0 ∨ ModOk x y) := by
  cases op with
  | add => exact iff_of_true (addLike_eq fun a b ha hb => by simp [InRange] at *; omega) (by simp)
  | sub => exact iff_of_true (addLike_eq fun a b ha hb => by simp [InRange] at *; omega) (by simp)
  | mul =>
    refine iff_of_true (addLike_eq fun a b ha hb => ?_) (by simp)
    have hprod : (a * b).natAbs ≤ 2 ^ 31 * 2 ^ 31 := by
      rw [Int.natAbs_mul]
      simp only [InRange] at ha hb
      exact Nat.mul_le_mul (by simp at ha; omega) (by simp at hb; omega)
    simp [InRange]
    omega
  | div => exact iff_of_true divide_eq (by simp)
  | mod => simpa [arithmetic] using modulus_eq_iff

/-- `5 % 3` with a BIGINT 3 is NULL. -/
theorem arithmetic_mod_mixed : ¬ arithmetic .mod (.int 5) (.bigint 3) = exactOrNull .mod (.int 5) (.bigint 3) := by
  rw [arithmetic, modulus_eq_iff]
  rintro (h | h)
  · exact absurd h (by decide)
  · exact h

end IntValue

end MiniDb.Sql
