import MiniDb.Sql.IntegerArith
import Mathlib.Data.List.TakeWhile

/-!
# Casting a string to an integer

`cast_to` hands a string, up to its first NUL byte, to `strtol` or `strtoll` and gives NULL if that does not read the
text to its end.  White space in front is skipped, and a number that does not fit becomes the nearest BIGINT, which is
only noticed if it is not an INT when an INT is asked for.  `castTo_eq_exactCast_iff`: nothing else is wrong.
-/

namespace MiniDb.Sql

open List IntValue

/-- `isspace` of the C locale. -/
def isSpace (c : UInt8) : Bool := c = 32 ∨ 9 ≤ c ∧ c ≤ 13

def isDigit (c : UInt8) : Bool := 48 ≤ c ∧ c ≤ 57

def digitsValue (ds : List UInt8) : ℕ := ds.foldl (fun n c => 10 * n + (c.toNat - 48)) 0

/-- The sign `-` or `+` that a text may start with, and the rest. -/
def readSign : List UInt8 → ℤ × List UInt8
  | 45 :: s => (-1, s)
  | 43 :: s => (1, s)
  | s => (1, s)

/-- The integer that a text denotes if it consists of digits, with or without a sign. -/
def decimal (s : List UInt8) : Option ℤ :=
  let x := readSign s
  if x.2 ≠ [] ∧ x.2.all isDigit then some (x.1 * digitsValue x.2) else none

/-- The nearest number of 64 bits. -/
def saturate (n : ℤ) : ℤ := max (-2 ^ 63) (min n (2 ^ 63 - 1))

/-- `strtol` and `strtoll`: the number and the text from `end` on, which is the whole text if there is no number. -/
def strtol (s : List UInt8) : Option (ℤ × List UInt8) :=
  let x := readSign (s.dropWhile isSpace)
  let ds := x.2.takeWhile isDigit
  if ds = [] then none else some (saturate (x.1 * digitsValue ds), x.2.dropWhile isDigit)

/-- `c_str`: the string as C reads it. -/
def cStr (s : List UInt8) : List UInt8 := s.takeWhile (· ≠ 0)

/-- `cast_to` from a string to BIGINT, if `wide`, or to INT. -/
def castTo (wide : Bool) (s : List UInt8) : ArithResult :=
  match strtol (cStr s) with
  | some (v, []) => if wide then .value (ofInt true v) else checked false v
  | _ => .null

/-- The integer that the string denotes if it is one that fits, and NULL otherwise. -/
def exactCast (wide : Bool) (s : List UInt8) : ArithResult := (decimal s).elim .null (checked wide)

/-- What is left of a string for `strtol` to read as a number. -/
def numeral (s : List UInt8) : List UInt8 := (cStr s).dropWhile isSpace

variable {s : List UInt8} {n : ℤ} {wide : Bool}

lemma saturate_of_inRange (h : InRange true n) : saturate n = n := by
  simp only [InRange, if_true] at h
  unfold saturate
  omega

lemma not_inRange_saturate (h : ¬ InRange false n) : ¬ InRange false (saturate n) := by
  simp only [InRange, if_false, Bool.false_eq_true] at h ⊢
  unfold saturate
  omega

lemma castTo_eq (wide : Bool) (s : List UInt8) : castTo wide s = (decimal (numeral s)).elim .null fun n =>
      if wide then .value (ofInt true (saturate n)) else checked false (saturate n) := by
  rw [castTo, strtol, decimal, numeral]
  generalize readSign ((cStr s).dropWhile isSpace) = x
  by_cases hall : ∀ c ∈ x.2, isDigit c
  · rw [takeWhile_eq_self_iff.2 hall, dropWhile_eq_nil_iff.2 hall]
    by_cases hnil : x.2 = []
    · simp [hnil]
    · rw [if_neg hnil, if_pos ⟨hnil, all_eq_true.2 hall⟩]
      rfl
  · obtain ⟨c, rest, hrest⟩ := exists_cons_of_ne_nil (mt dropWhile_eq_nil_iff.1 hall)
    rw [hrest, if_neg (c := _ ∧ _) fun h => hall (all_eq_true.1 h.2)]
    by_cases hnil : x.2.takeWhile isDigit = []
    · rw [if_pos hnil]
      rfl
    · rw [if_neg hnil]
      rfl

lemma mem_readSign {c : UInt8} (hc : c ∈ s) : c = 45 ∨ c = 43 ∨ c ∈ (readSign s).2 := by
  unfold readSign
  split
  · obtain rfl | hc := mem_cons.1 hc
    · exact .inl rfl
    · exact .inr (.inr hc)
  · exact .inr (mem_cons.1 hc)
  · exact .inr (.inr hc)

/-- A decimal integer has no byte that `strtol` would pass over. -/
lemma numeral_of_decimal (h : decimal s = some n) : numeral s = s := by
  have hchars : ∀ c ∈ s, c = 45 ∨ c = 43 ∨ isDigit c := by
    intro c hc
    rw [decimal] at h
    split_ifs at h with hdigits
    exact (mem_readSign hc).imp id (.imp id (all_eq_true.1 hdigits.2 c))
  have hchar : ∀ c ∈ s, c ≠ 0 ∧ ¬ isSpace c := by
    intro c hc
    have := hchars c hc
    simp only [isDigit, isSpace, decide_eq_true_eq] at this ⊢
    grind
  rw [numeral, cStr, takeWhile_eq_self_iff.2 (by simpa using fun c hc => (hchar c hc).1), dropWhile_eq_self_iff]
  exact fun hlt => (hchar _ (getElem_mem hlt)).2

lemma decimal_eq (s : List UInt8) : decimal s = if numeral s = s then decimal (numeral s) else none := by
  split_ifs with heq
  · rw [heq]
  · cases hs : decimal s with
    | none => rfl
    | some n => exact absurd (numeral_of_decimal hs) heq

/-- **The cast is exact or NULL** unless `strtol` reads a number that the string is not, or one too great for BIGINT. -/
theorem castTo_eq_exactCast_iff (wide : Bool) (s : List UInt8) :
    castTo wide s = exactCast wide s ↔
      ∀ n, decimal (numeral s) = some n → if InRange wide n then numeral s = s else wide = false := by
  rw [castTo_eq, exactCast, decimal_eq s]
  cases hw : decimal (numeral s) with
  | none => simp
  | some n =>
    by_cases hfits : InRange wide n
    · have hsat : saturate n = n := saturate_of_inRange (by
        cases wide with
        | true => exact hfits
        | false => exact hfits.widen)
      cases wide <;> by_cases heq : numeral s = s <;> simp [hsat, hfits, heq, checked]
    · cases wide with
      | true => by_cases heq : numeral s = s <;> simp [hfits, heq, checked]
      | false => by_cases heq : numeral s = s <;> simp [hfits, heq, checked, not_inRange_saturate hfits]

/-- 2^63, which is no BIGINT, becomes 2^63 - 1. -/
theorem not_castTo_saturated :
    ¬ castTo true [57, 50, 50, 51, 51, 55, 50, 48, 51, 54, 56, 53, 52, 55, 55, 53, 56, 48, 56] =
      exactCast true [57, 50, 50, 51, 51, 55, 50, 48, 51, 54, 56, 53, 52, 55, 55, 53, 56, 48, 56] := by
  intro h
  have hcast : castTo true [57, 50, 50, 51, 51, 55, 50, 48, 51, 54, 56, 53, 52, 55, 55, 53, 56, 48, 56] =
      .value (ofInt true (2 ^ 63 - 1)) := rfl
  have hnull : exactCast true [57, 50, 50, 51, 51, 55, 50, 48, 51, 54, 56, 53, 52, 55, 55, 53, 56, 48, 56] = .null := rfl
  cases hcast.symm.trans (h.trans hnull)

end MiniDb.Sql
