import MiniDb.Sql.CastInteger
import MiniDb.Index.SlotKey

/-!
# Grouping keys

`make_tuple_key` writes the columns of a row one after the other: the type, the length of the text, and the text, each
behind a mark.  The lengths tell where a text ends, whatever bytes it has: `makeTupleKey_eq_iff`.

The texts of floating-point numbers are a parameter.
-/

namespace MiniDb.Sql

open List

/-- `String(u64)`: the digits from the last to the first, turned around. -/
def decimalText (n : ℕ) : List UInt8 :=
  if n = 0 then [48] else ((Nat.digits 10 n).map fun d => .ofNat (48 + d)).reverse

/-- `%d` and `%lld`. -/
def signedText (v : ℤ) : List UInt8 :=
  if v < 0 then 45 :: decimalText v.natAbs else decimalText v.natAbs

section

variable (floatText : Value → List UInt8)

def keyText : Value → List UInt8
  | .null => [78, 85, 76, 76]
  | .bool b => if b then [49] else [48]
  | .int32 v | .int64 v | .timestamp v | .datetime v => signedText v
  | .varchar s => s
  | v => floatText v

def encodeValueKey (v : Value) : List UInt8 :=
  decimalText v.typeId.code ++ 58 ::
    if v.isNull then [78, 85, 76, 76, 59]
    else decimalText (keyText floatText v).length ++ 35 :: (keyText floatText v ++ [59])

def makeTupleKey (row : List Value) : List UInt8 :=
  decimalText row.length ++ 124 :: row.flatMap (encodeValueKey floatText)

end

/-! ## Numbers -/

variable {m n : ℕ}

lemma isDigit_of_mem_decimalText {c : UInt8} (hc : c ∈ decimalText n) : isDigit c = true := by
  rw [decimalText] at hc
  split_ifs at hc with hn
  · obtain rfl := mem_singleton.1 hc
    rfl
  · obtain ⟨d, hd, rfl⟩ := mem_map.1 (mem_reverse.1 hc)
    have hlt := Nat.digits_lt_base (by decide) hd
    interval_cases d <;> rfl

lemma digitsValue_decimalText (n : ℕ) : digitsValue (decimalText n) = n := by
  rw [decimalText]
  split_ifs with hn
  · exact hn.symm
  · have hdigit : ∀ d ∈ Nat.digits 10 n, (UInt8.ofNat (48 + d)).toNat - 48 = d := by
      intro d hd
      have hlt := Nat.digits_lt_base (by decide) hd
      interval_cases d <;> rfl
    conv_rhs => rw [← Nat.ofDigits_digits 10 n, Nat.ofDigits_eq_foldr]
    rw [digitsValue, foldl_reverse, foldr_map]
    refine foldr_ext _ _ _ fun d hd k => ?_
    rw [hdigit d hd, Nat.add_comm]
    rfl

lemma decimalText_injective (h : decimalText m = decimalText n) : m = n := by
  rw [← digitsValue_decimalText m, h, digitsValue_decimalText]

/-- A number ends at the first byte that is no digit. -/
lemma decimalText_append_inj {c : UInt8} (hc : isDigit c = false) {s t : List UInt8}
    (h : decimalText m ++ c :: s = decimalText n ++ c :: t) : m = n ∧ s = t := by
  have hmunch : ∀ k rest, (decimalText k ++ c :: rest).takeWhile isDigit = decimalText k := fun k rest => by
    rw [takeWhile_append_of_pos fun _ => isDigit_of_mem_decimalText, takeWhile_cons_of_neg (by simp [hc]), append_nil]
  have heq : decimalText m = decimalText n := by rw [← hmunch m s, h, hmunch]
  rw [heq] at h
  exact ⟨decimalText_injective heq, (cons.inj (append_cancel_left h)).2⟩

lemma signedText_injective {v w : ℤ} (h : signedText v = signedText w) : v = w := by
  have hsign : ∀ {n rest}, 45 :: rest ≠ decimalText n := fun h => by
    have := isDigit_of_mem_decimalText (h ▸ mem_cons_self)
    cases this
  rw [signedText, signedText] at h
  split_ifs at h with hv hw hw
  · have := decimalText_injective (cons.inj h).2
    omega
  · exact absurd h hsign
  · exact absurd h.symm hsign
  · have := decimalText_injective h
    omega

/-! ## Rows -/

def Value.NotFloat (v : Value) : Prop := v.typeId ≠ .float ∧ v.typeId ≠ .double

section

variable {floatText : Value → List UInt8} {v w : Value} (hv : v.NotFloat)
include hv

lemma eq_of_keyText (htype : v.typeId = w.typeId) (h : keyText floatText v = keyText floatText w) : v = w := by
  cases v <;> cases w <;> try cases htype
  case null => rfl
  case bool a b => cases a <;> cases b <;> first | rfl | cases h
  case varchar => exact congrArg _ h
  case float | double => simp [Value.NotFloat, Value.typeId] at hv
  all_goals exact congrArg _ (signedText_injective h)

/-- A value is read off the start of what follows. -/
lemma encodeValueKey_append_inj {s t : List UInt8}
    (h : encodeValueKey floatText v ++ s = encodeValueKey floatText w ++ t) : v = w ∧ s = t := by
  rw [encodeValueKey, encodeValueKey, append_assoc, append_assoc, cons_append, cons_append] at h
  obtain ⟨hcode, h⟩ := decimalText_append_inj rfl h
  have htype := TypeId.code_injective hcode
  have hnull : v.isNull = w.isNull := by
    cases v <;> cases w <;> first | rfl | cases htype
  rw [hnull] at h
  split_ifs at h with hw
  · have hvw : v = w := (beq_iff_eq.1 (hnull.trans hw)).trans (beq_iff_eq.1 hw).symm
    exact ⟨hvw, append_cancel_left h⟩
  · rw [append_assoc, append_assoc, cons_append, cons_append, append_assoc, append_assoc] at h
    obtain ⟨hlen, h⟩ := decimalText_append_inj rfl h
    obtain ⟨htext, h⟩ := append_inj h hlen
    exact ⟨eq_of_keyText hv htype htext, (cons.inj h).2⟩

end

/-- **Rows have the same key only if they are the same.** -/
theorem makeTupleKey_eq_iff (floatText : Value → List UInt8) {a b : List Value} (ha : ∀ v ∈ a, v.NotFloat) :
    makeTupleKey floatText a = makeTupleKey floatText b ↔ a = b := by
  refine ⟨fun h => ?_, congrArg _⟩
  obtain ⟨hlen, hcolumns⟩ := decimalText_append_inj rfl h
  clear h
  induction a generalizing b with
  | nil => exact (length_eq_zero_iff.1 hlen.symm).symm
  | cons v a ih =>
    cases b with
    | nil => cases hlen
    | cons w b =>
      obtain ⟨rfl, hrest⟩ := encodeValueKey_append_inj (ha v mem_cons_self) hcolumns
      rw [ih (fun u hu => ha u (mem_cons_of_mem v hu)) (Nat.succ.inj hlen) hrest]

/-- A string that looks like the end of its column and the start of the next. -/
theorem makeTupleKey_ne_of_mark : makeTupleKey (fun _ => []) [.varchar [59, 53, 58], .varchar []] ≠
    makeTupleKey (fun _ => []) [.varchar [], .varchar [59, 53, 58]] := fun h => by
  refine absurd ((makeTupleKey_eq_iff (fun _ => []) ?_).1 h) (by decide)
  simp [Value.NotFloat, Value.typeId]

end MiniDb.Sql
