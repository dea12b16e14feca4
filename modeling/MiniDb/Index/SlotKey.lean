import Mathlib.Data.Rat.Cast.Order
import Mathlib.Order.Compare
import MiniDb.Index.BPlusTree.Tree
import MiniDb.Sql.Value

/-!
# Index keys as keys of the tree

The order of the tree is that of `compare_slot_key`, and of `IndexKey::compare` where that gives up.  The two
put NULL at different ends, so that the order goes by two rules: up to the first string that two keys have in
common NULL comes last, and after it NULL comes first.  As both keys come to that point together, this is a
linear order all the same: `slotCompare_eq` gives every key a list of lists of numbers by which they compare.
-/

namespace MiniDb

open List Ordering

namespace Sql

/-! ## Ranks of values -/

def FloatNum.rank : FloatNum → List ℚ
  | negInf => [0]
  | rat q => [1, q]
  | posInf => [2]
  | nan => [3]

lemma compare_rat (p q : ℚ) : Ord.compare p q = if p < q then .lt else if q < p then .gt else .eq := by
  rcases lt_trichotomy p q with h | rfl | h
  · rw [compare_lt_iff_lt.2 h, if_pos h]
  · rw [compare_eq_iff_eq.2 rfl, if_neg (lt_irrefl _), if_neg (lt_irrefl _)]
  · rw [compare_gt_iff_gt.2 h, if_neg h.asymm, if_pos h]

lemma compare_intCast (v w : ℤ) : Ord.compare v w = Ord.compare (v : ℚ) (w : ℚ) := by
  rw [← ieeeCompare_intCast, ieeeCompare_rat, compare_rat]

lemma compare_natCast (m n : ℕ) : Ord.compare m n = Ord.compare (m : ℚ) (n : ℚ) := by
  rw [compare_rat]
  rcases lt_trichotomy m n with h | rfl | h
  · rw [compare_lt_iff_lt.2 h, if_pos (Nat.cast_lt.2 h)]
  · rw [compare_eq_iff_eq.2 rfl, if_neg (lt_irrefl _), if_neg (lt_irrefl _)]
  · rw [compare_gt_iff_gt.2 h, if_neg (Nat.cast_lt.2 h).asymm, if_pos (Nat.cast_lt.2 h)]

lemma compare_toNat (c c' : UInt8) : Ord.compare c c' = Ord.compare c.toNat c'.toNat := by
  change compareOfLessAndEq c c' = compareOfLessAndEq c.toNat c'.toNat
  simp [compareOfLessAndEq, UInt8.lt_iff_toNat_lt, ← UInt8.toNat_inj]

lemma compare_singleton (p q : ℚ) : Ord.compare [p] [q] = Ord.compare p q := by
  rw [List.compare_cons_cons, List.compare_nil_nil, then_eq]

lemma FloatNum.compare_eq (x y : FloatNum) : x.compare y = Ord.compare x.rank y.rank := by
  cases x <;> cases y <;> try rfl
  case rat.rat p q =>
    rw [FloatNum.compare, ieeeCompare_rat, FloatNum.rank, FloatNum.rank, List.compare_cons_cons, compare_singleton,
      compare_eq_iff_eq.2 rfl, eq_then, compare_rat]
    all_goals nofun

/-- The numbers by which values of one type compare. -/
def Value.payload : Value → List ℚ
  | null => []
  | bool b => [if b then 1 else 0]
  | int32 v => [(v : ℚ)]
  | int64 v => [(v : ℚ)]
  | float x => x.rank
  | double x => x.rank
  | varchar s => s.map fun c => (c.toNat : ℚ)
  | timestamp m => [(m : ℚ)]
  | datetime m => [(m : ℚ)]

open Value

def Value.rank (v : Value) : List ℚ := (v.typeId.code : ℚ) :: v.payload

lemma compare_bytes (s s' : List UInt8) :
    Ord.compare s s' = Ord.compare (s.map fun c => (c.toNat : ℚ)) (s'.map fun c => (c.toNat : ℚ)) := by
  induction s generalizing s' with
  | nil => cases s' <;> rfl
  | cons c s ih =>
    cases s' with
    | nil => rfl
    | cons c' s' =>
      rw [map_cons, map_cons, List.compare_cons_cons, List.compare_cons_cons, ih, compare_toNat, compare_natCast]

lemma Value.compare_payload {a b : Value} (h : a.typeId = b.typeId) :
    a.compare b = Ord.compare a.payload b.payload := by
  cases a <;> cases b <;> try cases h
  case null.null => rfl
  case bool.bool x y => revert x y; decide +kernel
  case int32.int32 v w => exact (compare_intCast v w).trans (compare_singleton _ _).symm
  case int64.int64 v w => exact (compare_intCast v w).trans (compare_singleton _ _).symm
  case float.float x y => exact x.compare_eq y
  case double.double x y => exact x.compare_eq y
  case varchar.varchar s s' => exact compare_bytes s s'
  case timestamp.timestamp v w => exact (compare_intCast v w).trans (compare_singleton _ _).symm
  case datetime.datetime v w => exact (compare_intCast v w).trans (compare_singleton _ _).symm

lemma Value.compare_eq (a b : Value) : a.compare b = Ord.compare a.rank b.rank := by
  rw [rank, rank, List.compare_cons_cons, ← compare_natCast]
  by_cases htype : a.typeId = b.typeId
  · rw [htype, compare_eq_iff_eq.2 rfl, eq_then, compare_payload htype]
  · have hcode : Ord.compare a.typeId.code b.typeId.code ≠ .eq :=
      fun h => htype (TypeId.code_injective (compare_eq_iff_eq.1 h))
    rw [compare_of_typeId_ne htype]
    cases hc : Ord.compare a.typeId.code b.typeId.code with
    | lt => rfl
    | eq => exact absurd hc hcode
    | gt => rfl

lemma FloatNum.rank_injective : Function.Injective FloatNum.rank := by
  intro x y h
  cases x <;> cases y <;> simp_all [FloatNum.rank]

lemma Value.rank_injective : Function.Injective rank := by
  intro a b h
  obtain ⟨hcode, hpay⟩ := cons.inj h
  have htype := TypeId.code_injective (Nat.cast_injective hcode)
  cases a <;> cases b <;> try cases htype
  case null.null => rfl
  case bool.bool x y => revert x y; decide +kernel
  case int32.int32 v w => exact congrArg int32 (Int.cast_injective (cons.inj hpay).1)
  case int64.int64 v w => exact congrArg int64 (Int.cast_injective (cons.inj hpay).1)
  case float.float x y => exact congrArg float (FloatNum.rank_injective hpay)
  case double.double x y => exact congrArg double (FloatNum.rank_injective hpay)
  case varchar.varchar s s' =>
    have hinj : Function.Injective fun c : UInt8 => (c.toNat : ℚ) :=
      fun _ _ hc => UInt8.toNat_inj.1 (Nat.cast_injective hc)
    exact congrArg varchar (hinj.list_map hpay)
  case timestamp.timestamp v w => exact congrArg timestamp (Int.cast_injective (cons.inj hpay).1)
  case datetime.datetime v w => exact congrArg datetime (Int.cast_injective (cons.inj hpay).1)

/-! ## Ranks of keys -/

/-- The rank of a value in a key; after a string NULL comes first. -/
def Value.rankIn (pastString : Bool) (v : Value) : List ℚ :=
  if pastString && v.isNull then [-1] else v.rank

/-- The rank of the rest of a key. -/
def IndexKey.rankFrom : Bool → IndexKey → List (List ℚ)
  | _, [] => []
  | pastString, v :: key =>
    v.rankIn pastString :: rankFrom (pastString || v.typeId = .varchar) key

open IndexKey

variable {v : Value} {key start a b : IndexKey}

lemma Value.rankIn_of_not_isNull (h : v.isNull = false) (pastString : Bool) : v.rankIn pastString = v.rank := by
  rw [rankIn, h, Bool.and_false]
  rfl

lemma Value.compare_null_first (v : Value) : Ord.compare [-1] v.rank = .lt := by
  rfl

lemma compareValueWithNullOrder_eq (a b : Value) :
    compareValueWithNullOrder a b = Ord.compare (a.rankIn true) (b.rankIn true) := by
  rw [compareValueWithNullOrder]
  cases ha : a.isNull <;> cases hb : b.isNull
  · rw [rankIn_of_not_isNull ha, rankIn_of_not_isNull hb, ← compare_eq]
    rfl
  · rw [rankIn_of_not_isNull ha, rankIn, hb]
    exact (Std.OrientedCmp.gt_iff_lt.2 a.compare_null_first).symm
  · rw [rankIn_of_not_isNull hb, rankIn, ha]
    exact b.compare_null_first.symm
  · rw [rankIn, rankIn, ha, hb]
    rfl

lemma IndexKey.compare_eq (a b : IndexKey) : a.compare b = Ord.compare (a.rankFrom true) (b.rankFrom true) := by
  induction a generalizing b with
  | nil => cases b <;> rfl
  | cons v a ih =>
    cases b with
    | nil => rfl
    | cons w b =>
      rw [compare, rankFrom, rankFrom, List.compare_cons_cons,
        ← compareValueWithNullOrder_eq, Bool.true_or, Bool.true_or, ← ih]
      cases compareValueWithNullOrder v w <;> rfl

lemma Value.compare_eq_eq_iff {a b : Value} : a.compare b = .eq ↔ a = b := by
  rw [compare_eq, Std.LawfulEqOrd.compare_eq_iff_eq, rank_injective.eq_iff]

/-- The columns that compare as equal are passed over. -/
lemma IndexKey.compare_cons_self (v : Value) (a b : IndexKey) : compare (v :: a) (v :: b) = a.compare b := by
  rw [compare, compareValueWithNullOrder_eq, Std.LawfulEqOrd.compare_eq_iff_eq.2 rfl]

lemma IndexKey.rankFrom_false_cons (v : Value) (a : IndexKey) :
    rankFrom false (v :: a) = v.rank :: a.rankFrom (v.typeId = .varchar) := rfl

lemma compareValueWithNullOrder_of_varchar {w : Value} (hv : v.typeId = .varchar)
    (hw : w.typeId = .varchar) : compareValueWithNullOrder v w = v.compare w := by
  have hnull : ∀ {u : Value}, u.typeId = .varchar → u.isNull = false := fun {u} hu => by
    cases u <;> first | rfl | cases hu
  rw [compareValueWithNullOrder, hnull hv, hnull hw]
  rfl

/-- Up to the first common string the keys compare by `compare_slot_key`, and from there on they
compare as they do when they are decoded. -/
lemma IndexKey.slotCompare_eq (a b : IndexKey) :
    a.slotCompare b = Ord.compare (a.rankFrom false) (b.rankFrom false) := by
  induction a generalizing b with
  | nil => cases b <;> rfl
  | cons v a ih =>
    cases b with
    | nil => rfl
    | cons w b =>
      rw [slotCompare, compareSlotKey, rankFrom_false_cons,
        rankFrom_false_cons, List.compare_cons_cons, ← Value.compare_eq]
      by_cases heq : v = w
      · subst heq
        rw [if_neg (not_not.2 rfl), compare_eq_eq_iff.2 rfl, eq_then, compare_cons_self]
        by_cases hstr : v.typeId = .varchar
        · rw [if_pos hstr, Option.getD_none, decide_eq_true hstr, compare_eq]
        · rw [if_neg hstr, decide_eq_false hstr, ← ih]
          rfl
      · have hne : v.compare w ≠ .eq := fun h => heq (compare_eq_eq_iff.1 h)
        have hthen : ∀ c, (v.compare w).then c = v.compare w := fun c => by
          cases hc : v.compare w <;> first | rfl | exact absurd hc hne
        rw [hthen]
        by_cases htype : v.typeId = w.typeId
        · rw [if_neg (not_not.2 htype)]
          by_cases hstr : v.typeId = .varchar
          · rw [if_pos hstr, Option.getD_none, compare, compareValueWithNullOrder_of_varchar hstr (htype ▸ hstr)]
            cases hc : v.compare w <;> first | rfl | exact absurd hc hne
          · rw [if_neg hstr]
            cases hc : v.compare w <;> first | rfl | exact absurd hc hne
        · rw [if_pos htype, compare_of_typeId_ne htype]
          rfl

lemma Value.rankIn_injective (pastString : Bool) : Function.Injective (rankIn pastString) := by
  intro v w h
  have hnull : ∀ u : Value, u.isNull = true → u = .null := fun u hu => eq_of_beq hu
  have hrank : ∀ u : Value, u.rank ≠ [-1] := fun u hu => by
    have hlt := u.compare_null_first
    rw [hu] at hlt
    cases hlt
  rw [rankIn, rankIn] at h
  split_ifs at h with hv hw hw
  · rw [hnull v (Bool.and_eq_true_iff.1 hv).2, hnull w (Bool.and_eq_true_iff.1 hw).2]
  · exact absurd h.symm (hrank w)
  · exact absurd h (hrank v)
  · exact rank_injective h

lemma IndexKey.rankFrom_injective (pastString : Bool) : Function.Injective (rankFrom pastString) := by
  intro a
  induction a generalizing pastString with
  | nil =>
    intro b h
    cases b with
    | nil => rfl
    | cons w b => cases h
  | cons v a ih =>
    intro b h
    cases b with
    | nil => cases h
    | cons w b =>
      obtain ⟨hhead, htail⟩ := cons.inj h
      obtain rfl := rankIn_injective pastString hhead
      rw [ih _ htail]

lemma compareValueWithNullOrder_eq_eq_iff {a b : Value} : compareValueWithNullOrder a b = .eq ↔ a = b := by
  rw [compareValueWithNullOrder_eq, Std.LawfulEqOrd.compare_eq_iff_eq, (rankIn_injective true).eq_iff]

lemma IndexKey.startsWith_iff : key.startsWith start = true ↔ start <+: key := by
  induction start generalizing key with
  | nil => cases key <;> simp [startsWith]
  | cons w start ih =>
    cases key with
    | nil => simp [startsWith]
    | cons v key =>
      simp only [startsWith, Bool.and_eq_true, beq_iff_eq, cons_prefix_cons, ih, compareValueWithNullOrder_eq_eq_iff]
      rw [eq_comm]

lemma IndexKey.slotCompare_eq_eq_iff : a.slotCompare b = .eq ↔ a = b := by
  rw [slotCompare_eq, Std.LawfulEqOrd.compare_eq_iff_eq, (rankFrom_injective false).eq_iff]

lemma IndexKey.compare_eq_eq_iff : a.compare b = .eq ↔ a = b := by
  rw [compare_eq, Std.LawfulEqOrd.compare_eq_iff_eq, (rankFrom_injective true).eq_iff]

lemma IndexKey.slotCompare_swap (a b : IndexKey) : b.slotCompare a = (a.slotCompare b).swap := by
  rw [slotCompare_eq, slotCompare_eq]
  exact Std.OrientedCmp.eq_swap

lemma IndexKey.slotCompare_trans {c : IndexKey} (hab : a.slotCompare b ≠ .gt)
    (hbc : b.slotCompare c ≠ .gt) : a.slotCompare c ≠ .gt := by
  rw [slotCompare_eq] at hab hbc ⊢
  exact isLE_iff_ne_gt.1
    (Std.TransCmp.isLE_trans (isLE_iff_ne_gt.2 hab) (isLE_iff_ne_gt.2 hbc))

lemma IndexKey.slotCompare_lt_iff (a b : IndexKey) :
    a.slotCompare b = .lt ↔ a.slotCompare b ≠ .gt ∧ ¬ b.slotCompare a ≠ .gt := by
  rw [slotCompare_swap a b]
  cases a.slotCompare b <;> simp

lemma IndexKey.slotCompare_antisymm (hab : a.slotCompare b ≠ .gt) (hba : b.slotCompare a ≠ .gt) : a = b := by
  rw [slotCompare_swap a b] at hba
  refine slotCompare_eq_eq_iff.1 ?_
  cases hc : a.slotCompare b with
  | lt => exact absurd (congrArg Ordering.swap hc) hba
  | eq => rfl
  | gt => exact absurd hc hab

lemma IndexKey.slotCompare_total (a b : IndexKey) : a.slotCompare b ≠ .gt ∨ b.slotCompare a ≠ .gt := by
  rw [slotCompare_swap a b]
  cases a.slotCompare b <;> simp

lemma IndexKey.slotCompare_refl (a : IndexKey) : a.slotCompare a ≠ .gt := by
  rw [slotCompare_eq_eq_iff.2 rfl]
  nofun

lemma IndexKey.rankFrom_of_no_null (h : key.any isNull = false)
    (pastString : Bool) : key.rankFrom pastString = key.rankFrom false := by
  have hrank : ∀ p q, key.rankFrom p = key.rankFrom q := by
    induction key with
    | nil => exact fun _ _ => rfl
    | cons v key ih =>
      rw [any_cons, Bool.or_eq_false_iff] at h
      intro p q
      rw [rankFrom, rankFrom, rankIn_of_not_isNull h.1, rankIn_of_not_isNull h.1, ih h.2]
  exact hrank _ _

lemma IndexKey.slotCompare_eq_compare (ha : a.any isNull = false)
    (hb : b.any isNull = false) : a.slotCompare b = a.compare b := by
  rw [compare_eq, rankFrom_of_no_null ha, rankFrom_of_no_null hb, ← slotCompare_eq]

lemma IndexKey.slotCompare_of_startsWith (h : key.startsWith start = true) : start.slotCompare key ≠ .gt := by
  rw [startsWith_iff] at h
  rw [slotCompare_eq]
  generalize false = b
  induction start generalizing key b with
  | nil => cases key <;> exact nofun
  | cons v start ih =>
    obtain ⟨w, key, rfl⟩ := exists_cons_of_ne_nil (List.IsPrefix.ne_nil h (by simp))
    obtain ⟨rfl, h'⟩ := cons_prefix_cons.1 h
    rw [rankFrom, rankFrom, List.compare_cons_cons, Std.LawfulEqOrd.compare_eq_iff_eq.2 rfl, eq_then]
    exact ih h' _

/-- Between a key and one that starts with it there are only keys that start with it. -/
lemma IndexKey.startsWith_of_between {key' : IndexKey}
    (hle : start.slotCompare key ≠ .gt) (hle' : key.slotCompare key' ≠ .gt)
    (h : key'.startsWith start = true) : key.startsWith start = true := by
  rw [startsWith_iff] at h ⊢
  rw [slotCompare_eq] at hle hle'
  generalize false = b at hle hle'
  induction start generalizing key key' b with
  | nil => exact nil_prefix
  | cons v start ih =>
    obtain ⟨w, key', rfl⟩ := exists_cons_of_ne_nil (List.IsPrefix.ne_nil h (by simp))
    obtain ⟨rfl, h'⟩ := cons_prefix_cons.1 h
    cases key with
    | nil => exact absurd rfl hle
    | cons u key =>
      rw [rankFrom, rankFrom, List.compare_cons_cons] at hle hle'
      have hfirst : Ord.compare (v.rankIn b) (u.rankIn b) = .eq := by
        have hswap : Ord.compare (u.rankIn b) (v.rankIn b) =
          (Ord.compare (v.rankIn b) (u.rankIn b)).swap := Std.OrientedCmp.eq_swap
        cases hc : Ord.compare (v.rankIn b) (u.rankIn b) with
        | eq => rfl
        | gt => exact absurd (by rw [hc]; rfl) hle
        | lt => exact absurd (by rw [hswap, hc]; rfl) hle'
      obtain rfl := rankIn_injective b (Std.LawfulEqOrd.compare_eq_iff_eq.1 hfirst)
      rw [hfirst, eq_then] at hle hle'
      exact cons_prefix_cons.2 ⟨rfl, ih h' _ hle hle'⟩

end Sql

open Sql

/-! ## The order of the tree -/

/-- A key of an index, in the order of the tree. -/
def SlotKey : Type := IndexKey

namespace SlotKey

instance : DecidableEq SlotKey := inferInstanceAs (DecidableEq (List Value))

instance : LinearOrder SlotKey where
  le a b := IndexKey.slotCompare a b ≠ .gt
  lt a b := IndexKey.slotCompare a b = .lt
  le_refl a := IndexKey.slotCompare_refl a
  le_trans _ _ _ := IndexKey.slotCompare_trans
  lt_iff_le_not_ge a b := IndexKey.slotCompare_lt_iff a b
  le_antisymm _ _ := IndexKey.slotCompare_antisymm
  le_total a b := IndexKey.slotCompare_total a b
  toDecidableLE := fun a b => inferInstanceAs (Decidable (IndexKey.slotCompare a b ≠ .gt))
  toDecidableEq := inferInstance
  toDecidableLT := fun a b => inferInstanceAs (Decidable (IndexKey.slotCompare a b = .lt))

/-- The bytes of a value in an encoded key, the type byte apart. -/
def payloadSize : Value → ℕ
  | .null => 0
  | .bool _ => 1
  | .int32 _ => 4
  | .int64 _ => 8
  | .float _ => 4
  | .double _ => 8
  | .varchar s => 2 + s.length
  | .timestamp _ => 8
  | .datetime _ => 8

def encodedSize (key : SlotKey) : ℕ := 6 + (List.map (fun v => 1 + payloadSize v) key).sum

instance : TreeKey SlotKey where
  fits key := encodedSize key ≤ 128 && List.length key ≤ 255
  isEmpty key := List.isEmpty key
  hasNull key := List.any key Value.isNull
  decodedCompare a b := IndexKey.compare a b
  decodedCompare_eq_iff _ _ := IndexKey.compare_eq_eq_iff

lemma le_of_decodedCompare {a b : SlotKey} (ha : TreeKey.hasNull a = false)
    (hb : TreeKey.hasNull b = false) (h : TreeKey.decodedCompare a b ≠ .gt) : a ≤ b :=
  fun hgt => h ((IndexKey.slotCompare_eq_compare ha hb).symm.trans hgt)

/-! ## Keys that start with a key -/

def width (key : SlotKey) : ℕ := List.length key

def startsWith (key start : SlotKey) : Bool := IndexKey.startsWith key start

variable {key start : SlotKey}

lemma startsWith_iff_eq (h : key.width ≤ start.width) : key.startsWith start = true ↔ key = start :=
  IndexKey.startsWith_iff.trans ⟨fun hpre => (hpre.eq_of_length_le h).symm, fun heq => heq ▸ prefix_refl _⟩

lemma le_of_startsWith (h : key.startsWith start = true) : start ≤ key :=
  IndexKey.slotCompare_of_startsWith h

lemma startsWith_of_between {key' : SlotKey} (hle : start ≤ key) (hle' : key ≤ key')
    (h : key'.startsWith start = true) : key.startsWith start = true :=
  IndexKey.startsWith_of_between hle hle' h

end SlotKey

end MiniDb
