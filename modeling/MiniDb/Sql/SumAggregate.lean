import MiniDb.Sql.IntegerArith

/-!
# SUM

`SUM` adds up in a BIGINT, which becomes NULL once a partial sum does not fit and stays NULL.  `sumExact_iff` says of
which values the sum is right in every order.  `SUM(DISTINCT ..)` is left out.
-/

namespace MiniDb.Sql.IntValue

open List

variable {a : ℤ}

/-- `AggState`, as far as SUM goes. -/
structure SumState where
  hasValue : Bool
  value : ArithResult

/-- `+` of the running sum, which is NULL once it was. -/
def plus : ArithResult → IntValue → ArithResult
  | .value v, x => arithmetic .add v x
  | r, _ => r

/-- `advance_agg`, with a NULL passed over and the first value widened by `widen_int_for_sum`. -/
def advanceAgg (state : SumState) : Option IntValue → SumState
  | none => state
  | some x =>
    if state.hasValue then { state with value := plus state.value x }
    else ⟨true, .value (ofInt true x.toInt)⟩

/-- `finalize_agg` after the values in the order in which they arrive. -/
def sumAgg (values : List (Option IntValue)) : ArithResult :=
  let state := values.foldl advanceAgg ⟨false, .null⟩
  if state.hasValue then state.value else .null

def ints (values : List (Option IntValue)) : List ℤ := values.filterMap (Option.map toInt)

/-- In every order the sum is exact if it fits, and it is the same in every order.  The sum of no values is NULL. -/
def SumExact (values : List (Option IntValue)) : Prop :=
  ∀ arriving, arriving.Perm values → sumAgg arriving = sumAgg values ∧
    (ints values ≠ [] → InRange true (ints values).sum → sumAgg arriving = .value (ofInt true (ints values).sum))

/-- The running sum, from `a`. -/
def runSum (a : ℤ) : List ℤ → ArithResult
  | [] => .value (ofInt true a)
  | n :: ns => if InRange true (a + n) then runSum (a + n) ns else .null

lemma plus_value (ha : InRange true a) (x : IntValue) :
    plus (.value (ofInt true a)) x = checked true (a + x.toInt) := by
  have hwide : ∀ y, promote (ofInt true a) y = true := fun y => rfl
  rw [plus, arithmetic, addLike, hwide, toInt_ofInt ha]
  rfl

lemma foldl_advanceAgg_null (values : List (Option IntValue)) :
    values.foldl advanceAgg ⟨true, .null⟩ = ⟨true, .null⟩ := by
  induction values with
  | nil => rfl
  | cons v values ih =>
    cases v with
    | none => exact ih
    | some x => exact ih

lemma foldl_advanceAgg (ha : InRange true a) (values : List (Option IntValue)) :
    values.foldl advanceAgg ⟨true, .value (ofInt true a)⟩ = ⟨true, runSum a (ints values)⟩ := by
  induction values generalizing a with
  | nil => rfl
  | cons v values ih =>
    cases v with
    | none => exact ih ha
    | some x =>
      rw [foldl_cons, advanceAgg, if_pos rfl, plus_value ha, checked]
      show _ = (⟨true, runSum a (x.toInt :: ints values)⟩ : SumState)
      rw [runSum]
      split_ifs with hfits
      · exact ih hfits
      · exact foldl_advanceAgg_null values

lemma sumAgg_eq (values : List (Option IntValue)) :
    sumAgg values = if ints values = [] then .null else runSum 0 (ints values) := by
  induction values with
  | nil => rfl
  | cons v values ih =>
    cases v with
    | none => exact ih
    | some x =>
      have hx : InRange true x.toInt := inRange_toInt nofun
      have hfold : (some x :: values).foldl advanceAgg ⟨false, .null⟩ = ⟨true, runSum x.toInt (ints values)⟩ :=
        foldl_advanceAgg hx values
      have hints : ints (some x :: values) = x.toInt :: ints values := rfl
      rw [sumAgg, hfold, hints, if_neg (cons_ne_nil _ _), runSum, zero_add, if_pos hx]
      rfl

lemma runSum_of_fits {ns : List ℤ} (h : ∀ p q, ns = p ++ q → InRange true (a + p.sum)) :
    runSum a ns = .value (ofInt true (a + ns.sum)) := by
  induction ns generalizing a with
  | nil => simp [runSum]
  | cons n ns ih =>
    have hn : InRange true (a + n) := by simpa using h [n] ns rfl
    rw [runSum, if_pos hn, ih, sum_cons, add_assoc]
    rintro p q rfl
    simpa [add_assoc] using h (n :: p) q rfl

lemma runSum_of_overflow {p q : List ℤ} (ha : InRange true a) (h : ¬ InRange true (a + p.sum)) :
    runSum a (p ++ q) = .null := by
  induction p generalizing a with
  | nil => exact absurd (by simpa using ha) h
  | cons n p ih =>
    rw [cons_append, runSum]
    split_ifs with hn
    · exact ih hn (by simpa [add_assoc] using h)
    · rfl

/-- A part of the numbers adds up to no more than the positive ones. -/
lemma sum_le_positive {α : Type*} [AddCommGroup α] [LinearOrder α] [IsOrderedAddMonoid α] (p q : List α) :
    p.sum ≤ ((p ++ q).filter (0 < ·)).sum := by
  induction p with
  | nil => exact sum_nonneg fun n hn => (of_decide_eq_true (mem_filter.1 hn).2).le
  | cons n p ih =>
    rw [cons_append, filter_cons, sum_cons]
    split_ifs with hn
    · rw [sum_cons]
      exact add_le_add_right ih n
    · simp only [decide_eq_true_eq, not_lt] at hn
      exact (add_le_of_nonpos_left hn).trans ih

lemma negative_le_sum (p q : List ℤ) : ((p ++ q).filter (· < 0)).sum ≤ p.sum :=
  sum_le_positive (α := ℤᵒᵈ) p q

lemma ints_filter {f : ℤ → Bool} {g : Option IntValue → Bool} (hg : ∀ x, g (some x) = f x.toInt)
    (values : List (Option IntValue)) : ints (values.filter g) = (ints values).filter f := by
  rw [ints, ints, filterMap_filter, filter_filterMap]
  refine filterMap_congr fun v _ => ?_
  cases v with
  | none => simp
  | some x => simp [hg, Option.filter_some]

/-- If the numbers of one kind arrive first and do not fit, the sum is NULL. -/
lemma SumExact.inRange_filter {values : List (Option IntValue)} (h : SumExact values)
    (hfits : InRange true (ints values).sum) (f : ℤ → Bool) : InRange true ((ints values).filter f).sum := by
  by_contra hover
  have hne : ints values ≠ [] := by
    rintro hnil
    simp [hnil, InRange] at hover
  let first : Option IntValue → Bool := fun v => v.any fun x => f x.toInt
  have hints : ints (values.filter first ++ values.filter fun v => !first v) =
      (ints values).filter f ++ (ints values).filter fun n => !f n := by
    rw [ints, filterMap_append]
    exact congrArg₂ _ (ints_filter (fun _ => rfl) values) (ints_filter (fun _ => rfl) values)
  have hsum := (h _ (filter_append_perm first values)).2 hne hfits
  rw [sumAgg_eq, hints, runSum_of_overflow (by decide) (by rwa [zero_add])] at hsum
  split_ifs at hsum

/-- **SUM is exact** in every order if its positive and its negative values fit by themselves, or the sum does not
fit, and only then. -/
theorem sumExact_iff (values : List (Option IntValue)) :
    SumExact values ↔ (InRange true (ints values).sum →
      InRange true ((ints values).filter (0 < ·)).sum ∧ InRange true ((ints values).filter (· < 0)).sum) := by
  refine ⟨fun h hfits => ⟨h.inRange_filter hfits _, h.inRange_filter hfits _⟩, fun h => ?_⟩
  -- the sum of the values that arrive in any order
  have hsum : ∀ arriving, arriving.Perm values → sumAgg arriving =
      if ints values = [] then .null else checked true (ints values).sum := by
    intro arriving hperm
    have hints : (ints arriving).Perm (ints values) := hperm.filterMap _
    by_cases hnil : ints values = []
    · rw [hnil] at hints
      rw [sumAgg_eq, if_pos hints.eq_nil, if_pos hnil]
    rw [sumAgg_eq, if_neg fun harr => hnil (harr ▸ hints).nil_eq.symm, if_neg hnil, checked, ← hints.sum_eq]
    split_ifs with hfits
    · obtain ⟨hpos, hneg⟩ := h (hints.sum_eq ▸ hfits)
      rw [runSum_of_fits, zero_add]
      intro p q hpq
      have hle := sum_le_positive p q
      have hge := negative_le_sum p q
      rw [← hpq, (hints.filter _).sum_eq] at hle hge
      rw [zero_add]
      exact ⟨hneg.1.trans hge, hle.trans_lt hpos.2⟩
    · rw [← append_nil (ints arriving)]
      exact runSum_of_overflow (by decide) (by rwa [zero_add])
  intro arriving hperm
  refine ⟨(hsum _ hperm).trans (hsum _ (.refl _)).symm, fun hne hfits => ?_⟩
  rw [hsum _ hperm, if_neg hne, checked, if_pos hfits]

/-- The greatest number, 1 and -1: in this order the sum is NULL. -/
theorem not_sumExact_overflow :
    ¬ SumExact [some (.bigint 9223372036854775807), some (.int 1), some (.int (-1))] := by
  intro h
  have hsum := (h _ (.refl _)).2 (by simp [ints]) (by decide)
  have hnull : sumAgg [some (.bigint 9223372036854775807), some (.int 1), some (.int (-1))] = .null := rfl
  cases hnull.symm.trans hsum

end MiniDb.Sql.IntValue
