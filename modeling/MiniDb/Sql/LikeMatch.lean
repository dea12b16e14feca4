import Mathlib.Computability.Language

/-!
# LIKE

`like_match` walks over the string and the pattern and keeps one place to return to, the last `%` it has seen.  It
accepts the strings of the pattern's language, in which `%` stands for any sequence of bytes and `_` for one byte
(`likeMatch_iff`).

**Earlier `%` are never needed again.**  A later start for an earlier `%` leaves a rest of the string that a later start
for the last `%` leaves as well.
-/

namespace MiniDb.Sql

open List

def percent : UInt8 := 37

def underscore : UInt8 := 95

/-- The loop of `like_match`, on what is left of the string and of the pattern.  `star` has the string from
the place of the last `%` on, and the pattern after it. -/
def likeLoop : (s p : List UInt8) → (star : Option (List UInt8 × List UInt8)) →
    (∀ x ∈ star, s.length ≤ x.1.length) → Bool
  | [], p, _, _ => p.all (· == percent)
  | c :: s, p, star, h =>
    if hp : p.head? = some percent then likeLoop (c :: s) p.tail (some (c :: s, p.tail)) (by simp)
    else if hc : p.head? = some c ∨ p.head? = some underscore then
      likeLoop s p.tail star fun x hx => (Nat.le_succ _).trans (h x hx)
    else
      match star with
      | some (_ :: ss, sp) => likeLoop ss sp (some (ss, sp)) (by simp)
      -- the string behind the last `%` is not empty, since the rest is not
      | _ => false
termination_by s p star => (star.elim (s.length + 1) (·.1.length), p.length)
decreasing_by
  · have hlt : p.tail.length < p.length := by cases p <;> simp_all
    cases star with
    | none => exact .left _ _ (Nat.lt_succ_self _)
    | some x => exact (h x rfl).lt_or_eq.elim (.left _ _) fun heq => Prod.Lex.right' _ heq.le hlt
  · have hlt : p.tail.length < p.length := by cases p <;> simp_all
    cases star with
    | none => exact .left _ _ (Nat.lt_succ_self _)
    | some x => exact .right _ hlt
  · exact .left _ _ (Nat.lt_succ_self _)

def likeMatch (s p : List UInt8) : Bool := likeLoop s p none (by simp)

/-! ## The language of a pattern -/

/-- What a byte of the pattern stands for. -/
def likeSymbol (c : UInt8) : Language UInt8 :=
  if c = percent then ⊤ else if c = underscore then {s | s.length = 1} else {[c]}

/-- The strings that are like the pattern. -/
def likeLanguage (p : List UInt8) : Language UInt8 := (p.map likeSymbol).prod

variable {s p q t : List UInt8} {c d : UInt8}

lemma mem_likeLanguage_nil : s ∈ likeLanguage [] ↔ s = [] := Language.mem_one s

lemma mem_likeLanguage_percent : s ∈ likeLanguage (percent :: p) ↔ ∃ t, t <:+ s ∧ t ∈ likeLanguage p := by
  rw [likeLanguage, map_cons, prod_cons, Language.mem_mul, likeSymbol, if_pos rfl]
  constructor
  · rintro ⟨u, -, t, ht, rfl⟩
    exact ⟨t, suffix_append u t, ht⟩
  · rintro ⟨t, ⟨u, rfl⟩, ht⟩
    exact ⟨u, trivial, t, ht, rfl⟩

lemma mem_likeSymbol (hd : d ≠ percent) : s ∈ likeSymbol d ↔ ∃ c, s = [c] ∧ (d = c ∨ d = underscore) := by
  rw [likeSymbol, if_neg hd]
  by_cases hone : d = underscore
  · simp only [hone, or_true, and_true]
    exact length_eq_one_iff
  · simp only [hone, or_false, exists_eq_right']
    exact Iff.rfl

lemma mem_likeLanguage_cons (hd : d ≠ percent) :
    s ∈ likeLanguage (d :: p) ↔ ∃ c t, s = c :: t ∧ (d = c ∨ d = underscore) ∧ t ∈ likeLanguage p := by
  rw [likeLanguage, map_cons, prod_cons, Language.mem_mul]
  constructor
  · rintro ⟨u, hu, t, ht, rfl⟩
    obtain ⟨c, rfl, hc⟩ := (mem_likeSymbol hd).1 hu
    exact ⟨c, t, rfl, hc, ht⟩
  · rintro ⟨c, t, rfl, hc, ht⟩
    exact ⟨[c], (mem_likeSymbol hd).2 ⟨c, rfl, hc⟩, t, ht, rfl⟩

/-- A pattern without `%` before `p` takes one byte of the string for each of its own. -/
lemma exists_of_mem_append (hq : percent ∉ q) (ht : t ∈ likeLanguage (q ++ p)) :
    ∃ v, v <:+ t ∧ v.length + q.length = t.length ∧ v ∈ likeLanguage p := by
  induction q generalizing t with
  | nil => exact ⟨t, suffix_refl t, rfl, ht⟩
  | cons d q ih =>
    obtain ⟨hd, hq⟩ := not_or.1 (mem_cons.not.1 hq)
    obtain ⟨c, t, rfl, -, ht⟩ := (mem_likeLanguage_cons (Ne.symm hd)).1 ht
    obtain ⟨v, hv, hlen, hmem⟩ := ih hq ht
    exact ⟨v, hv.trans (suffix_cons c t), congrArg Nat.succ hlen, hmem⟩

/-! ## The matcher -/

/-- Some later start for the last `%` matches. -/
def LaterStart (star : Option (List UInt8 × List UInt8)) : Prop :=
  ∃ x ∈ star, ∃ t, t <:+ x.1.tail ∧ t ∈ likeLanguage x.2

/-- Between the last `%` and the place reached there is no other, and as much of the string has been read as
of the pattern. -/
def StarOk (s p : List UInt8) (star : Option (List UInt8 × List UInt8)) : Prop :=
  ∀ x ∈ star, s <:+ x.1 ∧ ∃ q, x.2 = q ++ p ∧ percent ∉ q ∧ x.1.length = s.length + q.length

variable {star : Option (List UInt8 × List UInt8)}

lemma StarOk.restart (s p : List UInt8) : StarOk s p (some (s, p)) := by
  intro x hx
  cases hx
  exact ⟨suffix_refl s, [], rfl, by simp, rfl⟩

/-- What a later start leaves for the rest of the pattern is a rest of the string. -/
lemma StarOk.of_laterStart (hok : StarOk s p star) (h : LaterStart star) :
    ∃ v, v <:+ s.tail ∧ v ∈ likeLanguage p := by
  obtain ⟨x, hx, t, ht, hmem⟩ := h
  obtain ⟨hs, q, hq, hnone, hlen⟩ := hok x hx
  obtain ⟨v, hv, hvlen, hv'⟩ := exists_of_mem_append hnone (hq ▸ hmem)
  have htlen := ht.length_le
  rw [length_tail] at htlen
  refine ⟨v, suffix_of_suffix_length_le ((hv.trans ht).trans (tail_suffix x.1)) ((tail_suffix s).trans hs) ?_, hv'⟩
  rw [length_tail]
  omega

lemma mem_likeLanguage_nil_left : [] ∈ likeLanguage p ↔ p.all (· == percent) = true := by
  induction p with
  | nil => simp [mem_likeLanguage_nil]
  | cons d p ih =>
    by_cases hd : d = percent
    · simp [hd, mem_likeLanguage_percent, ih]
    · simp [hd, mem_likeLanguage_cons]

/-- The next byte of the pattern is neither `%` nor one that the next byte of the string can be. -/
lemma not_mem_of_head (hp : p.head? ≠ some percent) (hc : ¬ (p.head? = some c ∨ p.head? = some underscore)) :
    c :: s ∉ likeLanguage p := by
  cases p with
  | nil => simp [mem_likeLanguage_nil]
  | cons d p => simp_all [mem_likeLanguage_cons]

/-- A match from the start of the last `%` or from a later one. -/
lemma mem_or_laterStart : s ∈ likeLanguage p ∨ LaterStart (some (s, p)) ↔ ∃ t, t <:+ s ∧ t ∈ likeLanguage p := by
  cases s with
  | nil => simp [LaterStart]
  | cons c s => simp [LaterStart, suffix_cons_iff, or_and_right, exists_or]

/-- **The loop finds a match** of what is left, or of a later start for the last `%`, if there is one. -/
lemma likeLoop_iff (h : ∀ x ∈ star, s.length ≤ x.1.length) (hok : StarOk s p star) :
    likeLoop s p star h = true ↔ s ∈ likeLanguage p ∨ LaterStart star := by
  induction s, p, star, h using likeLoop.induct with
  | case1 star p h =>
    rw [likeLoop, ← mem_likeLanguage_nil_left, or_iff_left_of_imp]
    intro hlater
    obtain ⟨v, hv, hmem⟩ := hok.of_laterStart hlater
    exact suffix_nil.1 hv ▸ hmem
  | case2 c s p star h hp _ ih =>
    obtain ⟨p, rfl⟩ : ∃ p', p = percent :: p' := head?_eq_some_iff.1 hp
    unfold likeLoop
    rw [dif_pos hp, ih (.restart _ _), tail_cons, mem_or_laterStart, mem_likeLanguage_percent, or_iff_left_of_imp]
    -- a later start for the `%` before this one
    intro hlater
    obtain ⟨v, hv, hmem⟩ := hok.of_laterStart hlater
    obtain ⟨t, ht, hmem⟩ := mem_likeLanguage_percent.1 hmem
    exact ⟨t, (ht.trans hv).trans (suffix_cons c s), hmem⟩
  | case3 c s p star h hp hc _ ih =>
    obtain ⟨d, p, rfl⟩ : ∃ d p', p = d :: p' := by cases p <;> simp_all
    have hd : d ≠ percent := by simpa using hp
    have hok' : StarOk s p star := by
      intro x hx
      obtain ⟨hs, q, hq, hnone, hlen⟩ := hok x hx
      refine ⟨(suffix_cons c s).trans hs, q ++ [d], by simpa using hq, by simpa [hnone] using hd.symm, ?_⟩
      rw [hlen, length_append, length_cons, length_singleton, Nat.add_right_comm, Nat.add_assoc]
    unfold likeLoop
    rw [dif_neg hp, dif_pos hc, ih hok', mem_likeLanguage_cons hd]
    simp_all
  | case4 c s p hp hc b ss sp h _ ih =>
    rw [likeLoop, dif_neg hp, dif_neg hc, ih (.restart _ _), or_iff_right (not_mem_of_head hp hc), mem_or_laterStart]
    simp [LaterStart]
  | case5 c s p star hp hc h hstar =>
    unfold likeLoop
    rw [dif_neg hp, dif_neg hc, or_iff_right (not_mem_of_head hp hc)]
    rcases star with _ | ⟨_ | ⟨b, ss⟩, sp⟩
    · simp [LaterStart]
    · simpa using h _ rfl
    · exact (hstar b ss sp h rfl .rfl).elim

/-- **LIKE**: `like_match` accepts the strings of the pattern's language. -/
theorem likeMatch_iff (s p : List UInt8) : likeMatch s p = true ↔ s ∈ likeLanguage p := by
  rw [likeMatch, likeLoop_iff _ (by simp [StarOk]), or_iff_left (by simp [LaterStart])]

end MiniDb.Sql
