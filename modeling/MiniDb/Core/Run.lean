import Mathlib.Data.List.Basic
import Mathlib.Data.Option.Basic
import Mathlib.Logic.Function.Basic

/-!
# Runs of a partial step function

A system is a function `step : σ → α → Option σ`; `none` says that the action is not enabled.  A run is a list of
actions, so that a concrete run can be evaluated and a general one is handled by induction on the list.

* `runs` — the state a list of actions leads to.
* `StepsMeet` — every action of the list meets a condition in the state it is taken in.
* `Always` — a property of states holds in every state the list passes through.

The rules: `runs_invariant`, `always_of_invariant`, `runs_simulation` and `always_iff_stepsMeet`.
-/

namespace MiniDb

variable {σ α : Type*}

/-- The state reached by taking the actions in order, if each of them is enabled. -/
def runs (step : σ → α → Option σ) : σ → List α → Option σ
  | s, [] => some s
  | s, a :: as => (step s a).bind fun s' => runs step s' as

/-- Every action of the list meets `P` in the state in which it is taken. -/
def StepsMeet (step : σ → α → Option σ) (P : σ → α → Prop) : σ → List α → Prop
  | _, [] => True
  | s, a :: as => P s a ∧ ∀ s', step s a = some s' → StepsMeet step P s' as

/-- `Q` holds in every state the list of actions passes through, the first and the last included. -/
def Always (step : σ → α → Option σ) (Q : σ → Prop) : σ → List α → Prop
  | s, [] => Q s
  | s, a :: as => Q s ∧ ∀ s', step s a = some s' → Always step Q s' as

/-- The step function of a system whose actions are always enabled. -/
def total (f : σ → α → σ) (s : σ) (a : α) : Option σ := some (f s a)

lemma runs_total (f : σ → α → σ) (s : σ) (as : List α) : runs (total f) s as = some (as.foldl f s) := by
  induction as generalizing s with
  | nil => rfl
  | cons a as ih => exact ih (f s a)

variable {step : σ → α → Option σ}

@[simp] lemma runs_nil (s : σ) : runs step s [] = some s := rfl

lemma runs_cons (s : σ) (a : α) (as : List α) : runs step s (a :: as) = (step s a).bind fun s' => runs step s' as := rfl

variable {as : List α} {s s' : σ} {P : σ → α → Prop} {I Q : σ → Prop}

lemma runs_cons_eq_some {a : α} :
    runs step s (a :: as) = some s' ↔ ∃ m, step s a = some m ∧ runs step m as = some s' := by
  rw [runs_cons, Option.bind_eq_some_iff]

lemma runs_append (s : σ) (as bs : List α) :
    runs step s (as ++ bs) = (runs step s as).bind fun m => runs step m bs := by
  induction as generalizing s with
  | nil => rfl
  | cons a as ih =>
    simp only [List.cons_append, runs_cons, Option.bind_assoc]
    exact congrArg _ (funext ih)

lemma runs_append_eq_some {bs : List α} : runs step s (as ++ bs) = some s' ↔
      ∃ m, runs step s as = some m ∧ runs step m bs = some s' := by
  rw [runs_append, Option.bind_eq_some_iff]

/-- A condition that can be evaluated can be evaluated along a run. -/
instance decidableStepsMeet (P : σ → α → Prop) [∀ s a, Decidable (P s a)] :
    ∀ (s : σ) (as : List α), Decidable (StepsMeet step P s as)
  | _, [] => isTrue trivial
  | s, a :: as =>
    match h : step s a with
    | none => decidable_of_iff (P s a)
        ⟨fun hP => ⟨hP, fun _ hs => nomatch h.symm.trans hs⟩, And.left⟩
    | some m =>
      have := decidableStepsMeet P m as
      decidable_of_iff (P s a ∧ StepsMeet step P m as)
        ⟨fun hm => ⟨hm.1, fun _ hs => Option.some.inj (h.symm.trans hs) ▸ hm.2⟩, fun hm => ⟨hm.1, hm.2 m h⟩⟩

lemma StepsMeet.mono {P' : σ → α → Prop} (h : ∀ s a, P s a → P' s a)
    (hm : StepsMeet step P s as) : StepsMeet step P' s as := by
  induction as generalizing s with
  | nil => trivial
  | cons a as ih => exact ⟨h s a hm.1, fun s' hs => ih (hm.2 s' hs)⟩

lemma StepsMeet.of_forall (h : ∀ a ∈ as, ∀ s, P s a) : StepsMeet step P s as := by
  induction as generalizing s with
  | nil => trivial
  | cons a as ih => exact ⟨h a List.mem_cons_self s, fun s' _ => ih fun b hb => h b (List.mem_cons_of_mem a hb)⟩

lemma StepsMeet.and {Q : σ → α → Prop} (hP : StepsMeet step P s as)
    (hQ : StepsMeet step Q s as) : StepsMeet step (fun s a => P s a ∧ Q s a) s as := by
  induction as generalizing s with
  | nil => trivial
  | cons a as ih => exact ⟨⟨hP.1, hQ.1⟩, fun s' hs => ih (hP.2 s' hs) (hQ.2 s' hs)⟩

lemma StepsMeet.append {bs : List α} (hm : StepsMeet step P s (as ++ bs)) :
    StepsMeet step P s as ∧ ∀ m, runs step s as = some m → StepsMeet step P m bs := by
  induction as generalizing s with
  | nil =>
    refine ⟨trivial, fun m h => ?_⟩
    cases h
    exact hm
  | cons a as ih =>
    refine ⟨⟨hm.1, fun s' hs => (ih (hm.2 s' hs)).1⟩, fun m h => ?_⟩
    obtain ⟨s', hs, hr⟩ := runs_cons_eq_some.1 h
    exact (ih (hm.2 s' hs)).2 m hr

section

variable (hstep : ∀ s a s', I s → P s a → step s a = some s' → I s')
include hstep

/-- **The invariant rule.**  What every step that meets `P` keeps, a run of such steps keeps. -/
theorem runs_invariant (hI : I s) (hm : StepsMeet step P s as) (hr : runs step s as = some s') : I s' := by
  induction as generalizing s with
  | nil => cases hr; exact hI
  | cons a as ih =>
    obtain ⟨m, hs, hr⟩ := runs_cons_eq_some.1 hr
    exact ih (hstep s a m hI hm.1 hs) (hm.2 m hs) hr

omit hstep in
/-- What every step keeps, a run keeps. -/
theorem runs_invariant_of_step (hstep : ∀ s a s', I s → step s a = some s' → I s')
    (hI : I s) (hr : runs step s as = some s') : I s' := by
  induction as generalizing s with
  | nil => cases hr; exact hI
  | cons a as ih =>
    obtain ⟨m, hs, hr⟩ := runs_cons_eq_some.1 hr
    exact ih (hstep s a m hI hs) hr

/-- An invariant of the steps that meet `P` gives `Q` in every state of a run of such steps. -/
theorem always_of_invariant (hQ : ∀ s, I s → Q s) (hI : I s) (hm : StepsMeet step P s as) :
    Always step Q s as := by
  induction as generalizing s with
  | nil => exact hQ s hI
  | cons a as ih => exact ⟨hQ s hI, fun s' hs => ih (hstep s a s' hI hm.1 hs) (hm.2 s' hs)⟩

/-- An invariant of the steps that meet `P` gives a property of the steps themselves. -/
theorem StepsMeet.of_invariant {Q : σ → α → Prop} (hQ : ∀ s a, I s → P s a → Q s a)
    (hI : I s) (hm : StepsMeet step P s as) : StepsMeet step Q s as := by
  induction as generalizing s with
  | nil => trivial
  | cons a as ih => exact ⟨hQ s a hI hm.1, fun s' hs => ih (hstep s a s' hI hm.1 hs) (hm.2 s' hs)⟩

end

/-- **The simulation rule.**  If related states stay related when they take the same action, as long
as the actions meet `P` on the second side, then a whole run of the first side is one of the second
side. -/
theorem runs_simulation {R : σ → σ → Prop} (hstep : ∀ s t a s', R s t → P t a → step s a = some s' →
      ∃ t', step t a = some t' ∧ R s' t') {t : σ} (hR : R s t)
    (hm : StepsMeet step P t as) (hr : runs step s as = some s') : ∃ t', runs step t as = some t' ∧ R s' t' := by
  induction as generalizing s t with
  | nil =>
    cases hr
    exact ⟨t, rfl, hR⟩
  | cons a as ih =>
    obtain ⟨m, hs, hr⟩ := runs_cons_eq_some.1 hr
    obtain ⟨n, ht, hR'⟩ := hstep s t a m hR hm.1 hs
    obtain ⟨t', ht', hR''⟩ := ih hR' (hm.2 n ht) hr
    exact ⟨t', runs_cons_eq_some.2 ⟨n, ht, ht'⟩, hR''⟩

/-- One more step after a run whose steps meet `P`. -/
lemma StepsMeet.concat {a : α} (has : StepsMeet step P s as) (ha : ∀ m, runs step s as = some m → P m a) :
    StepsMeet step P s (as ++ [a]) := by
  induction as generalizing s with
  | nil => exact ⟨ha s rfl, fun _ _ => trivial⟩
  | cons b as ih =>
    refine ⟨has.1, fun s' hs => ih (has.2 s' hs) fun m hm => ?_⟩
    exact ha m (runs_cons_eq_some.2 ⟨s', hs, hm⟩)

lemma runs_eval {γ : Type*} {f : σ → γ} {v : γ} {m : σ}
    (h : (runs step s as).map f = some v) (hm : runs step s as = some m) : f m = v := by
  rw [hm] at h
  exact Option.some.inj h

/-- A run is evaluated, together with what is to be known of the state it leads to. -/
lemma exists_run {P : σ → Prop} [DecidablePred P]
    (h : (runs step s as).any (fun m => decide (P m)) = true) : ∃ m, runs step s as = some m ∧ P m := by
  obtain ⟨m, hm, hP⟩ := (Option.any_eq_true _ _).1 h
  exact ⟨m, hm, of_decide_eq_true hP⟩

lemma Always.first (h : Always step Q s as) : Q s := by
  cases as with
  | nil => exact h
  | cons a as => exact h.1

lemma Always.last (h : Always step Q s as) (hr : runs step s as = some s') : Q s' := by
  induction as generalizing s with
  | nil => cases hr; exact h
  | cons a as ih =>
    obtain ⟨m, hs, hr⟩ := runs_cons_eq_some.1 hr
    exact ih (h.2 m hs) hr

/-- A run is evaluated, and the state it leads to has the property. -/
lemma Always.eval {R : σ → Prop} [DecidablePred R] (h : Always step Q s as)
    (heval : (runs step s as).any (fun m => decide (R m)) = true) : ∃ m, R m ∧ Q m := by
  obtain ⟨m, hm, hR⟩ := exists_run heval
  exact ⟨m, hR, h.last hm⟩

/-- A run is evaluated up to its last step, which meets `P`. -/
lemma StepsMeet.eval {R : σ → Prop} [DecidablePred R] {a : α} (h : StepsMeet step P s (as ++ [a]))
    (heval : (runs step s as).any (fun m => decide (R m)) = true) : ∃ m, R m ∧ P m a := by
  obtain ⟨m, hm, hR⟩ := exists_run heval
  exact ⟨m, hR, (h.append.2 m hm).1⟩

/-- **An exact step condition.**  If the steps that meet `P` keep an invariant that gives `Q`, and
every step that misses `P` leads to a state without `Q`, then `Q` holds all along a run if and
only if all its steps meet `P`. -/
theorem always_iff_stepsMeet (hstep : ∀ s a s', I s → P s a → step s a = some s' → I s') (hQ : ∀ s, I s → Q s)
    (hbad : ∀ s a s', I s → ¬ P s a → step s a = some s' → ¬ Q s') (hI : I s) (hr : runs step s as = some s') :
    Always step Q s as ↔ StepsMeet step P s as := by
  refine ⟨fun hA => ?_, always_of_invariant hstep hQ hI⟩
  induction as generalizing s with
  | nil => trivial
  | cons a as ih =>
    obtain ⟨m, hs, hr⟩ := runs_cons_eq_some.1 hr
    have hP : P s a := by
      by_contra hP
      exact hbad s a m hI hP hs (hA.2 m hs).first
    refine ⟨hP, fun m' hs' => ?_⟩
    obtain rfl : m = m' := Option.some.inj (hs.symm.trans hs')
    exact ih (hstep s a m hI hP hs) hr (hA.2 m hs)

/-- What a keyed part of a state holds once one key is changed. -/
lemma update_eq_some {κ β : Type*} [DecidableEq κ] {f : κ → Option β} {k k' : κ} {v : Option β} {y : β}
    (h : Function.update f k v k' = some y) : k' = k ∧ v = some y ∨ k' ≠ k ∧ f k' = some y := by
  rw [Function.update_apply] at h
  split_ifs at h with hk
  · exact .inl ⟨hk, h⟩
  · exact .inr ⟨hk, h⟩

end MiniDb
