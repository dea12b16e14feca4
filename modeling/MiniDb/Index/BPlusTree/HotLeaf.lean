import MiniDb.Index.BPlusTree.Runs

/-!
# The hot leaf

`insert` takes the leaf of the last insertion, with the page above, when the key is not smaller than its last key and
smaller than the first key of the next leaf.  In a tree that is in order there is one leaf where a descent can end
(`Reached.unique`), so that this is the leaf of a descent.

`hotLeaf_agrees` says so of every insertion of a run whose operations meet `OpOk`.  In `hotRun` a leaf has been put in
the wrong place, and its separator leads descents elsewhere.
-/

namespace MiniDb

namespace BPlusTree

section

variable {κ : Type*} {pages : Pages κ} {q : κ → Bool} {d id l l' : ℕ} {A A' B B' R R' : List ℕ}

lemma Reached.eq_of_append {C : List ℕ} (h : Reached pages q d id l A B R)
    (h' : Reached pages q d id l' A' B' R') (hA : A' = A ++ C) (hB : l :: B = C ++ l' :: B') : l = l' := by
  cases C with
  | nil => exact (List.cons.inj hB).1
  | cons c C =>
    -- the first key of a leaf further to the right passes the test and does not
    obtain ⟨-, rfl⟩ := List.cons.inj hB
    obtain ⟨k, hk, hqk⟩ := h'.first (by rw [hA]; simp)
    obtain ⟨e, he, rfl⟩ := Option.map_eq_some_iff.1 hk
    have hmem : e ∈ entriesOf pages (C ++ l' :: B') := by
      have := List.mem_of_mem_head? he
      rw [entries, leaves_zero, entriesOf_cons, entriesOf_nil, List.append_nil] at this
      rw [entriesOf_append, entriesOf_cons]
      exact List.mem_append_right _ (List.mem_append_left _ this)
    rw [h.right e hmem] at hqk
    cases hqk

/-- **There is one leaf where a descent can end.** -/
lemma Reached.unique (h : Reached pages q d id l A B R) (h' : Reached pages q d id l' A' B' R') : l = l' := by
  have heq := h.spine.leaves_eq.symm.trans h'.spine.leaves_eq
  rw [leaves_zero, leaves_zero, List.append_assoc, List.append_assoc] at heq
  rcases List.append_eq_append_iff.1 heq with ⟨C, hA, hB⟩ | ⟨C, hA, hB⟩
  · exact h.eq_of_append h' hA hB
  · exact (h'.eq_of_append h hA hB).symm

variable [TreeKey κ]

/-- `insert` with a descent from the root. -/
def insertByDescent (t : BPlusTree κ) (key : κ) (rid : RecordId) : Option (BPlusTree κ) :=
  if TreeKey.fits key then
    let t := if t.rootPageId = 0 then t.create else t
    (t.findLeafWithParent key).map fun (leafId, parentId) => t.insertAt leafId parentId key rid
  else none

def chainKeys (t : BPlusTree κ) : List κ :=
  (entriesOf t.pages (leafChain t.pages t.nextPageNum t.leftmostLeaf)).map Prod.fst

/-- An insertion into the hot leaf does what a descent would do. -/
def HotAgrees (t : BPlusTree κ) : TreeOp κ → Prop
  | .insert key rid => TreeKey.fits key = true → t.hotUsable key = true →
    ∃ t₁ t₂, t.insert key rid = some t₁ ∧ t.insertByDescent key rid = some t₂ ∧
      chainKeys t₁ = chainKeys t₂ ∧ ∀ k, t₁.search k = t₂.search k
  | _ => True

variable {t : BPlusTree κ} {key : κ} {rid : RecordId}

lemma Inv.hotAgrees (hI : Inv t d) (hhot : HotOk t d) (hok : OpOk t (.insert key rid)) :
    HotAgrees t (.insert key rid) := by
  intro hfits huse
  obtain ⟨hroom, hok⟩ := hok hfits
  obtain ⟨A, B, R, hreach⟩ := reached_of_hotUsable hI.toCoherent hhot huse
  obtain ⟨l, A', B', R', hdesc, hreach'⟩ := findLeafWithParent_spec hI.toCoherent hroom key
  obtain rfl := hreach.unique hreach'
  have htarget : t.targetLeaf key = some (t.hotLeafId, t.hotLeafParentId) := if_pos huse
  have hroot : t.rootPageId ≠ 0 := hI.pos _ self_mem_nodes
  refine ⟨t.insertAt t.hotLeafId t.hotLeafParentId key rid,
    t.insertAt t.hotLeafId (t.findParent t.hotLeafId) key rid, ?_, ?_, ?_⟩
  · rw [insert, if_pos hfits, if_neg hroot]
    dsimp only
    rw [htarget]
    rfl
  · rw [insertByDescent, if_pos hfits, if_neg hroot]
    dsimp only
    rw [hdesc]
    rfl
  · rw [insertOk, htarget, huse] at hok
    simp only [Bool.or_eq_true, decide_eq_true_eq, Bool.and_eq_true, Bool.not_true, Bool.false_or] at hok
    rcases hok with hsmall | ⟨hparent, -⟩
    · -- the leaf is not split, and the page above is only noted
      rw [insertAt, insertAt, if_neg (Nat.not_lt.2 hsmall), if_neg (Nat.not_lt.2 hsmall)]
      exact ⟨rfl, fun _ => rfl⟩
    · rw [hparent]
      exact ⟨rfl, fun _ => rfl⟩

lemma Holds.hotAgrees {S : List (κ × RecordId)} (h : Holds t S) {op : TreeOp κ} (hok : OpOk t op) :
    HotAgrees t op := by
  cases op with
  | remove key rid => trivial
  | bulkLoad es => trivial
  | insert key rid =>
    rcases h with ⟨d, hI, hhot, -⟩ | ⟨-, hclear, -⟩
    · exact hI.hotAgrees hhot hok
    · intro _ huse
      rw [hclear.hotUsable key] at huse
      cases huse

end

/-- **An insertion into the hot leaf is an insertion by descent.** -/
theorem hotLeaf_agrees {ops : List (TreeOp SlotKey)} (hm : StepsMeet attempt OpOk fresh ops) :
    StepsMeet attempt HotAgrees fresh ops :=
  StepsMeet.of_invariant (I := fun t => ∃ S, Holds t S) (fun _ _ _ ⟨_, h⟩ hok ht' => h.attempt hok ht')
    (fun _ _ ⟨_, h⟩ hok => h.hotAgrees hok) ⟨[], Holds.fresh⟩ hm

/-- The last insertion goes to the hot leaf. -/
theorem hotLeaf_agrees_split : StepsMeet attempt HotAgrees fresh (splitAndRemove ++ insertRun [70, 71]) :=
  hotLeaf_agrees (by decide +kernel)

/-- The fives are split, and the right half is put behind the leaf of the sixties; the separator between them
is 60 when the five there is removed. -/
def hotRun : List (TreeOp SlotKey) :=
  insertRun (List.replicate 30 5 ++ List.replicate 28 60 ++ List.replicate 29 1 ++ List.replicate 29 0 ++ [5]) ++
    [.remove (intKey 5) ⟨1, 29⟩]

/-- The separators are 1, 60 and 5, and a descent with 7 does not go to the fives. -/
theorem not_hotAgrees_hotRun : ¬ StepsMeet attempt HotAgrees fresh (hotRun ++ [.insert (intKey 7) ⟨1, 117⟩]) := by
  intro h
  obtain ⟨t, ⟨hfits, huse, hdiff⟩, hagrees⟩ := h.eval (R := fun t => TreeKey.fits (intKey 7) = true ∧
    t.hotUsable (intKey 7) = true ∧ (t.insert (intKey 7) ⟨1, 117⟩).map chainKeys ≠
      (t.insertByDescent (intKey 7) ⟨1, 117⟩).map chainKeys) (by decide +kernel)
  obtain ⟨t₁, t₂, h1, h2, hchain, -⟩ := hagrees hfits huse
  rw [h1, h2, Option.map_some, Option.map_some, hchain] at hdiff
  exact hdiff rfl

end BPlusTree

end MiniDb
