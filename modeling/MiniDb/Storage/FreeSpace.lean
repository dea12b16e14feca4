import MiniDb.Storage.Page

/-!
# The free space of a page

`has_enough_space` and `predict_slot` read the line pointers.  On a pruned page they agree with `insert_tuple_at`
(`predictSlot_installs`), but `has_enough_space` takes the target of a redirect for an offset, so that a page with a
redirect has no space left (`hasEnoughSpace_iff`).
-/

namespace MiniDb.Page

open List Option LinePointer Slot

variable {β : Type*} {p : Page β}

lemma not_isDead_prune {s : Slot β} (hs : s ∈ p.prune.1.slots) : s.lp.flags ≠ .dead := by
  obtain ⟨a, -, ⟨-, hv, -⟩ | rfl⟩ := exists_mem_of_forall₂ p.forall₂_prune hs
  · simp [LinePointer.isValid_iff.1 hv]
  · unfold reclaimDead
    split_ifs with ha
    · exact fun h => by cases h
    · simpa [LinePointer.isDead] using ha

lemma insertTupleAt_isSome {slot length : ℕ} (t : Tuple β) (hle : slot ≤ p.numTuples)
    (hfree : (p.linePointer slot).isValid = false) (hlen : maxAlign length ≤ minTupleOffset (p.slots.map lp))
    (hroom : lpEnd (if slot = p.numTuples then p.numTuples + 1 else p.numTuples) ≤
      minTupleOffset (p.slots.map lp) - maxAlign length) : ∃ p', p.insertTupleAt t length slot = some p' := by
  unfold numTuples at hle hroom
  simp only [insertTupleAt, length_map]
  rw [if_neg (not_lt.2 hle), hfree, if_neg Bool.false_ne_true, dif_pos hlen, dif_pos hroom]
  exact ⟨_, rfl⟩

/-- **The slot that was predicted is the slot that is used**: a tuple that a pruned page has space for is installed
in it, where readers find it; its bytes are on the page, and the other slots stay as they are.  A tuple is not empty,
and so short that `max_align` does not wrap around. -/
theorem predictSlot_installs (p : Page β) (t : Tuple β) {length : ℕ} (hpos : 0 < length)
    (hwrap : length + 7 < 65536)
    (h : p.prune.1.hasEnoughSpace length = true) :
    ∃ p', p.prune.1.insertTupleAt t length (p.prune.1.predictSlot length) = some p' ∧
      p'.tupleAt (p.prune.1.predictSlot length) = some t ∧
      (p'.linePointer (p.prune.1.predictSlot length)).offset + length ≤ kDataUpperBound ∧
      ∀ j, j ≠ p.prune.1.predictSlot length → p'.look j = p.look j := by
  simp only [← p.look_prune]
  have hdead : ∀ s ∈ p.prune.1.slots, s.lp.flags ≠ .dead := fun s => not_isDead_prune
  generalize p.prune.1 = q at h hdead
  have hplace : q.findInPlace length = none := by
    by_contra hne
    obtain ⟨i, hi⟩ := ne_none_iff_exists'.1 hne
    have hlt := (findIdx?_eq_some_iff_getElem.1 hi).1
    exact hdead _ (getElem_mem hlt) (dead_of_findInPlace hi (getElem?_eq_getElem hlt)).1
  have hany : (q.slots.any fun s => s.lp.flags == .dead && maxAlign length ≤ maxAlign s.lp.length) = false :=
    List.any_eq_false.2 fun s hs => by simp [hdead s hs]
  have hunused : (q.slots.any fun s => s.lp.flags == .unused) = q.findUnused.isSome := findIdx?_isSome.symm
  simp only [hasEnoughSpace, hany, hunused, Bool.false_or, Bool.and_eq_true, decide_eq_true_eq] at h
  have hfind : ∃ p', q.insertTupleAt t length (q.predictSlot length) = some p' := by
    rw [predictSlot, hplace]
    cases hu : q.findUnused with
    | none => exact insertTupleAt_isSome t le_rfl (by simp [linePointer, numTuples]) h.1 (by simpa [hu] using h.2)
    | some i =>
      obtain ⟨hlt, hflags, -⟩ := findIdx?_eq_some_iff_getElem.1 hu
      have hne : i ≠ q.numTuples := hlt.ne
      refine insertTupleAt_isSome t hlt.le ?_ h.1 (by simpa [hne, hu] using h.2)
      simp_all [linePointer, LinePointer.isValid]
  obtain ⟨p', hp'⟩ := hfind
  obtain ⟨hle, -, -, hoffset, hslots⟩ := slots_insertTupleAt hp'
  have hlook := (insertTupleAt_eq_some hpos hp').2.2.2.2
  refine ⟨p', hp', by rw [tupleAt, hlook, if_pos rfl]; rfl, ?_, fun j hj => by rw [hlook, if_neg hj]⟩
  have hbound := minTupleOffset_le_bound (q.slots.map lp)
  have halign : length ≤ maxAlign length := by
    unfold maxAlign
    omega
  rw [linePointer, hslots, getElem?_placeAt _ hle, if_pos rfl]
  show minTupleOffset (q.slots.map lp) - maxAlign length + length ≤ kDataUpperBound
  omega

/-- Four rows, of which the second has given way to a redirect to the first, the third is dead and the slot of the
fourth is reclaimed. -/
def mixedPage : Page Unit :=
  let insert (p : Page Unit) := ((p.insertTuple ⟨0, 0, 0, 0, ()⟩ 30).map Prod.fst).getD p
  let filled := insert (insert (insert (insert empty)))
  let redirected := (filled.redirectSlot 1 0).getD filled
  let dead := (redirected.markDead 2).getD redirected
  (dead.reclaimSlot 3).getD dead

example : mixedPage.slots.map (fun s => s.lp.flags) = [.normal, .redirect, .dead, .unused] := by decide +kernel

/-- On it, the slot of the dead row is predicted and used, behind the slots of the row and the redirect. -/
theorem predictSlot_installs_mixedPage : mixedPage.prune.1.predictSlot 40 = 2 ∧
    ∃ p', mixedPage.prune.1.insertTupleAt ⟨7, 0, 0, 0, ()⟩ 40 (mixedPage.prune.1.predictSlot 40) = some p' ∧
      p'.tupleAt (mixedPage.prune.1.predictSlot 40) = some ⟨7, 0, 0, 0, ()⟩ ∧
      (p'.linePointer (mixedPage.prune.1.predictSlot 40)).offset + 40 ≤ kDataUpperBound ∧
      ∀ j, j ≠ mixedPage.prune.1.predictSlot 40 → p'.look j = mixedPage.look j :=
  ⟨by decide +kernel, predictSlot_installs mixedPage _ (by decide) (by decide) (by decide +kernel)⟩

/-! ## Redirects -/

/-- The pages that heap operations lead to.  A heap tuple has a header, so that it is not empty. -/
inductive Reached : Page β → Prop
  | empty : Reached empty
  | insertTuple {p p' : Page β} {t : Tuple β} {length slot : ℕ} :
    Reached p → 0 < length → p.insertTuple t length = some (p', slot) → Reached p'
  | insertTupleAt {p p' : Page β} {t : Tuple β} {length slot : ℕ} :
    Reached p → 0 < length → p.insertTupleAt t length slot = some p' → Reached p'
  | markDead {p p' : Page β} {i : ℕ} : Reached p → p.markDead i = some p' → Reached p'
  | reclaimSlot {p p' : Page β} {i : ℕ} : Reached p → p.reclaimSlot i = some p' → Reached p'
  | redirectSlot {p p' : Page β} {i j : ℕ} : Reached p → p.redirectSlot i j = some p' → Reached p'
  | prune {p : Page β} : Reached p → Reached p.prune.1
  /-- the header of a tuple or the LSN is changed -/
  | rewrite {p p' : Page β} : Reached p → p'.slots.map lp = p.slots.map lp → Reached p'

/-- The lowest byte of a live or dead tuple. -/
def lowestTuple (p : Page β) : ℕ := minTupleOffset ((p.slots.map lp).filter holdsSpace)

/-- The end of the line pointers, with one more if none is unused. -/
def gapStart (p : Page β) : ℕ :=
  lpEnd (if p.slots.any fun s => s.lp.flags == .unused then p.numTuples else p.numTuples + 1)

/-- A line pointer with an offset has a tuple there, or redirects to a slot of the page. -/
def Placed (num : ℕ) (l : LinePointer) : Prop :=
  l.offset = 0 ∨ l.holdsSpace = true ∨ l.flags = .redirect ∧ l.offset < num

lemma Placed.mono {n m : ℕ} {l : LinePointer} (h : Placed n l) (hle : n ≤ m) : Placed m l :=
  h.imp_right (Or.imp_right (And.imp_right fun hlt => hlt.trans_le hle))

lemma placed_markNormal {start length : ℕ} (hlen : 0 < length) (num : ℕ) :
    Placed num (markNormal start length) := by
  rcases Nat.eq_zero_or_pos start with rfl | hpos
  · exact .inl rfl
  · exact .inr (.inl (by simp [holdsSpace, markNormal, hpos, hlen]))

lemma Reached.placed (h : Reached p) : ∀ s ∈ p.slots, Placed p.numTuples s.lp := by
  -- one slot is new
  have hset {p p' : Page β} {i : ℕ} {s : Slot β} (h : ∀ s ∈ p.slots, Placed p.numTuples s.lp)
      (hslots : p'.slots = p.slots.set i s) (hs : Placed p.numTuples s.lp) :
    ∀ s ∈ p'.slots, Placed p'.numTuples s.lp := by
    rw [numTuples_of_set hslots, hslots]
    exact fun a ha => (mem_or_eq_of_mem_set ha).elim (h a) fun heq => heq ▸ hs
  have hat {p p' : Page β} {t : Tuple β} {length slot : ℕ} (h : ∀ s ∈ p.slots, Placed p.numTuples s.lp)
      (hlen : 0 < length) (hp : p.insertTupleAt t length slot = some p') :
    ∀ s ∈ p'.slots, Placed p'.numTuples s.lp := by
    intro a ha
    rw [(slots_insertTupleAt hp).2.2.2.2] at ha
    rcases mem_placeAt ha with ha | rfl
    · exact (h a ha).mono (by rw [(insertTupleAt_eq_some hlen hp).2.2.2.1]; exact le_max_left _ _)
    · exact placed_markNormal hlen _
  induction h with
  | empty => exact fun _ hs => nomatch hs
  | insertTuple _ hlen hp ih =>
    rcases insertTuple_cases hp with ⟨s, -, -, -, -, -, hslots⟩ | ⟨-, hp⟩
    · exact hset ih hslots (placed_markNormal hlen _)
    · exact hat ih hlen hp
  | insertTupleAt _ hlen hp ih => exact hat ih hlen hp
  | markDead _ hp ih =>
    obtain ⟨a, -, hv, -, hslots⟩ := slots_markDead hp
    exact hset ih hslots (.inr (.inl (by simp [holdsSpace, LinePointer.markDead, isValid_iff.1 hv])))
  | reclaimSlot _ hp ih =>
    obtain ⟨a, -, -, hslots⟩ := slots_reclaimSlot hp
    exact hset ih hslots (.inl rfl)
  | redirectSlot _ hp ih =>
    obtain ⟨a, -, htarget, -, hslots⟩ := slots_redirectSlot hp
    exact hset ih hslots (.inr (.inr ⟨rfl, htarget⟩))
  | @prune p _ ih =>
    intro b hb
    rw [numTuples, ← p.forall₂_prune.length_eq]
    obtain ⟨a, ha, ⟨-, hv, -⟩ | rfl⟩ := exists_mem_of_forall₂ p.forall₂_prune hb
    · exact .inr (.inl (holdsSpace_of_isValid hv))
    · unfold reclaimDead
      split_ifs
      · exact .inl rfl
      · exact ih a ha
  | rewrite _ hp ih =>
    intro s hs
    obtain ⟨a, ha, hlp⟩ := List.mem_map.1 (hp ▸ mem_map_of_mem hs)
    rw [← hlp, numTuples, ← length_map, hp, length_map]
    exact ih a ha

lemma minTupleOffset_filter {f : LinePointer → Bool} {lps : List LinePointer}
    (h : ∀ l ∈ lps, f l = false → l.offset = 0) : minTupleOffset (lps.filter f) = minTupleOffset lps := by
  induction lps with
  | nil => rfl
  | cons l lps ih =>
    obtain ⟨hl, h⟩ := forall_mem_cons.1 h
    have ih := ih h
    unfold minTupleOffset at ih ⊢
    rw [filter_cons]
    cases hf : f l with
    | false => simp [hl hf, ih]
    | true => simp [ih]

/-- **A redirect takes the free space away**: a tuple that fits into the gap is accepted if and only if no slot is
redirected to another slot than the first, or a dead tuple has room for it. -/
theorem hasEnoughSpace_iff (h : Reached p) {n : ℕ} (hgap : p.gapStart + maxAlign n ≤ p.lowestTuple) :
    p.hasEnoughSpace n = true ↔ (∀ s ∈ p.slots, s.lp.flags = .redirect → s.lp.offset = 0) ∨
      ∃ s ∈ p.slots, s.lp.flags = .dead ∧ maxAlign n ≤ maxAlign s.lp.length := by
  have hpos : 0 < p.gapStart := Nat.add_pos_left (by decide) _
  have henough : p.hasEnoughSpace n = true ↔ p.gapStart + maxAlign n ≤ minTupleOffset (p.slots.map lp) ∨
      ∃ s ∈ p.slots, s.lp.flags = .dead ∧ maxAlign n ≤ maxAlign s.lp.length := by
    rw [hasEnoughSpace, ← gapStart, Bool.or_eq_true, or_comm, Bool.and_eq_true, decide_eq_true_eq, decide_eq_true_eq]
    exact or_congr (by omega) (by simp)
  rw [henough]
  refine or_congr_left' fun _ => ⟨fun hmin s hs hred => ?_, fun hred => ?_⟩
  · -- the array of line pointers is longer than the number of the slot
    rcases h.placed s hs with hzero | hspace | ⟨-, hlt⟩
    · exact hzero
    · simp [holdsSpace, hred] at hspace
    · by_contra hne
      have hle := minTupleOffset_le (mem_map_of_mem hs) (Nat.pos_of_ne_zero hne)
      unfold gapStart lpEnd kLinePointerSize at hmin
      split_ifs at hmin <;> omega
  · rwa [← minTupleOffset_filter (f := holdsSpace)]
    intro l hl hspace
    obtain ⟨s, hs, rfl⟩ := List.mem_map.1 hl
    rcases h.placed s hs with hzero | hspace' | ⟨hflags, -⟩
    · exact hzero
    · cases hspace.symm.trans hspace'
    · exact hred s hs hflags

/-- Two rows, the second with a redirect to the first in its place, and a dead row: a redirect to the first slot
takes nothing away. -/
theorem hasEnoughSpace_redirect_first : ∃ p : Page Unit, Reached p ∧
    p.slots.map (fun s => (s.lp.flags, s.lp.offset)) = [(.normal, 8152), (.redirect, 0), (.dead, 8088)] ∧
    p.hasEnoughSpace 30 = true :=
  have hinsert (p : Page Unit) {p' : Page Unit} {slot : ℕ} (h : Reached p)
      (hp : p.insertTuple ⟨0, 0, 0, 0, ()⟩ 30 = some (p', slot)) : Reached p' := .insertTuple h (by decide) hp
  have hreached := Reached.markDead (i := 2) (.redirectSlot (i := 1) (j := 0)
    (hinsert _ (hinsert _ (hinsert _ .empty rfl) rfl) rfl) rfl) rfl
  ⟨_, hreached, by decide +kernel, (hasEnoughSpace_iff hreached (by decide +kernel)).2 (.inl (by decide +kernel))⟩

/-- A row is inserted and updated on its page, and the old version gives way to a redirect to the new one. -/
theorem not_hasEnoughSpace_redirect : ∃ p : Page Unit, Reached p ∧ p.gapStart + maxAlign 30 ≤ p.lowestTuple ∧
    p.hasEnoughSpace 30 = false :=
  have hinsert (p : Page Unit) {p' : Page Unit} {slot : ℕ} (h : Reached p)
      (hp : p.insertTuple ⟨0, 0, 0, 0, ()⟩ 30 = some (p', slot)) : Reached p' := .insertTuple h (by decide) hp
  ⟨_, .redirectSlot (i := 0) (j := 1) (hinsert _ (hinsert _ .empty rfl) rfl) rfl, by decide, by decide⟩

end MiniDb.Page
