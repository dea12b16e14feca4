import MiniDb.Storage.PageServer

/-!
# Concurrent writes to a page server

A `write_page` call takes up to three steps: the append, under the server's latch; the record, under the shard's latch,
where it is decided whether the image is the newest one; and the write of the primary copy.  The LSNs of the calls for
a page are distinct.

Between its decision and its write a call holds no latch, so a call with a higher LSN may write in between and then be
overwritten.  `newestStored_of_latestPending`: as long as no call writes the primary copy after the call with the
highest LSN so far has written it, the primary copy is the newest image when all calls have returned.
-/

namespace MiniDb

open List PageServer

inductive WriteStage where
  | appended (walOffset : ℕ)
  /-- the image was recorded as the newest one, and the primary copy is not yet written -/
  | newest
  deriving DecidableEq

/-- A call that has not returned. -/
structure WriteCall (τ : Type*) where
  write : AcceptedWrite τ
  stage : WriteStage

def WriteCall.is {τ : Type*} (c : WriteCall τ) (pageId lsn : ℕ) : Bool :=
  c.write.pageId == pageId && c.write.lsn == lsn

/-- A page server, the writes it has accepted and the calls that have not returned. -/
structure PageServerCalls (τ : Type*) where
  server : PageServer τ
  accepted : List (AcceptedWrite τ)
  calls : List (WriteCall τ)

inductive WriteAction (τ : Type*) where
  | append (pageId : ℕ) (data : τ) (pageLsn : ℕ)
  | record (pageId lsn : ℕ)
  | writePrimary (pageId lsn : ℕ)
  | setDurableLsn (lsn : ℕ)

namespace PageServerCalls

variable {τ : Type*} (fmt : PageFormat τ)

def init : PageServerCalls τ := ⟨.init fmt, [], []⟩

section

variable (s : PageServerCalls τ)

/-- The calls but the one with this page and LSN. -/
def others (pageId lsn : ℕ) : List (WriteCall τ) := s.calls.filter fun c => !c.is pageId lsn

def find (pageId lsn : ℕ) : Option (WriteCall τ) := s.calls.find? fun c => c.is pageId lsn

def step : WriteAction τ → Option (PageServerCalls τ)
  | .append pageId data pageLsn =>
    let lsn := PageServer.writeLsn fmt data pageLsn
    -- the LSNs of a page are distinct
    if s.accepted.any fun w => w.pageId == pageId && w.lsn == lsn then none
    else if s.server.accepts lsn then
      let (server, walOffset) := s.server.appendWalImage pageId data lsn
      some ⟨server, ⟨pageId, lsn, data⟩ :: s.accepted, ⟨⟨pageId, lsn, data⟩, .appended walOffset⟩ :: s.calls⟩
    else some s
  | .record pageId lsn =>
    match s.find pageId lsn with
    | some ⟨w, .appended walOffset⟩ =>
      let (server, isNewest) := s.server.recordImage pageId lsn walOffset
      some ⟨server, s.accepted,
        if isNewest then ⟨w, .newest⟩ :: s.others pageId lsn else s.others pageId lsn⟩
    | _ => none
  | .writePrimary pageId lsn =>
    match s.find pageId lsn with
    | some ⟨w, .newest⟩ => some ⟨s.server.writePrimary fmt pageId w.data, s.accepted, s.others pageId lsn⟩
    | _ => none
  | .setDurableLsn lsn => some { s with server := s.server.setDurableLsn lsn }

/-- When all calls for a page have returned, its primary copy is the image with the highest LSN. -/
def NewestStored : Prop :=
  ∀ w, NewestWrite s.accepted w → (∀ c ∈ s.calls, c.write.pageId ≠ w.pageId) →
    s.server.readPage w.pageId = fmt.stamp w.data

/-- The condition on a step: a call writes the primary copy only if its LSN is the highest one recorded, or the call
with that LSN is still to write it. -/
def LatestPending : WriteAction τ → Prop
  | .writePrimary pageId lsn =>
    ∀ l ∈ s.server.latestLsn pageId, l = lsn ∨ ∃ c ∈ s.calls, c.is pageId l = true
  | _ => True

end

instance (s : PageServerCalls τ) : DecidablePred s.LatestPending
  | .writePrimary pageId lsn =>
    inferInstanceAs (Decidable (∀ l ∈ s.server.latestLsn pageId, l = lsn ∨ ∃ c ∈ s.calls, c.is pageId l = true))
  | .append _ _ _ | .record _ _ | .setDurableLsn _ => isTrue trivial

variable {fmt} {s s' : PageServerCalls τ} {c : WriteCall τ} {pageId lsn walOffset : ℕ} {w : AcceptedWrite τ}

lemma is_iff : c.is pageId lsn = true ↔ c.write.pageId = pageId ∧ c.write.lsn = lsn := by
  simp [WriteCall.is]

lemma mem_others : c ∈ s.others pageId lsn ↔ c ∈ s.calls ∧ ¬ (c.write.pageId = pageId ∧ c.write.lsn = lsn) := by
  simp [others, ← Bool.not_eq_true, is_iff]

/-- The LSN is recorded: accepted, and not waiting for the shard's latch. -/
def Recorded (s : PageServerCalls τ) (p lsn : ℕ) : Prop :=
  (∃ w ∈ s.accepted, w.pageId = p ∧ w.lsn = lsn) ∧
    ∀ c ∈ s.calls, c.write.pageId = p → c.write.lsn = lsn → c.stage = .newest

structure Inv (fmt : PageFormat τ) (s : PageServerCalls τ) : Prop where
  indexed : s.server.Indexed s.Recorded
  distinct : ∀ w ∈ s.accepted, ∀ w' ∈ s.accepted, w.pageId = w'.pageId → w.lsn = w'.lsn → w = w'
  accepted : ∀ c ∈ s.calls, c.write ∈ s.accepted
  unique : ∀ c ∈ s.calls, ∀ c' ∈ s.calls, c.write = c'.write → c = c'
  primary : ∀ p l, s.server.latestLsn p = some l → (∃ c ∈ s.calls, c.write.pageId = p ∧ c.write.lsn = l) ∨
    ∃ w ∈ s.accepted, w.pageId = p ∧ w.lsn = l ∧ s.server.primary p = fmt.stamp w.data

section

variable (h : s.Inv fmt)
include h

lemma Inv.newestStored : s.NewestStored fmt := by
  intro w hw hquiet
  have hrec : ∀ x ∈ s.accepted, x.pageId = w.pageId → s.Recorded w.pageId x.lsn := fun x hx hp =>
    ⟨⟨x, hx, hp, rfl⟩, fun c hc hp' _ => absurd hp' (hquiet c hc)⟩
  cases hlatest : s.server.latestLsn w.pageId with
  | none => exact absurd (hrec w hw.mem rfl) (h.indexed.unknown w.pageId hlatest w.lsn)
  | some l =>
    obtain ⟨⟨⟨x, hx, hxp, rfl⟩, -⟩, hmax⟩ := h.indexed.latest w.pageId l hlatest
    have hl : x.lsn = w.lsn := le_antisymm (hw.le hx hxp) (hmax w.lsn (hrec w hw.mem rfl))
    rcases h.primary w.pageId x.lsn hlatest with ⟨c, hc, hp, -⟩ | ⟨w', hw', hp, hl', hprimary⟩
    · exact absurd hp (hquiet c hc)
    · rw [readPage, hprimary, h.distinct w' hw' w hw.mem hp (hl'.trans hl)]

/-- A call begins, with an LSN that its page has not had yet. -/
lemma Inv.append {data : τ} (hfresh : ∀ x ∈ s.accepted, x.pageId = pageId → x.lsn ≠ lsn) :
    Inv fmt ⟨(s.server.appendWalImage pageId data lsn).1, ⟨pageId, lsn, data⟩ :: s.accepted,
      ⟨⟨pageId, lsn, data⟩, .appended walOffset⟩ :: s.calls⟩ where
  indexed := by
    refine h.indexed.congr rfl rfl fun p l => ⟨?_, ?_⟩
    · rintro ⟨⟨w, hw, hp, hl⟩, hcalls⟩
      rcases mem_cons.1 hw with rfl | hw
      · exact nomatch hcalls _ mem_cons_self hp hl
      · exact ⟨⟨w, hw, hp, hl⟩, fun c hc => hcalls c (mem_cons_of_mem _ hc)⟩
    · rintro ⟨⟨w, hw, hp, hl⟩, hcalls⟩
      refine ⟨⟨w, mem_cons_of_mem _ hw, hp, hl⟩, fun c hc hcp hcl => ?_⟩
      rcases mem_cons.1 hc with rfl | hc
      · exact absurd (hl.trans hcl.symm) (hfresh w hw (hp.trans hcp.symm))
      · exact hcalls c hc hcp hcl
  distinct := by
    intro w hw w' hw' hp hl
    rcases mem_cons.1 hw with rfl | hw <;> rcases mem_cons.1 hw' with rfl | hw'
    · rfl
    · exact absurd hl.symm (hfresh w' hw' hp.symm)
    · exact absurd hl (hfresh w hw hp)
    · exact h.distinct w hw w' hw' hp hl
  accepted := by
    intro c hc
    rcases mem_cons.1 hc with rfl | hc
    · exact mem_cons_self
    · exact mem_cons_of_mem _ (h.accepted c hc)
  unique := by
    have hnew : ∀ c ∈ s.calls, c.write ≠ ⟨pageId, lsn, data⟩ := by
      intro c hc heq
      exact hfresh c.write (h.accepted c hc) (congrArg _ heq) (congrArg _ heq)
    intro c hc c' hc' heq
    rcases mem_cons.1 hc with rfl | hc <;> rcases mem_cons.1 hc' with rfl | hc'
    · rfl
    · exact absurd heq.symm (hnew c' hc')
    · exact absurd heq (hnew c hc)
    · exact h.unique c hc c' hc' heq
  primary := by
    intro p l hlatest
    rcases h.primary p l hlatest with ⟨c, hc, hcl⟩ | ⟨w, hw, hwl⟩
    · exact .inl ⟨c, mem_cons_of_mem _ hc, hcl⟩
    · exact .inr ⟨w, mem_cons_of_mem _ hw, hwl⟩

omit h in
lemma find_eq_some (hfind : s.find pageId lsn = some c) :
    c ∈ s.calls ∧ c.write.pageId = pageId ∧ c.write.lsn = lsn := by
  have his := find?_some (p := fun c : WriteCall τ => c.is pageId lsn) hfind
  exact ⟨mem_of_find?_eq_some hfind, is_iff.1 his⟩

lemma Inv.record (hfind : s.find pageId lsn = some ⟨w, .appended walOffset⟩) :
    Inv fmt ⟨(s.server.recordImage pageId lsn walOffset).1, s.accepted,
      if (s.server.recordImage pageId lsn walOffset).2 then ⟨w, .newest⟩ :: s.others pageId lsn
      else s.others pageId lsn⟩ := by
  obtain ⟨hmem, hwp, hwl⟩ := find_eq_some hfind
  have hw := h.accepted _ hmem
  have hnot : ¬ s.Recorded pageId lsn := fun hrec => nomatch hrec.2 _ hmem hwp hwl
  rcases h.indexed.recordImage pageId lsn walOffset with ⟨-, hrec, -⟩ | ⟨-, isNewest, heq, hmax⟩
  · exact absurd hrec hnot
  rw [heq]
  -- whatever becomes of the call, the calls of other LSNs stay
  have hcalls : ∀ c ∈ (if isNewest then ⟨w, .newest⟩ :: s.others pageId lsn else s.others pageId lsn),
      c.write.pageId = pageId ∧ c.write.lsn = lsn ∧ c.stage = .newest ∧ c.write = w ∨
        c ∈ s.calls ∧ ¬ (c.write.pageId = pageId ∧ c.write.lsn = lsn) := by
    intro c hc
    split_ifs at hc
    · rcases mem_cons.1 hc with rfl | hc
      · exact .inl ⟨hwp, hwl, rfl, rfl⟩
      · exact .inr (mem_others.1 hc)
    · exact .inr (mem_others.1 hc)
  have hkept : ∀ c ∈ s.calls, ¬ (c.write.pageId = pageId ∧ c.write.lsn = lsn) →
      c ∈ (if isNewest then ⟨w, .newest⟩ :: s.others pageId lsn else s.others pageId lsn) := by
    intro c hc hne
    split_ifs
    · exact mem_cons_of_mem _ (mem_others.2 ⟨hc, hne⟩)
    · exact mem_others.2 ⟨hc, hne⟩
  refine ⟨(h.indexed.rememberVersion pageId lsn walOffset).congr rfl rfl fun p l => ⟨?_, ?_⟩, h.distinct, ?_, ?_, ?_⟩
  · rintro ⟨haccepted, hstage⟩
    by_cases hpl : p = pageId ∧ l = lsn
    · exact .inr hpl
    · refine .inl ⟨haccepted, fun c hc hp hl => hstage c (hkept c hc ?_) hp hl⟩
      rw [hp, hl]
      exact hpl
  · rintro (⟨haccepted, hstage⟩ | ⟨rfl, rfl⟩)
    · refine ⟨haccepted, fun c hc hp hl => ?_⟩
      rcases hcalls c hc with ⟨-, -, hnewest, -⟩ | ⟨hc, -⟩
      · exact hnewest
      · exact hstage c hc hp hl
    · refine ⟨⟨w, hw, hwp, hwl⟩, fun c hc hp hl => ?_⟩
      rcases hcalls c hc with ⟨-, -, hnewest, -⟩ | ⟨-, hne⟩
      · exact hnewest
      · exact absurd ⟨hp, hl⟩ hne
  · intro c hc
    rcases hcalls c hc with ⟨-, -, -, heq⟩ | ⟨hc, -⟩
    · rw [heq]
      exact hw
    · exact h.accepted c hc
  · intro c hc c' hc' heq
    rcases hcalls c hc with ⟨hp, hl, hstage, -⟩ | ⟨hc, hne⟩ <;>
      rcases hcalls c' hc' with ⟨hp', hl', hstage', -⟩ | ⟨hc', hne'⟩
    · obtain ⟨wc, stage⟩ := c
      obtain ⟨wc', stage'⟩ := c'
      cases heq
      cases hstage
      cases hstage'
      rfl
    · exact absurd ⟨heq ▸ hp, heq ▸ hl⟩ hne'
    · exact absurd ⟨heq ▸ hp', heq ▸ hl'⟩ hne
    · exact h.unique c hc c' hc' heq
  · intro p l hlatest
    rcases (h.indexed.rememberVersion pageId lsn walOffset).latest p l hlatest with ⟨hl | ⟨rfl, rfl⟩, hhigh⟩
    · -- the highest LSN is the one from before
      have hne : ¬ (p = pageId ∧ l = lsn) := by
        rintro ⟨rfl, rfl⟩
        exact hnot hl
      rcases h.primary p l (h.indexed.latest_eq hl fun l' hl' => hhigh l' (.inl hl')) with ⟨c, hc, hcp, hcl⟩ | hstored
      · exact .inl ⟨c, hkept c hc (by rw [hcp, hcl]; exact hne), hcp, hcl⟩
      · exact .inr hstored
    · have hnewest : isNewest = true := hmax.2 fun l' hl' => hhigh l' (.inl hl')
      refine .inl ⟨⟨w, .newest⟩, ?_, hwp, hwl⟩
      rw [if_pos hnewest]
      exact mem_cons_self

lemma Inv.writePrimary (hpending : s.LatestPending (.writePrimary pageId lsn))
    (hfind : s.find pageId lsn = some ⟨w, .newest⟩) :
    Inv fmt ⟨s.server.writePrimary fmt pageId w.data, s.accepted, s.others pageId lsn⟩ := by
  obtain ⟨hmem, hwp, hwl⟩ := find_eq_some hfind
  have hw := h.accepted _ hmem
  refine ⟨h.indexed.congr rfl rfl fun p l => ?_, h.distinct, fun c hc => h.accepted c (mem_others.1 hc).1,
    fun c hc c' hc' => h.unique c (mem_others.1 hc).1 c' (mem_others.1 hc').1, fun p l hlatest => ?_⟩
  · refine and_congr_right fun haccepted => ⟨fun hstage c hc hp hl => ?_, fun hstage c hc => ?_⟩
    · by_cases hpl : c.write.pageId = pageId ∧ c.write.lsn = lsn
      · have hcw := h.distinct c.write (h.accepted c hc) w hw (hpl.1.trans hwp.symm) (hpl.2.trans hwl.symm)
        rw [h.unique c hc _ hmem hcw]
      · exact hstage c (mem_others.2 ⟨hc, hpl⟩) hp hl
    · exact hstage c (mem_others.1 hc).1
  · by_cases hp : p = pageId
    · subst hp
      rcases hpending l hlatest with rfl | ⟨c, hc, his⟩
      · exact .inr ⟨w, hw, hwp, hwl, by simp [PageServer.writePrimary]⟩
      · obtain ⟨hcp, hcl⟩ := is_iff.1 his
        by_cases hl : l = lsn
        · subst hl
          exact .inr ⟨w, hw, hwp, hwl, by simp [PageServer.writePrimary]⟩
        · exact .inl ⟨c, mem_others.2 ⟨hc, fun hpl => hl (hcl.symm.trans hpl.2)⟩, hcp, hcl⟩
    · have hprimary : (s.server.writePrimary fmt pageId w.data).primary p = s.server.primary p := by
        simp [PageServer.writePrimary, hp]
      rw [hprimary]
      rcases h.primary p l hlatest with ⟨c, hc, hcp, hcl⟩ | hstored
      · exact .inl ⟨c, mem_others.2 ⟨hc, fun hpl => hp (hcp.symm.trans hpl.1)⟩, hcp, hcl⟩
      · exact .inr hstored

lemma Inv.step {a : WriteAction τ} (hpending : s.LatestPending a) (hs : s.step fmt a = some s') :
    s'.Inv fmt := by
  cases a with
  | append pageId data pageLsn =>
    simp only [PageServerCalls.step] at hs
    split_ifs at hs with hused hacc
    · cases hs
      refine h.append fun x hx hp hl => hused ?_
      exact any_eq_true.2 ⟨x, hx, by simp [hp, hl]⟩
    · cases hs
      exact h
  | record pageId lsn =>
    simp only [PageServerCalls.step] at hs
    split at hs
    · next w walOffset hfind =>
      cases hs
      exact h.record hfind
    · cases hs
  | writePrimary pageId lsn =>
    simp only [PageServerCalls.step] at hs
    split at hs
    · next w hfind =>
      cases hs
      exact h.writePrimary hpending hfind
    · cases hs
  | setDurableLsn lsn =>
    cases hs
    have hserver : (s.server.setDurableLsn lsn).logIndex = s.server.logIndex ∧
        (s.server.setDurableLsn lsn).latestLsn = s.server.latestLsn ∧
        (s.server.setDurableLsn lsn).primary = s.server.primary := by
      rw [setDurableLsn]
      split_ifs
      · exact ⟨rfl, rfl, rfl⟩
      · exact ⟨rfl, rfl, rfl⟩
    refine ⟨h.indexed.congr hserver.1 hserver.2.1 fun _ _ => Iff.rfl, h.distinct, h.accepted, h.unique, ?_⟩
    rw [hserver.2.1, hserver.2.2]
    exact h.primary

end

lemma inv_init (fmt : PageFormat τ) : (init fmt).Inv fmt where
  indexed := (indexed_init fmt).congr rfl rfl fun p lsn => by simp [Recorded, init]
  distinct := fun w hw => nomatch hw
  accepted := fun c hc => nomatch hc
  unique := fun c hc => nomatch hc
  primary := fun p l hl => nomatch hl

/-- **The newest image is stored when all calls have returned**, as long as nobody writes the primary copy after the
call with the highest LSN. -/
theorem newestStored_of_latestPending (fmt : PageFormat τ) {acts : List (WriteAction τ)}
    (hpending : StepsMeet (step fmt) LatestPending (init fmt) acts) :
    Always (step fmt) (NewestStored fmt) (init fmt) acts :=
  always_of_invariant (fun _ _ _ h hp hs => h.step hp hs) (fun _ h => h.newestStored) (inv_init fmt) hpending

/-- Two calls, of which the one with the lower LSN decides and writes first. -/
theorem newestStored_in_order :
    Always (step plainFormat) (NewestStored plainFormat) (init plainFormat)
      [.append 7 (5, 1) 5, .append 7 (9, 2) 9, .record 7 5, .record 7 9, .writePrimary 7 5, .writePrimary 7 9] :=
  newestStored_of_latestPending plainFormat (by decide)

/-- Two calls, of which the one with the lower LSN decides first and writes last. -/
theorem older_image_stored_last :
    ¬ Always (step plainFormat) (NewestStored plainFormat) (init plainFormat)
      [.append 7 (5, 1) 5, .append 7 (9, 2) 9, .record 7 5, .record 7 9, .writePrimary 7 9, .writePrimary 7 5] := by
  intro h
  have hnewest : NewestWrite [⟨7, 9, (9, 2)⟩, ⟨7, 5, (5, 1)⟩] (⟨7, 9, (9, 2)⟩ : AcceptedWrite (ℕ × ℕ)) :=
    ⟨[], _, rfl, by simp, by simp⟩
  have hread := h.last rfl ⟨7, 9, (9, 2)⟩ hnewest fun c hc => nomatch hc
  exact absurd hread (by decide)

end PageServerCalls

end MiniDb
