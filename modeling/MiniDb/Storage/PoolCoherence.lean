import MiniDb.Storage.PoolPhases

/-!
# What a fetched page contains

`content` is what was last written to each page through the pool.  A frame *claims* the page that it has, and also the
old page of its victim as long as that one is dirty and not written.  `Coherent` says that a page has at most one
claim, that the frame with the claim has the contents, and that without a claim the store has them.

In the page table a page whose frame is a dirty victim is missing, so that a call that asks for it reads the old image
from the store.  And a frame that has been taken by a call has the new page id but still the old contents and dirty
flag, so that a flush writes the old page under the id of the new one.  `fetchCoherent_of_undisturbed`: if neither
happens, every fetch returns what was last written.
-/

namespace MiniDb

open Function List BufferPool

variable {γ : Type*}

namespace PoolCall

/-- The frame will get contents of its own, whatever the store has. -/
def Overwrites (c : PoolCall γ) : Prop := (∃ page, c.kind = .new page) ∧ c.stage = .written

/-- A flush does no harm: the call will put other contents into the frame, or has read the page and the write succeeds. -/
def settled (c : PoolCall γ) (result : IoResult γ) : Bool :=
  match c.kind, c.stage, result with
  | .new _, .written, _ => true
  | .fetch _, .loaded, .ok => true
  | _, _, _ => false

end PoolCall

variable {content : ℕ → PageData γ} {x : HeldPage}

namespace PhasedPool

section

variable (s : PhasedPool γ)

/-- The old page of the victim is dirty and has not been written. -/
def Unsaved (i : ℕ) (c : PoolCall γ) : Prop :=
  c.evictPageId ≠ kNullPageId ∧
    (c.stage = .reserved ∧ (s.pool.frames i).isDirty = true ∨ c.stage = .writeFailed)

/-- The page that a call of `fetch_page` returns with this step has what was last written to it. -/
def FetchCoherent : PhaseAction γ → Prop
  | .hit pageId => ∀ i, s.pool.resident pageId = some i → (s.pool.frames i).page = s.content pageId
  | .reserve pageId _ => ∀ i, s.pool.resident pageId = some i → (s.pool.frames i).page = s.content pageId
  | .finish i => ∀ c ∈ s.calls i, c.stage = .loaded → (s.pool.frames i).page = s.content c.pageId
  | _ => True

/-- A dirty frame that a call has taken is flushed only if that does no harm. -/
def FlushSafe (i : ℕ) (result : IoResult γ) : Prop :=
  (s.pool.frames i).isDirty = true → ∀ c ∈ s.calls i, c.settled result = true

/-- The condition on a step: a page is not asked for while its dirty contents wait to be written, and a frame that a
call has taken is not flushed. -/
def Undisturbed : PhaseAction γ → Prop
  | .reserve pageId _ => s.pool.findPageMapping pageId = none →
      ∀ i < s.pool.poolSize, ∀ c ∈ s.calls i, s.Unsaved i c → c.evictPageId ≠ pageId
  | .flushPage pageId result => ∀ i ∈ s.pool.findPageMapping pageId, s.FlushSafe i result
  | .flushFrame i result => s.FlushSafe i result
  | _ => True

instance (s : PhasedPool γ) (i : ℕ) (c : PoolCall γ) : Decidable (s.Unsaved i c) :=
  inferInstanceAs (Decidable (_ ∧ _))

instance (s : PhasedPool γ) (i : ℕ) (result : IoResult γ) : Decidable (s.FlushSafe i result) :=
  inferInstanceAs (Decidable (_ → ∀ c ∈ s.calls i, _))

instance (s : PhasedPool γ) : DecidablePred s.Undisturbed
  | .reserve _ _ => inferInstanceAs (Decidable (_ → ∀ i < s.pool.poolSize, ∀ c ∈ s.calls i, _))
  | .flushPage pageId _ => inferInstanceAs (Decidable (∀ i ∈ s.pool.findPageMapping pageId, _))
  | .flushFrame i result => inferInstanceAs (Decidable (s.FlushSafe i result))
  | .hit _ | .writeBack _ _ | .restore _ | .read _ _ | .drop _ | .finish _ | .unpin _ | .edit _ _ | .markDirty _
  | .setPageLsn _ _ => isTrue trivial

/-- The frame answers for the page. -/
def Claims (i pageId : ℕ) : Prop :=
  (s.pool.frames i).pageId = pageId ∨ ∃ c ∈ s.calls i, s.Unsaved i c ∧ c.evictPageId = pageId

end

/-- What a frame has to do with the contents of the pages that it claims. -/
structure FrameOk (s : PhasedPool γ) (i : ℕ) : Prop where
  resident : (s.pool.frames i).pageId ≠ kNullPageId → (s.pool.frames i).isIoInProgress = false →
    (s.pool.frames i).page = s.content (s.pool.frames i).pageId
  clean : (s.pool.frames i).pageId ≠ kNullPageId → (s.pool.frames i).isIoInProgress = false →
    (s.pool.frames i).isDirty = false → (∀ x ∈ s.held, x.frame = i → x.edited = false) →
    s.store (s.pool.frames i).pageId = s.content (s.pool.frames i).pageId
  unsaved : ∀ c ∈ s.calls i, s.Unsaved i c →
    (s.pool.frames i).page = s.content c.evictPageId ∧ (s.pool.frames i).isDirty = true
  loading : ∀ c ∈ s.calls i, c.Overwrites ∨ s.store c.pageId = s.content c.pageId
  loaded : ∀ c ∈ s.calls i, c.stage = .loaded → (s.pool.frames i).page = s.content c.pageId

structure Coherent (s : PhasedPool γ) : Prop extends s.Inv where
  frame : ∀ i, s.FrameOk i
  exclusive : ∀ i j x, x ≠ kNullPageId → s.Claims i x → s.Claims j x → i = j
  saved : ∀ x, x ≠ kNullPageId → (∀ i, ¬ s.Claims i x) → s.store x = s.content x

section

variable {s s' : PhasedPool γ}

variable {i pageId : ℕ} {c : PoolCall γ} {f : Frame γ} {result : IoResult γ} {pool : BufferPool γ}

/-- **One frame changes**, and the store and the contents only for pages that the frame has claimed. -/
lemma Coherent.update (h : s.Coherent) (hinv : s'.Inv)
    (hframes : s'.pool.frames = update s.pool.frames i f) (hcalls : ∀ j, j ≠ i → s'.calls j = s.calls j)
    (htouch : ∀ x, ¬ s.Claims i x → s'.store x = s.store x ∧ s'.content x = s.content x)
    (hheld : ∀ j, j ≠ i → (∀ x ∈ s'.held, x.frame = j → x.edited = false) →
      ∀ x ∈ s.held, x.frame = j → x.edited = false)
    (hnew : ∀ x, x ≠ kNullPageId → s'.Claims i x → s.Claims i x ∨ ∀ j, ¬ s.Claims j x)
    (hgone : ∀ x, x ≠ kNullPageId → s.Claims i x → ¬ s'.Claims i x → s'.store x = s'.content x)
    (hframe : s'.FrameOk i) : s'.Coherent := by
  have hother : ∀ j, j ≠ i → s'.pool.frames j = s.pool.frames j := by
    intro j hj
    rw [hframes, update_of_ne hj]
  have hunsaved : ∀ j, j ≠ i → ∀ c, s'.Unsaved j c ↔ s.Unsaved j c := by
    intro j hj c
    rw [Unsaved, Unsaved, hother j hj]
  have hclaims : ∀ j, j ≠ i → ∀ x, s'.Claims j x ↔ s.Claims j x := by
    intro j hj x
    simp [Claims, hother j hj, hcalls j hj, hunsaved j hj]
  -- what another frame claims is left alone
  have hkept : ∀ j, j ≠ i → ∀ x, x ≠ kNullPageId → s.Claims j x →
      s'.store x = s.store x ∧ s'.content x = s.content x := by
    intro j hj x hx hclaim
    exact htouch x fun hi => hj (h.exclusive j i x hx hclaim hi)
  have hframes' : ∀ j, s'.FrameOk j := by
    intro j
    by_cases hj : j = i
    · rw [hj]
      exact hframe
    · have hok := h.frame j
      refine ⟨fun hnull hio => ?_, fun hnull hio hdirty hno => ?_, fun c hc hun => ?_, fun c hc => ?_,
        fun c hc hstage => ?_⟩
      · rw [hother j hj] at hnull hio ⊢
        rw [(hkept j hj _ hnull (.inl rfl)).2]
        exact hok.resident hnull hio
      · rw [hother j hj] at hnull hio hdirty ⊢
        rw [(hkept j hj _ hnull (.inl rfl)).2, (hkept j hj _ hnull (.inl rfl)).1]
        exact hok.clean hnull hio hdirty (hheld j hj hno)
      · rw [hcalls j hj] at hc
        rw [hunsaved j hj] at hun
        rw [hother j hj, (hkept j hj _ hun.1 (.inr ⟨c, hc, hun, rfl⟩)).2]
        exact hok.unsaved c hc hun
      · rw [hcalls j hj] at hc
        have hcall := h.call j c hc
        obtain ⟨hstore, hcontent⟩ := hkept j hj c.pageId hcall.notNull (.inl hcall.page)
        rw [hstore, hcontent]
        exact hok.loading c hc
      · rw [hcalls j hj] at hc
        have hcall := h.call j c hc
        rw [hother j hj, (hkept j hj c.pageId hcall.notNull (.inl hcall.page)).2]
        exact hok.loaded c hc hstage
  have hback : ∀ j x, x ≠ kNullPageId → s'.Claims j x → s.Claims j x ∨ j = i ∧ ∀ k, ¬ s.Claims k x := by
    intro j x hx hclaim
    by_cases hj : j = i
    · subst hj
      exact (hnew x hx hclaim).imp_right fun hno => ⟨rfl, hno⟩
    · exact .inl ((hclaims j hj x).1 hclaim)
  refine ⟨hinv, hframes', fun j k x hx hj hk => ?_, fun x hx hno => ?_⟩
  · rcases hback j x hx hj with hj | ⟨rfl, hj⟩
    · rcases hback k x hx hk with hk | ⟨rfl, hk⟩
      · exact h.exclusive j k x hx hj hk
      · exact absurd hj (hk j)
    · rcases hback k x hx hk with hk | ⟨rfl, -⟩
      · exact absurd hk (hj k)
      · rfl
  · by_cases hi : s.Claims i x
    · exact hgone x hx hi (hno i)
    · have hfree : ∀ j, ¬ s.Claims j x := by
        intro j hj
        by_cases hji : j = i
        · exact hi (hji ▸ hj)
        · exact hno j ((hclaims j hji x).2 hj)
      rw [(htouch x hi).1, (htouch x hi).2]
      exact h.saved x hx hfree

lemma not_unsaved (hreserved : c.stage ≠ .reserved) (hfailed : c.stage ≠ .writeFailed) : ¬ s.Unsaved i c := by
  rintro ⟨-, ⟨hstage, -⟩ | hstage⟩
  · exact hreserved hstage
  · exact hfailed hstage

lemma not_overwrites (hstage : c.stage ≠ .written) : ¬ c.Overwrites := fun h => hstage h.2

lemma claims_of_none (hnone : s.calls i = none) (x : ℕ) : s.Claims i x ↔ (s.pool.frames i).pageId = x := by
  simp [Claims, hnone]

lemma claims_of_some (hc : s.calls i = some c) (x : ℕ) :
    s.Claims i x ↔ (s.pool.frames i).pageId = x ∨ s.Unsaved i c ∧ c.evictPageId = x := by
  simp [Claims, hc]

lemma frameOk_of_none (hnone : s.calls i = none)
    (hresident : (s.pool.frames i).pageId ≠ kNullPageId → (s.pool.frames i).isIoInProgress = false →
      (s.pool.frames i).page = s.content (s.pool.frames i).pageId)
    (hclean : (s.pool.frames i).pageId ≠ kNullPageId → (s.pool.frames i).isIoInProgress = false →
      (s.pool.frames i).isDirty = false → (∀ x ∈ s.held, x.frame = i → x.edited = false) →
      s.store (s.pool.frames i).pageId = s.content (s.pool.frames i).pageId) : s.FrameOk i where
  resident := hresident
  clean := hclean
  unsaved := fun c hc => by simp [hnone] at hc
  loading := fun c hc => by simp [hnone] at hc
  loaded := fun c hc => by simp [hnone] at hc

lemma frameOk_of_some (hc : s.calls i = some c) (hio : (s.pool.frames i).isIoInProgress = true)
    (hunsaved : s.Unsaved i c → (s.pool.frames i).page = s.content c.evictPageId ∧ (s.pool.frames i).isDirty = true)
    (hloading : c.Overwrites ∨ s.store c.pageId = s.content c.pageId)
    (hloaded : c.stage = .loaded → (s.pool.frames i).page = s.content c.pageId) : s.FrameOk i where
  resident := fun _ hno => by simp [hio] at hno
  clean := fun _ hno => by simp [hio] at hno
  unsaved := by simpa [hc] using hunsaved
  loading := by simpa [hc] using hloading
  loaded := by simpa [hc] using hloaded

section

variable (h : s.Coherent)
include h

lemma Coherent.unmapped (a : PhaseAction γ) : s.Unmapped a := by
  cases a with
  | restore i =>
    intro c hc hstage
    have hcall := h.call i c hc
    have hevict := hcall.failed hstage
    cases hmap : s.pool.findPageMapping c.evictPageId with
    | none => rfl
    | some j =>
      obtain ⟨-, hpage, -⟩ := h.tidy.of_findPageMapping hmap
      have hclaim : s.Claims i c.evictPageId := .inr ⟨c, hc, ⟨hevict, .inr hstage⟩, rfl⟩
      obtain rfl := h.exclusive i j _ hevict hclaim (.inl hpage)
      exact absurd (hpage.symm.trans hcall.page) (hcall.evicted hevict).2
  | _ => trivial

/-- A frame that no call has taken changes, and keeps its page. -/
lemma Coherent.touch (hinv : s'.Inv) (hnone : s.calls i = none)
    (hframes : s'.pool.frames = Function.update s.pool.frames i f) (hcalls : s'.calls = s.calls)
    (hpage : f.pageId = (s.pool.frames i).pageId)
    (htouch : ∀ x, x ≠ (s.pool.frames i).pageId → s'.store x = s.store x ∧ s'.content x = s.content x)
    (hheld : ∀ j, j ≠ i → (∀ x ∈ s'.held, x.frame = j → x.edited = false) →
      ∀ x ∈ s.held, x.frame = j → x.edited = false)
    (hresident : f.pageId ≠ kNullPageId → f.isIoInProgress = false → f.page = s'.content f.pageId)
    (hclean : f.pageId ≠ kNullPageId → f.isIoInProgress = false → f.isDirty = false →
      (∀ x ∈ s'.held, x.frame = i → x.edited = false) → s'.store f.pageId = s'.content f.pageId) : s'.Coherent := by
  have hnone' : s'.calls i = none := by rw [hcalls, hnone]
  have hself : s'.pool.frames i = f := by rw [hframes, update_self]
  have hclaims : ∀ x, s'.Claims i x ↔ s.Claims i x := by
    intro x
    rw [claims_of_none hnone', claims_of_none hnone, hself, hpage]
  refine h.update hinv hframes (fun j _ => by rw [hcalls]) (fun x hx => ?_) hheld
    (fun x _ hx => .inl ((hclaims x).1 hx)) (fun x _ hx hno => absurd ((hclaims x).2 hx) hno) ?_
  · rw [claims_of_none hnone] at hx
    exact htouch x (Ne.symm hx)
  · refine frameOk_of_none hnone' ?_ ?_
    · rw [hself]
      exact hresident
    · rw [hself]
      exact hclean

lemma Coherent.hold (hio : (s.pool.frames i).isIoInProgress = false)
    (hframes : pool.frames = (s.pool.pin i).frames) (hinv : Inv ({ s with pool := pool }.hold pageId i)) :
    Coherent ({ s with pool := pool }.hold pageId i) := by
  have hok := h.frame i
  refine h.touch hinv (h.calls_eq_none hio) hframes rfl rfl (fun _ _ => ⟨rfl, rfl⟩) (fun j hj hno x hx => ?_)
    hok.resident fun hnull hio hdirty hno => hok.clean hnull hio hdirty fun x hx => ?_
  · exact hno x (mem_cons_of_mem _ hx)
  · exact hno x (mem_cons_of_mem _ hx)

/-- A victim is taken for a page that nobody has claimed. -/
lemma Coherent.takeVictim {kind : FetchKind γ} (hnull : pageId ≠ kNullPageId)
    (hfree : ∀ j, ¬ s.Claims j pageId) (hio : (s.pool.frames i).isIoInProgress = false)
    (hunpinned : (s.pool.frames i).pageId = kNullPageId ∨ (s.pool.frames i).pinCount = 0) (hs' : s' = { s with
      pool := s.pool.takeVictim pageId i
      calls := Function.update s.calls i (some ⟨pageId, (s.pool.frames i).pageId, kind, .reserved⟩) })
    (hinv : s'.Inv) : s'.Coherent := by
  have hnone := h.calls_eq_none hio
  have hok := h.frame i
  set c : PoolCall γ := ⟨pageId, (s.pool.frames i).pageId, kind, .reserved⟩ with hcdef
  have hframes := BufferPool.frames_takeVictim s.pool pageId i
  have hc : s'.calls i = some c := hs' ▸ update_self ..
  have hself : s'.pool.frames i = { s.pool.frames i with pinCount := 1, isIoInProgress := true, pageId := pageId } := by
    rw [hs', hframes, update_self]
  have hunsaved : s'.Unsaved i c ↔ (s.pool.frames i).pageId ≠ kNullPageId ∧ (s.pool.frames i).isDirty = true := by
    simp [Unsaved, hself, hcdef]
  subst hs'
  refine h.update hinv hframes (fun j hj => update_of_ne hj ..)
    (fun _ _ => ⟨rfl, rfl⟩) (fun _ _ hno => hno) (fun x hx hclaim => ?_) (fun x hx hclaim hgone => ?_) ?_
  · rcases (claims_of_some hc x).1 hclaim with hpage | ⟨-, hevict⟩
    · rw [hself] at hpage
      exact .inr (hpage ▸ hfree)
    · exact .inl (.inl hevict)
  · -- the old page was clean
    rw [claims_of_none hnone] at hclaim
    subst hclaim
    have hclean : (s.pool.frames i).isDirty = false := by
      by_contra hdirty
      rw [Bool.not_eq_false] at hdirty
      exact hgone ((claims_of_some hc _).2 (.inr ⟨hunsaved.2 ⟨hx, hdirty⟩, rfl⟩))
    exact hok.clean hx hio hclean fun y hy hyi => absurd hyi (h.not_held (.inr hunpinned) y hy)
  · refine frameOk_of_some hc (by rw [hself]) (fun hun => ?_) (.inr (h.saved pageId hnull hfree))
      fun hstage => nomatch hstage
    obtain ⟨hne, hdirty⟩ := hunsaved.1 hun
    rw [hself]
    exact ⟨hok.resident hne hio, hdirty⟩

end

section

variable (h : s.Coherent) (hc : s.calls i = some c)
include h hc

lemma Coherent.setStage (page : PageData γ) (stage : CallStage) (store : ℕ → PageData γ) (hinv : Inv ({ s with
      pool := s.pool.setFrame i { s.pool.frames i with page := page }, store := store }.setStage i c stage))
    (hstore : ∀ x, store x ≠ s.store x → s.Unsaved i c ∧ x = c.evictPageId)
    (hkeeps : stage = .writeFailed → s.Unsaved i c ∧ page = (s.pool.frames i).page)
    (hsaves : stage ≠ .writeFailed → s.Unsaved i c → store c.evictPageId = s.content c.evictPageId)
    (hreserved : stage ≠ .reserved) (hnot : ¬ c.Overwrites) (hloaded : stage = .loaded → page = s.content c.pageId) :
    Coherent ({ s with
      pool := s.pool.setFrame i { s.pool.frames i with page := page }, store := store }.setStage i c stage) := by
  have hok := h.frame i
  have hcall := h.call i c hc
  set s' : PhasedPool γ := { s with
    pool := s.pool.setFrame i { s.pool.frames i with page := page }, store := store }.setStage i c stage with hs'
  have hc' : s'.calls i = some { c with stage := stage } := update_self ..
  have hself : s'.pool.frames i = { s.pool.frames i with page := page } := update_self ..
  have hunsaved : s'.Unsaved i { c with stage := stage } ↔ stage = .writeFailed := by
    constructor
    · rintro ⟨-, ⟨hstage, -⟩ | hstage⟩
      · exact absurd hstage hreserved
      · exact hstage
    · intro hstage
      exact ⟨(hkeeps hstage).1.1, .inr hstage⟩
  refine h.update hinv (i := i) rfl (fun j hj => update_of_ne hj ..) (fun x hx => ⟨?_, rfl⟩)
    (fun _ _ hno => hno) (fun x _ hclaim => .inl ?_) (fun x _ hclaim hgone => ?_) ?_
  · by_contra hne
    obtain ⟨hun, rfl⟩ := hstore x hne
    exact hx ((claims_of_some hc _).2 (.inr ⟨hun, rfl⟩))
  · rcases (claims_of_some hc' x).1 hclaim with hpage | ⟨hun, hevict⟩
    · rw [hself] at hpage
      exact .inl hpage
    · exact (claims_of_some hc x).2 (.inr ⟨(hkeeps (hunsaved.1 hun)).1, hevict⟩)
  · rcases (claims_of_some hc x).1 hclaim with hpage | ⟨hun, rfl⟩
    · exact absurd ((claims_of_some hc' x).2 (.inl (by rw [hself]; exact hpage))) hgone
    · refine hsaves (fun hstage => hgone ?_) hun
      exact (claims_of_some hc' _).2 (.inr ⟨hunsaved.2 hstage, rfl⟩)
  · refine frameOk_of_some hc' (by rw [hself]; exact hcall.io) (fun hun => ?_) (.inr ?_) fun hstage => ?_
    · obtain ⟨hun', hpage⟩ := hkeeps (hunsaved.1 hun)
      rw [hself]
      rw [hpage]
      exact hok.unsaved c hc hun'
    · have hsame : store c.pageId = s.store c.pageId := by
        by_contra hne
        obtain ⟨hun, heq⟩ := hstore _ hne
        exact (hcall.evicted hun.1).2 heq.symm
      exact hsame.trans ((hok.loading c hc).resolve_left hnot)
    · rw [hself]
      exact hloaded hstage

lemma Coherent.writeBack (hstage : c.stage = .reserved) (result : IoResult γ) :
    (s.writeBack i c result).Coherent := by
  have hinv := h.toInv.writeBack hc result
  have hself := s.pool.setFrame_frames i
  have hnot : ¬ c.Overwrites := not_overwrites (by simp [hstage])
  have hnext := fun stage store => h.setStage hc (s.pool.frames i).page stage store
  rw [hself] at hnext
  rw [PhasedPool.writeBack] at hinv ⊢
  split_ifs at hinv ⊢ with hdirty
  · simp only [Bool.and_eq_true, bne_iff_ne] at hdirty
    have hun : s.Unsaved i c := ⟨hdirty.1, .inl ⟨hstage, hdirty.2⟩⟩
    have hpage := ((h.frame i).unsaved c hc hun).1
    cases result with
    | ok =>
      refine hnext _ _ hinv (fun x hx => ⟨hun, ?_⟩) (by simp) (fun _ _ => ?_)
        (by simp) hnot (by simp)
      · by_contra hne
        exact hx (update_of_ne hne ..)
      · exact (update_self ..).trans hpage
    | failed left =>
      refine hnext _ _ hinv (fun x hx => ⟨hun, ?_⟩) (fun _ => ⟨hun, rfl⟩) (fun hne => absurd rfl hne)
        (by simp) hnot (by simp)
      by_contra hne
      exact hx (update_of_ne hne ..)
  · have hsaved : ¬ s.Unsaved i c := by
      rintro ⟨hevict, ⟨-, hd⟩ | hfailed⟩
      · simp [hevict, hd] at hdirty
      · rw [hstage] at hfailed
        cases hfailed
    exact hnext _ _ hinv (fun x hx => absurd rfl hx) (by simp) (fun _ hun => absurd hun hsaved)
      (by simp) hnot (by simp)

lemma Coherent.read {hint : Bool}
    (hkind : c.kind = .fetch hint) (hstage : c.stage = .written) (hinv : (s.read i c result).Inv) :
    (s.read i c result).Coherent := by
  have hnot : ¬ c.Overwrites := by
    rintro ⟨⟨page, hnew⟩, -⟩
    rw [hkind] at hnew
    cases hnew
  have hsaved : ¬ s.Unsaved i c := not_unsaved (by simp [hstage]) (by simp [hstage])
  cases result with
  | ok =>
    exact h.setStage hc _ _ _ hinv (fun x hx => absurd rfl hx) (by simp)
      (fun _ hun => absurd hun hsaved) (by simp) hnot
      fun _ => ((h.frame i).loading c hc).resolve_left hnot
  | failed left =>
    exact h.setStage hc _ _ _ hinv (fun x hx => absurd rfl hx) (by simp)
      (fun _ hun => absurd hun hsaved) (by simp) hnot (by simp)

lemma Coherent.release (hnot : ¬ c.Overwrites) (hframes : pool.frames = Function.update s.pool.frames i f)
    (hinv : Inv ({ s with pool := pool }.endCall i)) (hpage : f.pageId = kNullPageId ∧ ¬ s.Unsaved i c ∨
      f.pageId = c.evictPageId ∧ s.Unsaved i c ∧ f.page = (s.pool.frames i).page ∧
        f.isDirty = (s.pool.frames i).isDirty) : Coherent ({ s with pool := pool }.endCall i) := by
  have hok := h.frame i
  have hcall := h.call i c hc
  set s' : PhasedPool γ := { s with pool := pool }.endCall i with hs'
  have hnone : s'.calls i = none := update_self ..
  have hself : s'.pool.frames i = f := by
    exact (congrFun hframes i).trans (update_self ..)
  refine h.update hinv hframes (fun j hj => update_of_ne hj ..) (fun _ _ => ⟨rfl, rfl⟩) (fun _ _ hno => hno)
    (fun x hx hclaim => .inl ?_) (fun x hx hclaim hgone => ?_) ?_
  · rw [claims_of_none hnone, hself] at hclaim
    rcases hpage with ⟨hnull, -⟩ | ⟨hevict, hun, -⟩
    · exact absurd (hclaim.symm.trans hnull) hx
    · exact (claims_of_some hc x).2 (.inr ⟨hun, hevict.symm.trans hclaim⟩)
  · -- the page that the call asked for is in the store
    rcases (claims_of_some hc x).1 hclaim with hx' | ⟨hun, hx'⟩
    · have hload := (hok.loading c hc).resolve_left hnot
      rw [← hcall.page, hx'] at hload
      exact hload
    · rcases hpage with ⟨-, hsaved⟩ | ⟨hevict, -⟩
      · exact absurd hun hsaved
      · exact absurd ((claims_of_none hnone x).2 (by rw [hself, hevict, hx'])) hgone
  · refine frameOk_of_none hnone ?_ ?_
    · rw [hself]
      intro hnull _
      rcases hpage with ⟨hnull', -⟩ | ⟨hevict, hun, hsame, -⟩
      · exact absurd hnull' hnull
      · rw [hsame, hevict]
        exact (hok.unsaved c hc hun).1
    · rw [hself]
      intro hnull _ hclean
      rcases hpage with ⟨hnull', -⟩ | ⟨-, hun, -, hdirty⟩
      · exact absurd hnull' hnull
      · rw [hdirty, (hok.unsaved c hc hun).2] at hclean
        cases hclean

lemma Coherent.install (hsaved : ¬ s.Unsaved i c)
    (hinv : Inv (({ s with pool := pool, content := content }.endCall i).hold c.pageId i)) (f : Frame γ)
    (hframes : pool.frames = Function.update s.pool.frames i f) (hcontent : ∀ x, x ≠ c.pageId → content x = s.content x)
    (hpage : f.pageId = c.pageId) (hresident : f.page = content c.pageId)
    (hclean : f.isDirty = false → s.store c.pageId = content c.pageId) :
    Coherent (({ s with pool := pool, content := content }.endCall i).hold c.pageId i) := by
  have hcall := h.call i c hc
  set s' : PhasedPool γ := ({ s with pool := pool, content := content }.endCall i).hold c.pageId i with hs'
  have hnone : s'.calls i = none := update_self ..
  have hself : s'.pool.frames i = f := by
    exact (congrFun hframes i).trans (update_self ..)
  have hclaims : ∀ x, s'.Claims i x ↔ s.Claims i x := by
    intro x
    rw [claims_of_none hnone, claims_of_some hc, hself, hpage, hcall.page]
    exact ⟨.inl, fun hx => hx.resolve_right fun hun => hsaved hun.1⟩
  refine h.update hinv hframes (fun j hj => update_of_ne hj ..) (fun x hx => ⟨rfl, ?_⟩)
    (fun j hj hno x hx => hno x (mem_cons_of_mem _ hx)) (fun x _ hx => .inl ((hclaims x).1 hx))
    (fun x _ hx hno => absurd ((hclaims x).2 hx) hno) ?_
  · refine hcontent x ?_
    rintro rfl
    exact hx (.inl hcall.page)
  · refine frameOk_of_none hnone ?_ ?_
    · rw [hself, hpage]
      exact fun _ _ => hresident
    · rw [hself, hpage]
      exact fun _ _ hdirty _ => hclean hdirty

lemma Coherent.finish (hs : s.finish i c = some s') : s'.Coherent := by
  have hinv := h.toInv.finish hc hs
  have hok := h.frame i
  rw [PhasedPool.finish] at hs
  split at hs
  · next hint hkind hstage =>
    cases hs
    have hnot : ¬ c.Overwrites := not_overwrites (by simp [hstage])
    have hsaved : ¬ s.Unsaved i c := not_unsaved (by simp [hstage]) (by simp [hstage])
    have hload := (hok.loading c hc).resolve_left hnot
    split_ifs at hinv ⊢
    all_goals
      exact h.install hc hsaved hinv
        { s.pool.frames i with pageId := c.pageId, pinCount := 1, isDirty := false, isIoInProgress := false }
        (frames_install ..) (fun _ _ => rfl) rfl (hok.loaded c hc hstage) fun _ => hload
  · next page hkind hstage =>
    cases hs
    have hsaved : ¬ s.Unsaved i c := not_unsaved (by simp [hstage]) (by simp [hstage])
    refine h.install hc hsaved hinv
      { s.pool.frames i with page := page, pageId := c.pageId, pinCount := 1, isDirty := true, isIoInProgress := false }
      (frames_install ..) (fun x hx => update_of_ne hx ..) rfl ?_ (by simp)
    exact (update_self c.pageId page s.content).symm
  · cases hs

end

section

variable (h : s.Coherent)
include h

lemma Coherent.page_held (hx : x ∈ s.held) : (s.pool.frames x.frame).page = s.content x.pageId := by
  obtain ⟨hpage, hnull, hio⟩ := h.held x hx
  exact hpage ▸ (h.frame x.frame).resident (hpage ▸ hnull) hio

lemma Coherent.write (hx : x ∈ s.held) (f : Frame γ) {edited : Bool}
    (hpage : f.pageId = (s.pool.frames x.frame).pageId)
    (hcontent : ∀ y, y ≠ x.pageId → content y = s.content y) (hresident : f.page = content x.pageId)
    (hmarked : f.isDirty = true ∨ edited = true) (hinv : Inv { s with
      pool := s.pool.setFrame x.frame f, content := content, held := { x with edited := edited } :: s.held.erase x }) :
    Coherent { s with
      pool := s.pool.setFrame x.frame f, content := content, held := { x with edited := edited } :: s.held.erase x } := by
  obtain ⟨hxpage, -, hio⟩ := h.held x hx
  refine h.touch hinv (h.calls_eq_none hio) rfl rfl hpage (fun y hy => ⟨rfl, hcontent y (hxpage ▸ hy)⟩)
    (fun j hj hno y hy hyj => ?_) (fun _ _ => ?_) fun _ _ hclean hno => ?_
  · rcases mem_cons.1 ((perm_cons_erase hx).mem_iff.1 hy) with rfl | hy
    · exact absurd hyj (Ne.symm hj)
    · exact hno y (mem_cons_of_mem _ hy) hyj
  · rw [hpage, hxpage]
    exact hresident
  · rcases hmarked with hdirty | hedited
    · rw [hdirty] at hclean
      cases hclean
    · have := hno _ mem_cons_self rfl
      rw [hedited] at this
      cases this

lemma Coherent.unpin (hx : x ∈ s.held) (hedited : x.edited = false)
    (hinv : Inv { s with pool := s.pool.unpinPage x.pageId, held := s.held.erase x }) :
    Coherent { s with pool := s.pool.unpinPage x.pageId, held := s.held.erase x } := by
  obtain ⟨-, -, hio⟩ := h.held x hx
  have hok := h.frame x.frame
  have hno' : ∀ j, (∀ y ∈ s.held.erase x, y.frame = j → y.edited = false) →
      ∀ y ∈ s.held, y.frame = j → y.edited = false := by
    intro j hno y hy hyj
    rcases mem_cons.1 ((perm_cons_erase hx).mem_iff.1 hy) with rfl | hy
    · exact hedited
    · exact hno y hy hyj
  rw [unpinPage, h.findPageMapping_held hx] at hinv ⊢
  exact h.touch hinv (h.calls_eq_none hio) rfl rfl rfl (fun _ _ => ⟨rfl, rfl⟩) (fun j _ => hno' j) hok.resident
    fun hnull hio hclean hno => hok.clean hnull hio hclean (hno' _ hno)

omit h in
lemma FlushSafe.cases (h : s.FlushSafe i result) (hdirty : (s.pool.frames i).isDirty = true)
    (hc : s.calls i = some c) :
    c.Overwrites ∨ c.stage = .loaded ∧ result = .ok := by
  have hcase := h hdirty c hc
  unfold PoolCall.settled at hcase
  split at hcase
  · next page hkind hstage => exact .inl ⟨⟨page, hkind⟩, hstage⟩
  · next hkind hstage => exact .inr ⟨hstage, rfl⟩
  · cases hcase

omit h in
lemma storeAfter_of_ne (s : PhasedPool γ) {x : ℕ} (page : PageData γ) (result : IoResult γ) (hx : x ≠ pageId) :
    s.storeAfter pageId page result x = s.store x := by
  cases result with
  | ok | failed left => exact update_of_ne hx ..

lemma Coherent.flush (hdirty : (s.pool.frames i).isDirty = true)
    (hsafe : s.FlushSafe i result) (hf : f = s.pool.frames i ∧ result ≠ .ok ∨
      f = { s.pool.frames i with isDirty := false } ∧ result = .ok) (hinv : Inv { s with
      store := s.storeAfter (s.pool.frames i).pageId (s.pool.frames i).page result
      pool := s.pool.setFrame i f }) :
    Coherent { s with
      store := s.storeAfter (s.pool.frames i).pageId (s.pool.frames i).page result
      pool := s.pool.setFrame i f } := by
  have hok := h.frame i
  have hpage : f.pageId = (s.pool.frames i).pageId ∧ f.page = (s.pool.frames i).page ∧
      f.isIoInProgress = (s.pool.frames i).isIoInProgress := by
    rcases hf with ⟨rfl, -⟩ | ⟨rfl, -⟩ <;> exact ⟨rfl, rfl, rfl⟩
  cases hc : s.calls i with
  | none =>
    refine h.touch hinv hc rfl rfl hpage.1 (fun x hx => ⟨s.storeAfter_of_ne _ _ hx, rfl⟩) (fun _ _ hno => hno)
      (fun hnull hio => ?_) fun hnull hio hclean _ => ?_
    · rw [hpage.2.1, hpage.1]
      exact hok.resident (hpage.1 ▸ hnull) (hpage.2.2 ▸ hio)
    · rcases hf with ⟨rfl, -⟩ | ⟨rfl, rfl⟩
      · rw [hdirty] at hclean
        cases hclean
      · exact (update_self ..).trans (hok.resident hnull hio)
  | some c =>
    have hcall := h.call i c hc
    have hcases := hsafe.cases hdirty hc
    set s' : PhasedPool γ := { s with
      store := s.storeAfter (s.pool.frames i).pageId (s.pool.frames i).page result
      pool := s.pool.setFrame i f } with hs'
    have hself : s'.pool.frames i = f := update_self ..
    have hc' : s'.calls i = some c := hc
    have hsaved : ∀ t : PhasedPool γ, ¬ t.Unsaved i c := fun t => by
      rcases hcases with ⟨-, hstage⟩ | ⟨hstage, -⟩ <;> exact not_unsaved (by simp [hstage]) (by simp [hstage])
    have hclaims : ∀ x, s'.Claims i x ↔ s.Claims i x := by
      intro x
      rw [claims_of_some hc', claims_of_some hc, hself, hpage.1]
      simp [hsaved]
    refine h.update hinv rfl (fun _ _ => rfl) (fun x hx => ⟨s.storeAfter_of_ne _ _ ?_, rfl⟩) (fun _ _ hno => hno)
      (fun x _ hx => .inl ((hclaims x).1 hx)) (fun x _ hx hgone => absurd ((hclaims x).2 hx) hgone) ?_
    · rintro rfl
      exact hx (.inl rfl)
    · refine frameOk_of_some hc' ?_ (fun hun => absurd hun (hsaved _)) ?_ fun hstage => ?_
      · rw [hself, hpage.2.2]
        exact hcall.io
      · refine hcases.imp_right fun hread => ?_
        obtain ⟨hstage, rfl⟩ := hread
        rw [hs', ← hcall.page]
        refine (update_self ..).trans ?_
        rw [hcall.page]
        exact hok.loaded c hc hstage
      · rw [hself, hpage.2.1]
        exact hok.loaded c hc hstage

lemma Coherent.flushFrame (hsafe : s.FlushSafe i result) : (s.flushFrame i result).Coherent := by
  have hinv := h.toInv.flushFrame i result
  rw [PhasedPool.flushFrame] at hinv ⊢
  split_ifs at hinv ⊢ with hdirty
  · cases result with
    | ok => exact h.flush hdirty hsafe (.inr ⟨rfl, rfl⟩) hinv
    | failed left =>
      have hflush := h.flush hdirty hsafe (f := s.pool.frames i) (.inl ⟨rfl, by simp⟩)
      rw [setFrame_frames] at hflush
      exact hflush hinv
  · exact h

lemma Coherent.step {a : PhaseAction γ} (hund : s.Undisturbed a) (hs : s.step a = some s') : s'.Coherent := by
  have hinv := h.toInv.step (h.unmapped a) hs
  cases a <;> simp only [PhasedPool.step] at hs
  case hit pageId =>
    obtain ⟨i, hres, rfl⟩ := Option.map_eq_some_iff.1 hs
    obtain ⟨-, hio⟩ := Option.filter_eq_some_iff.1 hres
    exact h.hold (by simpa using hio) rfl hinv
  case reserve pageId kind =>
    split_ifs at hs with hnull
    · cases hs
      exact h
    · rcases h.tidy.reserve_cases hnull 0 with
        hwait | ⟨i, hmap, hio, hhit⟩ | ⟨i, flush, hnone, hidx, hio, hfree, htake, -⟩
      · rw [hwait] at hs
        cases hs
        exact h
      · rw [hhit] at hs
        cases hs
        exact h.hold hio rfl hinv
      · rw [htake] at hs
        cases hs
        refine h.takeVictim hnull (fun j hj => ?_) hio hfree rfl hinv
        rcases hj with hpage | ⟨c, hc, hun, hevict⟩
        · have hmap := h.tidy.mapped j (hpage ▸ hnull)
          rw [hpage, hnone] at hmap
          cases hmap
        · have hcall := h.call j c hc
          refine hund hnone j (h.tidy.bound j ?_) c hc hun hevict
          rw [hcall.page]
          exact hcall.notNull
  case writeBack i result =>
    split at hs
    · next c hc =>
      split_ifs at hs with hstage
      cases hs
      exact h.writeBack hc hstage result
    · cases hs
  case restore i =>
    split at hs
    · next c hc =>
      split_ifs at hs with hstage
      cases hs
      exact h.release hc (not_overwrites (by simp [hstage])) (frames_restoreEvictedFrame ..) hinv
        (.inr ⟨rfl, ⟨(h.call i c hc).failed hstage, .inr hstage⟩, rfl, rfl⟩)
    · cases hs
  case read i result =>
    split at hs
    · next c hc =>
      split at hs
      · next hint hkind hstage =>
        cases hs
        exact h.read hc hkind hstage hinv
      · cases hs
    · cases hs
  case drop i =>
    split at hs
    · next c hc =>
      split_ifs at hs with hstage
      cases hs
      exact h.release hc (not_overwrites (by simp [hstage])) (frames_dropFrame ..) hinv
        (.inl ⟨rfl, not_unsaved (by simp [hstage]) (by simp [hstage])⟩)
    · cases hs
  case finish i =>
    split at hs
    · next c hc => exact h.finish hc hs
    · cases hs
  case unpin x =>
    split_ifs at hs with hx
    cases hs
    exact h.unpin hx.1 hx.2 hinv
  case edit x page =>
    split_ifs at hs with hx
    cases hs
    exact h.write hx { s.pool.frames x.frame with page := page } rfl (fun y hy => update_of_ne hy ..)
      (update_self x.pageId page s.content).symm (.inr rfl) hinv
  case markDirty x =>
    simp only [BufferPool.markDirty] at hs
    split_ifs at hs with hx
    cases hs
    rw [h.findPageMapping_held hx] at hinv ⊢
    exact h.write hx { s.pool.frames x.frame with isDirty := true } rfl (fun _ _ => rfl) (h.page_held hx) (.inl rfl) hinv
  case setPageLsn x lsn =>
    simp only [BufferPool.setPageLsn] at hs
    split at hs
    · next hx =>
      cases hs
      rw [h.findPageMapping_held hx] at hinv ⊢
      refine h.write hx { s.pool.frames x.frame with page := _, isDirty := true } rfl
        (fun y hy => update_of_ne hy ..) ?_ (.inl rfl) hinv
      rw [update_self, h.page_held hx]
    · cases hs
  case flushPage pageId result =>
    split at hs
    · next i hmap =>
      cases hs
      exact h.flushFrame (hund i hmap)
    · cases hs
      exact h
  case flushFrame i result =>
    split_ifs at hs
    · cases hs
      exact h.flushFrame hund
    · cases hs
      exact h

lemma Coherent.fetchCoherent (a : PhaseAction γ) : s.FetchCoherent a := by
  have hresident : ∀ pageId i, s.pool.resident pageId = some i → (s.pool.frames i).page = s.content pageId := by
    intro pageId i hres
    obtain ⟨hmap, hio⟩ := Option.filter_eq_some_iff.1 hres
    obtain ⟨hnull, hpage, -⟩ := h.tidy.of_findPageMapping hmap
    rw [← hpage]
    exact (h.frame i).resident (hpage ▸ hnull) (by simpa using hio)
  cases a with
  | hit pageId | reserve pageId kind => exact hresident pageId
  | finish i => exact fun c hc hstage => (h.frame i).loaded c hc hstage
  | _ => trivial

end

lemma coherent_create (page : PageData γ) (poolSize partitions flushBatchSize : ℕ) (store : ℕ → PageData γ) :
    (create page poolSize partitions flushBatchSize store).Coherent where
  toInv := inv_create page poolSize partitions flushBatchSize store
  frame := fun i => frameOk_of_none rfl (fun hnull => absurd rfl hnull) fun hnull => absurd rfl hnull
  exclusive := by
    intro i j x hx hi
    rw [claims_of_none rfl] at hi
    exact absurd hi.symm hx
  saved := fun _ _ _ => rfl

end

/-- **Every fetch returns what was last written**, as long as no page is asked for while it waits to be written and no
frame is flushed that a call has taken. -/
theorem fetchCoherent_of_undisturbed (page : PageData γ) (poolSize partitions flushBatchSize : ℕ)
    (store : ℕ → PageData γ) {acts : List (PhaseAction γ)}
    (hund : StepsMeet step Undisturbed (create page poolSize partitions flushBatchSize store) acts) :
    StepsMeet step FetchCoherent (create page poolSize partitions flushBatchSize store) acts :=
  StepsMeet.of_invariant (fun _ _ _ h hu hs => h.step hu hs) (fun _ a h _ => h.fetchCoherent a) (coherent_create ..) hund

/-- Page 1 is written back before it is loaded again; then both frames are flushed. -/
theorem fetchCoherent_after_writeBack :
    StepsMeet step FetchCoherent (create ⟨0, 0⟩ 2 1 1 fun p => ⟨0, p⟩)
      (evictingRun ++ [.writeBack 1 .ok, .reserve 1 (.fetch false), .writeBack 0 .ok, .read 0 .ok, .finish 0,
        .read 1 .ok, .finish 1, .flushFrame 0 .ok, .flushPage 3 .ok]) :=
  fetchCoherent_of_undisturbed _ _ _ _ _ (by decide +kernel)

/-- Page 1 is loaded again before it is written back: what was written to it is not there. -/
theorem stale_page_fetched :
    ¬ StepsMeet step FetchCoherent (create ⟨0, 0⟩ 2 1 1 fun p => ⟨0, p⟩)
      ((evictingRun ++ [.reserve 1 (.fetch false), .writeBack 0 .ok, .read 0 .ok]) ++ [.finish 0]) := by
  intro h
  obtain ⟨s, ⟨hpage, hcontent, hcall⟩, hcoherent⟩ := h.eval (R := fun s => (s.pool.frames 0).page.rest = 1 ∧
    (s.content 1).rest = 77 ∧ ((s.calls 0).map fun c => (c.pageId, c.stage)) = some (1, .loaded)) (by decide +kernel)
  obtain ⟨c, hc, hfields⟩ := Option.map_eq_some_iff.1 hcall
  rw [Prod.mk.injEq] at hfields
  have hread := hcoherent c hc hfields.2
  rw [hfields.1] at hread
  rw [hread, hcontent] at hpage
  cases hpage

end PhasedPool

end MiniDb
