import MiniDb.Storage.PageServer

/-!
# Reads as of an LSN, and restarts of the page server

`read_page` with an LSN gives the primary copy if its LSN is right, and otherwise the image that the index finds.
`load_wal_index` reads the file of images and stops at the first record that is not whole, but appends go to the end of
the file: what is behind a torn record is lost by the next restart.  An image that is dropped because its LSN is
recorded already is in the file, and the next start takes it for the later one of two; a record of which only the
trailer is missing is taken for whole as long as it is the last one; and so is the whole record of a call that a crash
has interrupted, which was never accepted.

`serves_of_wholeFile`: without these four a read gives an accepted image with the greatest LSN that is not above the
one asked for, and the same before and after a restart.
-/

namespace MiniDb

open Function List PageServer

namespace PageServer

variable {τ : Type*} (fmt : PageFormat τ)

section

variable (s : PageServer τ)

/-- `read_wal_image`: a record without trailer is read if nothing follows it. -/
def readWalImage (walOffset : ℕ) : Option τ :=
  match s.walImages[walOffset]? with
  | some (.image _ _ data) => some data
  | some (.noTrailer _ _ data) => if walOffset + 1 = s.walImages.length then some data else none
  | some .torn => none
  | none => none

/-- `find_log_entry_locked`. -/
def findLogEntry (pageId readLsn : ℕ) : Option PageLogIndexEntry :=
  findVersion PageLogIndexEntry.lsn (s.logIndex pageId) readLsn

/-- `read_page` with an LSN. -/
def readPageAt (pageId readLsn : ℕ) : Option τ :=
  let data := s.primary pageId
  if readLsn = 0 then some data
  else
    let current := fmt.headerLsn data
    match s.findLogEntry pageId readLsn with
    | some entry => if current < entry.lsn ∨ readLsn < current then s.readWalImage entry.walOffset else some data
    | none => if readLsn < current then none else some data

end

/-- The loop of `load_wal_index`. -/
def loadFrom (s : PageServer τ) : ℕ → List (WalChunk τ) → PageServer τ
  | _, [] => s
  | walOffset, .image pageId lsn _ :: rest => loadFrom (s.rememberVersion pageId lsn walOffset) (walOffset + 1) rest
  | walOffset, [.noTrailer pageId lsn _] => s.rememberVersion pageId lsn walOffset
  | _, .noTrailer _ _ _ :: _ :: _ => s
  | _, .torn :: _ => s

/-- A start: the file of images, the primary copies and the durable LSN are there. -/
def restart (s : PageServer τ) : PageServer τ :=
  loadFrom { s with logIndex := fun _ => [], latestLsn := fun _ => none } 0 s.walImages

end PageServer

/-- What the append that a crash has interrupted, if there is one, has left in the file. -/
inductive CrashTail (τ : Type*) where
  | nothing
  | torn
  | noTrailer (pageId lsn : ℕ) (data : τ)
  /-- the record is whole, but the call has not returned -/
  | whole (pageId lsn : ℕ) (data : τ)
  deriving DecidableEq

def CrashTail.chunks {τ : Type*} : CrashTail τ → List (WalChunk τ)
  | .nothing => []
  | .torn => [.torn]
  | .noTrailer pageId lsn data => [.noTrailer pageId lsn data]
  | .whole pageId lsn data => [.image pageId lsn data]

inductive TimeAction (τ : Type*) where
  /-- a write under the LSN in the header of the image -/
  | write (pageId : ℕ) (data : τ)
  | setDurableLsn (lsn : ℕ)
  | crash (tail : CrashTail τ)

namespace PageHistory

variable {τ : Type*} (fmt : PageFormat τ)

section

variable (s : PageHistory τ)

/-- The server after a crash and a restart. -/
def afterCrash (tail : CrashTail τ) : PageServer τ :=
  PageServer.restart { s.server with walImages := s.server.walImages ++ tail.chunks }

def act : TimeAction τ → PageHistory τ
  | .write pageId data => s.call fmt (.write pageId data (fmt.headerLsn data))
  | .setDurableLsn lsn => s.call fmt (.setDurableLsn lsn)
  | .crash tail => ⟨s.afterCrash tail, s.accepted⟩

/-- Some image of the page was accepted with an LSN that is not above this one. -/
def Readable (pageId readLsn : ℕ) : Prop :=
  0 < readLsn ∧ ∃ w ∈ s.accepted, w.pageId = pageId ∧ w.lsn ≤ readLsn

/-- A read gives an accepted image, with or without the checksum, whose LSN is the greatest one not above the one
asked for. -/
def Serves : Prop :=
  ∀ pageId readLsn, s.Readable pageId readLsn → ∃ w ∈ s.accepted, w.pageId = pageId ∧ w.lsn ≤ readLsn ∧
    (∀ x ∈ s.accepted, x.pageId = pageId → x.lsn ≤ readLsn → x.lsn ≤ w.lsn) ∧
    (s.server.readPageAt fmt pageId readLsn = some w.data ∨
      s.server.readPageAt fmt pageId readLsn = some (fmt.stamp w.data))

/-- A restart does not change what is read. -/
def RestartKeeps : TimeAction τ → Prop
  | .crash tail => ∀ pageId readLsn, s.Readable pageId readLsn →
      (s.afterCrash tail).readPageAt fmt pageId readLsn = s.server.readPageAt fmt pageId readLsn
  | _ => True

/-- The condition on an action: an accepted image is appended to a file without a torn record, and is the image that
is recorded under its LSN, if there is one and the LSN is not zero; a crash leaves at most a torn record of a call that
has not returned. -/
def WholeFile : TimeAction τ → Prop
  | .write pageId data => s.server.accepts (fmt.headerLsn data) = true →
      (∀ c ∈ s.server.walImages, ∃ p lsn d, c = .image p lsn d) ∧
      (fmt.headerLsn data ≠ 0 → ∀ e ∈ s.server.logIndex pageId, e.lsn = fmt.headerLsn data →
        s.server.readWalImage e.walOffset = some data)
  | .setDurableLsn _ => True
  | .crash tail => tail = .nothing ∨ tail = .torn

end

instance (c : WalChunk τ) : Decidable (∃ p lsn d, c = .image p lsn d) :=
  match c with
  | .image p lsn d => isTrue ⟨p, lsn, d, rfl⟩
  | .noTrailer _ _ _ => isFalse fun ⟨_, _, _, h⟩ => nomatch h
  | .torn => isFalse fun ⟨_, _, _, h⟩ => nomatch h

instance [DecidableEq τ] (s : PageHistory τ) : DecidablePred (s.WholeFile fmt)
  | .write pageId data => by
      unfold WholeFile
      exact inferInstance
  | .setDurableLsn _ => isTrue trivial
  | .crash tail => inferInstanceAs (Decidable (_ ∨ _))

end PageHistory

/-- The accepted image that a read should give: among those of the page that are not above the LSN, the last one with
the highest LSN. -/
def bestWrite {τ : Type*} (pageId readLsn : ℕ) : List (AcceptedWrite τ) → Option (AcceptedWrite τ)
  | [] => none
  | w :: accepted =>
    if w.pageId = pageId then better AcceptedWrite.lsn readLsn (bestWrite pageId readLsn accepted) w
    else bestWrite pageId readLsn accepted

section

variable {τ : Type*} {pageId readLsn : ℕ} {accepted : List (AcceptedWrite τ)} {w : AcceptedWrite τ}

lemma bestWrite_eq_none : bestWrite pageId readLsn accepted = none ↔
    ∀ x ∈ accepted, x.pageId = pageId → readLsn < x.lsn := by
  induction accepted with
  | nil => simp [bestWrite]
  | cons a accepted ih =>
    rw [bestWrite, forall_mem_cons, ← ih]
    split_ifs with hp
    · rw [better]
      split_ifs with hbest
      · simp [hp, hbest.1]
      · constructor
        · intro hnone
          refine ⟨fun _ => ?_, hnone⟩
          simp only [hnone, Option.mem_def, reduceCtorEq, false_implies, implies_true, and_true] at hbest
          omega
        · exact And.right
    · simp [hp]

lemma bestWrite_eq_some (h : bestWrite pageId readLsn accepted = some w) :
    w ∈ accepted ∧ w.pageId = pageId ∧ w.lsn ≤ readLsn ∧
      ∀ x ∈ accepted, x.pageId = pageId → x.lsn ≤ readLsn → x.lsn ≤ w.lsn := by
  induction accepted generalizing w with
  | nil => exact nomatch h
  | cons a accepted ih =>
    rw [bestWrite] at h
    have hold : bestWrite pageId readLsn accepted = some w → (a.pageId = pageId → a.lsn ≤ readLsn → a.lsn ≤ w.lsn) →
        w ∈ a :: accepted ∧ w.pageId = pageId ∧ w.lsn ≤ readLsn ∧
          ∀ x ∈ a :: accepted, x.pageId = pageId → x.lsn ≤ readLsn → x.lsn ≤ w.lsn := by
      intro h ha
      obtain ⟨hw, hp, hle, hmax⟩ := ih h
      exact ⟨mem_cons_of_mem a hw, hp, hle, forall_mem_cons.2 ⟨ha, hmax⟩⟩
    split_ifs at h with hp
    · rw [better] at h
      split_ifs at h with hbest
      · cases h
        refine ⟨mem_cons_self, hp, hbest.1, forall_mem_cons.2 ⟨fun _ _ => le_rfl, fun x hx hxp hle => ?_⟩⟩
        cases hb : bestWrite pageId readLsn accepted with
        | none => exact absurd hle (not_le.2 (bestWrite_eq_none.1 hb x hx hxp))
        | some b => exact ((ih hb).2.2.2 x hx hxp hle).trans (hbest.2 b hb)
      · refine hold h fun _ hle => ?_
        by_contra hlt
        refine hbest ⟨hle, fun b hb => ?_⟩
        rw [h] at hb
        cases hb
        omega
    · exact hold h fun ha => absurd ha hp

end

namespace PageServer

variable {τ : Type*} {s s' : PageServer τ} {accepted : List (AcceptedWrite τ)}

/-- The file has the image at this offset. -/
def HasImage (s : PageServer τ) (walOffset : ℕ) (data : τ) : Prop :=
  ∃ pageId lsn, s.walImages[walOffset]? = some (.image pageId lsn data)

variable {walOffset : ℕ} {data : τ} {chunks torn : List (WalChunk τ)} {w : AcceptedWrite τ}

lemma HasImage.readWalImage (h : s.HasImage walOffset data) : s.readWalImage walOffset = some data := by
  obtain ⟨pageId, lsn, himage⟩ := h
  rw [PageServer.readWalImage, himage]

lemma HasImage.append (h : s.HasImage walOffset data)
    (hfile : s'.walImages = s.walImages ++ chunks) : s'.HasImage walOffset data := by
  obtain ⟨pageId, lsn, himage⟩ := h
  refine ⟨pageId, lsn, ?_⟩
  rw [hfile, getElem?_append_left (List.getElem?_eq_some_iff.1 himage).1, himage]

/-- The index finds, for each page and LSN, the image that a read should give. -/
structure Found (s : PageServer τ) (accepted : List (AcceptedWrite τ)) : Prop where
  indexed : s.Indexed fun p lsn => ∃ w ∈ accepted, w.pageId = p ∧ w.lsn = lsn
  absent : ∀ p readLsn, bestWrite p readLsn accepted = none → s.findLogEntry p readLsn = none
  present : ∀ p readLsn w, bestWrite p readLsn accepted = some w →
    ∃ e, s.findLogEntry p readLsn = some e ∧ e.lsn = w.lsn ∧ s.HasImage e.walOffset w.data

section

variable (h : s.Found accepted)
include h

lemma Found.congr (hindex : s'.logIndex = s.logIndex)
    (hlatest : s'.latestLsn = s.latestLsn) (hfile : s'.walImages = s.walImages ++ chunks) : s'.Found accepted where
  indexed := h.indexed.congr hindex hlatest fun _ _ => Iff.rfl
  absent := by
    intro p readLsn hbest
    rw [findLogEntry, hindex]
    exact h.absent p readLsn hbest
  present := by
    intro p readLsn w hbest
    obtain ⟨e, he, hlsn, himage⟩ := h.present p readLsn w hbest
    refine ⟨e, ?_, hlsn, himage.append hfile⟩
    rw [findLogEntry, hindex]
    exact he

omit h in
/-- The condition under which one more write changes nothing for the reads of other pages. -/
lemma bestWrite_cons_of_ne {p : ℕ} (hp : p ≠ w.pageId) (readLsn : ℕ) :
    bestWrite p readLsn (w :: accepted) = bestWrite p readLsn accepted := by
  rw [bestWrite, if_neg (Ne.symm hp)]

omit h in
lemma recorded_cons (s : PageServer τ) (w : AcceptedWrite τ) (p lsn : ℕ) :
    (∃ x ∈ w :: accepted, x.pageId = p ∧ x.lsn = lsn) ↔
      (∃ x ∈ accepted, x.pageId = p ∧ x.lsn = lsn) ∨ p = w.pageId ∧ lsn = w.lsn :=
  PageHistory.recorded_cons (s := ⟨s, accepted⟩) w s p lsn

lemma Found.rememberVersion (himage : s.HasImage walOffset w.data) :
    (s.rememberVersion w.pageId w.lsn walOffset).Found (w :: accepted) := by
  have hfind : ∀ p readLsn, (s.rememberVersion w.pageId w.lsn walOffset).findLogEntry p readLsn =
      if p = w.pageId then better PageLogIndexEntry.lsn readLsn (s.findLogEntry p readLsn) ⟨w.lsn, walOffset⟩
      else s.findLogEntry p readLsn := by
    intro p readLsn
    split_ifs with hp
    · subst hp
      rw [findLogEntry, PageServer.rememberVersion]
      dsimp only
      rw [update_self, (h.indexed.sorted w.pageId).findVersion_addVersion]
      rfl
    · rw [findLogEntry, PageServer.rememberVersion]
      dsimp only
      rw [update_of_ne hp]
      rfl
  refine ⟨(h.indexed.rememberVersion w.pageId w.lsn walOffset).congr rfl rfl (recorded_cons s w),
    fun p readLsn hbest => ?_, fun p readLsn b hbest => ?_⟩
  · rw [hfind]
    split_ifs with hp
    · rw [bestWrite, if_pos hp.symm, better] at hbest
      split_ifs at hbest with hif
      rw [better, h.absent p readLsn hbest]
      simp only [hbest, Option.mem_def, reduceCtorEq, false_implies, implies_true, and_true] at hif
      simp [hif]
    · rw [bestWrite_cons_of_ne hp] at hbest
      exact h.absent p readLsn hbest
  · rw [hfind]
    split_ifs with hp
    · rw [bestWrite, if_pos hp.symm, better] at hbest
      rw [better]
      cases hold : bestWrite p readLsn accepted with
      | none =>
        rw [hold] at hbest
        split_ifs at hbest with hif
        cases hbest
        rw [h.absent p readLsn hold, if_pos ⟨hif.1, by simp⟩]
        exact ⟨_, rfl, rfl, himage⟩
      | some b' =>
        obtain ⟨e, he, hlsn, himage'⟩ := h.present p readLsn b' hold
        rw [hold] at hbest
        simp only [Option.mem_some_iff, forall_eq'] at hbest
        simp only [he, Option.mem_some_iff, forall_eq', hlsn]
        split_ifs at hbest with hif
        · cases hbest
          rw [if_pos hif]
          exact ⟨_, rfl, rfl, himage⟩
        · cases hbest
          rw [if_neg hif]
          exact ⟨e, rfl, hlsn, himage'⟩
    · rw [bestWrite_cons_of_ne hp] at hbest
      exact h.present p readLsn b hbest

lemma Found.drop (hrec : ∃ x ∈ accepted, x.pageId = w.pageId ∧ x.lsn = w.lsn)
    (hsame : ∀ e ∈ s.logIndex w.pageId, e.lsn = w.lsn → s.HasImage e.walOffset w.data) : s.Found (w :: accepted) where
  indexed := by
    refine h.indexed.congr rfl rfl fun p lsn => (recorded_cons s w p lsn).trans (or_iff_left_of_imp ?_)
    rintro ⟨rfl, rfl⟩
    exact hrec
  absent := by
    intro p readLsn hbest
    refine h.absent p readLsn (bestWrite_eq_none.2 fun x hx => ?_)
    exact bestWrite_eq_none.1 hbest x (mem_cons_of_mem w hx)
  present := by
    intro p readLsn b hbest
    by_cases hp : p = w.pageId
    · subst hp
      rw [bestWrite, if_pos rfl, better] at hbest
      split_ifs at hbest with hif
      · -- the best one so far has the same LSN
        cases hbest
        obtain ⟨x, hx, hxp, hxl⟩ := hrec
        cases hold : bestWrite w.pageId readLsn accepted with
        | none =>
          have := bestWrite_eq_none.1 hold x hx hxp
          omega
        | some b' =>
          obtain ⟨e, he, hlsn, -⟩ := h.present w.pageId readLsn b' hold
          have hle := hif.2 b' hold
          have hge := (bestWrite_eq_some hold).2.2.2 x hx hxp (by omega)
          have hmem := ((h.indexed.sorted w.pageId).le_of_findVersion he).1
          exact ⟨e, he, by omega, hsame e hmem (by omega)⟩
      · exact h.present w.pageId readLsn b hbest
    · rw [bestWrite_cons_of_ne hp] at hbest
      exact h.present p readLsn b hbest

/-- **What a read gives.** -/
lemma Found.readPageAt_eq (fmt : PageFormat τ) {pageId readLsn : ℕ} (hpos : 0 < readLsn)
    (hbest : bestWrite pageId readLsn accepted = some w) : s.readPageAt fmt pageId readLsn =
      if fmt.headerLsn (s.primary pageId) < w.lsn ∨ readLsn < fmt.headerLsn (s.primary pageId) then some w.data
      else some (s.primary pageId) := by
  obtain ⟨e, he, hlsn, himage⟩ := h.present pageId readLsn w hbest
  rw [readPageAt]
  rw [if_neg hpos.ne', he]
  dsimp only
  rw [hlsn, himage.readWalImage]

end

/-- The record that an accepted write leaves in the file. -/
def record (w : AcceptedWrite τ) : WalChunk τ := .image w.pageId w.lsn w.data

@[simp] lemma walImages_loadFrom (s : PageServer τ) (walOffset : ℕ) (chunks : List (WalChunk τ)) :
    (s.loadFrom walOffset chunks).walImages = s.walImages ∧ (s.loadFrom walOffset chunks).primary = s.primary := by
  induction s, walOffset, chunks using loadFrom.induct with
  | case1 | case3 | case4 | case5 => exact ⟨rfl, rfl⟩
  | case2 s walOffset pageId lsn data rest ih => rwa [loadFrom]

/-- The loop goes over all records that are whole. -/
lemma Found.loadFrom (htorn : ∀ c ∈ torn, c = .torn) {more : List (AcceptedWrite τ)} (h : s.Found accepted)
    (hfile : s.walImages = accepted.reverse.map record ++ (more.map record ++ torn)) :
    (s.loadFrom accepted.length (more.map record ++ torn)).Found (more.reverse ++ accepted) := by
  induction more generalizing s accepted with
  | nil =>
    cases torn with
    | nil => exact h
    | cons c torn =>
      obtain rfl := htorn c mem_cons_self
      exact h
  | cons w more ih =>
    have himage : s.HasImage accepted.length w.data := by
      refine ⟨w.pageId, w.lsn, ?_⟩
      rw [hfile, getElem?_append_right (by simp)]
      simp [record]
    have hrest := ih (h.rememberVersion himage : Found _ (w :: accepted)) (by simp [PageServer.rememberVersion, hfile])
    simpa [loadFrom, record] using hrest

lemma found_empty (hindex : s.logIndex = fun _ => []) (hlatest : s.latestLsn = fun _ => none) : s.Found [] where
  indexed :=
    { sorted := fun p => by
        rw [hindex]
        exact .nil
      mem := fun p lsn => by simp [hindex]
      latest := fun p l h => by simp [hlatest] at h
      unknown := fun p _ lsn => by simp }
  absent := fun p readLsn _ => by
    rw [findLogEntry, hindex]
    rfl
  present := fun _ _ _ h => nomatch h

/-- After a restart the index is what it should be for the records that are whole. -/
lemma found_restart (htorn : ∀ c ∈ torn, c = .torn)
    (hfile : s.walImages = accepted.reverse.map record ++ torn) : s.restart.Found accepted := by
  have hempty : ({ s with logIndex := fun _ => [], latestLsn := fun _ => none } : PageServer τ).Found [] :=
    found_empty rfl rfl
  have hload : Found (loadFrom _ _ (accepted.reverse.map record ++ torn)) _ :=
    hempty.loadFrom htorn hfile
  rw [reverse_reverse, append_nil, ← hfile] at hload
  exact hload

end PageServer

namespace PageHistory

variable {τ : Type*} {fmt : PageFormat τ} {s : PageHistory τ}

structure TimeInv (fmt : PageFormat τ) (s : PageHistory τ) : Prop where
  found : s.server.Found s.accepted
  file : ∃ torn, s.server.walImages = s.accepted.reverse.map PageServer.record ++ torn ∧ ∀ c ∈ torn, c = .torn
  header : ∀ w ∈ s.accepted, fmt.headerLsn w.data = w.lsn
  /-- the primary copy of a page is an image with the highest LSN -/
  primary : ∀ x ∈ s.accepted, ∃ w ∈ s.accepted, w.pageId = x.pageId ∧
    (∀ y ∈ s.accepted, y.pageId = x.pageId → y.lsn ≤ w.lsn) ∧ s.server.primary x.pageId = fmt.stamp w.data

lemma TimeInv.serves (h : s.TimeInv fmt) : s.Serves fmt := by
  rintro pageId readLsn ⟨hpos, x, hx, rfl, hle⟩
  cases hbest : bestWrite x.pageId readLsn s.accepted with
  | none => exact absurd hle (not_le.2 (bestWrite_eq_none.1 hbest x hx rfl))
  | some b =>
    obtain ⟨hb, hbp, hbl, hmax⟩ := bestWrite_eq_some hbest
    obtain ⟨w, hw, hwp, hwmax, hprimary⟩ := h.primary x hx
    have hcurrent : fmt.headerLsn (s.server.primary x.pageId) = w.lsn := by
      rw [hprimary, fmt.headerLsn_stamp, h.header w hw]
    rw [h.found.readPageAt_eq fmt hpos hbest, hcurrent]
    have hbw := hwmax b hb hbp
    by_cases hpast : readLsn < w.lsn
    · rw [if_pos (.inr hpast)]
      exact ⟨b, hb, hbp, hbl, hmax, .inl rfl⟩
    · -- the primary copy is not above the LSN
      rw [if_neg (by omega), hprimary]
      exact ⟨w, hw, hwp, by omega, fun y hy hyp _ => hwmax y hy hyp, .inr rfl⟩

lemma TimeInv.restart (h : s.TimeInv fmt) {tail : CrashTail τ} (htail : s.WholeFile fmt (.crash tail)) :
    TimeInv fmt ⟨s.afterCrash tail, s.accepted⟩ := by
  obtain ⟨torn, hfile, htorn⟩ := h.file
  obtain ⟨torn', hchunks, htorn'⟩ : ∃ torn', tail.chunks = torn' ∧ ∀ c ∈ torn', c = .torn := by
    rcases htail with rfl | rfl
    · exact ⟨[], rfl, fun _ hc => nomatch hc⟩
    · exact ⟨[.torn], rfl, by simp⟩
  have hfile' : s.server.walImages ++ tail.chunks = s.accepted.reverse.map record ++ (torn ++ torn') := by
    rw [hfile, hchunks, append_assoc]
  have hall : ∀ c ∈ torn ++ torn', c = .torn := by
    intro c hc
    rcases mem_append.1 hc with hc | hc
    · exact htorn c hc
    · exact htorn' c hc
  have hkept := walImages_loadFrom { s.server with
      walImages := s.server.walImages ++ tail.chunks, logIndex := fun _ => [], latestLsn := fun _ => none } 0
    (s.server.walImages ++ tail.chunks)
  refine ⟨found_restart hall hfile', ⟨torn ++ torn', hkept.1.trans hfile', hall⟩, h.header, ?_⟩
  intro x hx
  obtain ⟨w, hw, hwp, hmax, hprimary⟩ := h.primary x hx
  exact ⟨w, hw, hwp, hmax, (congrFun hkept.2 x.pageId).trans hprimary⟩

variable {a : TimeAction τ} {pageId : ℕ} {data : τ}

lemma TimeInv.restartKeeps (h : s.TimeInv fmt) (ha : s.WholeFile fmt a) : s.RestartKeeps fmt a := by
  cases a with
  | crash tail =>
    rintro pageId readLsn ⟨hpos, x, hx, rfl, hle⟩
    have hprimary : (s.afterCrash tail).primary = s.server.primary := (walImages_loadFrom ..).2
    cases hbest : bestWrite x.pageId readLsn s.accepted with
    | none => exact absurd hle (not_le.2 (bestWrite_eq_none.1 hbest x hx rfl))
    | some b =>
      rw [(h.restart ha).found.readPageAt_eq fmt hpos hbest, h.found.readPageAt_eq fmt hpos hbest, hprimary]
  | write pageId data => trivial
  | setDurableLsn lsn => trivial

lemma TimeInv.found_write (h : s.TimeInv fmt) (hwhole : s.WholeFile fmt (.write pageId data))
    (hacc : s.server.accepts (fmt.headerLsn data) = true) :
    (s.server.writeAccepted fmt pageId data (fmt.headerLsn data)).Found
      (⟨pageId, fmt.headerLsn data, data⟩ :: s.accepted) := by
  obtain ⟨himages, hdup⟩ := hwhole hacc
  have happend : (s.server.appendWalImage pageId data (fmt.headerLsn data)).1.Found s.accepted :=
    h.found.congr rfl rfl rfl
  rcases happend.indexed.recordImage pageId (fmt.headerLsn data) s.server.walImages.length with
    ⟨h0, hrec, heq⟩ | ⟨-, isNewest, heq, -⟩
  · rw [writeAccepted_of_recordImage heq]
    refine happend.drop (w := ⟨pageId, fmt.headerLsn data, data⟩) hrec fun e he hlsn => ?_
    have hread := hdup h0 e he hlsn
    -- every record of the file is whole
    have himage : s.server.HasImage e.walOffset data := by
      rw [readWalImage] at hread
      cases hchunk : s.server.walImages[e.walOffset]? with
      | none =>
        rw [hchunk] at hread
        cases hread
      | some c =>
        obtain ⟨p, lsn, d, rfl⟩ := himages c (mem_of_getElem? hchunk)
        rw [hchunk] at hread
        cases hread
        exact ⟨p, lsn, hchunk⟩
    exact himage.append rfl
  · rw [writeAccepted_of_recordImage heq]
    have himage : (s.server.appendWalImage pageId data (fmt.headerLsn data)).1.HasImage s.server.walImages.length
        data := ⟨pageId, fmt.headerLsn data, by simp [appendWalImage]⟩
    have hremember := happend.rememberVersion (w := ⟨pageId, fmt.headerLsn data, data⟩) himage
    split_ifs
    · exact hremember.congr rfl rfl (append_nil _).symm
    · exact hremember

lemma walImages_recordImage (s : PageServer τ) (pageId lsn walOffset : ℕ) :
    (s.recordImage pageId lsn walOffset).1.walImages = s.walImages := by
  rw [recordImage]
  split_ifs <;> rfl

lemma walImages_writeAccepted (s : PageServer τ) (pageId : ℕ) (data : τ) (lsn : ℕ) :
    (s.writeAccepted fmt pageId data lsn).walImages = s.walImages ++ [.image pageId lsn data] := by
  rw [writeAccepted]
  dsimp only
  split_ifs
  · rw [writePrimary, walImages_recordImage]
    rfl
  · rw [walImages_recordImage]
    rfl

lemma TimeInv.write (h : s.TimeInv fmt) (hwhole : s.WholeFile fmt (.write pageId data))
    (hacc : s.server.accepts (fmt.headerLsn data) = true) :
    TimeInv fmt ⟨s.server.writeAccepted fmt pageId data (fmt.headerLsn data),
      ⟨pageId, fmt.headerLsn data, data⟩ :: s.accepted⟩ := by
  obtain ⟨torn, hfile, htorn⟩ := h.file
  -- the file is whole before the append
  have hnil : torn = [] := by
    refine eq_nil_iff_forall_not_mem.2 fun c hc => ?_
    obtain ⟨p, lsn, d, hc'⟩ := (hwhole hacc).1 c (by rw [hfile]; exact mem_append_right _ hc)
    rw [htorn c hc] at hc'
    cases hc'
  refine ⟨h.found_write hwhole hacc, ⟨[], ?_, fun _ hc => nomatch hc⟩, ?_, ?_⟩
  · rw [walImages_writeAccepted, hfile, hnil]
    simp [record]
  · exact forall_mem_cons.2 ⟨rfl, h.header⟩
  · rcases (writeAccepted_spec fmt h.found.indexed pageId data (fmt.headerLsn data)).2 with
      ⟨hstays, hprimary⟩ | ⟨-, hmax, hprimary⟩
    · -- some image of the page is at least as high
      obtain ⟨y, hy, hyp, hle⟩ : ∃ y ∈ s.accepted, y.pageId = pageId ∧ fmt.headerLsn data ≤ y.lsn := by
        rcases hstays with ⟨-, y, hy, hyp, hyl⟩ | ⟨l, ⟨y, hy, hyp, rfl⟩, hlt⟩
        · exact ⟨y, hy, hyp, hyl.ge⟩
        · exact ⟨y, hy, hyp, hlt.le⟩
      have hold : ∀ x ∈ s.accepted, ∃ w ∈ (⟨pageId, fmt.headerLsn data, data⟩ : AcceptedWrite τ) :: s.accepted,
          w.pageId = x.pageId ∧ (∀ y ∈ (⟨pageId, fmt.headerLsn data, data⟩ : AcceptedWrite τ) :: s.accepted,
            y.pageId = x.pageId → y.lsn ≤ w.lsn) ∧ s.server.primary x.pageId = fmt.stamp w.data := by
        intro x hx
        obtain ⟨w, hw, hwp, hmax, hprim⟩ := h.primary x hx
        refine ⟨w, mem_cons_of_mem _ hw, hwp, forall_mem_cons.2 ⟨fun hp => ?_, hmax⟩, hprim⟩
        exact hle.trans (hmax y hy (hyp.trans hp))
      rw [hprimary]
      refine forall_mem_cons.2 ⟨?_, hold⟩
      simpa only [hyp] using hold y hy
    · rw [hprimary]
      intro x hx
      by_cases hp : x.pageId = pageId
      · refine ⟨⟨pageId, fmt.headerLsn data, data⟩, mem_cons_self, hp.symm,
          forall_mem_cons.2 ⟨fun _ => le_rfl, fun y hy hyp => ?_⟩, by rw [hp, update_self]⟩
        exact hmax y.lsn ⟨y, hy, hyp.trans hp, rfl⟩
      · have hx' : x ∈ s.accepted := by
          rcases mem_cons.1 hx with rfl | hx
          · exact absurd rfl hp
          · exact hx
        obtain ⟨w, hw, hwp, hmax', hprim⟩ := h.primary x hx'
        refine ⟨w, mem_cons_of_mem _ hw, hwp, forall_mem_cons.2 ⟨fun hp' => absurd hp'.symm hp, hmax'⟩, ?_⟩
        rw [update_of_ne hp, hprim]

lemma TimeInv.act (h : s.TimeInv fmt) (ha : s.WholeFile fmt a) : (s.act fmt a).TimeInv fmt := by
  have hidle : ∀ durableLsn, TimeInv fmt ⟨{ s.server with durableLsn := durableLsn }, s.accepted⟩ := fun durableLsn =>
    ⟨h.found.congr rfl rfl (append_nil _).symm, h.file, h.header, h.primary⟩
  cases a with
  | write pageId data =>
    have hlsn : writeLsn fmt data (fmt.headerLsn data) = fmt.headerLsn data := by
      rw [writeLsn]
      split_ifs <;> rfl
    rw [PageHistory.act]
    rcases call_cases fmt s (.write pageId data (fmt.headerLsn data)) with
      ⟨_, _, _, hcall, hacc, heq⟩ | ⟨-, durableLsn, heq⟩
    · cases hcall
      rw [heq, hlsn]
      rw [hlsn] at hacc
      exact h.write ha hacc
    · rw [heq]
      exact hidle durableLsn
  | setDurableLsn lsn =>
    rw [PageHistory.act]
    rcases call_cases fmt s (.setDurableLsn lsn) with ⟨_, _, _, hcall, -⟩ | ⟨-, durableLsn, heq⟩
    · cases hcall
    · rw [heq]
      exact hidle durableLsn
  | crash tail => exact h.restart ha

lemma timeInv_init (fmt : PageFormat τ) : (init fmt).TimeInv fmt where
  found := found_empty rfl rfl
  file := ⟨[], rfl, fun _ hc => nomatch hc⟩
  header := fun _ hw => nomatch hw
  primary := fun _ hx => nomatch hx

/-- **Reads as of an LSN are right, and survive restarts, as long as the file of images stays whole.** -/
theorem serves_of_wholeFile (fmt : PageFormat τ) {acts : List (TimeAction τ)}
    (hwhole : StepsMeet (total (act fmt)) (WholeFile fmt) (init fmt) acts) :
    Always (total (act fmt)) (Serves fmt) (init fmt) acts ∧
      StepsMeet (total (act fmt)) (RestartKeeps fmt) (init fmt) acts := by
  have hstep : ∀ (s : PageHistory τ) (a : TimeAction τ) (s' : PageHistory τ), s.TimeInv fmt → s.WholeFile fmt a →
      total (act fmt) s a = some s' → s'.TimeInv fmt := by
    rintro s a s' h ha ⟨⟩
    exact h.act ha
  exact ⟨always_of_invariant hstep (fun _ h => h.serves) (timeInv_init fmt) hwhole,
    StepsMeet.of_invariant hstep (fun _ _ h ha => h.restartKeeps ha) (timeInv_init fmt) hwhole⟩

/-- A page is written under 9 and then under 7, and the server restarts with a torn record at the end. -/
theorem serves_before_torn_record :
    Always (total (act plainFormat)) (Serves plainFormat) (init plainFormat)
        [.write 7 (9, 1), .write 7 (7, 2), .setDurableLsn 9, .crash .torn] ∧
      StepsMeet (total (act plainFormat)) (RestartKeeps plainFormat) (init plainFormat)
        [.write 7 (9, 1), .write 7 (7, 2), .setDurableLsn 9, .crash .torn] :=
  serves_of_wholeFile plainFormat (by decide)

/-- Two images are appended behind a torn record, and after the next restart the one under 7 is not found: a read at
8 gives the one under 5. -/
theorem image_behind_torn_record_lost :
    ¬ (Always (total (act plainFormat)) (Serves plainFormat) (init plainFormat)
        [.write 7 (5, 1), .crash .torn, .write 7 (7, 2), .write 7 (9, 3), .crash .nothing] ∧
      StepsMeet (total (act plainFormat)) (RestartKeeps plainFormat) (init plainFormat)
        [.write 7 (5, 1), .crash .torn, .write 7 (7, 2), .write 7 (9, 3), .crash .nothing]) := by
  rintro ⟨h, -⟩
  have hserves := h.last (runs_total ..)
  generalize hs : foldl _ _ _ = s at hserves
  have haccepted : s.accepted = [⟨7, 9, (9, 3)⟩, ⟨7, 7, (7, 2)⟩, ⟨7, 5, (5, 1)⟩] := by
    rw [← hs]
    rfl
  have hread : s.server.readPageAt plainFormat 7 8 = some (5, 1) := by
    rw [← hs]
    rfl
  obtain ⟨w, hw, -, hle, hmax, hgives⟩ := hserves 7 8 ⟨by decide, ⟨7, 7, (7, 2)⟩, by simp [haccepted], rfl, by decide⟩
  have hgreatest := hmax ⟨7, 7, (7, 2)⟩ (by simp [haccepted]) rfl (by decide)
  have hdata : w.data = (5, 1) := by
    rw [hread] at hgives
    exact hgives.elim (fun h => (Option.some.inj h).symm) (fun h => (Option.some.inj h).symm)
  rw [haccepted] at hw
  simp only [mem_cons, not_mem_nil, or_false] at hw
  rcases hw with rfl | rfl | rfl
  · cases hdata
  · cases hdata
  · exact absurd hgreatest (by decide)

end PageHistory

end MiniDb
