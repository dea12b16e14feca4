import MiniDb.Common.Defs
import Mathlib.Algebra.Order.BigOperators.Group.List
import Mathlib.Data.List.Forall2
import Mathlib.Tactic

/-!
# Slotted pages

A heap page is an array of line pointers that grows from the header, and tuples that grow from the other end.  The
model keeps the line pointers with their offsets and lengths, and for each slot the tuple that its bytes hold, not the
bytes.  That the tuples of a page fit between the line pointers and the reserved tail is the field `packed` of `Page`:
every operation returns a page, so none of them can overflow one.

`look` is what the rest of the development reads: the tuple of a slot whose line pointer is valid, or the target of a
redirect.  Each operation comes with a lemma that says what it does to `look`.
-/

namespace MiniDb

open List Option

def kPageSize : ℕ := 8192
def kPageHeaderSize : ℕ := 24
def kLinePointerSize : ℕ := 6
def kPageTailReserved : ℕ := 8

/-- Size of the serialized tuple header with the column count. -/
def kTupleHeaderSize : ℕ := 30

/-- The lengths of serialized tuples that the executors hand to the heap. -/
def LengthOk (length : ℕ) : Prop := kTupleHeaderSize ≤ length ∧ length ≤ kPageSize

instance (length : ℕ) : Decidable (LengthOk length) :=
  inferInstanceAs (Decidable (kTupleHeaderSize ≤ length ∧ length ≤ kPageSize))

lemma LengthOk.pos {length : ℕ} (h : LengthOk length) : 0 < length :=
  lt_of_lt_of_le (by decide) h.1

/-- Upper end of the tuple area. -/
def kDataUpperBound : ℕ := kPageSize - kPageTailReserved

/-- `max_align`: round up to eight bytes, in sixteen bits. -/
def maxAlign (size : ℕ) : ℕ := (size + 7) / 8 * 8 % 65536

inductive LpFlags where
  | unused
  | normal
  | redirect
  | dead
  deriving DecidableEq, Repr

structure LinePointer where
  offset : ℕ
  length : ℕ
  flags : LpFlags
  deriving DecidableEq, Repr

open LinePointer

namespace LinePointer

section

variable (lp : LinePointer)

def isValid : Bool := lp.flags == .normal && 0 < lp.offset && 0 < lp.length

def isDead : Bool := lp.flags == .dead

def isRedirect : Bool := lp.flags == .redirect

def isUsable : Bool := lp.flags == .unused || lp.flags == .dead

def markNormal (offset length : ℕ) : LinePointer := ⟨offset, length, .normal⟩

def markDead : LinePointer := { lp with flags := .dead }

/-- A redirect keeps its target slot in the offset field. -/
def markRedirect (target : ℕ) : LinePointer := ⟨target, 0, .redirect⟩

def markUnused : LinePointer := ⟨0, 0, .unused⟩

@[simp] lemma isValid_markDead : lp.markDead.isValid = false := by
  simp [isValid, markDead]

@[simp] lemma isValid_markRedirect (target : ℕ) : (markRedirect target).isValid = false := by
  simp [isValid, markRedirect]

@[simp] lemma isValid_markUnused : markUnused.isValid = false := rfl

/-- The bytes of a dead tuple stay reserved until the page is pruned, so they still count. -/
def holdsSpace : Bool :=
  (lp.flags == .normal || lp.flags == .dead) && 0 < lp.offset && 0 < lp.length

end

variable {lp : LinePointer}

lemma holdsSpace_of_isValid (h : lp.isValid = true) : lp.holdsSpace = true := by
  simp only [isValid, Bool.and_eq_true, beq_iff_eq, decide_eq_true_eq] at h
  simp [holdsSpace, h]

lemma offset_pos_of_holdsSpace (h : lp.holdsSpace = true) : 0 < lp.offset := by
  simp only [holdsSpace, Bool.and_eq_true, decide_eq_true_eq] at h
  exact h.1.2

lemma isValid_iff : lp.isValid = true ↔ lp.flags = .normal ∧ 0 < lp.offset ∧ 0 < lp.length := by
  simp [isValid, and_assoc]

end LinePointer

/-- A row version: the MVCC header and the row itself. -/
structure Tuple (β : Type*) where
  xmin : ℕ
  xmax : ℕ
  nextPage : ℕ
  nextSlot : ℕ
  row : β
  deriving DecidableEq, Repr

def Tuple.hasNextVersion {β : Type*} (t : Tuple β) : Bool := t.nextPage != kNullPageId

/-- A line pointer and the tuple its bytes hold; the tuple means nothing unless the line pointer
is valid. -/
structure Slot (β : Type*) where
  lp : LinePointer
  tuple : Tuple β
  deriving DecidableEq, Repr

open Slot

/-- What a reader finds behind a line pointer. -/
inductive SlotView (β : Type*) where
  | tuple (t : Tuple β)
  | redirect (target : ℕ)
  | empty
  deriving DecidableEq, Repr

def SlotView.tuple? {β : Type*} : SlotView β → Option (Tuple β)
  | .tuple t => some t
  | _ => none

def SlotView.mapTuple {β : Type*} (f : Tuple β → Tuple β) : SlotView β → SlotView β
  | .tuple t => .tuple (f t)
  | v => v

def Slot.view {β : Type*} (s : Slot β) : SlotView β :=
  if s.lp.isValid then .tuple s.tuple
  else if s.lp.isRedirect then .redirect s.lp.offset
  else .empty

namespace Slot

variable {β : Type*} (t : Tuple β)

@[simp] lemma view_markUnused : (⟨.markUnused, t⟩ : Slot β).view = .empty := rfl

@[simp] lemma view_markDead (lp : LinePointer) : (⟨lp.markDead, t⟩ : Slot β).view = .empty := by
  simp [view, isValid, isRedirect, markDead]

@[simp] lemma view_markRedirect (target : ℕ) : (⟨.markRedirect target, t⟩ : Slot β).view = .redirect target := rfl

end Slot

/-- First byte behind the array of `num` line pointers. -/
def lpEnd (num : ℕ) : ℕ := kPageHeaderSize + num * kLinePointerSize

/-- The smallest offset that some line pointer holds.  A redirect's target slot counts as an
offset here, as it does in the source. -/
def minTupleOffset (lps : List LinePointer) : ℕ :=
  lps.foldr (fun lp acc => if 0 < lp.offset ∧ lp.offset < acc then lp.offset else acc)
    kDataUpperBound

/-- The aligned space of one tuple, if it starts at or above `x`. -/
def spaceAt (x : ℕ) (lp : LinePointer) : ℕ :=
  if lp.holdsSpace && x ≤ lp.offset then maxAlign lp.length else 0

/-- The aligned space of the tuples that start at or above `x`. -/
def spaceFrom (x : ℕ) (lps : List LinePointer) : ℕ := (lps.map (spaceAt x)).sum

/-- The line pointers fit on the page, unused ones claim no space, the tuples lie behind the line
pointers, and above every offset they fit below the tail. -/
structure Packed (lps : List LinePointer) : Prop where
  fits : lpEnd lps.length ≤ kDataUpperBound
  unused : ∀ lp ∈ lps, lp.flags = .unused → lp.length = 0
  above : ∀ lp ∈ lps, lp.holdsSpace = true → lpEnd lps.length ≤ lp.offset
  room : ∀ x, spaceFrom x lps ≤ kDataUpperBound - x

/-! ## Space accounting -/

@[simp] lemma spaceFrom_nil (x : ℕ) : spaceFrom x [] = 0 := rfl

@[simp] lemma spaceFrom_cons (x : ℕ) (lp : LinePointer) (lps : List LinePointer) :
    spaceFrom x (lp :: lps) = spaceAt x lp + spaceFrom x lps := rfl

lemma minTupleOffset_le_bound (lps : List LinePointer) : minTupleOffset lps ≤ kDataUpperBound := by
  induction lps with
  | nil => exact le_rfl
  | cons lp lps ih =>
    rw [minTupleOffset, foldr_cons]
    split
    · next h => exact h.2.le.trans ih
    · exact ih

variable {lps lps' : List LinePointer} {γ : Type*} {a b : LinePointer}

lemma minTupleOffset_le {lp : LinePointer} (h : lp ∈ lps) (hpos : 0 < lp.offset) :
    minTupleOffset lps ≤ lp.offset := by
  induction lps with
  | nil => cases h
  | cons a lps ih =>
    rw [minTupleOffset, foldr_cons]
    rcases mem_cons.1 h with rfl | h
    · split
      · exact le_rfl
      · next hn => exact not_lt.1 fun hlt => hn ⟨hpos, hlt⟩
    · split
      · next hs => exact hs.2.le.trans (ih h)
      · exact ih h

lemma spaceAt_le_of {x n : ℕ} (h : a.holdsSpace = true → x ≤ a.offset → maxAlign a.length ≤ n) :
    spaceAt x a ≤ n := by
  unfold spaceAt
  split
  · next hs =>
    simp only [Bool.and_eq_true, decide_eq_true_eq] at hs
    exact h hs.1 hs.2
  · exact Nat.zero_le _

/-- Every tuple starts at or above the smallest offset, so nothing is lost by counting from
there. -/
lemma spaceFrom_le_minTupleOffset (x : ℕ) (lps : List LinePointer) :
    spaceFrom x lps ≤ spaceFrom (minTupleOffset lps) lps := by
  refine sum_le_sum fun lp hlp => spaceAt_le_of fun hs _ => ?_
  have hmin := minTupleOffset_le hlp (offset_pos_of_holdsSpace hs)
  simp [spaceAt, hs, hmin]

/-- The line pointer `b` may replace `a`: if it holds space, it is part of the space of `a`. -/
structure Shrinks (a b : LinePointer) : Prop where
  space : b.holdsSpace = true →
    a.holdsSpace = true ∧ b.offset = a.offset ∧ maxAlign b.length ≤ maxAlign a.length
  unused : b.flags = .unused → b = a ∨ b.length = 0

open Shrinks

lemma Shrinks.refl (a : LinePointer) : Shrinks a a :=
  ⟨fun h => ⟨h, rfl, le_rfl⟩, fun _ => Or.inl rfl⟩

lemma Shrinks.markUnused (a : LinePointer) : Shrinks a .markUnused :=
  ⟨fun h => (by cases h), fun _ => Or.inr rfl⟩

lemma Shrinks.markRedirect (a : LinePointer) (target : ℕ) : Shrinks a (.markRedirect target) :=
  ⟨fun h => by simp [LinePointer.holdsSpace, LinePointer.markRedirect] at h, fun h => by cases h⟩

lemma Shrinks.markDead (h : a.isValid = true) : Shrinks a a.markDead :=
  ⟨fun _ => ⟨holdsSpace_of_isValid h, rfl, le_rfl⟩, fun h => by cases h⟩

/-- A dead tuple's space may be taken by one that needs no more. -/
lemma Shrinks.reuse {length : ℕ} (hdead : a.flags = .dead) (hpos : 0 < a.length)
    (hlen : maxAlign length ≤ maxAlign a.length) : Shrinks a (.markNormal a.offset length) := by
  refine ⟨fun h => ⟨?_, rfl, hlen⟩, fun h => by cases h⟩
  have hoff := offset_pos_of_holdsSpace h
  simp only [markNormal] at hoff
  simp [holdsSpace, hdead, hoff, hpos]

lemma Shrinks.spaceAt_le (h : Shrinks a b) (x : ℕ) : spaceAt x b ≤ spaceAt x a := by
  refine spaceAt_le_of fun hb hx => ?_
  obtain ⟨ha, hoff, hlen⟩ := h.space hb
  simpa [spaceAt, ha, ← hoff, hx] using hlen

lemma Shrinks.set : ∀ {lps : List LinePointer} {i : ℕ},
    (∀ a ∈ lps[i]?, Shrinks a b) → List.Forall₂ Shrinks lps (lps.set i b)
  | [], _, _ => .nil
  | a :: _, 0, h => .cons (h a rfl) (forall₂_same.2 fun c _ => refl c)
  | a :: _, _ + 1, h => .cons (refl a) (set h)

lemma spaceFrom_le_of_shrinks (h : List.Forall₂ Shrinks lps lps') (x : ℕ) :
    spaceFrom x lps' ≤ spaceFrom x lps := by
  induction h with
  | nil => exact le_rfl
  | cons hab _ ih => exact Nat.add_le_add (hab.spaceAt_le x) ih

lemma exists_mem_of_forall₂ {δ : Type*} {R : γ → δ → Prop} {l : List γ} {l' : List δ}
    (h : Forall₂ R l l') {b : δ}
    (hb : b ∈ l') : ∃ a ∈ l, R a b := by
  induction h with
  | nil => cases hb
  | @cons a b' _ _ hab _ ih =>
    rcases mem_cons.1 hb with rfl | hb
    · exact ⟨a, mem_cons_self, hab⟩
    · obtain ⟨a', ha', hab'⟩ := ih hb
      exact ⟨a', mem_cons_of_mem _ ha', hab'⟩

/-- A packed page stays packed when tuples shrink or go away. -/
lemma Packed.of_shrinks (hp : Packed lps) (h : List.Forall₂ Shrinks lps lps') : Packed lps' := by
  refine ⟨h.length_eq ▸ hp.fits, fun b hb hu => ?_, fun b hb hs => ?_,
    fun x => (spaceFrom_le_of_shrinks h x).trans (hp.room x)⟩
  · obtain ⟨a, ha, hab⟩ := exists_mem_of_forall₂ h hb
    rcases hab.unused hu with rfl | h0
    · exact hp.unused b ha hu
    · exact h0
  · obtain ⟨a, ha, hab⟩ := exists_mem_of_forall₂ h hb
    obtain ⟨hsa, hoff, -⟩ := hab.space hs
    rw [← h.length_eq, hoff]
    exact hp.above a ha hsa

/-- Put a line pointer at the end of the array, or in place of an old one. -/
def placeAt {γ : Type*} (l : List γ) (i : ℕ) (a : γ) : List γ :=
  if i = l.length then l ++ [a] else l.set i a

lemma map_placeAt {δ : Type*} (f : γ → δ) (l : List γ) (i : ℕ) (a : γ) :
    (placeAt l i a).map f = placeAt (l.map f) i (f a) := by
  unfold placeAt
  rw [length_map]
  split
  · simp
  · rw [map_set]

lemma length_placeAt (l : List γ) (i : ℕ) (a : γ) :
    (placeAt l i a).length = if i = l.length then l.length + 1 else l.length := by
  unfold placeAt; split <;> simp

lemma getElem?_placeAt {l : List γ} {i : ℕ} (a : γ) (h : i ≤ l.length) (j : ℕ) :
    (placeAt l i a)[j]? = if j = i then some a else l[j]? := by
  unfold placeAt
  split
  · next hi =>
    subst hi
    rcases lt_trichotomy j l.length with hj | rfl | hj
    · rw [getElem?_append_left hj, if_neg hj.ne]
    · simp
    · rw [if_neg hj.ne', getElem?_eq_none hj.le, getElem?_eq_none]
      simpa using hj
  · next hi =>
    rw [getElem?_set]
    by_cases hij : i = j
    · subst hij
      simp [lt_of_le_of_ne h hi]
    · rw [if_neg hij, if_neg (Ne.symm hij)]

lemma getElem?_set_of_some {l : List γ} {i : ℕ} {x : γ} (h : l[i]? = some x) (a : γ) (j : ℕ) :
    (l.set i a)[j]? = if j = i then some a else l[j]? := by
  have hlt := (List.getElem?_eq_some_iff.1 h).1
  by_cases hij : j = i
  · subst hij
    simp [hlt]
  · rw [if_neg hij, getElem?_set_ne (Ne.symm hij)]

lemma mem_placeAt {l : List γ} {i : ℕ} {a b : γ} (h : b ∈ placeAt l i a) : b ∈ l ∨ b = a := by
  unfold placeAt at h
  split at h
  · simpa using h
  · exact mem_or_eq_of_mem_set h

lemma spaceFrom_set_le (x : ℕ) (lp : LinePointer) : ∀ (lps : List LinePointer) (i : ℕ),
      spaceFrom x (lps.set i lp) ≤ spaceFrom x lps + spaceAt x lp
  | [], _ => Nat.zero_le _
  | a :: lps, 0 => by
      rw [set_cons_zero, spaceFrom_cons, spaceFrom_cons]
      omega
  | a :: lps, i + 1 => by
      have ih := spaceFrom_set_le x lp lps i
      rw [set_cons_succ, spaceFrom_cons, spaceFrom_cons]
      omega

lemma spaceFrom_placeAt_le (x : ℕ) (lp : LinePointer) (lps : List LinePointer) (i : ℕ) :
    spaceFrom x (placeAt lps i lp) ≤ spaceFrom x lps + spaceAt x lp := by
  unfold placeAt
  split
  · simp [spaceFrom]
  · exact spaceFrom_set_le x lp lps i

/-- What the space test of an insertion guarantees. -/
lemma Packed.place (hp : Packed lps) {target length : ℕ} (hlen : maxAlign length ≤ minTupleOffset lps)
    (hroom : lpEnd (if target = lps.length then lps.length + 1 else lps.length) ≤
      minTupleOffset lps - maxAlign length) :
    Packed (placeAt lps target (.markNormal (minTupleOffset lps - maxAlign length) length)) := by
  set m := minTupleOffset lps with hm
  set a := maxAlign length with ha
  constructor
  · rw [length_placeAt]
    exact hroom.trans ((Nat.sub_le _ _).trans (minTupleOffset_le_bound lps))
  · intro lp hlp hu
    rcases mem_placeAt hlp with hlp | rfl
    · exact hp.unused lp hlp hu
    · cases hu
  · intro lp hlp hv
    rw [length_placeAt]
    refine hroom.trans ?_
    rcases mem_placeAt hlp with hlp | rfl
    · have hpos := offset_pos_of_holdsSpace hv
      exact (Nat.sub_le _ _).trans (minTupleOffset_le hlp hpos)
    · exact le_rfl
  · intro x
    refine (spaceFrom_placeAt_le x _ lps target).trans ?_
    by_cases hx : x ≤ m - a
    · -- below the new tuple: everything old lies above `m`
      have hold := (spaceFrom_le_minTupleOffset x lps).trans (hp.room m)
      have hbound : m ≤ kDataUpperBound := minTupleOffset_le_bound lps
      have hnew : spaceAt x (.markNormal (m - a) length) ≤ a := spaceAt_le_of fun _ _ => le_rfl
      omega
    · -- above it: the new tuple does not count
      have hnew : spaceAt x (.markNormal (m - a) length) = 0 := by
        simp [spaceAt, markNormal, hx]
      rw [hnew]
      exact hp.room x

/-! ## Pages -/

structure Page (β : Type*) where
  lsn : ℕ
  slots : List (Slot β)
  packed : Packed (slots.map lp)

variable {β : Type*}

namespace Page

/-- A page of zeroes, and also a page that was just initialised. -/
def empty : Page β := ⟨0, [], ⟨show lpEnd 0 ≤ kDataUpperBound by decide, by simp, by simp, by simp⟩⟩

section

variable (p : Page β)

/-- The number of line pointers, whatever their state. -/
def numTuples : ℕ := p.slots.length

section

variable (i : ℕ)

/-- The line pointer of a slot.  Past the array the source reads the free area; the model reads
an unused line pointer there. -/
def linePointer : LinePointer :=
  match p.slots[i]? with
  | some s => s.lp
  | none => .markUnused

def look : SlotView β := (p.slots[i]?.map view).getD .empty

/-- The tuple of a slot with a valid line pointer. -/
def tupleAt : Option (Tuple β) := (p.look i).tuple?

def setLsn (lsn : ℕ) : Page β := { p with lsn := lsn }

/-- Overwrite the tuple bytes of a slot, leaving its line pointer alone. -/
def modifyTuple (f : Tuple β → Tuple β) : Page β :=
  { p with
    slots := p.slots.modify i fun s => { s with tuple := f s.tuple }
    packed := by
      have hlps : (p.slots.modify i fun s => { s with tuple := f s.tuple }).map lp
          = p.slots.map lp := by
        apply ext_getElem?
        intro j
        simp only [getElem?_map, getElem?_modify]
        cases p.slots[j]? with
        | none => rfl
        | some s => by_cases hij : i = j <;> simp [hij]
      rw [hlps]
      exact p.packed }

/-- Overwrite a slot whose new line pointer needs no more space than the old one. -/
def replaceSlot (s : Slot β) (h : ∀ a ∈ p.slots[i]?, Shrinks a.lp s.lp) : Page β :=
  { p with
    slots := p.slots.set i s
    packed := by
      rw [map_set]
      refine p.packed.of_shrinks (set fun a ha => ?_)
      rw [getElem?_map, mem_def, map_eq_some_iff] at ha
      obtain ⟨a, ha, rfl⟩ := ha
      exact h a ha }

end

/-- `insert_tuple_at`: fails beyond the array, on a valid slot, or without room; the space of the
old tuple is not reused.  A length from 65529 to 65535 is rounded to 0: it finds room, and the source then copies that
many bytes past the end of the page.  Here the tuple is a value, and the line pointer gets the length. -/
def insertTupleAt (t : Tuple β) (length target : ℕ) : Option (Page β) :=
  let lps := p.slots.map lp
  let num := lps.length
  if p.slots.length < target then none
  else if (p.linePointer target).isValid then none
  else if hlen : maxAlign length ≤ minTupleOffset lps then
    if hroom : lpEnd (if target = num then num + 1 else num) ≤
        minTupleOffset lps - maxAlign length then
      some
        { p with
          slots := placeAt p.slots target
            ⟨.markNormal (minTupleOffset lps - maxAlign length) length, t⟩
          packed := by rw [map_placeAt]; exact p.packed.place hlen hroom }
    else none
  else none

/-- The slot that `insert_tuple` fills in place: a reclaimable one that is long enough. -/
def findInPlace (length : ℕ) : Option ℕ :=
  p.slots.findIdx? fun s =>
    s.lp.isUsable && 0 < s.lp.length && maxAlign length ≤ maxAlign s.lp.length

/-- The first unused slot. -/
def findUnused : Option ℕ := p.slots.findIdx? fun s => s.lp.flags == .unused

end

variable {s : Slot β} {ss : List (Slot β)} {length : ℕ} {s : Slot β} {t : Tuple β}

/-- A slot that can be filled in place was left by a dead tuple. -/
lemma dead_of_findInPlace {p : Page β} {i : ℕ} (h : p.findInPlace length = some i) (hs : p.slots[i]? = some s) :
    s.lp.flags = .dead ∧ 0 < s.lp.length ∧ maxAlign length ≤ maxAlign s.lp.length := by
  obtain ⟨hlt, hp, -⟩ := findIdx?_eq_some_iff_getElem.1 h
  obtain ⟨-, rfl⟩ := List.getElem?_eq_some_iff.1 hs
  simp only [isUsable, Bool.and_eq_true, Bool.or_eq_true, beq_iff_eq, decide_eq_true_eq] at hp
  refine ⟨hp.1.1.resolve_left fun hu => ?_, hp.1.2, hp.2⟩
  have := p.packed.unused _ (mem_map_of_mem (getElem_mem hlt)) hu
  omega

section

variable (p : Page β)

/-- `insert_tuple`: reuse a dead tuple's space in place, else append to the tuple area, with an
unused line pointer if there is one. -/
def insertTuple (t : Tuple β) (length : ℕ) : Option (Page β × ℕ) :=
  match hi : p.findInPlace length with
  | some i =>
    match hs : p.slots[i]? with
    | some s =>
      some (p.replaceSlot i ⟨.markNormal s.lp.offset length, t⟩ fun a ha => by
        rw [hs] at ha
        cases ha
        obtain ⟨hd, hpos, hlen⟩ := dead_of_findInPlace hi hs
        exact reuse hd hpos hlen, i)
    | none => none
  | none =>
    let target := p.findUnused.getD p.numTuples
    (p.insertTupleAt t length target).map fun p' => (p', target)

def predictSlot (length : ℕ) : ℕ :=
  match p.findInPlace length with
  | some i => i
  | none => p.findUnused.getD p.numTuples

def markDead (i : ℕ) : Option (Page β) :=
  match h : p.slots[i]? with
  | none => none
  | some s =>
    if hv : s.lp.isValid then
      some (p.replaceSlot i ⟨s.lp.markDead, s.tuple⟩ fun a ha => by
        rw [h] at ha
        cases ha
        exact Shrinks.markDead hv)
    else none

/-- `reclaim_slot`: any slot of the array, whatever its state. -/
def reclaimSlot (i : ℕ) : Option (Page β) :=
  match p.slots[i]? with
  | none => none
  | some s => some (p.replaceSlot i ⟨.markUnused, s.tuple⟩ fun _ _ => markUnused _)

def redirectSlot (i target : ℕ) : Option (Page β) :=
  match p.slots[i]? with
  | none => none
  | some s =>
    if target < p.numTuples then
      some (p.replaceSlot i ⟨.markRedirect target, s.tuple⟩ fun _ _ => markRedirect _ _)
    else none

/-- The second half of `prune`: move the valid tuples together, down from `cursor`. -/
def compact : ℕ → List (Slot β) → List (Slot β)
  | _, [] => []
  | cursor, s :: ss =>
    if s.lp.isValid then
      let cursor := cursor - maxAlign s.lp.length
      ⟨⟨cursor, s.lp.length, s.lp.flags⟩, s.tuple⟩ :: compact cursor ss
    else s :: compact cursor ss

/-- The first half of `prune`. -/
def reclaimDead (s : Slot β) : Slot β := if s.lp.isDead then ⟨.markUnused, s.tuple⟩ else s

@[simp] lemma length_compact (cursor : ℕ) (ss : List (Slot β)) : (compact cursor ss).length = ss.length := by
  induction ss generalizing cursor with
  | nil => rfl
  | cons s ss ih =>
    rw [compact]
    split <;> simp [ih]

@[simp] lemma view_reclaimDead (s : Slot β) : (reclaimDead s).view = s.view := by
  unfold reclaimDead
  split
  · next h =>
    simp only [isDead, beq_iff_eq] at h
    have hv : s.lp.isValid = false := by simp [isValid, h]
    have hr : s.lp.isRedirect = false := by simp [isRedirect, h]
    rw [view_markUnused, view, hv, hr]
    rfl
  · rfl

lemma reclaimDead_eq_self (h : (reclaimDead s).lp.isValid = true) : reclaimDead s = s := by
  unfold reclaimDead at h ⊢
  split_ifs at h ⊢
  · cases h
  · rfl

/-- Without dead tuples, only valid ones hold space. -/
lemma holdsSpace_reclaimDead (h : (reclaimDead s).lp.holdsSpace = true) :
    (reclaimDead s).lp.isValid = true := by
  unfold reclaimDead at h ⊢
  split at h
  · cases h
  · next hd =>
    simp only [isDead, beq_iff_eq] at hd
    simp only [holdsSpace, Bool.and_eq_true, Bool.or_eq_true, beq_iff_eq, hd, or_false] at h
    rw [if_neg (by simpa [isDead] using hd)]
    simp [isValid, h]

/-- Compaction puts the tuples below the cursor and above what they need. -/
lemma packed_compact (hss : ∀ s ∈ ss, s.lp.holdsSpace → s.lp.isValid) :
    ∀ {cursor : ℕ}, spaceFrom 0 (ss.map Slot.lp) ≤ cursor →
      (∀ lp ∈ (compact cursor ss).map Slot.lp, lp.holdsSpace = true →
        cursor - spaceFrom 0 (ss.map Slot.lp) ≤ lp.offset) ∧
      ∀ x, spaceFrom x ((compact cursor ss).map Slot.lp) ≤ cursor - x := by
  induction ss with
  | nil => simp [compact]
  | cons s ss ih =>
    intro cursor hc
    have ih := @ih fun a ha => hss a (mem_cons_of_mem _ ha)
    rw [map_cons, spaceFrom_cons] at hc ⊢
    by_cases hv : s.lp.isValid = true
    · have hsp : spaceAt 0 s.lp = maxAlign s.lp.length := by
        simp [spaceAt, holdsSpace_of_isValid hv]
      obtain ⟨habove, hroom⟩ := @ih (cursor - maxAlign s.lp.length) (by omega)
      rw [compact, if_pos hv, map_cons]
      refine ⟨fun lp hlp hh => ?_, fun x => ?_⟩
      · rcases mem_cons.1 hlp with rfl | hlp
        · show _ ≤ cursor - maxAlign s.lp.length
          omega
        · have := habove lp hlp hh
          omega
      · show spaceAt x ⟨cursor - maxAlign s.lp.length, s.lp.length, s.lp.flags⟩ + spaceFrom x _ ≤ _
        have hx := hroom x
        have hs : spaceAt x ⟨cursor - maxAlign s.lp.length, s.lp.length, s.lp.flags⟩ ≤
            if x ≤ cursor - maxAlign s.lp.length then maxAlign s.lp.length else 0 :=
          spaceAt_le_of fun _ hx => (if_pos hx).ge
        split at hs <;> omega
    · have hsp : ∀ x, spaceAt x s.lp = 0 := fun x => by
        simp [spaceAt, show s.lp.holdsSpace = false from
          Bool.eq_false_iff.2 fun h => hv (hss s mem_cons_self h)]
      rw [hsp, zero_add] at hc ⊢
      obtain ⟨habove, hroom⟩ := ih hc
      rw [compact, if_neg hv, map_cons]
      refine ⟨fun lp hlp hh => ?_, fun x => ?_⟩
      · rcases mem_cons.1 hlp with rfl | hlp
        · exact absurd (hss s mem_cons_self hh) hv
        · exact habove lp hlp hh
      · rw [spaceFrom_cons, hsp, zero_add]
        exact hroom x

/-- What `prune` makes of a slot: a tuple gets another place, and a dead slot becomes unused. -/
def Kept (a b : Slot β) : Prop :=
  a.lp.isValid = true ∧ b.lp.isValid = true ∧ b.lp.length = a.lp.length ∧ b.tuple = a.tuple ∨ b = reclaimDead a

lemma Kept.view {a b : Slot β} (h : Kept a b) : b.view = a.view := by
  rcases h with ⟨ha, hb, -, htuple⟩ | rfl
  · rw [Slot.view, if_pos hb, htuple, Slot.view, if_pos ha]
  · exact view_reclaimDead a

/-- Compaction keeps the tuples, as long as the cursor does not run into the header. -/
lemma forall₂_compact : ∀ {cursor : ℕ}, spaceFrom 0 ((ss.map reclaimDead).map lp) < cursor →
      Forall₂ Kept ss (compact cursor (ss.map reclaimDead)) := by
  induction ss with
  | nil => intro _ _; exact .nil
  | cons s ss ih =>
    intro cursor hc
    rw [map_cons, map_cons, spaceFrom_cons] at hc
    rw [map_cons, compact]
    split
    · next hv =>
      have hsp : spaceAt 0 (reclaimDead s).lp = maxAlign (reclaimDead s).lp.length := by
        simp [spaceAt, holdsSpace_of_isValid hv]
      rw [hsp] at hc
      have hself := reclaimDead_eq_self hv
      rw [hself] at hv hc ⊢
      have hpos : 0 < cursor - maxAlign s.lp.length := by omega
      have hv' := isValid_iff.1 hv
      exact .cons (.inl ⟨hv, by simp [isValid, hv', hpos], rfl, rfl⟩) (ih (by omega))
    · exact .cons (.inr rfl) (ih (by omega))

lemma spaceFrom_zero_le : spaceFrom 0 (p.slots.map lp) ≤ kDataUpperBound - lpEnd p.slots.length := by
  have h := p.packed.room (lpEnd p.slots.length)
  refine le_trans (sum_le_sum fun lp hlp => spaceAt_le_of fun hs _ => ?_) h
  have habove := p.packed.above lp hlp hs
  rw [length_map] at habove
  simp [spaceAt, hs, habove]

lemma spaceFrom_zero_reclaimDead_le : spaceFrom 0 ((p.slots.map reclaimDead).map lp) ≤
      kDataUpperBound - lpEnd p.slots.length := by
  refine le_trans (spaceFrom_le_of_shrinks ?_ 0) p.spaceFrom_zero_le
  rw [List.map_map, forall₂_map_left_iff, forall₂_map_right_iff, forall₂_same]
  intro s _
  show Shrinks s.lp (reclaimDead s).lp
  unfold reclaimDead
  split
  · exact markUnused _
  · exact refl _

lemma forall₂_compact_slots : Forall₂ Kept p.slots (compact kDataUpperBound (p.slots.map reclaimDead)) := by
  have hspace := p.spaceFrom_zero_reclaimDead_le
  have hend : 0 < lpEnd p.slots.length := Nat.add_pos_left (by decide) _
  have hfits := p.packed.fits
  rw [length_map] at hfits
  exact forall₂_compact (by omega)

lemma packed_prune : Packed ((compact kDataUpperBound (p.slots.map reclaimDead)).map Slot.lp) := by
  have hss : ∀ s ∈ p.slots.map reclaimDead, s.lp.holdsSpace → s.lp.isValid := by
    intro s hs
    obtain ⟨s', -, rfl⟩ := mem_map.1 hs
    exact holdsSpace_reclaimDead
  have hspace := p.spaceFrom_zero_reclaimDead_le
  have hfits := p.packed.fits
  rw [length_map] at hfits
  obtain ⟨habove, hroom⟩ := packed_compact hss (hspace.trans (Nat.sub_le _ _))
  refine ⟨?_, fun lp hlp hu => ?_, fun lp hlp hh => ?_, hroom⟩
  · rw [length_map, length_compact, length_map]
    exact hfits
  · obtain ⟨s, hs, rfl⟩ := mem_map.1 hlp
    obtain ⟨a, ha, ⟨-, hv, -⟩ | rfl⟩ := exists_mem_of_forall₂ p.forall₂_compact_slots hs
    · cases hu.symm.trans (isValid_iff.1 hv).1
    · unfold reclaimDead at hu ⊢
      split_ifs at hu ⊢
      · rfl
      · exact p.packed.unused _ (mem_map_of_mem ha) hu
  · have h := habove lp hlp hh
    rw [length_map, length_compact, length_map]
    omega

/-- `prune`: dead slots become unused and the tuples move together.  A page without dead slots is
left alone.  The second component is the number of slots reclaimed. -/
def prune : Page β × ℕ :=
  if p.slots.any fun s => s.lp.isDead then
    ({ p with
        slots := compact kDataUpperBound (p.slots.map reclaimDead)
        packed := p.packed_prune },
      p.slots.countP fun s => s.lp.isDead)
  else (p, 0)

def getFreeSpace : ℕ :=
  minTupleOffset (p.slots.map lp) - lpEnd p.numTuples

def hasEnoughSpace (tupleSize : ℕ) : Bool :=
  let alignedLen := maxAlign tupleSize
  let m := minTupleOffset (p.slots.map lp)
  let hasUnusedSlot := p.slots.any fun s => s.lp.flags == .unused
  (p.slots.any fun s => s.lp.flags == .dead && alignedLen ≤ maxAlign s.lp.length) ||
    alignedLen ≤ m &&
      lpEnd (if hasUnusedSlot then p.numTuples else p.numTuples + 1) ≤ m - alignedLen

end

/-! ## What the operations do to the tuples of a page -/

section

variable {p p' : Page β} {i j : ℕ}

@[simp] lemma tupleAt_empty (i : ℕ) : (empty : Page β).tupleAt i = none := rfl

@[simp] lemma lsn_setLsn (lsn : ℕ) : (p.setLsn lsn).lsn = lsn := rfl

variable {t : Tuple β} {target length slot : ℕ}

lemma tupleAt_eq_some_iff : p.tupleAt i = some t ↔ p.look i = .tuple t := by
  unfold tupleAt
  cases p.look i <;> simp [SlotView.tuple?]

lemma isValid_linePointer : (p.linePointer i).isValid = (p.tupleAt i).isSome := by
  unfold linePointer tupleAt look view
  cases p.slots[i]? with
  | none => rfl
  | some s => cases hv : s.lp.isValid <;> cases hr : s.lp.isRedirect <;> simp [hv, hr, SlotView.tuple?]

lemma lt_numTuples_of_look (h : p.look i ≠ .empty) : i < p.numTuples := by
  by_contra hn
  exact h (by simp [look, getElem?_eq_none (not_lt.1 hn)])

lemma lt_numTuples_of_tupleAt (h : p.tupleAt i = some t) : i < p.numTuples :=
  lt_numTuples_of_look (by rw [tupleAt_eq_some_iff.1 h]; simp)

lemma look_congr (h : p'.slots.map view = p.slots.map view) : p'.look i = p.look i := by
  unfold look
  rw [← getElem?_map, ← getElem?_map, h]

lemma forall₂_prune (p : Page β) : Forall₂ Kept p.slots p.prune.1.slots := by
  unfold prune
  split
  · exact p.forall₂_compact_slots
  · next h =>
    refine forall₂_same.2 fun s hs => .inr (if_neg ?_).symm
    exact any_eq_false.1 (Bool.eq_false_iff.2 h) s hs

@[simp] lemma look_prune : p.prune.1.look i = p.look i := by
  refine look_congr ?_
  rw [← forall₂_eq_eq_eq, forall₂_map_left_iff, forall₂_map_right_iff]
  exact (p.forall₂_prune.imp fun _ _ h => h.view).flip

@[simp] lemma lsn_prune : p.prune.1.lsn = p.lsn := by
  unfold prune; split <;> rfl

@[simp] lemma numTuples_prune : p.prune.1.numTuples = p.numTuples := p.forall₂_prune.length_eq.symm

section

variable (f : Tuple β → Tuple β)

lemma look_modifyTuple : (p.modifyTuple i f).look j = if j = i then (p.look j).mapTuple f else p.look j := by
  unfold look modifyTuple view
  simp only [getElem?_modify]
  cases p.slots[j]? with
  | none => by_cases hij : j = i <;> simp [hij, SlotView.mapTuple]
  | some s =>
    by_cases hij : i = j
    · subst hij
      cases hv : s.lp.isValid <;> cases hr : s.lp.isRedirect <;> simp [hv, hr, SlotView.mapTuple]
    · simp [hij, Ne.symm hij]

@[simp] lemma lsn_modifyTuple : (p.modifyTuple i f).lsn = p.lsn := rfl

@[simp] lemma numTuples_modifyTuple : (p.modifyTuple i f).numTuples = p.numTuples := length_modify ..

end

lemma look_of_set {s' : Slot β} (hs : p.slots[i]? = some s) (h : p'.slots = p.slots.set i s') (j : ℕ) :
    p'.look j = if j = i then s'.view else p.look j := by
  rw [look, look, h, getElem?_set_of_some hs]
  split <;> rfl

lemma numTuples_of_set (h : p'.slots = p.slots.set i s) : p'.numTuples = p.numTuples := by
  rw [numTuples, h, length_set, numTuples]

lemma slots_markDead (h : p.markDead i = some p') : ∃ s, p.slots[i]? = some s ∧ s.lp.isValid = true ∧ p'.lsn = p.lsn ∧
      p'.slots = p.slots.set i ⟨s.lp.markDead, s.tuple⟩ := by
  unfold markDead at h
  split at h
  · cases h
  next s hs =>
  split_ifs at h with hv
  cases h
  exact ⟨s, hs, hv, rfl, rfl⟩

lemma slots_reclaimSlot (h : p.reclaimSlot i = some p') :
    ∃ s, p.slots[i]? = some s ∧ p'.lsn = p.lsn ∧ p'.slots = p.slots.set i ⟨.markUnused, s.tuple⟩ := by
  unfold reclaimSlot at h
  split at h
  · cases h
  next s hs =>
  cases h
  exact ⟨s, hs, rfl, rfl⟩

lemma slots_redirectSlot (h : p.redirectSlot i target = some p') :
    ∃ s, p.slots[i]? = some s ∧ target < p.numTuples ∧ p'.lsn = p.lsn ∧
      p'.slots = p.slots.set i ⟨.markRedirect target, s.tuple⟩ := by
  unfold redirectSlot at h
  split at h
  · cases h
  next s hs =>
  split_ifs at h with ht
  cases h
  exact ⟨s, hs, ht, rfl, rfl⟩

lemma slots_insertTupleAt (h : p.insertTupleAt t length i = some p') :
    i ≤ p.numTuples ∧ p.tupleAt i = none ∧ p'.lsn = p.lsn ∧ 0 < minTupleOffset (p.slots.map lp) - maxAlign length ∧
      p'.slots = placeAt p.slots i ⟨.markNormal (minTupleOffset (p.slots.map lp) - maxAlign length) length, t⟩ := by
  simp only [insertTupleAt, Option.ite_none_left_eq_some, Option.dite_none_right_eq_some] at h
  obtain ⟨hle, hv, _, hroom, h⟩ := h
  cases h
  rw [isValid_linePointer, isSome_iff_ne_none, not_not] at hv
  exact ⟨not_lt.1 hle, hv, rfl, lt_of_lt_of_le (Nat.add_pos_left (by decide) _) hroom, rfl⟩

/-- What a successful `insert_tuple_at` does: a slot without a tuple, at most one past the array,
gets the tuple. -/
lemma insertTupleAt_eq_some (hlen : 0 < length) (h : p.insertTupleAt t length i = some p') :
    i ≤ p.numTuples ∧ p.tupleAt i = none ∧ p'.lsn = p.lsn ∧ p'.numTuples = max p.numTuples (i + 1) ∧
      ∀ j, p'.look j = if j = i then .tuple t else p.look j := by
  obtain ⟨hle, hv, hlsn, hpos, hslots⟩ := slots_insertTupleAt h
  have hview : (⟨.markNormal (minTupleOffset (p.slots.map lp) - maxAlign length)
      length, t⟩ : Slot β).view = .tuple t := by
    simp [view, isValid, markNormal, hpos, hlen]
  refine ⟨hle, hv, hlsn, ?_, fun j => ?_⟩
  · unfold numTuples at hle ⊢
    rw [hslots, length_placeAt]
    split <;> omega
  · rw [look, hslots, getElem?_placeAt _ hle]
    by_cases hj : j = i
    · rw [if_pos hj, if_pos hj]
      exact hview
    · rw [if_neg hj, if_neg hj]
      rfl

lemma markDead_eq_some (h : p.markDead i = some p') :
    (∃ t, p.tupleAt i = some t) ∧ p'.lsn = p.lsn ∧ p'.numTuples = p.numTuples ∧
      ∀ j, p'.look j = if j = i then .empty else p.look j := by
  obtain ⟨s, hs, hv, hlsn, hslots⟩ := slots_markDead h
  have hview : p.look i = .tuple s.tuple := by simp [look, hs, view, hv]
  refine ⟨⟨s.tuple, tupleAt_eq_some_iff.2 hview⟩, hlsn, numTuples_of_set hslots, fun j => ?_⟩
  rw [look_of_set hs hslots, view_markDead]

lemma reclaimSlot_eq_some (h : p.reclaimSlot i = some p') :
    i < p.numTuples ∧ p'.lsn = p.lsn ∧ p'.numTuples = p.numTuples ∧
      ∀ j, p'.look j = if j = i then .empty else p.look j := by
  obtain ⟨s, hs, hlsn, hslots⟩ := slots_reclaimSlot h
  refine ⟨(List.getElem?_eq_some_iff.1 hs).1, hlsn, numTuples_of_set hslots, fun j => ?_⟩
  rw [look_of_set hs hslots, view_markUnused]

lemma redirectSlot_eq_some (h : p.redirectSlot i target = some p') :
    i < p.numTuples ∧ target < p.numTuples ∧ p'.lsn = p.lsn ∧ p'.numTuples = p.numTuples ∧
      ∀ j, p'.look j = if j = i then .redirect target else p.look j := by
  obtain ⟨s, hs, ht, hlsn, hslots⟩ := slots_redirectSlot h
  refine ⟨(List.getElem?_eq_some_iff.1 hs).1, ht, hlsn, numTuples_of_set hslots, fun j => ?_⟩
  rw [look_of_set hs hslots, view_markRedirect]

lemma markDead_isSome (ht : p.tupleAt i = some t) : ∃ p', p.markDead i = some p' := by
  have hi := lt_numTuples_of_tupleAt ht
  unfold markDead
  split
  · next hs => exact absurd hs (by simp [getElem?_eq_getElem hi])
  · next s hs =>
    have hv : s.lp.isValid = true := by
      have hv := congrArg isSome ht
      rw [← isValid_linePointer, linePointer, hs] at hv
      exact hv
    rw [dif_pos hv]
    exact ⟨_, rfl⟩

lemma redirectSlot_isSome (hi : i < p.numTuples) (ht : target < p.numTuples) :
    ∃ p', p.redirectSlot i target = some p' := by
  unfold redirectSlot
  rw [getElem?_eq_getElem hi]
  exact ⟨_, if_pos ht⟩

lemma look_eq_empty_of_isUsable (hs : p.slots[i]? = some s) (hu : s.lp.isUsable = true) :
    p.look i = .empty := by
  simp only [isUsable, Bool.or_eq_true, beq_iff_eq] at hu
  have hv : s.lp.isValid = false := by rcases hu with hu | hu <;> simp [isValid, hu]
  have hr : s.lp.isRedirect = false := by
    rcases hu with hu | hu <;> simp [isRedirect, hu]
  simp [look, hs, view, hv, hr]

/-- The predicted slot is one that nothing lives in, not even a redirect. -/
lemma look_predictSlot (length : ℕ) : p.look (p.predictSlot length) = .empty := by
  unfold predictSlot
  split
  · next i hi =>
    obtain ⟨hlt, hp, -⟩ := findIdx?_eq_some_iff_getElem.1 hi
    simp only [Bool.and_eq_true] at hp
    exact look_eq_empty_of_isUsable (getElem?_eq_getElem hlt) hp.1.1
  · cases hu : p.findUnused with
    | none => simp [look, numTuples]
    | some i =>
      obtain ⟨hlt, hp, -⟩ := findIdx?_eq_some_iff_getElem.1 hu
      refine look_eq_empty_of_isUsable (getElem?_eq_getElem hlt) ?_
      simp [isUsable, hp]

/-- What a successful `insert_tuple` does: it takes the space of a dead tuple, or it is `insert_tuple_at` on
the first unused slot or behind the array. -/
lemma insertTuple_cases (h : p.insertTuple t length = some (p', slot)) :
    (∃ s, p.slots[slot]? = some s ∧ s.lp.flags = .dead ∧ 0 < s.lp.length ∧
      maxAlign length ≤ maxAlign s.lp.length ∧ p'.lsn = p.lsn ∧
      p'.slots = p.slots.set slot ⟨.markNormal s.lp.offset length, t⟩) ∨
    (slot = p.findUnused.getD p.numTuples ∧ p.insertTupleAt t length slot = some p') := by
  unfold insertTuple at h
  split at h
  · next i hi =>
    split at h
    · next s hs =>
      cases h
      obtain ⟨hdead, hpos, hlen⟩ := dead_of_findInPlace hi hs
      exact .inl ⟨s, hs, hdead, hpos, hlen, rfl, rfl⟩
    · cases h
  · simp only [map_eq_some_iff, Prod.mk.injEq] at h
    obtain ⟨p1, h1, rfl, rfl⟩ := h
    exact .inr ⟨rfl, h1⟩

lemma lsn_insertTuple (h : p.insertTuple t length = some (p', slot)) : p'.lsn = p.lsn := by
  rcases insertTuple_cases h with ⟨s, -, -, -, -, hlsn, -⟩ | ⟨-, h⟩
  · exact hlsn
  · exact (slots_insertTupleAt h).2.2.1

lemma insertTuple_empty (hlen : 0 < length) (hp : p.slots = []) (h : p.insertTuple t length = some (p', slot)) :
    slot = 0 ∧ ∀ j, p'.look j = if j = 0 then .tuple t else .empty := by
  rcases insertTuple_cases h with ⟨s, hs, -⟩ | ⟨rfl, h⟩
  · simp [hp] at hs
  · have hu : p.findUnused.getD p.numTuples = 0 := by simp [findUnused, numTuples, hp]
    rw [hu] at h ⊢
    refine ⟨rfl, fun j => ?_⟩
    rw [(insertTupleAt_eq_some hlen h).2.2.2.2 j]
    simp [look, hp]

end

/-! ## Lengths of tuples -/

/-- Every tuple of the page has a length that the executors hand out. -/
def LengthsOk (p : Page β) : Prop := ∀ s ∈ p.slots, s.lp.isValid = true → LengthOk s.lp.length

section

variable {p p' : Page β} {i : ℕ}

lemma lengthsOk_empty : (empty : Page β).LengthsOk := fun s hs => by cases hs

section

variable (hp : p.LengthsOk)
include hp

lemma LengthsOk.modifyTuple (i : ℕ) (f : Tuple β → Tuple β) : (p.modifyTuple i f).LengthsOk := by
  intro s hs hv
  obtain ⟨j, hj⟩ := mem_iff_getElem?.1 hs
  simp only [Page.modifyTuple, getElem?_modify] at hj
  cases hs' : p.slots[j]? with
  | none => simp [hs'] at hj
  | some s' =>
    have hlp : s.lp = s'.lp := by
      rw [hs'] at hj
      obtain rfl := some.inj hj
      split <;> rfl
    rw [hlp] at hv ⊢
    exact hp s' (mem_of_getElem? hs') hv

lemma LengthsOk.set (h : p'.slots = p.slots.set i s) (hs : s.lp.isValid = false) : p'.LengthsOk := by
  intro s' hs' hv
  rw [h] at hs'
  rcases mem_or_eq_of_mem_set hs' with hs' | rfl
  · exact hp s' hs' hv
  · cases hs.symm.trans hv

lemma LengthsOk.markDead (h : p.markDead i = some p') : p'.LengthsOk := by
  obtain ⟨s, -, -, -, hslots⟩ := slots_markDead h
  exact hp.set hslots (by simp)

lemma LengthsOk.reclaimSlot (h : p.reclaimSlot i = some p') : p'.LengthsOk := by
  obtain ⟨s, -, -, hslots⟩ := slots_reclaimSlot h
  exact hp.set hslots (by simp)

lemma LengthsOk.redirectSlot {target : ℕ} (h : p.redirectSlot i target = some p') : p'.LengthsOk := by
  obtain ⟨s, -, -, -, hslots⟩ := slots_redirectSlot h
  exact hp.set hslots (by simp)

lemma LengthsOk.prune : p.prune.1.LengthsOk := by
  intro s hs hv
  obtain ⟨a, ha, ⟨hva, -, hlen, -⟩ | rfl⟩ := exists_mem_of_forall₂ p.forall₂_prune hs
  · rw [hlen]
    exact hp a ha hva
  · have hself := reclaimDead_eq_self hv
    rw [hself] at hv ⊢
    exact hp a ha hv

lemma LengthsOk.insertTupleAt (hlen : LengthOk length) (h : p.insertTupleAt t length i = some p') :
    p'.LengthsOk := by
  intro s hs hv
  rw [(slots_insertTupleAt h).2.2.2.2] at hs
  rcases mem_placeAt hs with hs | rfl
  · exact hp s hs hv
  · exact hlen

end

lemma lengthsOk_insertTuple_empty {slot : ℕ} (hlen : LengthOk length)
    (hp : p.slots = []) (h : p.insertTuple t length = some (p', slot)) : p'.LengthsOk := by
  have hl : p.LengthsOk := fun s hs => by
    rw [hp] at hs
    cases hs
  rcases insertTuple_cases h with ⟨s, hs, -⟩ | ⟨-, h⟩
  · simp [hp] at hs
  · exact hl.insertTupleAt hlen h

lemma LengthsOk.header_fits (hp : p.LengthsOk) (ht : p.tupleAt i = some t) :
    (p.linePointer i).isValid = true ∧ kTupleHeaderSize ≤ (p.linePointer i).length ∧
      (p.linePointer i).offset + kTupleHeaderSize ≤ kPageSize := by
  have hv : (p.linePointer i).isValid = true := by rw [isValid_linePointer, ht]; rfl
  have hmem : ∃ s ∈ p.slots, p.linePointer i = s.lp := by
    unfold linePointer at hv ⊢
    split at hv
    · next s hs => exact ⟨s, mem_of_getElem? hs, rfl⟩
    · cases hv
  obtain ⟨s, hs, heq⟩ := hmem
  rw [heq] at hv ⊢
  obtain ⟨hmin, hmax⟩ := hp s hs hv
  refine ⟨hv, hmin, ?_⟩
  -- the tuple itself is among those that fit above its offset
  have hroom := p.packed.room s.lp.offset
  have hself : spaceAt s.lp.offset s.lp ≤ spaceFrom s.lp.offset (p.slots.map lp) :=
    single_le_sum (by simp) _ (mem_map_of_mem (mem_map_of_mem hs))
  have hspace : spaceAt s.lp.offset s.lp = maxAlign s.lp.length := by
    simp [spaceAt, holdsSpace_of_isValid hv]
  rw [hspace] at hself
  unfold maxAlign at hself
  simp only [kTupleHeaderSize, kPageSize, kDataUpperBound, kPageTailReserved] at *
  omega

end

end Page

end MiniDb
