import Mathlib.Data.List.Basic
import Mathlib.Data.Nat.Digits.Defs

/-!
# Storage that forgets

A `Volatile` is storage with a cache in front of it: what is on stable storage, and the writes made since, newest
first.  A write gives a value to some of the locations.  `sync` moves all writes to stable storage; a crash keeps any
part of every write (`CrashOf`).

* `crashOf_iff_of_synced` — with nothing in the cache there is one outcome.
* `CrashOf.eq_durable` — locations that were not written are as they were.

`leByte` and `leNat` are numbers in little-endian bytes.
-/

namespace MiniDb

structure Volatile (ι β : Type*) where
  durable : ι → β
  pending : List (ι → Option β)

namespace Volatile

variable {ι β : Type*}

def ofDurable (content : ι → β) : Volatile ι β := ⟨content, []⟩

section

variable (v : Volatile ι β)

def write (w : ι → Option β) : Volatile ι β := { v with pending := w :: v.pending }

/-- What a read returns at a location: the value of the newest write to it. -/
def current (i : ι) : β :=
  (v.pending.findSome? fun w => w i).getD (v.durable i)

def sync : Volatile ι β := ofDurable v.current

/-- A crash may leave this content. -/
def CrashOf (content : ι → β) : Prop :=
  ∀ i, content i = v.durable i ∨ ∃ w ∈ v.pending, w i = some (content i)

end

section

variable (v : Volatile ι β)
include v

@[simp] lemma pending_sync : v.sync.pending = [] := rfl

@[simp] lemma durable_sync : v.sync.durable = v.current := rfl

@[simp] lemma pending_write (w : ι → Option β) : (v.write w).pending = w :: v.pending := rfl

@[simp] lemma durable_write (w : ι → Option β) : (v.write w).durable = v.durable := rfl

end

variable {v : Volatile ι β} {w : ι → Option β} {i : ι} {content : ι → β}

lemma current_write {b : β} (h : w i = some b) : (v.write w).current i = b := by
  simp [current, h]

lemma current_write_of_none (h : w i = none) : (v.write w).current i = v.current i := by
  simp [current, h]

/-- A crash may leave everything that was written. -/
lemma crashOf_current (v : Volatile ι β) : v.CrashOf v.current := by
  intro i
  rw [current]
  cases h : v.pending.findSome? fun w => w i with
  | none => exact .inl rfl
  | some b =>
    obtain ⟨w, hw, hwi⟩ := List.exists_of_findSome?_eq_some h
    exact .inr ⟨w, hw, hwi⟩

lemma CrashOf.eq_durable (h : v.CrashOf content) (hi : ∀ w ∈ v.pending, w i = none) :
    content i = v.durable i := by
  rcases h i with h | ⟨w, hw, h⟩
  · exact h
  · rw [hi w hw] at h
    cases h

lemma crashOf_iff_of_synced (hv : v.pending = []) : v.CrashOf content ↔ content = v.durable := by
  refine ⟨fun h => funext fun i => h.eq_durable ?_, ?_⟩
  · simp [hv]
  · rintro rfl i
    exact .inl rfl

end Volatile

/-! ## Numbers in bytes -/

/-- The byte of a number at a position, the lowest first. -/
def leByte (n k : ℕ) : UInt8 := .ofNat (n / 256 ^ k)

/-- The number that bytes stand for, the lowest first. -/
def leNat (bytes : List UInt8) : ℕ := .ofDigits 256 (bytes.map UInt8.toNat)

lemma toNat_leByte (n k : ℕ) : (leByte n k).toNat = n / 256 ^ k % 256 := by
  simp [leByte]

lemma leNat_leByte {width n : ℕ} (h : n < 256 ^ width) : leNat ((List.range width).map (leByte n)) = n := by
  induction width generalizing n with
  | zero =>
    have hn : n = 0 := by simpa using h
    rw [hn]
    rfl
  | succ width ih =>
    have hshift : ∀ k, leByte n (k + 1) = leByte (n / 256) k := fun k => by
      rw [leByte, leByte, Nat.pow_succ', Nat.div_div_eq_div_mul]
    have hrest : n / 256 < 256 ^ width := Nat.div_lt_of_lt_mul (by rwa [← Nat.pow_succ'])
    have hlow : (leByte n 0).toNat = n % 256 := by simp [toNat_leByte]
    rw [List.range_succ_eq_map, List.map_cons, List.map_map]
    have htail : leNat ((List.range width).map (leByte n ∘ Nat.succ)) = n / 256 := by
      rw [← ih hrest]
      exact congrArg leNat (List.map_congr_left fun k _ => hshift k)
    rw [leNat, List.map_cons, Nat.ofDigits_cons, hlow]
    rw [leNat] at htail
    rw [htail]
    exact Nat.mod_add_div n 256

end MiniDb
