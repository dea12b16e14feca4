import Mathlib.Data.Nat.Notation

/-!
# Identifiers and constants

The counters of the source (`u64` transaction ids, log sequence numbers and page ids, `u16` slot
numbers) are natural numbers: no modelled function depends on their width, and the places where a
value must fit in a field check it against an explicit bound.  Transaction ids, snapshot ids and
commit ids all come from one counter.
-/

namespace MiniDb

def kInvalidTxnId : ℕ := 0

/-- A tuple with `xmin = kFrozenTxnId` counts as committed for every snapshot. -/
def kFrozenTxnId : ℕ := 2

def kNullPageId : ℕ := 0

def kNullSlot : ℕ := 0xFFFF

/-- The address of a row version. -/
structure RecordId where
  pageId : ℕ
  slotIdx : ℕ
  deriving DecidableEq, Repr

end MiniDb
