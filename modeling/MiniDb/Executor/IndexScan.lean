import MiniDb.Core.Trail
import MiniDb.Transaction.Manager
import MiniDb.Storage.HeapFile
import MiniDb.Index.TableIndex

/-!
# Index scans

What an index scan makes of an entry.  From the address of the entry it goes over at most one redirect,
and from there along the version chain to the first version that the reader sees.  The row is returned
if its key is still the key of the entry.
-/

namespace MiniDb

variable {β κ : Type*}

def Tuple.next? (t : Tuple β) : Option RecordId :=
  if t.hasNextVersion then some ⟨t.nextPage, t.nextSlot⟩ else none

/-- `check_visible`.  A reader without a transaction sees what nobody has deleted. -/
def checkVisible (tm : TransactionManager) (reader : Option Transaction) (t : Tuple β) : Bool :=
  match reader with
  | none => t.xmax == kInvalidTxnId
  | some txn => tm.isVisible t.xmin t.xmax txn

def kMaxChainDepth : ℕ := 64

def followVersionChain (tm : TransactionManager) (reader : Option Transaction) (h : HeapFile β)
    (start : RecordId) : Option (RecordId × Tuple β) :=
  follow h.tupleAt (checkVisible tm reader) Tuple.next? kMaxChainDepth start

/-- The slot at which the scan enters the version chain: a redirect is followed once. -/
def HeapFile.visibleSlot (h : HeapFile β) (rid : RecordId) : RecordId :=
  match h.look rid with
  | .redirect target => if target ≠ kNullSlot then ⟨rid.pageId, target⟩ else rid
  | _ => rid

variable [DecidableEq κ]

/-- What the scan makes of one entry. -/
def TableIndex.probe (ix : TableIndex β κ) (tm : TransactionManager) (reader : Option Transaction)
    (h : HeapFile β) (passes : β → Bool) (entry : κ × RecordId) : Option (RecordId × β) :=
  (followVersionChain tm reader h (h.visibleSlot entry.2)).bind fun (rid, t) =>
    if ix.key t.row = entry.1 ∧ passes t.row then some (rid, t.row) else none

/-- A path along the version chain to the first version that the reader sees. -/
abbrev HeapFile.Trail (h : HeapFile β) (tm : TransactionManager) (reader : Option Transaction) :
    List RecordId → Tuple β → Prop :=
  MiniDb.Trail h.tupleAt (checkVisible tm reader) Tuple.next?

end MiniDb
