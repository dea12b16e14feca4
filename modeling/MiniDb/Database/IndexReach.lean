import MiniDb.Database.CollectorInvisible
import MiniDb.Executor.IndexBatch

/-!
# Index scans across a collection

A collector removes the index entry of a version together with the version.  HOT versions have no entry of their own:
an index scan finds them only along the chain from the version whose entry they share, and loses them with it.

`EntriesSuffice` excludes this: wherever a scan passes a version that the collector removes, one of the kept versions
behind it has an entry of its own, with the key of the row that the scan finds.

The scans are those for a key, and for a range in which no address has entries with two keys.  In other ranges a
batch may leave out an entry because of an entry that a collector removes.
-/

namespace MiniDb

open List Option HeapFile Engine

open TransactionManager

variable {β κ : Type*}

/-! ## The statement -/

namespace Engine

end Engine

section

variable {e : Engine β κ} {a : Action β} {tb : GcTable β κ} {freezing : Bool}
  {reader : Option Transaction} {rid : RecordId} {tup : Tuple β}

/-- A version that is kept looks the same to every reader, frozen or not. -/
def Alike (tm : TransactionManager) (reader : Option Transaction) (t t' : Tuple β) : Prop :=
  checkVisible tm reader t' = checkVisible tm reader t ∧ t'.next? = t.next? ∧ t'.row = t.row

section

variable (hc : Collected e.sys.tm e.sys.tm.getOldestActiveTxnId freezing e.table tb)
include hc

end

end

end MiniDb
