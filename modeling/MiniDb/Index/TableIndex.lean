import MiniDb.Common.Defs
import Mathlib.Data.List.Basic

/-!
# Secondary indexes

An index maps keys to row addresses.  The model keeps the key function of the index and its
entries as a list; the order in which a B+ tree would return them plays no part here.

A row version gets its entries when it is inserted, and when it is the new version of an update
that is not HOT.  Nothing but garbage collection and the undo of an insert removes them.
-/

namespace MiniDb

structure TableIndex (β κ : Type*) where
  key : β → κ
  entries : List (κ × RecordId)

variable {β κ : Type*}

def TableIndex.insertEntry (ix : TableIndex β κ) (row : β) (rid : RecordId) : TableIndex β κ :=
  { ix with entries := ix.entries ++ [(ix.key row, rid)] }

def TableIndex.deleteEntry [DecidableEq κ] (ix : TableIndex β κ) (row : β) (rid : RecordId) : TableIndex β κ :=
  { ix with entries := ix.entries.erase (ix.key row, rid) }

def insertIndexEntries (ixs : List (TableIndex β κ)) (row : β) (rid : RecordId) : List (TableIndex β κ) :=
  ixs.map fun ix => ix.insertEntry row rid

def deleteIndexEntries [DecidableEq κ] (ixs : List (TableIndex β κ)) (row : β) (rid : RecordId) :
    List (TableIndex β κ) :=
  ixs.map fun ix => ix.deleteEntry row rid

end MiniDb
