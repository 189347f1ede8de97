import PGLogical.Wire.StringInfo
import Mathlib.Data.List.AList

/-! # Synchronisation statuses

`pglogical.local_sync_status` has at most one row per table of a subscription. A table that has no
row, or whose row is READY, is replicated by the apply worker; any other status means that a sync
worker has it, or will have it.
-/

namespace PGLogical

open Wire (CString)

inductive SyncStatus where
  /-- No sync. -/
  | none
  /-- Ask for sync. -/
  | init
  | struct
  | data
  | constraints
  /-- Table sync is waiting to get OK from main thread. -/
  | syncwait
  | catchup
  | ready
deriving DecidableEq, Repr

structure RangeVar where
  schemaname : CString
  relname : CString
deriving DecidableEq

/-- The rows of one subscription, by table. -/
abbrev LocalSyncStatus := AList fun _ : RangeVar => SyncStatus

/-- `get_table_sync_status` with `missing_ok`. -/
def getTableSyncStatus (catalog : LocalSyncStatus) (rv : RangeVar) : Option SyncStatus := catalog.lookup rv

def setTableSyncStatus (catalog : LocalSyncStatus) (rv : RangeVar) (status : SyncStatus) : LocalSyncStatus :=
  catalog.insert rv status

def dropTableSyncStatus (catalog : LocalSyncStatus) (rv : RangeVar) : LocalSyncStatus := catalog.erase rv

def getUnsyncedTables (catalog : LocalSyncStatus) : List RangeVar :=
  (catalog.entries.filter fun row => decide (row.2 ≠ .ready)).map Sigma.fst

/-- A row that says the table is not yet the apply worker's. -/
def Unsynced (status : Option SyncStatus) : Prop := ∃ st, status = some st ∧ st ≠ .ready

@[simp] theorem not_unsynced_none : ¬ Unsynced none := by
  rintro ⟨st, missing, -⟩
  cases missing

@[simp] theorem unsynced_some (st : SyncStatus) : Unsynced (some st) ↔ st ≠ .ready := by
  simp [Unsynced]

theorem mem_getUnsyncedTables {catalog : LocalSyncStatus} {rv : RangeVar} :
    rv ∈ getUnsyncedTables catalog ↔ Unsynced (getTableSyncStatus catalog rv) := by
  constructor
  · intro listed
    obtain ⟨⟨table, st⟩, inside, rfl⟩ := List.mem_map.mp listed
    obtain ⟨row, unready⟩ := List.mem_filter.mp inside
    exact ⟨st, AList.mem_lookup_iff.mpr row, of_decide_eq_true unready⟩
  · rintro ⟨st, found, unready⟩
    have row := AList.mem_lookup_iff.mp (Option.mem_def.mpr found)
    exact List.mem_map.mpr ⟨⟨rv, st⟩, List.mem_filter.mpr ⟨row, decide_eq_true unready⟩, rfl⟩

@[simp] theorem getTableSyncStatus_set (catalog : LocalSyncStatus) (rv : RangeVar) (status : SyncStatus) :
    getTableSyncStatus (setTableSyncStatus catalog rv status) rv = some status :=
  AList.lookup_insert catalog

theorem getTableSyncStatus_set_ne {catalog : LocalSyncStatus} {rv other : RangeVar} {status : SyncStatus}
    (different : other ≠ rv) :
    getTableSyncStatus (setTableSyncStatus catalog rv status) other = getTableSyncStatus catalog other :=
  AList.lookup_insert_ne different

theorem getTableSyncStatus_drop {catalog : LocalSyncStatus} {rv other : RangeVar} {st : SyncStatus}
    (found : getTableSyncStatus (dropTableSyncStatus catalog rv) other = some st) :
    getTableSyncStatus catalog other = some st := by
  by_cases same : other = rv
  · rw [same, getTableSyncStatus, dropTableSyncStatus, AList.lookup_erase] at found
    cases found
  · rwa [getTableSyncStatus, dropTableSyncStatus, AList.lookup_erase_ne same] at found

end PGLogical
