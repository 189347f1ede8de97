import PGLogical.Model.Sync
import PGLogical.Machine.Run

/-! # The list of tables under synchronisation

The apply worker keeps the tables that it must leave alone in `SyncingTables` and skips their row
changes and TRUNCATEs. It looks up the one table that the message names: a TRUNCATE also empties the
tables that inherit from it, and a queued SQL command is run unseen. The list is read from the
catalog when `sync_pending` is set, and the flag is looked at only in `process_syncing_tables`, after
a COMMIT or when there is nothing to read. SQL functions set the flag inside the caller's transaction;
their catalog changes become visible when that transaction commits. Each step below is one thing
another process can observe.
-/

namespace PGLogical.SyncingTables

/-- An open SQL transaction. -/
structure SqlTxn where
  /-- The tables it has set to INIT, which nobody else sees yet. -/
  changes : List RangeVar
  /-- It called `pglogical_subscription_changed`, so the apply worker is killed at its commit. -/
  signals : Bool

def SqlTxn.none : SqlTxn := ⟨[], false⟩

inductive Phase where
  | idle
  /-- Between BEGIN and COMMIT, with the status rows created by the open local transaction. -/
  | inRemoteTransaction (created : List RangeVar)
  /-- At the top of `process_syncing_tables`. -/
  | check
  /-- `sync_pending` has been cleared, the catalog not yet been read. -/
  | cleared
  /-- In the loop over the list, with the cells still to visit. -/
  | scanning (rest : List RangeVar)
  /-- In `wait_for_sync_status_change` for one table. -/
  | waiting (rv : RangeVar) (rest : List RangeVar)
deriving DecidableEq

/-- A running apply worker: its shared memory slot and its own variables. -/
structure ApplyWorker where
  syncingTables : List RangeVar
  syncPending : Bool
  gotSigterm : Bool
  phase : Phase
deriving DecidableEq

structure State where
  /-- What is committed of `local_sync_status`. -/
  catalog : LocalSyncStatus
  txns : ℕ → SqlTxn
  apply : Option ApplyWorker

/-- What the apply worker does. -/
inductive WorkerEvent where
  | begin
  /-- INSERT, UPDATE or DELETE of a row of the table. -/
  | row (rv : RangeVar)
  /-- A queued TRUNCATE, with the tables that inherit from the named one. -/
  | truncate (rv : RangeVar) (children : List RangeVar)
  /-- A queued SQL command, with the tables whose rows it changes. -/
  | sql (rvs : List RangeVar)
  /-- A queued TABLESYNC. -/
  | tableSync (rv : RangeVar)
  | commit
  /-- No more input for now. -/
  | idle
  /-- `process_syncing_tables` looks at the flag and clears it. -/
  | readPending
  | reread
  /-- One cell of the list; the sync worker of the table may be running and waiting for our position. -/
  | scan (handover : Bool)
  /-- One turn of `wait_for_sync_status_change`; the sync worker may be gone. -/
  | wait (alive : Bool)

inductive Event where
  /-- With the tables of the subscription's sets, as the provider lists them. -/
  | alterSubscriptionSynchronize (id : ℕ) (tables : List RangeVar)
  | alterSubscriptionResynchronizeTable (id : ℕ) (rv : RangeVar)
  | sqlCommit (id : ℕ)
  | sqlAbort (id : ℕ)
  /-- A sync worker moves a table on. -/
  | syncWorker (rv : RangeVar) (status : SyncStatus)
  /-- The table is dropped, and its status with it. -/
  | dropTable (rv : RangeVar)
  /-- The manager registers an apply worker and it attaches. -/
  | start
  /-- The apply worker exits, by an error, by SIGTERM or with the server. -/
  | stop
  | apply (event : WorkerEvent)

/-- What a transaction sees of the catalog. -/
def SqlTxn.sees (txn : SqlTxn) (catalog : LocalSyncStatus) (rv : RangeVar) : Option SyncStatus :=
  if rv ∈ txn.changes then some .init else getTableSyncStatus catalog rv

/-- Tell apply to re-read sync statuses. -/
def State.tellApply (s : State) (id : ℕ) (changes : List RangeVar) : State :=
  let txn := s.txns id
  match s.apply with
  | some apply => { s with
      apply := some { apply with syncPending := true }
      txns := Function.update s.txns id { txn with changes := txn.changes ++ changes } }
  | none => { s with txns := Function.update s.txns id ⟨txn.changes ++ changes, true⟩ }

/-- Every table without a status gets one. -/
def alterSubscriptionSynchronize (s : State) (id : ℕ) (tables : List RangeVar) : State :=
  s.tellApply id (tables.filter fun rv => decide ((s.txns id).sees s.catalog rv = none))

/-- A table that is already being synchronized is an error. -/
def alterSubscriptionResynchronizeTable (s : State) (id : ℕ) (rv : RangeVar) : Option State :=
  match (s.txns id).sees s.catalog rv with
  | some oldsync => if oldsync ≠ .ready ∧ oldsync ≠ .none then none else some (s.tellApply id [rv])
  | none => some (s.tellApply id [rv])

/-- Make status rows visible. -/
def commitStatuses (catalog : LocalSyncStatus) (changes : List RangeVar) : LocalSyncStatus :=
  changes.foldl (fun catalog rv => setTableSyncStatus catalog rv .init) catalog

/-- The signal goes out after the transaction has become visible. -/
def sqlCommit (s : State) (id : ℕ) : State :=
  let txn := s.txns id
  { s with
    catalog := commitStatuses s.catalog txn.changes
    txns := Function.update s.txns id SqlTxn.none
    apply := s.apply.map fun apply => { apply with gotSigterm := apply.gotSigterm || txn.signals } }

def checkSyncingRelation (apply : ApplyWorker) (rv : RangeVar) : Bool := decide (rv ∈ apply.syncingTables)

/-- A table that has a status, in the catalog or from this transaction, is skipped. -/
def handleTableSync (catalog : LocalSyncStatus) (apply : ApplyWorker) (created : List RangeVar) (rv : RangeVar) :
    ApplyWorker :=
  if rv ∈ created ∨ (getTableSyncStatus catalog rv).isSome then apply
  else { apply with
    syncingTables := apply.syncingTables ++ [rv], phase := .inRemoteTransaction (created ++ [rv]) }

/-- A cell whose table has no status any more is treated as READY. -/
def processCell (s : State) (apply : ApplyWorker) (rv : RangeVar) (rest : List RangeVar) (handover : Bool) : State :=
  match getTableSyncStatus s.catalog rv with
  | none | some .ready => { s with
      apply := some { apply with syncingTables := apply.syncingTables.erase rv, phase := .scanning rest } }
  | some .syncwait =>
      if handover then { s with
        catalog := setTableSyncStatus s.catalog rv .catchup
        apply := some { apply with phase := .waiting rv rest } }
      else { s with apply := some { apply with phase := .scanning rest } }
  | some _ => { s with apply := some { apply with phase := .scanning rest } }

/-- The loop ends with a READY status, without a status, on SIGTERM, or when the sync worker is gone;
only the first removes the cell. -/
def waitForSyncStatusChange (s : State) (apply : ApplyWorker) (rv : RangeVar) (rest : List RangeVar)
    (alive : Bool) : State :=
  if getTableSyncStatus s.catalog rv = some .ready then
    { s with apply := some { apply with syncingTables := apply.syncingTables.erase rv, phase := .scanning rest } }
  else if getTableSyncStatus s.catalog rv = none ∨ apply.gotSigterm ∨ ¬ alive then
    { s with apply := some { apply with phase := .scanning rest } }
  else s

def workerStep (s : State) (apply : ApplyWorker) (event : WorkerEvent) : Option State :=
  match event, apply.phase with
  | .begin, .idle => some { s with apply := some { apply with phase := .inRemoteTransaction [] } }
  | .row _, .inRemoteTransaction _ => some s
  | .truncate _ _, .inRemoteTransaction _ => some s
  | .sql _, .inRemoteTransaction _ => some s
  | .tableSync rv, .inRemoteTransaction created =>
      some { s with apply := some (handleTableSync s.catalog apply created rv) }
  | .commit, .inRemoteTransaction created => some { s with
      catalog := commitStatuses s.catalog created, apply := some { apply with phase := .check } }
  | .idle, .idle => some { s with apply := some { apply with phase := .check } }
  | .readPending, .check =>
      if apply.syncPending then
        some { s with apply := some { apply with syncPending := false, phase := .cleared } }
      else some { s with apply := some { apply with phase := .scanning apply.syncingTables } }
  | .reread, .cleared =>
      let unsynced := getUnsyncedTables s.catalog
      some { s with apply := some { apply with syncingTables := unsynced, phase := .scanning unsynced } }
  | .scan _, .scanning [] => some { s with apply := some { apply with phase := .idle } }
  | .scan handover, .scanning (rv :: rest) => some (processCell s apply rv rest handover)
  | .wait alive, .waiting rv rest => some (waitForSyncStatusChange s apply rv rest alive)
  | _, _ => none

def step (s : State) : Event → Option State
  | .alterSubscriptionSynchronize id tables => some (alterSubscriptionSynchronize s id tables)
  | .alterSubscriptionResynchronizeTable id rv => alterSubscriptionResynchronizeTable s id rv
  | .sqlCommit id => some (sqlCommit s id)
  | .sqlAbort id => some { s with txns := Function.update s.txns id SqlTxn.none }
  | .syncWorker rv status =>
      match getTableSyncStatus s.catalog rv with
      | some st => if st = .ready then none else some { s with catalog := setTableSyncStatus s.catalog rv status }
      | none => none
  | .dropTable rv => some { s with catalog := dropTableSyncStatus s.catalog rv }
  | .start =>
      match s.apply with
      | some _ => none
      | none => some { s with apply := some ⟨[], true, false, .idle⟩ }
  | .stop => some { s with apply := none }
  | .apply event => s.apply.bind fun apply => workerStep s apply event

/-- The tables whose contents the worker changes in a step. Row changes and TRUNCATEs are applied
unless the table they name is listed; TRUNCATE has no ONLY. -/
def applies (apply : ApplyWorker) (event : WorkerEvent) : List RangeVar :=
  match event, apply.phase with
  | .row rv, .inRemoteTransaction _ => if checkSyncingRelation apply rv then [] else [rv]
  | .truncate rv children, .inRemoteTransaction _ => if checkSyncingRelation apply rv then [] else rv :: children
  | .sql rvs, .inRemoteTransaction _ => rvs
  | _, _ => []

/-- A subscription whose worker has not started. -/
def init (catalog : LocalSyncStatus) : State := ⟨catalog, fun _ => SqlTxn.none, none⟩

end PGLogical.SyncingTables
