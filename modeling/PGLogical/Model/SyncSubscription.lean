import PGLogical.Model.Node

/-! # Initialising a subscription

`pglogical_sync_subscription` and the part of `pglogical_apply_main` around it. Four pieces of state
outlive the worker: the status row, the replication origin and the data in the local database, and
the slot on the provider. Before every step there is a moment in which the worker may be sent SIGTERM,
meet an error or be lost in a crash of the server. `synchronous_commit` is off unless
`pglogical.synchronous_commit` is set, and a crash then loses the latest commits that have not been
written out, in the order of the log. The conversation with the provider is the slot and the position,
the snapshot and the changes that it hands out.
-/

namespace PGLogical.SubscriptionSync

open Nodes (SyncKind)

variable {Change : Type}

def syncKindData (kind : SyncKind) : Bool := kind = .full || kind = .data

def syncKindStructure (kind : SyncKind) : Bool := kind = .full || kind = .struct

/-- The letter of a status in the catalog. -/
def statusChar : SyncStatus → Char
  | .none => Char.ofNat 0
  | .init => 'i'
  | .struct => 's'
  | .data => 'd'
  | .constraints => 'c'
  | .syncwait => 'w'
  | .catchup => 'u'
  | .ready => 'r'

/-- The sections of a dump. -/
inductive DumpSection where
  | preData
  | postData
deriving DecidableEq

/-- What has been done and has returned, and where a worker started and stopped. -/
inductive Action where
  | started
  | slotCreated (lsn : UInt64) (snapshot : String)
  | originSet (lsn : UInt64)
  /-- A transaction that sets the status has committed. -/
  | statusSet (status : SyncStatus)
  | dumped (snapshot : String)
  | restored (part : DumpSection)
  | copied (snapshot : String)
  /-- The rows of the copied tables have been written. -/
  | tablesSet
  | slotDropped
  | stopped
  | crashed
deriving DecidableEq

/-- The part of the local database that belongs to the subscription. -/
structure Database (Change : Type) where
  status : SyncStatus
  tables : LocalSyncStatus
  /-- The position of the replication origin named after the slot. -/
  origin : Option UInt64
  applied : List Change

inductive Interruption where
  | error (message : String)
  /-- The server goes down and loses that many commits, or all that are not on disk. -/
  | crash (lost : ℕ)

/-- What happens before a step. -/
structure Moment where
  sigterm : Bool
  /-- The log is written out. -/
  flushed : Bool
  interruption : Option Interruption

inductive Stop where
  | error (message : String)
  | crash

structure World (Change : Type) where
  database : Database Change
  /-- What the database was before each commit that is not on disk, latest first. -/
  unflushed : List (Database Change)
  /-- The slot on the provider, with the position it was created at. -/
  slot : Option UInt64
  gotSigterm : Bool
  /-- The temporary dump file exists. -/
  tmpfile : Bool
  moments : List Moment
  trace : List Action

abbrev SyncM (Change : Type) := EStateM Stop (World Change)

/-- What a restart after a crash may find. -/
def World.written (world : World Change) : List (Database Change) := world.database :: world.unflushed

def World.record (world : World Change) (action : Action) : World Change :=
  { world with trace := world.trace ++ [action] }

/-- The commit of a transaction that writes to the database. -/
def World.commit (synchronousCommit : Bool) (write : Database Change → Database Change) (world : World Change) :
    World Change :=
  { world with
    database := write world.database
    unflushed := if synchronousCommit then [] else world.database :: world.unflushed }

def World.crash (world : World Change) (lost : ℕ) : World Change :=
  { world.record .crashed with
    database := world.written.getD lost (world.unflushed.getLastD world.database)
    unflushed := [] }

/-- A moment in which the worker goes on. -/
def World.pass (world : World Change) (moment : Moment) (later : List Moment) : World Change :=
  { world with
    gotSigterm := world.gotSigterm || moment.sigterm
    unflushed := if moment.flushed then [] else world.unflushed
    moments := later }

/-- A step begins. When no moments are left nothing happens any more. -/
def step : SyncM Change Unit := fun world =>
  match world.moments with
  | [] => .ok () world
  | moment :: later =>
      match moment.interruption with
      | none => .ok () (world.pass moment later)
      | some (.error message) => .error (.error message) (world.pass moment later)
      | some (.crash lost) => .error .crash ((world.pass moment later).crash lost)

/-- A step outside the local database that has returned. -/
def perform (action : Action) : SyncM Change Unit := do
  step
  modify fun world => world.record action

/-- A transaction from its start to its commit. -/
def transaction (synchronousCommit : Bool) (action : Action) (write : Database Change → Database Change) :
    SyncM Change Unit := do
  step
  modify fun world => (world.commit synchronousCommit write).record action

def setSubscriptionSyncStatus (synchronousCommit : Bool) (status : SyncStatus) : SyncM Change Unit :=
  transaction synchronousCommit (.statusSet status) fun database => { database with status := status }

/-- What the provider has for a worker that starts now. -/
structure Start (Change : Type) where
  moments : List Moment
  /-- The consistent point of a slot, and the snapshot exported with it. -/
  lsn : UInt64
  snapshot : String
  /-- The tables in the subscribed replication sets. -/
  tables : List RangeVar
  /-- The transactions that are streamed, by the position of their commit. -/
  changes : List (UInt64 × Change)

/-- A new process. -/
def World.launch (world : World Change) (start : Start Change) : World Change :=
  { world.record .started with gotSigterm := false, tmpfile := false, moments := start.moments }

/-- CREATE_REPLICATION_SLOT, which fails when there is a slot of the name. -/
def ensureReplicationSlotSnapshot (start : Start Change) : SyncM Change Unit := do
  step
  let world ← get
  if world.slot.isSome then throw (.error "could not send replication command")
  modify fun world => { world.record (.slotCreated start.lsn start.snapshot) with slot := some start.lsn }

/-- The origin is created if there is none; `go_backward` lets `replorigin_advance` set any position. -/
def ensureReplicationOrigin (synchronousCommit : Bool) (lsn : UInt64) : SyncM Change Unit :=
  transaction synchronousCommit (.originSet lsn) fun database => { database with origin := some lsn }

def dumpStructure (snapshot : String) : SyncM Change Unit := do
  perform (.dumped snapshot)
  modify fun world => { world with tmpfile := true }

def restoreStructure (part : DumpSection) : SyncM Change Unit := perform (.restored part)

def copyReplicationSetsData (snapshot : String) : SyncM Change Unit := perform (.copied snapshot)

/-- An existing row is set to READY and a missing one is created so. -/
def storeSynchronizedTables (synchronousCommit : Bool) (tables : List RangeVar) : SyncM Change Unit :=
  transaction synchronousCommit .tablesSet fun database => { database with
    tables := tables.foldl (fun catalog rv => setTableSyncStatus catalog rv .ready) database.tables }

/-- Connects, waits until the slot is free and drops it. The session has no origin to drop yet. -/
def pglogicalSyncWorkerCleanup : SyncM Change Unit := do
  step
  step
  step
  modify fun world => { world.record .slotDropped with slot := none }

def pglogicalSyncTmpfileCleanup : SyncM Change Unit := modify fun world => { world with tmpfile := false }

/-- PG_ENSURE_ERROR_CLEANUP: an error runs the cleanup, a crash does not. -/
def ensureErrorCleanup (cleanup body : SyncM Change Unit) : SyncM Change Unit := fun world =>
  match body world with
  | .ok done after => .ok done after
  | .error .crash after => .error .crash after
  | .error (.error message) after =>
      match cleanup after with
      | .ok _ last => .error (.error message) last
      | .error stop last => .error stop last

section

variable (synchronousCommit : Bool) (kind : SyncKind) (name : String) (start : Start Change)

def synchronizeStructure : SyncM Change Unit := do
  setSubscriptionSyncStatus synchronousCommit .struct
  dumpStructure start.snapshot
  restoreStructure .preData

def synchronizeData : SyncM Change Unit := do
  setSubscriptionSyncStatus synchronousCommit .data
  copyReplicationSetsData start.snapshot
  storeSynchronizedTables synchronousCommit start.tables

def synchronizeConstraints : SyncM Change Unit := do
  setSubscriptionSyncStatus synchronousCommit .constraints
  restoreStructure .postData

/-- Steps that not every kind has. -/
def demanded (wanted : Bool) (steps : SyncM Change Unit) : SyncM Change Unit := if wanted then steps else pure ()

/-- What is done under the cleanup of the dump file. -/
def synchronize : SyncM Change Unit := do
  ensureReplicationOrigin synchronousCommit start.lsn
  demanded (syncKindStructure kind) (synchronizeStructure synchronousCommit start)
  demanded (syncKindData kind) (synchronizeData synchronousCommit start)
  demanded (syncKindStructure kind) (synchronizeConstraints synchronousCommit)

/-- The branch for INIT: two connections, and a question about the provider's functions, come before the slot. -/
def initializeSubscriber : SyncM Change Unit := do
  step
  step
  step
  ensureReplicationSlotSnapshot start
  ensureErrorCleanup pglogicalSyncWorkerCleanup do
    ensureErrorCleanup pglogicalSyncTmpfileCleanup (synchronize synchronousCommit kind start)
    pglogicalSyncTmpfileCleanup
  setSubscriptionSyncStatus synchronousCommit .catchup

def nonrecoverableStep (status : SyncStatus) : String :=
  "subscriber " ++ name ++ " initialization failed during nonrecoverable step (" ++ (statusChar status).toString ++
    "), please try the setup again"

def pglogicalSyncSubscription : SyncM Change Unit := do
  step
  let world ← get
  match world.database.status with
  | .ready => pure ()
  | .init => do
      initializeSubscriber synchronousCommit kind start
      setSubscriptionSyncStatus synchronousCommit .ready
  | .catchup => setSubscriptionSyncStatus synchronousCommit .ready
  | status => throw (.error (nonrecoverableStep name status))

/-- Each commit moves the origin to the position in the BEGIN message. A SIGTERM ends the loop. -/
def applyWork : List (UInt64 × Change) → SyncM Change Unit
  | [] => pure ()
  | (commitLsn, change) :: rest => do
      step
      let world ← get
      if world.gotSigterm then pure ()
      else do
        modify (World.commit synchronousCommit fun database =>
          { database with applied := database.applied ++ [change], origin := some commitLsn })
        applyWork rest

/-- `replorigin_by_name` and START_REPLICATION fail without the origin and the slot. -/
def startReplication : SyncM Change Unit := do
  step
  let world ← get
  if world.database.origin.isNone then throw (.error "cache lookup failed for replication origin")
  step
  let world ← get
  if world.slot.isNone then throw (.error "could not send replication command")

def pglogicalApplyMain : SyncM Change Unit := do
  pglogicalSyncSubscription synchronousCommit kind name start
  startReplication
  applyWork synchronousCommit start.changes

/-- A worker from its start to its end. -/
def startWorker (world : World Change) : EStateM.Result Stop (World Change) Unit :=
  match pglogicalApplyMain synchronousCommit kind name start (world.launch start) with
  | .ok done after => .ok done after
  | .error .crash after => .error .crash after
  | .error (.error message) after => .error (.error message) (after.record .stopped)

end

end PGLogical.SubscriptionSync
