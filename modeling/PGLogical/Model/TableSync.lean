import PGLogical.Model.Replay
import PGLogical.Model.Sync

/-! # Synchronising one table beside the apply worker

The apply worker skips the changes of a table that it lists, while a sync worker copies the table as
of a snapshot, waits, replays what the apply worker has skipped since, and marks the table READY. The
two agree on where to stop through `replay_stop_lsn` in the sync worker's shared memory slot, the
status row of the table, and each other's presence in shared memory. Every step below is one thing
the other process can observe. Both workers may stop at any point and are started again.

A TRUNCATE comes as a row of the queue table, which is not in the stream of the sync worker: the row
filter hook looks at the name of the table first. The apply worker skips it like a row of the table.
A queued SQL command it runs at once, listed or not; what such commands do to the table is left out.
-/

namespace PGLogical.TableSync

open Replay (Txn Upstream resend)

inductive TableChange where
  /-- An INSERT, UPDATE or DELETE. -/
  | row (rv : RangeVar)
  /-- A queued TRUNCATE. -/
  | truncate (rv : RangeVar)
deriving DecidableEq

def TableChange.rv : TableChange → RangeVar
  | .row rv => rv
  | .truncate rv => rv

/-- What has been done to the rows of the table, in commit order. -/
inductive Effect where
  /-- A COPY of the table as of the snapshot. -/
  | copy (snapshot : ℕ)
  /-- The sync worker replayed the row changes of the transaction. -/
  | replay (txn : Txn TableChange)
  /-- The apply worker applied the transaction. -/
  | apply (txn : Txn TableChange)

inductive ApplyPc where
  | idle
  /-- At the top of `process_syncing_tables`. -/
  | check
  /-- At the cell of the table. -/
  | scan
  /-- The status of the table has been read. -/
  | saw (status : SyncStatus)
  /-- `replay_stop_lsn` is set, the status not yet. -/
  | stopSet
  /-- The two halves of a turn of `wait_for_sync_status_change`. -/
  | waitRead
  | waitFind
  /-- Looking for a reason to launch a sync worker. -/
  | launch
deriving DecidableEq

structure ApplyWorker where
  /-- The table is in `SyncingTables`. -/
  listed : Bool
  syncPending : Bool
  lastReceived : ℕ
  /-- `replorigin_session_origin_lsn`. -/
  originLsn : ℕ
  /-- The provider has sent everything before this position. -/
  sentPos : ℕ
  pc : ApplyPc

inductive SyncPc where
  /-- Attached, and about to look at the status. -/
  | start
  | create
  | setData (snapshot : ℕ)
  | copy (snapshot : ℕ)
  | copied (snapshot : ℕ)
  /-- In `wait_for_sync_status_change`, for CATCHUP. -/
  | waiting (snapshot : ℕ)
  /-- About to compare the snapshot with `replay_stop_lsn`. -/
  | compare (snapshot : ℕ)
  /-- In `apply_work`, with the position up to which the provider has sent. -/
  | replay (snapshot sentPos : ℕ)
  /-- In `pglogical_sync_worker_finish`. -/
  | finish
  /-- The slot is dropped, READY is not committed. -/
  | dropped
  | exited
deriving DecidableEq

/-- A sync worker's slot in shared memory. A worker that exits with an error leaves its slot behind. -/
structure SyncWorker where
  running : Bool
  gotSigterm : Bool
  replayStopLsn : ℕ
  pc : SyncPc

structure State where
  /-- The status of the table in `local_sync_status`. -/
  status : SyncStatus
  /-- The provider has the replication slot of the sync worker. -/
  slot : Bool
  log : List Effect
  /-- The progress of the apply worker's origin, and its slot's confirmed flush LSN. -/
  progress : ℕ
  confirmed : ℕ
  /-- The end of the provider's WAL. -/
  head : ℕ
  apply : Option ApplyWorker
  sync : Option SyncWorker

inductive ApplyEvent where
  /-- The next transaction of the stream, up to its local commit. -/
  | txn
  /-- No more input for now. -/
  | idle
  | check
  | readStatus
  | decide
  | setCatchup
  | waitRead
  | waitFind
  /-- Launch a sync worker for the table, unless one is running for another table. -/
  | launch (free : Bool)
  | stop

inductive SyncEvent where
  | begin
  | createSlot (snapshot : ℕ)
  | setData
  | copy
  /-- The copy fails; it may have been committed all the same, and the clean-up may fail too. -/
  | copyFails (committed cleaned : Bool)
  | setSyncwait
  | leaveWait
  | compare
  | replay
  | dropSlot
  | commitReady
  | exit
  | sigterm
  | crash

inductive Event where
  | apply (event : ApplyEvent)
  | sync (event : SyncEvent)
  | startApply
  /-- The provider receives a status update of the apply worker. -/
  | confirm (pos : ℕ)
  /-- The provider writes WAL. -/
  | advance (head : ℕ)
  /-- Somebody drops the sync worker's replication slot. -/
  | loseSlot
  /-- The shared memory slot of a crashed sync worker is used for another worker. -/
  | reuse

/-- No commit record straddles the position. -/
def boundary (txns : List (Txn TableChange)) (pos : ℕ) : Bool :=
  txns.all fun txn => decide (txn.endLsn ≤ pos) || decide (pos ≤ txn.commitLsn)

/-- The next transaction the provider sends from a position, once it has been committed. -/
def next? (txns : List (Txn TableChange)) (pos head : ℕ) : Option (Txn TableChange) :=
  (resend txns pos).head?.filter fun txn => decide (txn.endLsn ≤ head)

def changes (table : RangeVar) (txn : Txn TableChange) : Bool := txn.effects.any (·.rv = table)

def changesRows (table : RangeVar) (txn : Txn TableChange) : Bool := decide (.row table ∈ txn.effects)

def truncates (table : RangeVar) (txn : Txn TableChange) : Bool := decide (.truncate table ∈ txn.effects)

/-- A queued TRUNCATE is put into the local queue table even if it is skipped then. -/
def changesOther (table : RangeVar) (txn : Txn TableChange) : Bool := txn.effects.any (· != .row table)

/-- A transaction is applied, except for the changes of the table while it is listed. Progress is
recorded with a local commit that has changed something. -/
def applyTxn (table : RangeVar) (s : State) (a : ApplyWorker) (txn : Txn TableChange) : State :=
  let applied := changes table txn && !a.listed
  { s with
    log := if applied then s.log ++ [Effect.apply txn] else s.log
    progress := if applied || changesOther table txn then max s.progress txn.commitLsn else s.progress
    apply := some { a with
      lastReceived := txn.endLsn, originLsn := txn.commitLsn, sentPos := txn.endLsn, pc := .check } }

def applyStep (table : RangeVar) (upstream : Upstream TableChange) (s : State) (a : ApplyWorker)
    (event : ApplyEvent) : Option State :=
  match event, a.pc with
  | .txn, .idle => (next? upstream.txns a.sentPos s.head).map (applyTxn table s a)
  | .idle, .idle => some { s with apply := some { a with pc := .check } }
  | .check, .check =>
      let listed := if a.syncPending then decide (s.status ≠ .ready) else a.listed
      some { s with apply := some { a with
        listed := listed, syncPending := false, pc := if listed then .scan else .idle } }
  | .readStatus, .scan => some { s with apply := some { a with pc := .saw s.status } }
  | .decide, .saw status =>
      match status, s.sync with
      | .ready, _ => some { s with apply := some { a with listed := false, pc := .idle } }
      | .syncwait, some w =>
          if w.running = true ∧ w.replayStopLsn ≤ a.lastReceived then some { s with
            sync := some { w with replayStopLsn := a.lastReceived }, apply := some { a with pc := .stopSet } }
          else some { s with apply := some { a with pc := .launch } }
      | _, _ => some { s with apply := some { a with pc := .launch } }
  | .setCatchup, .stopSet => some { s with status := .catchup, apply := some { a with pc := .waitRead } }
  | .waitRead, .waitRead =>
      if s.status = .ready then some { s with apply := some { a with listed := false, pc := .idle } }
      else some { s with apply := some { a with pc := .waitFind } }
  | .waitFind, .waitFind =>
      match s.sync with
      | none => some { s with apply := some { a with pc := .launch } }
      | some _ => some { s with apply := some { a with pc := .waitRead } }
  | .launch free, .launch =>
      if free = true ∧ a.listed = true ∧ (s.sync.all fun w => !w.running) then some { s with
        sync := some ⟨true, false, a.originLsn, .start⟩, apply := some { a with pc := .idle } }
      else some { s with apply := some { a with pc := .idle } }
  | .stop, _ => some { s with apply := none }
  | _, _ => none

/-- The worker exits with an error. -/
def SyncWorker.fail (w : SyncWorker) : SyncWorker := { w with running := false }

/-- The sync worker gets to a new place. -/
def State.goto (s : State) (w : SyncWorker) (pc : SyncPc) : State := { s with sync := some { w with pc := pc } }

def syncStep (table : RangeVar) (upstream : Upstream TableChange) (s : State) (w : SyncWorker)
    (event : SyncEvent) : Option State :=
  match event, w.pc with
  | .begin, .start =>
      if s.status = .ready then some (s.goto w .finish) else some ({ s with status := .init }.goto w .create)
  | .createSlot snapshot, .create =>
      if s.slot then some { s with sync := some w.fail }
      else if s.head ≤ snapshot ∧ boundary upstream.txns snapshot then
        some ({ s with slot := true, head := snapshot }.goto w (.setData snapshot))
      else none
  | .setData, .setData snapshot => some ({ s with status := .data }.goto w (.copy snapshot))
  | .copy, .copy snapshot => some ({ s with log := s.log ++ [Effect.copy snapshot] }.goto w (.copied snapshot))
  | .copyFails committed cleaned, .copy snapshot => some { s with
      log := if committed then s.log ++ [Effect.copy snapshot] else s.log
      slot := s.slot && !cleaned
      sync := some w.fail }
  | .setSyncwait, .copied snapshot => some ({ s with status := .syncwait }.goto w (.waiting snapshot))
  | .leaveWait, .waiting snapshot =>
      if s.status = .catchup ∨ w.gotSigterm = true then some (s.goto w (.compare snapshot)) else none
  | .compare, .compare snapshot =>
      if w.replayStopLsn ≤ snapshot then some (s.goto w .finish)
      else some (s.goto w (.replay snapshot snapshot))
  | .replay, .replay snapshot sentPos =>
      (next? upstream.txns sentPos s.head).map fun txn =>
        let s := { s with log := if changesRows table txn then s.log ++ [Effect.replay txn] else s.log }
        if w.replayStopLsn ≠ invalidXLogRecPtr ∧ w.replayStopLsn ≤ txn.endLsn then s.goto w .finish
        else s.goto w (.replay snapshot txn.endLsn)
  | .dropSlot, .finish => some ({ s with slot := false }.goto w .dropped)
  | .commitReady, .dropped => some ({ s with status := .ready }.goto w .exited)
  | .exit, .exited => some { s with sync := none }
  | .sigterm, _ => some { s with sync := some { w with gotSigterm := true } }
  | .crash, _ => some { s with sync := some w.fail }
  | _, _ => none

def step (table : RangeVar) (upstream : Upstream TableChange) (s : State) : Event → Option State
  | .apply event => s.apply.bind fun a => applyStep table upstream s a event
  | .sync event => s.sync.bind fun w => if w.running then syncStep table upstream s w event else none
  | .startApply =>
      match s.apply with
      | some _ => none
      | none => some { s with apply := some ⟨false, true, invalidXLogRecPtr, invalidXLogRecPtr,
          max s.progress s.confirmed, .idle⟩ }
  | .confirm pos =>
      match s.apply with
      | some a => if pos ≤ a.sentPos ∧ boundary upstream.txns pos then some { s with confirmed := pos } else none
      | none => none
  | .advance head => if s.head ≤ head then some { s with head := head } else none
  | .loseSlot => some { s with slot := false }
  | .reuse => s.sync.bind fun w => if w.running then none else some { s with sync := none }

/-- The table has been set to INIT and the apply worker has listed it; no sync worker has been
launched for it. -/
def init (upstream : Upstream TableChange) : State where
  status := .init
  slot := false
  log := []
  progress := upstream.start
  confirmed := upstream.start
  head := upstream.start
  apply := some ⟨true, false, invalidXLogRecPtr, invalidXLogRecPtr, upstream.start, .idle⟩
  sync := none

end PGLogical.TableSync
