import PGLogical.Machine.Run
import PGLogical.Model.QueueMessage

/-! # Queueing truncations

A TRUNCATE goes through the utility hook, which empties a list, lets the statement run and queues a
message for each table on the list. Triggers on the truncated tables fill the list, and triggers may
run further statements, so the hook is entered again while a statement is on its way. A run is the
sequence of what happens in one backend: statements that begin and end, triggers that fire, and
blocks, such as transactions, that end or are abandoned after an error. An error takes back what was
queued but not what was put on the list.
-/

namespace PGLogical.TruncateQueue

open Wire
open Queue (Announcement)

/-! ## What may happen -/

inductive Event where
  /-- A TRUNCATE enters the hook. The tables are those that it truncates, cascades included, and whose queue
  trigger is to fire, in the order in which it does. -/
  | startTruncate (tables : List Oid)
  /-- The queue trigger of a table fires. -/
  | queueTruncate (reloid : Oid)
  | finishTruncate
  /-- A transaction begins, or a block that catches errors. -/
  | beginBlock
  | endBlock
  /-- An error is caught by the innermost block, or aborts the transaction. -/
  | catchError
deriving DecidableEq

/-- What is on its way, from the inside to the outside. -/
inductive Frame where
  /-- A statement, with the tables whose queue trigger has fired. -/
  | truncate (tables fired : List Oid)
  | block
deriving DecidableEq

/-- An error leaves everything up to the innermost block. -/
def unwind : List Frame → Option (List Frame)
  | [] => none
  | .truncate _ _ :: rest => unwind rest
  | .block :: rest => some rest

/-- The catalogs, which do not change meanwhile, and whether the process is a worker. -/
structure Session where
  myPGLogicalWorker : Bool
  localNode : Option Oid
  getNamespaceName : Oid → CString
  getRelName : Oid → CString
  /-- The names of a table's sets on a node. -/
  getTableReplicationSets : Oid → Oid → List CString

variable (session : Session)

/-- Queue triggers fire in the order of the tables, and a statement ends when all have. Workers run as replicas,
where they do not fire. -/
def stepFrames (frames : List Frame) (event : Event) : Option (List Frame) :=
  match event, frames with
  | .startTruncate tables, frames => if tables.Nodup then some (.truncate tables [] :: frames) else none
  | .queueTruncate reloid, .truncate tables fired :: rest =>
      if session.myPGLogicalWorker = false ∧ reloid ∈ tables then
        some (.truncate tables (if reloid ∈ fired then fired else fired ++ [reloid]) :: rest)
      else none
  | .finishTruncate, .truncate tables fired :: rest => if fired = tables then some rest else none
  | .beginBlock, frames => some (.block :: frames)
  | .endBlock, .block :: rest => some rest
  | .catchError, frames => unwind frames
  | _, _ => none

/-! ## The hook and the trigger -/

structure Backend where
  pglogicalTruncatedTables : List Oid
  queue : List Announcement
  /-- What was queued when each open block began. -/
  saved : List (List Announcement)
deriving DecidableEq

def pglogicalStartTruncate (backend : Backend) : Backend := { backend with pglogicalTruncatedTables := [] }

def pglogicalQueueTruncate (reloid : Oid) (backend : Backend) : Backend :=
  if session.myPGLogicalWorker then backend
  else match session.localNode with
    | none => backend
    | some _ => { backend with pglogicalTruncatedTables := backend.pglogicalTruncatedTables ++ [reloid] }

/-- The message for one table on the list, if it is in any set. -/
def truncateMessage (nodeid reloid : Oid) : Option Announcement :=
  let repsets := session.getTableReplicationSets nodeid reloid
  if repsets = [] then none
  else some (.finishTruncate repsets (session.getNamespaceName reloid) (session.getRelName reloid))

def pglogicalFinishTruncate (backend : Backend) : Backend :=
  match session.localNode with
  | none => backend
  | some nodeid =>
      if backend.pglogicalTruncatedTables = [] then backend
      else { backend with
        queue := backend.queue ++ backend.pglogicalTruncatedTables.filterMap (truncateMessage session nodeid)
        pglogicalTruncatedTables := [] }

/-- `pglogical_ProcessUtility` in two halves, the trigger, and what blocks do to the queue. -/
def stepBackend (backend : Backend) : Event → Backend
  | .startTruncate _ => pglogicalStartTruncate backend
  | .queueTruncate reloid => pglogicalQueueTruncate session reloid backend
  | .finishTruncate => pglogicalFinishTruncate session backend
  | .beginBlock => { backend with saved := backend.queue :: backend.saved }
  | .endBlock => { backend with saved := backend.saved.tail }
  | .catchError => { backend with queue := backend.saved.headD [], saved := backend.saved.tail }

structure State where
  frames : List Frame
  backend : Backend
deriving DecidableEq

def step (state : State) (event : Event) : Option State :=
  (stepFrames session state.frames event).map fun frames => ⟨frames, stepBackend session state.backend event⟩

end PGLogical.TruncateQueue
