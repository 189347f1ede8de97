import Mathlib.Data.List.Basic

/-! # The receiver's message handler

`replication_handler` and the flags it keeps between messages: whether a remote transaction is open
and whether a local one is. The messages have been read. What a handler meets on its way (a row that
cannot be applied, a queued command that ends the local transaction, a parameter that is refused)
is part of the message. Assertions are not compiled into a production build.
-/

namespace PGLogical.Receiver

variable {Row : Type}

inductive RowAction where
  | insert
  | update
  | delete
deriving DecidableEq

/-- How applying a row ends. -/
inductive RowOutcome where
  | applied
  /-- The table is being synchronised, a trigger refuses the row, or there is no row to change. -/
  | skipped
  /-- A row of the queue whose command has committed the local transaction. -/
  | endsTransaction
  | fails (message : String)
deriving DecidableEq

inductive Message (Row : Type) where
  /-- With what `handle_startup_param` makes of the parameters. -/
  | startup (params : Except String Unit)
  | begin (commitLsn : UInt64) (commitTime : Int64)
  /-- With what `replorigin_by_name` finds. -/
  | origin (originLsn : UInt64) (remoteOriginId : UInt16)
  | relation
  | row (action : RowAction) (row : Row) (outcome : RowOutcome)
  /-- With what becomes of advancing a forwarded origin, and of what follows: the end of a limited replay
  and the tables in synchronisation. -/
  | commit (commitLsn endLsn : UInt64) (commitTime : Int64) (advance finish : Except String Unit)

structure Worker (Row : Type) where
  inRemoteTransaction : Bool
  /-- `IsTransactionState()` -/
  transactionState : Bool
  sessionOriginLsn : UInt64
  sessionOriginTimestamp : Int64
  remoteOriginId : UInt16
  remoteOriginLsn : UInt64
  /-- What the local transaction has written. -/
  written : List Row
  committed : List Row
  /-- `remote_end` of the flush positions. -/
  lsnMapping : List UInt64

/-- The state that an ERROR finds is kept to be looked at. -/
abbrev HandlerM (Row : Type) := EStateM String (Worker Row)

def ensureTransaction : HandlerM Row Unit := modify fun worker => { worker with transactionState := true }

def handleBegin (commitLsn : UInt64) (commitTime : Int64) : HandlerM Row Unit := modify fun worker => { worker with
  sessionOriginTimestamp := commitTime
  sessionOriginLsn := commitLsn
  remoteOriginId := 0
  inRemoteTransaction := true }

/-- `CommitTransactionCommand` -/
def Worker.commitTransaction (worker : Worker Row) : Worker Row :=
  { worker with transactionState := false, written := [], committed := worker.committed ++ worker.written }

def commitLocal (endLsn : UInt64) (worker : Worker Row) : Worker Row :=
  if worker.transactionState then
    { worker.commitTransaction with lsnMapping := worker.lsnMapping ++ [endLsn] }
  else worker

def outcome : Except String Unit → HandlerM Row Unit
  | .ok _ => pure ()
  | .error message => throw message

/-- The position and the time in the message are not compared with those of BEGIN. -/
def handleCommit (endLsn : UInt64) (advance finish : Except String Unit) : HandlerM Row Unit := do
  modify (commitLocal endLsn)
  outcome advance
  modify fun worker => { worker with inRemoteTransaction := false }
  outcome finish

def handleOrigin (originLsn : UInt64) (remoteOriginId : UInt16) : HandlerM Row Unit := do
  let worker ← get
  if !worker.inRemoteTransaction || worker.transactionState then throw "ORIGIN message sent out of order"
  ensureTransaction
  modify fun worker => { worker with remoteOriginLsn := originLsn, remoteOriginId := remoteOriginId }

/-- The three row handlers, which all start with `ensure_transaction`. -/
def handleRow (row : Row) (outcome : RowOutcome) : HandlerM Row Unit := do
  ensureTransaction
  match outcome with
  | .applied => modify fun worker => { worker with written := worker.written ++ [row] }
  | .skipped => pure ()
  | .endsTransaction => modify fun worker => { worker with written := worker.written ++ [row] }.commitTransaction
  | .fails message => throw message

def replicationHandler : Message Row → HandlerM Row Unit
  | .startup params => outcome params
  | .begin commitLsn commitTime => handleBegin commitLsn commitTime
  | .commit _ endLsn _ advance finish => handleCommit endLsn advance finish
  | .origin originLsn remoteOriginId => handleOrigin originLsn remoteOriginId
  | .relation => pure ()
  | .row _ row outcome => handleRow row outcome

/-- The messages one after the other, until one raises an error. -/
def process (messages : List (Message Row)) : HandlerM Row Unit := messages.forM replicationHandler

/-- A worker that has just connected. -/
def Worker.start (committed : List Row) : Worker Row := ⟨false, false, 0, 0, 0, 0, [], committed, []⟩

end PGLogical.Receiver
