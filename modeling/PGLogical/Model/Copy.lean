import Mathlib.Data.Int.Init

/-! # The initial copy

`copy_tables_data` and `copy_replication_sets_data` copy tables over two connections, inside one
transaction on the provider and one on the target. What the servers, libpq and the local catalog do
is given by a script. The session records what follows from it: whether a server's transaction has
failed and which rows the target holds. An error of the target about the data of a COPY is the
result of that command and can be fetched once the COPY is ended; `PQexec` discards results that
have not been fetched. When a COPY out ends, `PQgetCopyData` returns -1 whether the provider has sent
its end or an error.
-/

namespace PGLogical.Copy

variable {Row : Type}

/-- A row of the provider's stream, whether it can be put on the target's connection, and whether an
interrupt is processed behind it. -/
structure CopyData (Row : Type) where
  row : Row
  put : Bool
  interrupted : Bool

inductive CopyOutEnd where
  | copyDone
  | errorResponse
  /-- `PQgetCopyData` returns -2. -/
  | failure
deriving DecidableEq

/-- What happens for one table. -/
structure TableCopy (Row : Type) where
  /-- `pg_logical_get_remote_repset_table` -/
  remoteRel : Except String Unit
  /-- Building the relation map. -/
  relationOpen : Except String Unit
  copyTo : Except String Unit
  copyFrom : Except String Unit
  data : List (CopyData Row)
  ending : CopyOutEnd
  /-- `PQputCopyEnd` returns 1. -/
  putCopyEnd : Bool
  /-- The target reports an error for the data. -/
  rejected : Bool
  /-- An interrupt is processed behind the table. -/
  interrupted : Bool

def TableCopy.rows (table : TableCopy Row) : List Row := table.data.map CopyData.row

structure CopyScript where
  originConnect : Except String Unit
  originBegin : Except String Unit
  /-- `pg_logical_get_remote_repset_tables` -/
  remoteTables : Except String Unit
  targetConnect : Except String Unit
  targetBegin : Except String Unit
  /-- `COMMIT` of a transaction that has not failed. -/
  commit : Except String Unit

inductive ExecStatusType where
  | commandOk
  | copyOut
  | copyIn
  | fatalError
deriving DecidableEq

structure Session (Row : Type) where
  originAborted : Bool
  targetAborted : Bool
  /-- What the open transaction of the target has written. -/
  uncommitted : List Row
  committed : List Row

/-- An error leaves the servers as they are; losing the connection then rolls back. -/
abbrev CopyM (Row : Type) := EStateM String (Session Row)

def outcome : Except String Unit → CopyM Row Unit
  | .ok _ => pure ()
  | .error message => throw message

/-! ## libpq and the servers -/

def execCopyTo (table : TableCopy Row) : CopyM Row ExecStatusType := fun session =>
  if session.originAborted then .ok .fatalError session
  else match table.copyTo with
    | .ok _ => .ok .copyOut session
    | .error _ => .ok .fatalError { session with originAborted := true }

def execCopyFrom (table : TableCopy Row) : CopyM Row ExecStatusType := fun session =>
  if session.targetAborted then .ok .fatalError session
  else match table.copyFrom with
    | .ok _ => .ok .copyIn session
    | .error _ => .ok .fatalError { session with targetAborted := true }

/-- The stream of the provider is over; an error has aborted its transaction. -/
def copyOutEnds (table : TableCopy Row) : CopyM Row ℤ := fun session =>
  match table.ending with
  | .copyDone => .ok (-1) session
  | .errorResponse => .ok (-1) { session with originAborted := true }
  | .failure => .ok (-2) session

/-- The target takes over the rows or, if it rejects them, fails its transaction. Its answer is not
looked at here. -/
def pqPutCopyEnd (table : TableCopy Row) : CopyM Row ℤ := fun session =>
  if table.putCopyEnd then
    if table.rejected then .ok 1 { session with targetAborted := true }
    else .ok 1 { session with uncommitted := session.uncommitted ++ table.rows }
  else .ok (-1) session

/-- `COMMIT` of a failed transaction rolls back and reports success. -/
def execCommit (script : CopyScript) : CopyM Row ExecStatusType := fun session =>
  if session.targetAborted then .ok .commandOk { session with uncommitted := [] }
  else match script.commit with
    | .ok _ => .ok .commandOk { session with committed := session.committed ++ session.uncommitted, uncommitted := [] }
    | .error _ => .ok .fatalError { session with uncommitted := [] }

/-! ## The copy -/

/-- The loop over the provider's stream. -/
def putRows : List (CopyData Row) → CopyM Row Unit
  | [] => pure ()
  | data :: rest => do
    if !data.put then throw "writing to target table failed"
    if data.interrupted then throw "canceling statement due to user request"
    putRows rest

def copyTableData (table : TableCopy Row) : CopyM Row Unit := do
  outcome table.relationOpen
  if (← execCopyTo table) ≠ .copyOut then throw "table copy failed"
  if (← execCopyFrom table) ≠ .copyIn then throw "table copy failed"
  putRows table.data
  if (← copyOutEnds table) ≠ -1 then throw "reading from origin table failed"
  if (← pqPutCopyEnd table) ≠ 1 then throw "sending copy-completion to destination connection failed"

def checkForInterrupts (interrupted : Bool) : CopyM Row Unit := do
  if interrupted then throw "canceling statement due to user request"

/-- The provider's description of the table is asked for inside its transaction. -/
def getRemoteRepsetTable (table : TableCopy Row) : CopyM Row Unit := fun session =>
  if session.originAborted then .error "could not get table information" session
  else outcome table.remoteRel session

/-- A failed ROLLBACK on the provider is a warning only. -/
def finishCopyOriginTx : CopyM Row Unit := modify fun session => { session with originAborted := false }

def finishCopyTargetTx (script : CopyScript) : CopyM Row Unit := do
  if (← execCommit script) ≠ .commandOk then throw "COMMIT on target node failed"

def startCopy (connect begin : Except String Unit) : CopyM Row Unit := do
  outcome connect
  outcome begin

/-- One round of the loop of `copy_tables_data`. -/
def copyListedTable (table : TableCopy Row) : CopyM Row Unit := do
  getRemoteRepsetTable table
  copyTableData table
  checkForInterrupts table.interrupted

/-- One round of the loop of `copy_replication_sets_data`. -/
def copyRepsetTable (table : TableCopy Row) : CopyM Row Unit := do
  copyTableData table
  checkForInterrupts table.interrupted

def copyTablesData (script : CopyScript) (tables : List (TableCopy Row)) : CopyM Row Unit := do
  startCopy script.originConnect script.originBegin
  startCopy script.targetConnect script.targetBegin
  tables.forM copyListedTable
  finishCopyOriginTx
  finishCopyTargetTx script

/-- The tables are those the provider names in the transaction of the snapshot. -/
def copyReplicationSetsData (script : CopyScript) (tables : List (TableCopy Row)) : CopyM Row Unit := do
  startCopy script.originConnect script.originBegin
  outcome script.remoteTables
  startCopy script.targetConnect script.targetBegin
  tables.forM copyRepsetTable
  finishCopyOriginTx
  finishCopyTargetTx script

/-- Two open connections with new transactions, and what the target had before. -/
def Session.start (committed : List Row) : Session Row := ⟨false, false, [], committed⟩

end PGLogical.Copy
