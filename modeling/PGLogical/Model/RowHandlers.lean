import PGLogical.Model.ApplyTuple

/-! # Applying a row change

The handlers of the row messages, from the point where the message has been read and its relation is
open. Next to the rows of the table they keep a trace of what is done with the objects they acquire:
the relation, the executor state, snapshots and index relations. Using the executor state after it has
been freed is a crash. A search that finds a row takes a snapshot of its own while it locks the row.

What a trigger function returns, constraints, insertions into indexes and the processing of a queued
message are parameters. Conflict reports only go to the log and are left out, and so are AFTER
triggers beyond the fact that they are queued.
-/

namespace PGLogical.Apply

open Native (PGLogicalTupleData)
open Wire (CString)

/-! ## Triggers -/

inductive TriggerEvent where
  | insert
  | update
  | delete
deriving DecidableEq

structure RowTrigger where
  tgenabled : Char
  /-- BEFORE and FOR EACH ROW -/
  beforeRow : Bool
  events : List TriggerEvent
  /-- The columns of UPDATE OF, counted from 0. -/
  tgattr : List ℕ
  /-- What the function returns for the old and the new row; the new row itself where the trigger's
  condition does not hold. -/
  call : TriggerEvent → Option Row → Option Row → Option Row

/-- `TriggerEnabled` in a session whose role is replica. Columns matter for UPDATE only. -/
def RowTrigger.enabled (trigger : RowTrigger) (event : TriggerEvent) (modifiedCols : ℕ → Bool) : Bool :=
  !(trigger.tgenabled == 'O' || trigger.tgenabled == 'D') &&
    (trigger.tgattr.isEmpty || decide (event ≠ .update) || trigger.tgattr.any modifiedCols)

def RowTrigger.handles (trigger : RowTrigger) (event : TriggerEvent) : Bool :=
  trigger.beforeRow && decide (event ∈ trigger.events)

def RowTrigger.firesFor (trigger : RowTrigger) (event : TriggerEvent) (modifiedCols : ℕ → Bool) : Bool :=
  trigger.handles event && trigger.enabled event modifiedCols

/-- The range table entry that `create_estate_for_relation` makes has no updated columns. -/
def RowTrigger.fires (trigger : RowTrigger) (event : TriggerEvent) : Bool := trigger.firesFor event fun _ => false

/-- `ri_TrigDesc` with `trig_insert_before_row` and its siblings. Triggers that are not enabled count too. -/
def trigBeforeRow (triggers : List RowTrigger) (event : TriggerEvent) : Bool := triggers.any (RowTrigger.handles · event)

/-! ## What a handler does -/

inductive Action where
  | openRelation
  | closeRelation
  | openQueue
  | closeQueue
  | initEstate
  | finishEstate
  | pushSnapshot
  | popSnapshot
  | openIndex
  | closeIndex
  /-- A BEFORE ROW trigger was executed and returned a row, or NULL. -/
  | trigger (event : TriggerEvent) (returned : Bool)
  | materializeSlot
  | checkConstraints
  | heapInsert
  | heapUpdate
  | heapDelete
  | insertIndexTuples
  | queueAfterTriggers (event : TriggerEvent)
  /-- The executor state was used after it had been freed. -/
  | useReleased
deriving DecidableEq

/-- Does the statement go through `aestate`? -/
def Action.needsEstate : Action → Bool
  | .finishEstate => true
  | .openIndex => true
  | .closeIndex => true
  | .trigger _ _ => true
  | .materializeSlot => true
  | .checkConstraints => true
  | .insertIndexTuples => true
  | .queueAfterTriggers _ => true
  | _ => false

structure ApplyState where
  heap : List StoredRow
  /-- Is the executor state allocated? -/
  estate : Bool
  trace : List Action

inductive Stop where
  | error (message : String)
  | crash

abbrev RowM := EStateM Stop ApplyState

def estateAfter (estate : Bool) : Action → Bool
  | .initEstate => true
  | .finishEstate => false
  | _ => estate

def ApplyState.record (state : ApplyState) (action : Action) : ApplyState :=
  { state with estate := estateAfter state.estate action, trace := state.trace ++ [action] }

def perform (action : Action) : RowM Unit := fun state =>
  if action.needsEstate && !state.estate then .error .crash (state.record .useReleased)
  else .ok () (state.record action)

def raise {α : Type} (message : String) : RowM α := throw (.error message)

def check : Except String Unit → RowM Unit
  | .ok () => pure ()
  | .error message => raise message

/-! ## The table and the session -/

structure Site where
  desc : TupleDesc
  columnDefault : ColumnDefault
  indexes : List IndexInfo
  /-- `RelationGetReplicaIndex` -/
  replidindex : Option IndexInfo
  triggers : List RowTrigger
  /-- No check where the table has no constraints. -/
  execConstraints : Row → Except String Unit
  /-- Insertion into the indexes; says whether a constraint has to be checked again later. -/
  execInsertIndexTuples : List StoredRow → Row → Except String Bool
  /-- `HeapTupleIsHeapOnly` of the new version of a row. -/
  heapOnly : Row → Row → Bool
  newTid : List StoredRow → Tid
  /-- Is this the table of queued messages? -/
  isQueue : Bool
  handleQueuedMessage : Row → Except String Unit
  /-- `SyncingTables` -/
  syncingTables : List (CString × CString)
  resolver : ConflictResolver
  trackCommitTimestamp : Bool
  session : ApplySession

def checkSyncingRelation (site : Site) (rel : PGLogicalRelation) : Bool :=
  decide ((rel.nspname, rel.relname) ∈ site.syncingTables)

/-- The version that the apply transaction writes. -/
def Site.version (site : Site) (row : Row) : HeapVersion ℕ (Option Datum) :=
  ⟨row, site.session.topTransactionId, site.session.timestamp, site.session.origin⟩

def heapInsert (site : Site) (row : Row) (heap : List StoredRow) : List StoredRow :=
  heap ++ [⟨site.newTid heap, site.version row⟩]

/-- The row keeps its identifier here. -/
def heapUpdate (site : Site) (otid : Tid) (row : Row) (heap : List StoredRow) : List StoredRow :=
  heap.map fun stored => if stored.tSelf = otid then ⟨otid, site.version row⟩ else stored

def heapDelete (tid : Tid) (heap : List StoredRow) : List StoredRow :=
  heap.filter fun stored => decide (stored.tSelf ≠ tid)

def modifyHeap (change : List StoredRow → List StoredRow) : RowM Unit :=
  modify fun state => { state with heap := change state.heap }

def simpleHeapInsert (site : Site) (row : Row) : RowM Unit := do
  perform .heapInsert
  modifyHeap (heapInsert site row)

def simpleHeapUpdate (site : Site) (otid : Tid) (row : Row) : RowM Unit := do
  perform .heapUpdate
  modifyHeap (heapUpdate site otid row)

def simpleHeapDelete (tid : Tid) : RowM Unit := do
  perform .heapDelete
  modifyHeap (heapDelete tid)

def userTableUpdateOpenIndexes (site : Site) (row : Row) : RowM Unit :=
  if site.indexes.isEmpty then pure ()
  else do
    perform .insertIndexTuples
    match site.execInsertIndexTuples (← get).heap row with
    | .error message => raise message
    | .ok true => raise "pglogical doesn't support index rechecks"
    | .ok false => pure ()

def execOpenIndices (site : Site) : RowM Unit := site.indexes.forM fun _ => perform .openIndex

def execCloseIndices (site : Site) : RowM Unit := site.indexes.forM fun _ => perform .closeIndex

/-- The snapshot under which a row that was found is locked. -/
def lockFound {α : Type} (found : Option α) : RowM (Option α) :=
  match found with
  | none => pure none
  | some value => do
      perform .pushSnapshot
      perform .popSnapshot
      pure (some value)

def searchConflict (site : Site) (newtup : PGLogicalTupleData) : RowM (Option (Oid × StoredRow)) := do
  match pglogicalTupleFindConflict site.indexes (← get).heap newtup with
  | .error message => raise message
  | .ok found => lockFound found

def searchReplidx (site : Site) (tuple : PGLogicalTupleData) : RowM (Option StoredRow) := do
  match pglogicalTupleFindReplidx site.replidindex (← get).heap tuple with
  | .error message => raise message
  | .ok found => lockFound found

/-- One enabled trigger after the other, each on what the one before it returned. -/
def execBRTriggers (event : TriggerEvent) (old : Option Row) : List RowTrigger → Row → RowM (Option Row)
  | [], row => pure (some row)
  | trigger :: rest, row =>
      if trigger.fires event then do
        perform (.trigger event (trigger.call event old (some row)).isSome)
        match trigger.call event old (some row) with
        | none => pure none
        | some row => execBRTriggers event old rest row
      else execBRTriggers event old rest row

def execBRDeleteTriggers (old : Row) : List RowTrigger → RowM Bool
  | [] => pure true
  | trigger :: rest =>
      if trigger.fires .delete then do
        perform (.trigger .delete (trigger.call .delete (some old) none).isSome)
        match trigger.call .delete (some old) none with
        | none => pure false
        | some _ => execBRDeleteTriggers old rest
      else execBRDeleteTriggers old rest

def beforeInsert (site : Site) (row : Row) : RowM (Option Row) :=
  if trigBeforeRow site.triggers .insert then execBRTriggers .insert none site.triggers row else pure (some row)

def beforeUpdate (site : Site) (old row : Row) : RowM (Option Row) :=
  if trigBeforeRow site.triggers .update then execBRTriggers .update (some old) site.triggers row else pure (some row)

/-- The flag that is tested is the one of UPDATE triggers. -/
def beforeDelete (site : Site) (old : Row) : RowM Bool :=
  if trigBeforeRow site.triggers .update then execBRDeleteTriggers old site.triggers else pure true

/-- The clean-up that is repeated at the exits. -/
def cleanUp : RowM Unit := do
  perform .popSnapshot
  perform .finishEstate
  perform .closeRelation

/-! ## INSERT -/

/-- `aestate->slot` is read from the executor state, and NULL if triggers said to do nothing. -/
def execMaterializeSlot (slot : Option Row) : RowM Row := do
  perform .materializeSlot
  match slot with
  | none => throw .crash
  | some row => pure row

/-- The update triggers of a conflicting INSERT. Nothing returns from the handler after the clean-up. -/
def beforeConflictUpdate (site : Site) (found : StoredRow) (row : Row) : RowM (Option Row) := do
  match ← beforeUpdate site found.row row with
  | none => do
      cleanUp
      pure none
  | some row => pure (some row)

def updateConflicting (site : Site) (found : StoredRow) (row : Row) : RowM Unit := do
  perform .checkConstraints
  check (site.execConstraints row)
  simpleHeapUpdate site found.tSelf row
  if site.heapOnly found.row row then perform (.queueAfterTriggers .update)
  else do
    userTableUpdateOpenIndexes site row
    perform (.queueAfterTriggers .update)

/-- Tuple already exists, try resolving conflict. Returns what is in the slot then. -/
def insertConflicting (site : Site) (found : StoredRow) (row : Row) : RowM Row :=
  match tryResolveConflict site.resolver site.trackCommitTimestamp site.session found.version with
  | none => raise "cannot apply conflicting row"
  | some .keepLocal => pure row
  | some .applyRemote => do
      let slot ← beforeConflictUpdate site found row
      let row ← execMaterializeSlot slot
      updateConflicting site found row
      pure row

def insertNew (site : Site) (row : Row) : RowM Row := do
  perform .checkConstraints
  check (site.execConstraints row)
  simpleHeapInsert site row
  userTableUpdateOpenIndexes site row
  perform (.queueAfterTriggers .insert)
  pure row

def storeInserted (site : Site) (conflict : Option (Oid × StoredRow)) (row : Row) : RowM Row :=
  match conflict with
  | some (_, found) => insertConflicting site found row
  | none => insertNew site row

/-- If INSERT was into our queue, process the message. Otherwise do normal cleanup. -/
def finishInsert (site : Site) (row : Row) : RowM Unit :=
  if site.isQueue then do
    perform .finishEstate
    perform .closeRelation
    check (site.handleQueuedMessage row)
    perform .openQueue
    perform .closeQueue
  else do
    perform .finishEstate
    perform .closeRelation

def storeAndFinish (site : Site) (conflict : Option (Oid × StoredRow)) (row : Row) : RowM Unit := do
  perform .materializeSlot
  let row ← storeInserted site conflict row
  execCloseIndices site
  perform .popSnapshot
  finishInsert site row

def applyInsert (site : Site) (rel : PGLogicalRelation) (newtup : PGLogicalTupleData) : RowM Unit := do
  perform .initEstate
  perform .pushSnapshot
  execOpenIndices site
  let conflict ← searchConflict site newtup
  match ← beforeInsert site (insertedRow rel site.desc site.columnDefault newtup) with
  | none => cleanUp
  | some row => storeAndFinish site conflict row

def handleInsert (site : Site) (rel : PGLogicalRelation) (newtup : PGLogicalTupleData) : RowM Unit := do
  perform .openRelation
  if checkSyncingRelation site rel then perform .closeRelation else applyInsert site rel newtup

/-! ## UPDATE -/

/-- Is the change to be stored? A version of another origin is a conflict. -/
def resolveUpdate (site : Site) (found : StoredRow) : Except String Bool :=
  if found.version.xmin ≠ site.session.topTransactionId ∧
      (getTupleOrigin site.trackCommitTimestamp site.session found.version).1 ≠ site.session.origin then
    match tryResolveConflict site.resolver site.trackCommitTimestamp site.session found.version with
    | none => .error "cannot apply conflicting row"
    | some .keepLocal => .ok false
    | some .applyRemote => .ok true
  else .ok true

/-- Only update indexes if it's not HOT update. -/
def storeUpdated (site : Site) (found : StoredRow) (row : Row) : RowM Unit := do
  perform .checkConstraints
  check (site.execConstraints row)
  simpleHeapUpdate site found.tSelf row
  if site.heapOnly found.row row then perform (.queueAfterTriggers .update)
  else do
    execOpenIndices site
    userTableUpdateOpenIndexes site row
    execCloseIndices site
    perform (.queueAfterTriggers .update)

def resolveAndStore (site : Site) (found : StoredRow) (row : Row) : RowM Unit := do
  perform .materializeSlot
  match resolveUpdate site found with
  | .error message => raise message
  | .ok false => cleanUp
  | .ok true => do
      storeUpdated site found row
      cleanUp

def applyUpdate (site : Site) (rel : PGLogicalRelation) (oldtup : Option PGLogicalTupleData)
    (newtup : PGLogicalTupleData) : RowM Unit := do
  perform .initEstate
  perform .pushSnapshot
  match ← searchReplidx site (oldtup.getD newtup) with
  | none => cleanUp
  | some found => do
      match ← beforeUpdate site found.row (updatedRow rel site.desc site.columnDefault newtup found.row) with
      | none => cleanUp
      | some row => resolveAndStore site found row

def handleUpdate (site : Site) (rel : PGLogicalRelation) (oldtup : Option PGLogicalTupleData)
    (newtup : PGLogicalTupleData) : RowM Unit := do
  perform .openRelation
  if checkSyncingRelation site rel then perform .closeRelation else applyUpdate site rel oldtup newtup

/-! ## DELETE -/

def deleteFound (site : Site) (found : StoredRow) : RowM Unit := do
  match ← beforeDelete site found.row with
  | false => cleanUp
  | true => do
      simpleHeapDelete found.tSelf
      perform (.queueAfterTriggers .delete)
      cleanUp

def applyDelete (site : Site) (oldtup : PGLogicalTupleData) : RowM Unit := do
  perform .initEstate
  perform .pushSnapshot
  match ← searchReplidx site oldtup with
  | none => cleanUp
  | some found => deleteFound site found

def handleDelete (site : Site) (rel : PGLogicalRelation) (oldtup : PGLogicalTupleData) : RowM Unit := do
  perform .openRelation
  if checkSyncingRelation site rel then perform .closeRelation else applyDelete site oldtup

/-- A handler starts with nothing acquired. -/
def ApplyState.start (heap : List StoredRow) : ApplyState := ⟨heap, false, []⟩

end PGLogical.Apply
