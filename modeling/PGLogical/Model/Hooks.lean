import PGLogical.Model.Repset

/-! # The row filter hook

The output plugin asks the hook about every row change. A catch-up session for one table looks at
the name of the changed table only. Otherwise changes of the queue and of the replication set
catalog are handled apart, and every other table is decided by its replication sets: first the
action, then the row filters. The rows of a table are a parameter, and so are the functions that
read a queued message or a replication set from a row.
-/

namespace PGLogical

open Wire (CString)

variable {Row Node : Type}

/-- `QueuedMessage`, as far as the hook looks at it. -/
structure QueuedMessage where
  replicationSets : Option (List CString)
  messageType : Char
deriving DecidableEq

def queueCommandTypeTruncate : Char := 'T'

/-- What the hook reads from the server: catalogs, and how rows and filters are understood. -/
structure HookEnv (Row Node : Type) where
  queueTableOid : Oid
  replicationSetTableOid : Oid
  getNamespaceOid : CString → Oid
  repsetTable : List (RepSetTableTuple Node)
  getattr : HeapGetattr Node
  queuedMessageFromTuple : Row → QueuedMessage
  replicationSetFromTuple : Row → PGLogicalRepSet
  /-- A NULL result is `none`. -/
  execEvalExpr : Node → Row → Option Bool

structure PGLogicalHooksPrivate where
  localNodeId : Oid
  replicationSets : List PGLogicalRepSet
  /-- Schema and name of the only table to send. -/
  replicateOnlyTable : Option (CString × CString)
deriving DecidableEq

structure ReorderBufferChange (Row : Type) where
  action : ReorderBufferChangeType
  oldtuple : Option Row
  newtuple : Option Row

/-- What a call leaves behind: the answer, the column list, and the session's and the backend's state. -/
structure HookResult (Node : Type) where
  forward : Bool
  attList : Option Bitmapset
  hooksPrivate : PGLogicalHooksPrivate
  cache : RepSetTableHash Node

/-- The row the filters see. -/
def ReorderBufferChange.row (change : ReorderBufferChange Row) : Option Row :=
  change.newtuple.or change.oldtuple

def PGLogicalTableRepInfo.replicates (entry : PGLogicalTableRepInfo Node) :
    ReorderBufferChangeType → Except String Bool
  | .insert => .ok entry.replicateInsert
  | .update => .ok entry.replicateUpdate
  | .delete => .ok entry.replicateDelete
  | .other code => .error s!"Unhandled reorder buffer change type {code}"

/-- The loop over the row filters. NULL is same as false. -/
def passesFilters (env : HookEnv Row Node) (row : Row) : List Node → Bool
  | [] => true
  | filter :: rest =>
      match env.execEvalExpr filter row with
      | none => false
      | some false => false
      | some true => passesFilters env row rest

/-- The last part of the hook, for a table with its entry at hand. -/
def filterByTableInfo (env : HookEnv Row Node) (entry : PGLogicalTableRepInfo Node)
    (change : ReorderBufferChange Row) : Except String Bool := do
  if ← entry.replicates change.action then
    if entry.rowFilter.isEmpty then return true
    else match change.row with
      | none => return false
      | some row => return passesFilters env row entry.rowFilter
  else return false

/-- Queued messages go to the sets they name, or to everybody when they name none. -/
def forwardsQueuedMessage (sets : List PGLogicalRepSet) (q : QueuedMessage) : Bool :=
  match q.replicationSets with
  | none => true
  | some names => names.any fun queueSet => sets.any fun rs =>
      queueSet == rs.name && (q.messageType != queueCommandTypeTruncate || rs.replicateTruncate)

/-- An update of one of our sets is taken over into the session's own list; the first match counts. -/
def updateRepSet (changed : PGLogicalRepSet) : List PGLogicalRepSet → List PGLogicalRepSet
  | [] => []
  | rs :: rest =>
      if rs.id = changed.id then
        { rs with
          replicateInsert := changed.replicateInsert
          replicateUpdate := changed.replicateUpdate
          replicateDelete := changed.replicateDelete
          replicateTruncate := changed.replicateTruncate } :: rest
      else rs :: updateRepSet changed rest

/-- The branch for changes of the replication set catalog, none of which is ever sent. The catalog has
a primary key, so the tuples are there. -/
def handleRepSetChange (env : HookEnv Row Node) (hooks : PGLogicalHooksPrivate)
    (change : ReorderBufferChange Row) : Except String PGLogicalHooksPrivate :=
  match change.action with
  | .update => match change.newtuple with
      | none => .error "missing tuple"
      | some tup => .ok { hooks with
          replicationSets := updateRepSet (env.replicationSetFromTuple tup) hooks.replicationSets }
  | .delete => match change.oldtuple with
      | none => .error "missing tuple"
      | some tup =>
          match hooks.replicationSets.find? fun rs => decide (rs.id = (env.replicationSetFromTuple tup).id) with
          | some rs => .error s!"replication set \"{rs.name.toString}\" used by this connection was deleted, existing"
          | none => .ok hooks
  | _ => .ok hooks

def pglogicalRowFilterHook (env : HookEnv Row Node) (hooks : PGLogicalHooksPrivate)
    (cache : RepSetTableHash Node) (rel : Relation) (change : ReorderBufferChange Row) :
    Except String (HookResult Node) :=
  match hooks.replicateOnlyTable with
  | some (schemaname, relname) =>
      .ok ⟨decide (rel.relname.str = relname) && decide (rel.relnamespace = env.getNamespaceOid schemaname),
        none, hooks, cache⟩
  | none =>
      if rel.relid = env.queueTableOid then
        match change.action, change.newtuple with
        | .insert, some tup =>
            .ok ⟨forwardsQueuedMessage hooks.replicationSets (env.queuedMessageFromTuple tup), none, hooks, cache⟩
        | _, _ => .ok ⟨false, none, hooks, cache⟩
      else if rel.relid = env.replicationSetTableOid then do
        let hooks ← handleRepSetChange env hooks change
        return ⟨false, none, hooks, cache⟩
      else do
        let (entry, cache) := getTableReplicationInfo env.getattr env.repsetTable cache rel hooks.replicationSets
        let forward ← filterByTableInfo env entry change
        return ⟨forward, if forward then entry.attList else none, hooks, cache⟩

end PGLogical
