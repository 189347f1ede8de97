import PGLogical.Model.SequenceState

/-! # The event trigger on dropped objects

`pglogical_dependency_check_trigger` runs at the end of every statement that has dropped something.
It looks for the replication sets of the dropped tables and sequences, takes the objects out of them
or raises an error, and forgets the synchronisation status of the tables. Whether the statement said
CASCADE it learns from the parse tree, which it takes for a `DropStmt` whatever the statement is.
-/

namespace PGLogical.Sequences

open Wire (CString)
open Nodes (Environment)
open Repsets (Server TargetRel)

/-! ## Parse trees -/

inductive DropBehavior where
  | restrict
  | cascade
deriving DecidableEq

def DropBehavior.word : DropBehavior → UInt32
  | .restrict => 0
  | .cascade => 1

/-- The statements that may drop tables or sequences, with the words that stand where the trigger
looks. -/
inductive ParseTree where
  /-- DROP of an object of the given type: TABLE, SEQUENCE, SCHEMA, EXTENSION and others. -/
  | dropStmt (removeType : UInt32) (behavior : DropBehavior) (missingOk concurrent : Bool)
  /-- The behaviours are those of the subcommands. -/
  | alterTableStmt (relkind : UInt32) (missingOk : Bool) (cmds : List DropBehavior)
  /-- The two words behind the node are what its allocation happens to hold. -/
  | dropOwnedStmt (behavior : DropBehavior) (behind : UInt32 × UInt32)
deriving DecidableEq

/-- What the statement says. -/
def ParseTree.saysCascade : ParseTree → Bool
  | .dropStmt _ behavior _ _ => decide (behavior = .cascade)
  | .alterTableStmt _ _ cmds => decide (DropBehavior.cascade ∈ cmds)
  | .dropOwnedStmt behavior _ => decide (behavior = .cascade)

/-- The node on a 64-bit machine, in words of four bytes. The tag, pointers and padding in front of
pointers are left open; padding behind a flag is zero. -/
def ParseTree.words : ParseTree → List (Option UInt32)
  | .dropStmt removeType behavior missingOk concurrent =>
      [none, none, none, none, none, none, removeType, behavior.word,
        some ((if missingOk then 1 else 0) + (if concurrent then 256 else 0))]
  | .alterTableStmt relkind missingOk _ =>
      [none, none, none, none, none, none, relkind, some (if missingOk then 1 else 0)]
  | .dropOwnedStmt behavior behind => [none, none, none, none, behavior.word, none, behind.1, behind.2]

/-- `((DropStmt *) parsetree)->behavior`, at byte 28. -/
def ParseTree.behavior (stmt : ParseTree) : Option UInt32 := (stmt.words[7]?).join

/-- `stmt->behavior == DROP_CASCADE`. -/
def ParseTree.readsCascade (stmt : ParseTree) : Bool := decide (stmt.behavior = some DropBehavior.cascade.word)

/-! ## The trigger -/

inductive ObjectType where
  | table
  | sequence
deriving DecidableEq

/-- A row of the query on `pg_event_trigger_dropped_objects()`. -/
structure DroppedObject where
  objid : Oid
  schemaName : CString
  objectName : CString
  objectType : ObjectType
deriving DecidableEq

variable {Node : Type} (env : Environment) (server : Server Node) (contents : Contents)

/-- Only plain tables and sequences are asked for. -/
def droppedObject (target : TargetRel) : Option DroppedObject :=
  let object := fun objectType : ObjectType => DroppedObject.mk target.rel.relid
    (server.getNamespaceName target.rel.relnamespace) target.rel.relname.str objectType
  match target.relkind with
  | .relation => some (object .table)
  | .sequence => some (object .sequence)
  | _ => none

namespace Catalog

variable (catalog : Catalog Node)

def getTableReplicationSets (nodeid reloid : Oid) : Except String (List PGLogicalRepSet) := do
  let repsets ← (catalog.repsetTable.filter fun t => decide (t.reloid = reloid)).mapM fun t =>
    catalog.getReplicationSet t.setid
  return repsets.filter fun repset => decide (repset.nodeid = nodeid)

/-- `replication_set_remove_table` with `from_drop`. -/
def replicationSetRemoveTableFromDrop (setid reloid : Oid) : Catalog Node :=
  { catalog with repsetTable := catalog.repsetTable.eraseP fun t => decide (t.setid = setid ∧ t.reloid = reloid) }

def dropTableSyncStatus (nspname relname : CString) : Catalog Node :=
  catalog.withNodes { catalog.nodes with
    localSyncStatus := catalog.nodes.localSyncStatus.filter fun sync => decide (sync.table ≠ some ⟨nspname, relname⟩) }

def getReplicationSets (nodeid : Oid) (object : DroppedObject) : Except String (List PGLogicalRepSet) :=
  match object.objectType with
  | .table => catalog.getTableReplicationSets nodeid object.objid
  | .sequence => catalog.getSeqReplicationSets nodeid object.objid

def removeFromSet (object : DroppedObject) (repset : PGLogicalRepSet) : Except String (Catalog Node) :=
  match object.objectType with
  | .table => .ok (catalog.replicationSetRemoveTableFromDrop repset.id object.objid)
  | .sequence => catalog.replicationSetRemoveSeq repset.id object.objid true

end Catalog

/-- One dropped object, with the memberships found so far: the lines of `logdetail`. -/
def checkDroppedObject (nodeid : Oid) (remove : Bool) (state : List (DroppedObject × PGLogicalRepSet) × Catalog Node)
    (object : DroppedObject) : Except String (List (DroppedObject × PGLogicalRepSet) × Catalog Node) := do
  let (logdetail, catalog) := state
  let repsets ← catalog.getReplicationSets nodeid object
  let catalog ← if remove then repsets.foldlM (fun catalog repset => catalog.removeFromSet object repset) catalog
    else pure catalog
  return (logdetail ++ repsets.map fun repset => (object, repset),
    catalog.dropTableSyncStatus object.schemaName object.objectName)

def pglogicalDependencyCheckTrigger (stmt : ParseTree) (replica : Bool) (dropped : List DroppedObject)
    (catalog : Catalog Node) : Except String (Catalog Node) := do
  match ← catalog.nodes.findLocalNode with
  | none => return catalog
  | some node =>
      let (logdetail, catalog) ←
        dropped.foldlM (checkDroppedObject node.node.id (stmt.readsCascade || replica)) ([], catalog)
      if logdetail ≠ [] ∧ stmt.readsCascade = false ∧ replica = false then
        throw "cannot drop desired object(s) because other objects depend on them"
      return catalog

/-- A statement that drops relations, with the trigger at its end. -/
def dropRelations (stmt : ParseTree) (replica : Bool) (dropped : List Oid) (catalog : Catalog Node) :
    Except String (Catalog Node) :=
  pglogicalDependencyCheckTrigger stmt replica
    ((catalog.relations.filter fun target => decide (target.rel.relid ∈ dropped)).filterMap (droppedObject server))
    { catalog with relations := catalog.relations.filter fun target => decide (target.rel.relid ∉ dropped) }

/-- A new relation has an identifier that no relation has. -/
def createRelation (catalog : Catalog Node) (target : TargetRel) : Except String (Catalog Node) := do
  let rows ← Nodes.Catalog.insertUnique (fun other : TargetRel => decide (other.rel.relid = target.rel.relid))
    catalog.relations target
  return { catalog with relations := rows }

/-! ## Statements -/

/-- Where a statement reads sequences, it comes with what they contain. -/
inductive Call where
  | createNode (nodeName : NameData) (nodeDsn : CString)
  | dropNode (nodeName : NameData) (ifexists : Bool) (slots : List Nodes.ReplicationSlot)
  | createReplicationSet (setName : NameData)
      (replicateInsert replicateUpdate replicateDelete replicateTruncate : Bool)
  | dropReplicationSet (setName : NameData) (ifexists : Bool)
  | replicationSetAddTable (repsetName : Option NameData) (reloid : Option Oid) (synchronize : Option Bool)
      (attNames : Option (List CString)) (rowFilter : Option CString)
  | replicationSetAddSequence (contents : Contents) (repsetName : NameData) (reloid : Oid) (synchronize : Bool)
  | replicationSetAddAllSequences (contents : Contents) (repsetName : NameData) (nspNames : List CString)
      (synchronize : Bool)
  | replicationSetRemoveSequence (repsetName : NameData) (seqoid : Oid)
  | createRelation (target : TargetRel)
  | dropRelations (stmt : ParseTree) (replica : Bool) (dropped : List Oid)
  /-- A pass of the manager. -/
  | synchronizeSequences (contents : Contents)

/-- The catalogs a statement commits, or its error. -/
def call (catalog : Catalog Node) : Call → Except String (Catalog Node)
  | .createNode nodeName nodeDsn =>
      catalog.withNodes <$> Prod.snd <$> Nodes.pglogicalCreateNode env catalog.nodes nodeName nodeDsn
  | .dropNode nodeName ifexists slots => pglogicalDropNode env catalog nodeName ifexists slots
  | .createReplicationSet setName replicateInsert replicateUpdate replicateDelete replicateTruncate =>
      (fun made => catalog.withNodes made.2.nodes) <$> Repsets.pglogicalCreateReplicationSet env catalog.toCatalog
        setName replicateInsert replicateUpdate replicateDelete replicateTruncate
  | .dropReplicationSet setName ifexists => pglogicalDropReplicationSet catalog setName ifexists
  | .replicationSetAddTable repsetName reloid synchronize attNames rowFilter =>
      (fun added => { catalog with toCatalog := added.2 }) <$> Repsets.pglogicalReplicationSetAddTable
        { server with tables := catalog.relations } catalog.toCatalog repsetName reloid synchronize attNames rowFilter
  | .replicationSetAddSequence contents repsetName reloid synchronize =>
      pglogicalReplicationSetAddSequence server contents catalog repsetName reloid synchronize
  | .replicationSetAddAllSequences contents repsetName nspNames synchronize =>
      pglogicalReplicationSetAddAllSequences server contents catalog repsetName nspNames synchronize
  | .replicationSetRemoveSequence repsetName seqoid =>
      pglogicalReplicationSetRemoveSequence catalog repsetName seqoid
  | .createRelation target => createRelation catalog target
  | .dropRelations stmt replica dropped => dropRelations server stmt replica dropped catalog
  | .synchronizeSequences contents => Prod.snd <$> synchronizeSequences server contents catalog

/-- A statement that fails is rolled back. -/
def step (catalog : Catalog Node) (statement : Call) : Option (Catalog Node) :=
  match call env server catalog statement with
  | .ok next => some next
  | .error _ => some catalog

end PGLogical.Sequences
