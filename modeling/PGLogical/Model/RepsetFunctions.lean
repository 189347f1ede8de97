import PGLogical.Model.Backend
import PGLogical.Model.NodeFunctions

/-! # SQL functions on replication sets

The functions that create, alter and drop replication sets and put tables into them. As for the
functions on nodes, each call is a statement of its own and an error undoes it. Tables are looked
at but not changed; PostgreSQL's part of the work (opening relations, triggers, parsing a row
filter) is a parameter.
-/

namespace PGLogical.Repsets

open Wire (Bytes CString)
open Nodes (Environment)

inductive RelKind where
  | relation
  | index
  | sequence
  | toastvalue
  | view
  | matview
  | compositeType
  | foreignTable
deriving DecidableEq

inductive RelPersistence where
  | permanent
  | unlogged
  | temp
deriving DecidableEq

/-- An entry of the relation cache. -/
structure TargetRel where
  rel : Relation
  relkind : RelKind
  relpersistence : RelPersistence
  /-- The replica identity index. -/
  rdReplidindex : Oid
  /-- `IsSystemClass`. -/
  systemClass : Bool
deriving DecidableEq

/-- What the functions use of PostgreSQL. Only plain tables can have TRUNCATE triggers. -/
structure Server (Node : Type) where
  tables : List TargetRel
  getNamespaceName : Oid → CString
  lookupExplicitNamespace : CString → Except String Oid
  parseRowFilter : TargetRel → CString → Except String Node
  /-- The table has the trigger that queues truncations. -/
  hasTruncateTrigger : TargetRel → Bool
  createTrigger : TargetRel → Except String Unit
  onlyTables : ∀ rel, hasTruncateTrigger rel = true ∨ createTrigger rel = .ok () → rel.relkind = .relation

/-- A request to synchronise a table, as it is queued for the subscribers of a set. -/
structure TablesyncMessage where
  replicationSet : CString
  schemaName : CString
  tableName : CString
deriving DecidableEq

structure Catalog (Node : Type) where
  nodes : Nodes.Catalog
  /-- `pglogical.replication_set_table`. -/
  repsetTable : List (RepSetTableTuple Node)
  /-- `pglogical.replication_set_seq`: set and sequence. -/
  repsetSeq : List (Oid × Oid)
  queue : List TablesyncMessage

variable {Node : Type} (env : Environment) (server : Server Node)

def Server.heapOpen (reloid : Oid) : Except String TargetRel :=
  match server.tables.find? fun target => decide (target.rel.relid = reloid) with
  | none => .error s!"could not open relation with OID {reloid}"
  | some target =>
      if target.relkind = .index then .error s!"\"{target.rel.relname.str.toString}\" is an index"
      else if target.relkind = .compositeType then
        .error s!"\"{target.rel.relname.str.toString}\" is a composite type"
      else .ok target

def createTruncateTrigger (target : TargetRel) : Except String Unit :=
  if server.hasTruncateTrigger target then .ok () else server.createTrigger target

namespace Catalog

variable (catalog : Catalog Node)

def checkLocalNode : Except String Nodes.PGLogicalLocalNode := do
  match ← catalog.nodes.findLocalNode with
  | some localnode => return localnode
  | none => throw "current database is not configured as pglogical node"

def getReplicationSet (setid : Oid) : Except String PGLogicalRepSet :=
  match catalog.nodes.replicationSet.find? fun repset => decide (repset.id = setid) with
  | some repset => .ok repset
  | none => .error s!"replication set {setid} not found"

/-- `get_replication_set_by_name` with `missing_ok`. -/
def findReplicationSetByName (nodeid : Oid) (setname : NameData) : Option PGLogicalRepSet :=
  catalog.nodes.replicationSet.find? fun repset => decide (repset.nodeid = nodeid ∧ repset.name = setname.str)

def getReplicationSetByName (nodeid : Oid) (setname : NameData) : Except String PGLogicalRepSet :=
  match catalog.findReplicationSetByName nodeid setname with
  | some repset => .ok repset
  | none => .error s!"replication set {setname.str.toString} not found"

/-- One round of the loop of `alter_replication_set` over the tables of the set. -/
def checkReplicationIndex (repset : PGLogicalRepSet) (t : RepSetTableTuple Node) : Except String Unit := do
  let targetrel ← server.heapOpen t.reloid
  if targetrel.relkind = .relation ∧ targetrel.rdReplidindex = invalidOid ∧
      (repset.replicateUpdate || repset.replicateDelete) = true then
    throw (s!"replication set {repset.name.toString} cannot be altered to replicate UPDATEs or DELETEs " ++
      "because it contains tables without PRIMARY KEY")

def alterReplicationSet (repset : PGLogicalRepSet) : Except String (Catalog Node) := do
  let _ ← catalog.getReplicationSet repset.id
  if repset.replicateUpdate || repset.replicateDelete then
    (catalog.repsetTable.filter fun t => decide (t.setid = repset.id)).forM (checkReplicationIndex server repset)
  return { catalog with nodes := { catalog.nodes with
    replicationSet := Backend.alterReplicationSet repset catalog.nodes.replicationSet } }

/-- The set goes with its tables and sequences. -/
def dropReplicationSet (setid : Oid) : Except String (Catalog Node) := do
  let _ ← catalog.getReplicationSet setid
  return { catalog with
    nodes := { catalog.nodes with
      replicationSet := catalog.nodes.replicationSet.filter fun repset => decide (repset.id ≠ setid) }
    repsetTable := catalog.repsetTable.filter fun t => decide (t.setid ≠ setid)
    repsetSeq := catalog.repsetSeq.filter fun s => decide (s.1 ≠ setid) }

/-- An empty list is stored as NULL. -/
def repSetTableTuple (setid reloid : Oid) (rowFilter : Option Node) : List CString → RepSetTableTuple Node
  | [] => ⟨setid, reloid, none, rowFilter, by simp⟩
  | attname :: rest => ⟨setid, reloid, some (attname :: rest), rowFilter, by simp⟩

def replicationSetAddTable (setid reloid : Oid) (attList : List CString) (rowFilter : Option Node) :
    Except String (Catalog Node) := do
  let repset ← catalog.getReplicationSet setid
  let targetrel ← server.heapOpen reloid
  if targetrel.relpersistence ≠ .permanent then throw "UNLOGGED and TEMP tables cannot be replicated"
  if targetrel.rdReplidindex = invalidOid ∧ (repset.replicateUpdate || repset.replicateDelete) = true then
    throw (s!"table {targetrel.rel.relname.str.toString} cannot be added to replication set " ++
      s!"{repset.name.toString}")
  createTruncateTrigger server targetrel
  let rows ← Nodes.Catalog.insertUnique (fun t => decide (t.setid = repset.id ∧ t.reloid = reloid))
    catalog.repsetTable (repSetTableTuple repset.id reloid rowFilter attList)
  return { catalog with repsetTable := rows }

def replicationSetRemoveTable (setid reloid : Oid) : Except String (Catalog Node) :=
  if catalog.repsetTable.any fun t => decide (t.setid = setid ∧ t.reloid = reloid) then
    .ok { catalog with
      repsetTable := catalog.repsetTable.filter fun t => decide (¬ (t.setid = setid ∧ t.reloid = reloid)) }
  else .error s!"replication set table mapping {setid}:{reloid} not found"

def queueTablesync (repset : PGLogicalRepSet) (nspname relname : CString) : Catalog Node :=
  { catalog with queue := catalog.queue ++ [⟨repset.name, nspname, relname⟩] }

end Catalog

/-! ## The SQL functions -/

def pglogicalCreateReplicationSet (catalog : Catalog Node) (setName : NameData)
    (replicateInsert replicateUpdate replicateDelete replicateTruncate : Bool) :
    Except String (Oid × Catalog Node) := do
  let node ← catalog.checkLocalNode
  let (repset, nodes) ← catalog.nodes.createReplicationSet env.hashAny
    ⟨invalidOid, node.node.id, setName.str, replicateInsert, replicateUpdate, replicateDelete, replicateTruncate⟩
  return (repset.id, { catalog with nodes := nodes })

/-- A flag that is NULL is kept. -/
def pglogicalAlterReplicationSet (catalog : Catalog Node) (setName : Option NameData)
    (replicateInsert replicateUpdate replicateDelete replicateTruncate : Option Bool) :
    Except String (Oid × Catalog Node) := do
  match setName with
  | none => throw "set_name cannot be NULL"
  | some setName =>
      let node ← catalog.checkLocalNode
      let repset ← catalog.getReplicationSetByName node.node.id setName
      let repset := { repset with
        replicateInsert := replicateInsert.getD repset.replicateInsert
        replicateUpdate := replicateUpdate.getD repset.replicateUpdate
        replicateDelete := replicateDelete.getD repset.replicateDelete
        replicateTruncate := replicateTruncate.getD repset.replicateTruncate }
      return (repset.id, ← catalog.alterReplicationSet server repset)

def pglogicalDropReplicationSet (catalog : Catalog Node) (setName : NameData) (ifexists : Bool) :
    Except String (Bool × Catalog Node) := do
  let node ← catalog.checkLocalNode
  match catalog.findReplicationSetByName node.node.id setName with
  | some repset => return (true, ← catalog.dropReplicationSet repset.id)
  | none => if ifexists then return (false, catalog) else throw s!"replication set {setName.str.toString} not found"

/-- One listed column: it must exist, and it is taken out of the replica identity. -/
def checkAttname (nspname : CString) (rel : Relation) (idattrs : Bitmapset) (attname : CString) :
    Except String Bitmapset := do
  let attnum := getAttNumByName rel.desc attname
  if attnum < 0 then
    throw s!"table {nspname.toString}.{rel.relname.str.toString} does not have column {attname.toString}"
  return idattrs.erase (attnum - firstLowInvalidHeapAttributeNumber)

/-- "Process att_list": nothing of the replica identity may be left. -/
def processAttList (nspname : CString) (rel : Relation) : Option (List CString) → Except String (List CString)
  | none => .ok []
  | some attList => do
    let idattrs ← attList.foldlM (checkAttname nspname rel) rel.identityKey
    if idattrs ≠ ∅ then throw "REPLICA IDENTITY columns must be replicated"
    return attList

def pglogicalReplicationSetAddTable (catalog : Catalog Node) (repsetName : Option NameData) (reloid : Option Oid)
    (synchronize : Option Bool) (attNames : Option (List CString)) (rowFilter : Option CString) :
    Except String (Bool × Catalog Node) := do
  match repsetName, reloid, synchronize with
  | none, _, _ => throw "set_name cannot be NULL"
  | some _, none, _ => throw "relation cannot be NULL"
  | some _, some _, none => throw "synchronize_data cannot be NULL"
  | some repsetName, some reloid, some synchronize =>
      let node ← catalog.checkLocalNode
      let repset ← catalog.getReplicationSetByName node.node.id repsetName
      let rel ← server.heapOpen reloid
      let nspname := server.getNamespaceName rel.rel.relnamespace
      let attList ← processAttList nspname rel.rel attNames
      let filter ← rowFilter.mapM (server.parseRowFilter rel)
      let catalog ← catalog.replicationSetAddTable server repset.id reloid attList filter
      return (true, if synchronize then catalog.queueTablesync repset nspname rel.rel.relname.str else catalog)

/-- One table of a schema. -/
def addOneTable (repset : PGLogicalRepSet) (nspname : CString) (synchronize : Bool) (existing : List Oid)
    (catalog : Catalog Node) (target : TargetRel) : Except String (Catalog Node) := do
  if target.relkind ≠ .relation ∨ target.relpersistence ≠ .permanent ∨ target.systemClass = true ∨
      target.rel.relid ∈ existing then
    return catalog
  let catalog ← catalog.replicationSetAddTable server repset.id target.rel.relid [] none
  return if synchronize then catalog.queueTablesync repset nspname target.rel.relname.str else catalog

def addTablesOfSchema (repset : PGLogicalRepSet) (synchronize : Bool) (existing : List Oid)
    (catalog : Catalog Node) (nspname : CString) : Except String (Catalog Node) := do
  let nspoid ← server.lookupExplicitNamespace nspname
  (server.tables.filter fun target => decide (target.rel.relnamespace = nspoid)).foldlM
    (addOneTable server repset nspname synchronize existing) catalog

/-- The relations of the set are read once, before the first table is added. -/
def pglogicalReplicationSetAddAllTables (catalog : Catalog Node) (repsetName : NameData) (nspNames : List CString)
    (synchronize : Bool) : Except String (Bool × Catalog Node) := do
  let node ← catalog.checkLocalNode
  let repset ← catalog.getReplicationSetByName node.node.id repsetName
  let existing := ((catalog.repsetTable.filter fun t => decide (t.setid = repset.id)).map RepSetTableTuple.reloid) ++
    ((catalog.repsetSeq.filter fun s => decide (s.1 = repset.id)).map Prod.snd)
  return (true, ← nspNames.foldlM (addTablesOfSchema server repset synchronize existing) catalog)

def pglogicalReplicationSetRemoveTable (catalog : Catalog Node) (repsetName : NameData) (reloid : Oid) :
    Except String (Bool × Catalog Node) := do
  let node ← catalog.checkLocalNode
  let repset ← catalog.getReplicationSetByName node.node.id repsetName
  return (true, ← catalog.replicationSetRemoveTable repset.id reloid)

inductive Call where
  | createReplicationSet (setName : NameData)
      (replicateInsert replicateUpdate replicateDelete replicateTruncate : Bool)
  | alterReplicationSet (setName : Option NameData)
      (replicateInsert replicateUpdate replicateDelete replicateTruncate : Option Bool)
  | dropReplicationSet (setName : NameData) (ifexists : Bool)
  | replicationSetAddTable (repsetName : Option NameData) (reloid : Option Oid) (synchronize : Option Bool)
      (attNames : Option (List CString)) (rowFilter : Option CString)
  | replicationSetAddAllTables (repsetName : NameData) (nspNames : List CString) (synchronize : Bool)
  | replicationSetRemoveTable (repsetName : NameData) (reloid : Oid)

/-- The catalogs a call commits, or its error. -/
def call (catalog : Catalog Node) : Call → Except String (Catalog Node)
  | .createReplicationSet setName replicateInsert replicateUpdate replicateDelete replicateTruncate =>
      Prod.snd <$> pglogicalCreateReplicationSet env catalog setName replicateInsert replicateUpdate replicateDelete
        replicateTruncate
  | .alterReplicationSet setName replicateInsert replicateUpdate replicateDelete replicateTruncate =>
      Prod.snd <$> pglogicalAlterReplicationSet server catalog setName replicateInsert replicateUpdate replicateDelete
        replicateTruncate
  | .dropReplicationSet setName ifexists => Prod.snd <$> pglogicalDropReplicationSet catalog setName ifexists
  | .replicationSetAddTable repsetName reloid synchronize attNames rowFilter =>
      Prod.snd <$> pglogicalReplicationSetAddTable server catalog repsetName reloid synchronize attNames rowFilter
  | .replicationSetAddAllTables repsetName nspNames synchronize =>
      Prod.snd <$> pglogicalReplicationSetAddAllTables server catalog repsetName nspNames synchronize
  | .replicationSetRemoveTable repsetName reloid =>
      Prod.snd <$> pglogicalReplicationSetRemoveTable catalog repsetName reloid

/-- A call that fails is rolled back. -/
def step (catalog : Catalog Node) (statement : Call) : Option (Catalog Node) :=
  match call env server catalog statement with
  | .ok next => some next
  | .error _ => some catalog

end PGLogical.Repsets
