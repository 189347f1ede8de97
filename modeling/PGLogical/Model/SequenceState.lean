import PGLogical.Model.RepsetFunctions

/-! # Sequences in replication sets

A sequence is in a replication set by a row of `replication_set_seq`. What the subscribers know of its
value is kept in `sequence_state`, from which the manager's pass over the sequences works. The
functions below are those that put sequences into sets and take them out, together with the pass.
Relations come and go, so they are part of the state; what the first tuple of a relation holds where
a sequence has its `last_value` is learned from outside.
-/

namespace PGLogical.Sequences

open Wire (CString)
open Nodes (Environment)
open Repsets (Server TargetRel)

structure SeqStateTuple where
  seqoid : Oid
  cacheSize : Int32
  lastValue : Int64
deriving DecidableEq

/-- A queued message about a sequence. One without sets goes to every subscriber. -/
structure SequenceMessage where
  replicationSets : List CString
  schemaName : CString
  sequenceName : CString
  lastValue : Int64
deriving DecidableEq

structure Catalog (Node : Type) extends Repsets.Catalog Node where
  /-- `pglogical.sequence_state`. -/
  sequenceState : List SeqStateTuple
  sequenceQueue : List SequenceMessage
  /-- `pg_class`. -/
  relations : List TargetRel

/-- The `last_value` in the first tuple of a relation, if there is a tuple. -/
abbrev Contents := Oid → Option Int64

def sequenceReplicationMinCache : Int32 := 1000

def sequenceReplicationMaxCache : Int32 := 1000000

variable {Node : Type} (env : Environment) (server : Server Node) (contents : Contents)

namespace Catalog

variable (catalog : Catalog Node)

def heapOpen (reloid : Oid) : Except String TargetRel :=
  { server with tables := catalog.relations }.heapOpen reloid

/-- The tuple is only asserted to be there. -/
def sequenceGetLastValue (seqoid : Oid) : Except String Int64 := do
  let _ ← catalog.heapOpen server seqoid
  match contents seqoid with
  | some lastValue => return lastValue
  | none => throw "HeapTupleIsValid(tup)"

/-! ## The state records -/

/-- "Makes sure there is sequence state record for given sequence." -/
def createSequenceStateRecord (seqoid : Oid) : Except String (Catalog Node) := do
  if catalog.sequenceState.any fun seq => decide (seq.seqoid = seqoid) then return catalog
  else
    let lastValue ← catalog.sequenceGetLastValue server contents seqoid
    return { catalog with
      sequenceState := catalog.sequenceState ++ [⟨seqoid, sequenceReplicationMinCache, lastValue⟩] }

/-- "Makes sure there isn't sequence state record for given sequence." -/
def dropSequenceStateRecord (seqoid : Oid) : Catalog Node :=
  { catalog with sequenceState := catalog.sequenceState.eraseP fun seq => decide (seq.seqoid = seqoid) }

/-! ## Memberships -/

/-- Memberships in sets of any node count. -/
def sequenceHasReplicationSets (seqoid : Oid) : Bool :=
  catalog.repsetSeq.any fun t => decide (t.2 = seqoid)

/-- A membership whose set is missing is an error, one in a set of another node is passed over. -/
def getSeqReplicationSets (nodeid seqoid : Oid) : Except String (List PGLogicalRepSet) := do
  let repsets ← (catalog.repsetSeq.filter fun t => decide (t.2 = seqoid)).mapM fun t => catalog.getReplicationSet t.1
  return repsets.filter fun repset => decide (repset.nodeid = nodeid)

def queueSequence (replicationSets : List CString) (nspname : CString) (rel : TargetRel) (lastValue : Int64) :
    Catalog Node :=
  { catalog with sequenceQueue := catalog.sequenceQueue ++
      [⟨replicationSets, nspname, rel.rel.relname.str, lastValue⟩] }

/-- What kind of relation it is does not matter. -/
def replicationSetAddSeq (setid seqoid : Oid) : Except String (Catalog Node) := do
  let repset ← catalog.getReplicationSet setid
  let targetrel ← catalog.heapOpen server seqoid
  if targetrel.relpersistence ≠ .permanent then throw "UNLOGGED and TEMP sequwnces cannot be replicated"
  let catalog ← catalog.createSequenceStateRecord server contents seqoid
  let rows ← Nodes.Catalog.insertUnique (fun t => decide (t = (repset.id, seqoid))) catalog.repsetSeq
    (repset.id, seqoid)
  return { catalog with repsetSeq := rows }

/-- The state record of a dropped sequence goes with its first membership. -/
def dropSequenceStateUnlessMember (seqoid : Oid) (fromDrop : Bool) : Catalog Node :=
  if fromDrop || !catalog.sequenceHasReplicationSets seqoid then catalog.dropSequenceStateRecord seqoid else catalog

def replicationSetRemoveSeq (setid seqoid : Oid) (fromDrop : Bool) : Except String (Catalog Node) := do
  let _ ← catalog.getReplicationSet setid
  if (setid, seqoid) ∉ catalog.repsetSeq ∧ fromDrop = false then
    throw s!"replication set sequence mapping {setid}:{seqoid} not found"
  return { catalog with repsetSeq := catalog.repsetSeq.erase (setid, seqoid) }.dropSequenceStateUnlessMember seqoid
    fromDrop

/-- One row of the scan of `replication_set_remove_seqs`. -/
def removeSeqTuple (t : Oid × Oid) : Catalog Node :=
  { catalog with repsetSeq := catalog.repsetSeq.erase t }.dropSequenceStateUnlessMember t.2 false

/-- "Remove all sequences from replication set." -/
def replicationSetRemoveSeqs (setid : Oid) : Catalog Node :=
  (catalog.repsetSeq.filter fun t => decide (t.1 = setid)).foldl removeSeqTuple catalog

/-- "Remove all tables from replication set." -/
def replicationSetRemoveTables (setid : Oid) : Catalog Node :=
  { catalog with repsetTable := catalog.repsetTable.filter fun t => decide (t.setid ≠ setid) }

/-- "Remove all tables and sequences associated with the repset." -/
def replicationSetRemoveAll (setid : Oid) : Catalog Node :=
  (catalog.replicationSetRemoveTables setid).replicationSetRemoveSeqs setid

def withNodes (nodes : Nodes.Catalog) : Catalog Node := { catalog with nodes := nodes }

def dropReplicationSet (setid : Oid) : Except String (Catalog Node) := do
  let _ ← catalog.getReplicationSet setid
  return (catalog.replicationSetRemoveAll setid).withNodes { catalog.nodes with
    replicationSet := catalog.nodes.replicationSet.filter fun repset => decide (repset.id ≠ setid) }

end Catalog

/-! ## The SQL functions -/

def pglogicalReplicationSetAddSequence (catalog : Catalog Node) (repsetName : NameData) (reloid : Oid)
    (synchronize : Bool) : Except String (Catalog Node) := do
  let node ← catalog.checkLocalNode
  let repset ← catalog.getReplicationSetByName node.node.id repsetName
  let rel ← catalog.heapOpen server reloid
  let catalog ← catalog.replicationSetAddSeq server contents repset.id reloid
  if synchronize then
    let lastValue ← catalog.sequenceGetLastValue server contents reloid
    return catalog.queueSequence [repset.name] (server.getNamespaceName rel.rel.relnamespace) rel lastValue
  else return catalog

/-- One relation of a schema. -/
def addOneSequence (repset : PGLogicalRepSet) (nspname : CString) (synchronize : Bool) (existing : List Oid)
    (catalog : Catalog Node) (target : TargetRel) : Except String (Catalog Node) := do
  if target.relkind ≠ .sequence ∨ target.relpersistence ≠ .permanent ∨ target.systemClass = true ∨
      target.rel.relid ∈ existing then
    return catalog
  else
    let catalog ← catalog.replicationSetAddSeq server contents repset.id target.rel.relid
    if synchronize then
      let lastValue ← catalog.sequenceGetLastValue server contents target.rel.relid
      return catalog.queueSequence [repset.name] nspname target lastValue
    else return catalog

def addSequencesOfSchema (repset : PGLogicalRepSet) (synchronize : Bool) (existing : List Oid)
    (catalog : Catalog Node) (nspname : CString) : Except String (Catalog Node) := do
  let nspoid ← server.lookupExplicitNamespace nspname
  (catalog.relations.filter fun target => decide (target.rel.relnamespace = nspoid)).foldlM
    (addOneSequence server contents repset nspname synchronize existing) catalog

/-- `pglogical_replication_set_add_all_relations` for sequences. The relations of the set are read
once, before the first sequence is added. -/
def pglogicalReplicationSetAddAllSequences (catalog : Catalog Node) (repsetName : NameData) (nspNames : List CString)
    (synchronize : Bool) : Except String (Catalog Node) := do
  let node ← catalog.checkLocalNode
  let repset ← catalog.getReplicationSetByName node.node.id repsetName
  let existing := ((catalog.repsetTable.filter fun t => decide (t.setid = repset.id)).map RepSetTableTuple.reloid) ++
    ((catalog.repsetSeq.filter fun s => decide (s.1 = repset.id)).map Prod.snd)
  nspNames.foldlM (addSequencesOfSchema server contents repset synchronize existing) catalog

def pglogicalReplicationSetRemoveSequence (catalog : Catalog Node) (repsetName : NameData) (seqoid : Oid) :
    Except String (Catalog Node) := do
  let node ← catalog.checkLocalNode
  let repset ← catalog.getReplicationSetByName node.node.id repsetName
  catalog.replicationSetRemoveSeq repset.id seqoid false

def pglogicalDropReplicationSet (catalog : Catalog Node) (setName : NameData) (ifexists : Bool) :
    Except String (Catalog Node) := do
  let node ← catalog.checkLocalNode
  match catalog.findReplicationSetByName node.node.id setName with
  | some repset => catalog.dropReplicationSet repset.id
  | none => if ifexists then return catalog else throw s!"replication set {setName.str.toString} not found"

/-- The sets of the node go with their tables and sequences. -/
def pglogicalDropNode (catalog : Catalog Node) (nodeName : NameData) (ifexists : Bool)
    (slots : List Nodes.ReplicationSlot) : Except String (Catalog Node) := do
  let (_, nodes) ← Nodes.pglogicalDropNode env catalog.nodes nodeName ifexists slots
  match catalog.nodes.findNodeByName nodeName with
  | none => return catalog.withNodes nodes
  | some node =>
      let repsets := catalog.nodes.replicationSet.filter fun repset => decide (repset.nodeid = node.id)
      return (repsets.foldl (fun catalog repset => catalog.replicationSetRemoveAll repset.id) catalog).withNodes nodes

/-! ## The manager's pass -/

/-- The record after a pass that saw `lastValue`. -/
def SeqStateTuple.advance (seq : SeqStateTuple) (lastValue : Int64) : SeqStateTuple :=
  let cacheSize :=
    if seq.lastValue + seq.cacheSize.toInt64 ≤ lastValue then min sequenceReplicationMaxCache (seq.cacheSize * 2)
    else seq.cacheSize
  { seq with cacheSize := cacheSize, lastValue := lastValue + cacheSize.toInt64 }

/-- `simple_heap_update` of a record. -/
def Catalog.updateSequenceState (catalog : Catalog Node) (newseq : SeqStateTuple) : Catalog Node :=
  { catalog with sequenceState := catalog.sequenceState.map fun seq =>
      if seq.seqoid = newseq.seqoid then newseq else seq }

/-- One row of the scan of `synchronize_sequences`. -/
def synchronizeOne (nodeid : Oid) (state : Bool × Catalog Node) (oldseq : SeqStateTuple) :
    Except String (Bool × Catalog Node) := do
  let (ret, catalog) := state
  let rel ← catalog.heapOpen server oldseq.seqoid
  let lastValue ← catalog.sequenceGetLastValue server contents oldseq.seqoid
  if lastValue + (sequenceReplicationMinCache / 2).toInt64 ≤ oldseq.lastValue then return state
  else
    let newseq := oldseq.advance lastValue
    let catalog := catalog.updateSequenceState newseq
    let repsets ← catalog.getSeqReplicationSets nodeid oldseq.seqoid
    return (ret && decide (lastValue ≤ oldseq.lastValue + (oldseq.cacheSize / 2).toInt64),
      catalog.queueSequence (repsets.map PGLogicalRepSet.name) (server.getNamespaceName rel.rel.relnamespace) rel
        newseq.lastValue)

def synchronizeSequences (catalog : Catalog Node) : Except String (Bool × Catalog Node) := do
  match ← catalog.nodes.findLocalNode with
  | none => return (true, catalog)
  | some localNode =>
      catalog.sequenceState.foldlM (synchronizeOne server contents localNode.node.id) (true, catalog)

/-! ## One sequence on demand -/

/-- The record is renewed however little was consumed. -/
def synchronizeSequence (catalog : Catalog Node) (seqoid : Oid) : Except String (Catalog Node) := do
  let localNode ← catalog.nodes.getLocalNode
  let seqrel ← catalog.heapOpen server seqoid
  if seqrel.relkind ≠ .sequence then throw s!"\"{seqrel.rel.relname.str.toString}\" is not a sequence"
  match catalog.sequenceState.find? fun seq => decide (seq.seqoid = seqoid) with
  | none => throw s!"\"{seqrel.rel.relname.str.toString}\" is not a replicated sequence"
  | some oldseq =>
      let lastValue ← catalog.sequenceGetLastValue server contents seqoid
      let newseq := { oldseq with lastValue := lastValue + oldseq.cacheSize.toInt64 }
      let catalog := catalog.updateSequenceState newseq
      let repsets ← catalog.getSeqReplicationSets localNode.node.id seqoid
      return catalog.queueSequence (repsets.map PGLogicalRepSet.name)
        (server.getNamespaceName seqrel.rel.relnamespace) seqrel newseq.lastValue

/-- One of the two functions, with the contents of the sequences at that time. -/
inductive Pass where
  | all (contents : Contents)
  | one (seqoid : Oid) (contents : Contents)

/-- A pass that fails leaves the catalogs alone and is no step. -/
def stepPass (catalog : Catalog Node) : Pass → Option (Catalog Node)
  | .all contents => (synchronizeSequences server contents catalog).toOption.map Prod.snd
  | .one seqoid contents => (synchronizeSequence server contents catalog seqoid).toOption

end PGLogical.Sequences
