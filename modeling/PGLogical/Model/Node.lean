import PGLogical.Model.Repset
import PGLogical.Model.Sync

/-! # The node catalogs

`pglogical.node`, `node_interface`, `local_node`, `subscription`, `replication_set` and
`local_sync_status`, and the C functions that read and write them. Rows are inserted and deleted
directly in the heap, which checks the unique indexes and nothing else: the foreign keys of the
table definitions are not enforced. A scan returns rows in the order of the heap.
`hash_any` is PostgreSQL's and is a parameter.
-/

namespace PGLogical.Nodes

open Wire (Bytes CString)

/-- The bytes of a word in the memory of a little-endian machine. -/
def wordBytes (word : UInt32) : Bytes := (Wire.bigEndian 4 word.toNat).reverse

structure PGLogicalNode where
  id : Oid
  name : NameData
deriving DecidableEq

structure PGlogicalInterface where
  id : Oid
  name : NameData
  nodeid : Oid
  dsn : CString
deriving DecidableEq

structure LocalNodeTuple where
  nodeLocalId : Oid
  nodeLocalNodeIf : Oid
deriving DecidableEq

structure PGLogicalLocalNode where
  node : PGLogicalNode
  nodeIf : PGlogicalInterface
deriving DecidableEq

structure Interval where
  time : ℤ
  day : ℤ
  month : ℤ
deriving DecidableEq

/-- A row of `pglogical.subscription`; an empty list is stored as NULL and read back as empty. -/
structure SubscriptionTuple where
  subId : Oid
  subName : NameData
  subOrigin : Oid
  subTarget : Oid
  subOriginIf : Oid
  subTargetIf : Oid
  subEnabled : Bool
  subSlotName : NameData
  subReplicationSets : List CString
  subForwardOrigins : List CString
  subApplyDelay : Interval
deriving DecidableEq

/-- A subscription with the records it refers to. -/
structure PGLogicalSubscription where
  id : Oid
  name : NameData
  origin : PGLogicalNode
  target : PGLogicalNode
  originIf : PGlogicalInterface
  targetIf : PGlogicalInterface
  enabled : Bool
  applyDelay : Interval
  slotName : NameData
  replicationSets : List CString
  forwardOrigins : List CString
deriving DecidableEq

inductive SyncKind where
  | init
  | full
  | struct
  | data
deriving DecidableEq

/-- A row of `pglogical.local_sync_status`; the one without a table is the subscription's own. -/
structure PGLogicalSyncStatus where
  kind : SyncKind
  subid : Oid
  table : Option RangeVar
  status : SyncStatus
deriving DecidableEq

structure Catalog where
  node : List PGLogicalNode
  nodeInterface : List PGlogicalInterface
  localNode : List LocalNodeTuple
  subscription : List SubscriptionTuple
  replicationSet : List PGLogicalRepSet
  localSyncStatus : List PGLogicalSyncStatus
deriving DecidableEq

namespace Catalog

/-- The catalogs of a new extension. -/
def empty : Catalog := ⟨[], [], [], [], [], []⟩

def uniqueViolation : String := "duplicate key value violates unique constraint"

/-- `CatalogUpdateIndexes` on a new row that must differ in its keys from those there. -/
def insertUnique {α : Type} (conflict : α → Bool) (rows : List α) (row : α) : Except String (List α) :=
  if rows.any conflict then .error uniqueViolation else .ok (rows ++ [row])

/-! ## Nodes -/

def getNode (catalog : Catalog) (nodeid : Oid) : Except String PGLogicalNode :=
  match catalog.node.find? fun node => decide (node.id = nodeid) with
  | some node => .ok node
  | none => .error s!"node {nodeid} not found"

/-- `get_node_by_name` with `missing_ok`. -/
def findNodeByName (catalog : Catalog) (name : NameData) : Option PGLogicalNode :=
  catalog.node.find? fun node => decide (node.name = name)

def getNodeByName (catalog : Catalog) (name : NameData) : Except String PGLogicalNode :=
  match catalog.findNodeByName name with
  | some node => .ok node
  | none => .error s!"node {name.str.toString} not found"

/-- Returns the node with its identifier. -/
def createNode (hashAny : Bytes → UInt32) (catalog : Catalog) (node : PGLogicalNode) :
    Except String (PGLogicalNode × Catalog) := do
  if (catalog.findNodeByName node.name).isSome then throw s!"node {node.name.str.toString} already exists"
  let node := if node.id = invalidOid then { node with id := hashAny node.name.str.val } else node
  let rows ← insertUnique (fun other => decide (other.id = node.id ∨ other.name = node.name)) catalog.node node
  return (node, { catalog with node := rows })

def dropNode (catalog : Catalog) (nodeid : Oid) : Except String Catalog := do
  let _ ← catalog.getNode nodeid
  return { catalog with node := catalog.node.eraseP fun node => decide (node.id = nodeid) }

/-! ## Interfaces -/

def getNodeInterface (catalog : Catalog) (ifid : Oid) : Except String PGlogicalInterface :=
  match catalog.nodeInterface.find? fun nodeif => decide (nodeif.id = ifid) with
  | some nodeif => .ok nodeif
  | none => .error s!"node interface {ifid} not found"

/-- `get_node_interface_by_name` with `missing_ok`. -/
def findNodeInterfaceByName (catalog : Catalog) (nodeid : Oid) (name : NameData) :
    Option PGlogicalInterface :=
  catalog.nodeInterface.find? fun nodeif => decide (nodeif.nodeid = nodeid ∧ nodeif.name = name)

def getNodeInterfaceByName (catalog : Catalog) (nodeid : Oid) (name : NameData) :
    Except String PGlogicalInterface :=
  match catalog.findNodeInterfaceByName nodeid name with
  | some nodeif => .ok nodeif
  | none => .error s!"node interface \"{name.str.toString}\" not found for nod {nodeid}"

def createNodeInterface (hashAny : Bytes → UInt32) (catalog : Catalog) (nodeif : PGlogicalInterface) :
    Except String (PGlogicalInterface × Catalog) := do
  let nodeif :=
    if nodeif.id = invalidOid then
      { nodeif with id := hashAny (wordBytes nodeif.nodeid ++ wordBytes (hashAny nodeif.name.str.val)) }
    else nodeif
  let rows ← insertUnique
    (fun other => decide (other.id = nodeif.id ∨ (other.nodeid = nodeif.nodeid ∧ other.name = nodeif.name)))
    catalog.nodeInterface nodeif
  return (nodeif, { catalog with nodeInterface := rows })

/-- Whatever refers to the interface stays as it is. -/
def dropNodeInterface (catalog : Catalog) (ifid : Oid) : Except String Catalog := do
  let _ ← catalog.getNodeInterface ifid
  return { catalog with nodeInterface := catalog.nodeInterface.eraseP fun nodeif => decide (nodeif.id = ifid) }

def dropNodeInterfaces (catalog : Catalog) (nodeid : Oid) : Catalog :=
  { catalog with nodeInterface := catalog.nodeInterface.filter fun nodeif => decide (nodeif.nodeid ≠ nodeid) }

/-! ## The local node -/

/-- `get_local_node` with `missing_ok`: only the row itself may be missing. -/
def findLocalNode (catalog : Catalog) : Except String (Option PGLogicalLocalNode) :=
  match catalog.localNode with
  | [] => .ok none
  | row :: _ => do
    let node ← catalog.getNode row.nodeLocalId
    let nodeIf ← catalog.getNodeInterface row.nodeLocalNodeIf
    return some ⟨node, nodeIf⟩

def getLocalNode (catalog : Catalog) : Except String PGLogicalLocalNode := do
  match ← catalog.findLocalNode with
  | some localnode => return localnode
  | none => throw "local node not found"

def createLocalNode (catalog : Catalog) (nodeid ifid : Oid) : Except String Catalog := do
  if (← catalog.findLocalNode).isSome then throw "current database is already configured as pglogical node"
  let rows ← insertUnique (fun row => decide (row.nodeLocalId = nodeid)) catalog.localNode ⟨nodeid, ifid⟩
  return { catalog with localNode := rows }

def dropLocalNode (catalog : Catalog) : Except String Catalog :=
  match catalog.localNode with
  | [] => .error "local node not found"
  | _ :: rows => .ok { catalog with localNode := rows }

/-! ## Replication sets -/

def createReplicationSet (hashAny : Bytes → UInt32) (catalog : Catalog) (repset : PGLogicalRepSet) :
    Except String (PGLogicalRepSet × Catalog) := do
  if repset.name.val = [] then throw "replication set name cannot be empty"
  if catalog.replicationSet.any fun other => decide (other.nodeid = repset.nodeid ∧ other.name = repset.name) then
    throw s!"replication set {repset.name.toString} already exists"
  let repset :=
    if repset.id = invalidOid then
      { repset with id := hashAny (wordBytes repset.nodeid ++ wordBytes (hashAny repset.name.val)) }
    else repset
  let rows ← insertUnique
    (fun other => decide (other.id = repset.id ∨ (other.nodeid = repset.nodeid ∧ other.name = repset.name)))
    catalog.replicationSet repset
  return (repset, { catalog with replicationSet := rows })

/-- The memberships of the sets go with them; they are not part of these catalogs. -/
def dropNodeReplicationSets (catalog : Catalog) (nodeid : Oid) : Catalog :=
  { catalog with replicationSet := catalog.replicationSet.filter fun repset => decide (repset.nodeid ≠ nodeid) }

/-! ## Subscriptions -/

def subscriptionFromtuple (catalog : Catalog) (subtup : SubscriptionTuple) :
    Except String PGLogicalSubscription := do
  let origin ← catalog.getNode subtup.subOrigin
  let target ← catalog.getNode subtup.subTarget
  let originIf ← catalog.getNodeInterface subtup.subOriginIf
  let targetIf ← catalog.getNodeInterface subtup.subTargetIf
  return ⟨subtup.subId, subtup.subName, origin, target, originIf, targetIf, subtup.subEnabled,
    subtup.subApplyDelay, subtup.subSlotName, subtup.subReplicationSets, subtup.subForwardOrigins⟩

def getSubscription (catalog : Catalog) (subid : Oid) : Except String PGLogicalSubscription :=
  match catalog.subscription.find? fun subtup => decide (subtup.subId = subid) with
  | some subtup => catalog.subscriptionFromtuple subtup
  | none => .error s!"subscription {subid} not found"

/-- `get_subscription_by_name` with `missing_ok`. -/
def findSubscriptionByName (catalog : Catalog) (name : NameData) :
    Except String (Option PGLogicalSubscription) :=
  match catalog.subscription.find? fun subtup => decide (subtup.subName = name) with
  | some subtup => some <$> catalog.subscriptionFromtuple subtup
  | none => .ok none

def getSubscriptionByName (catalog : Catalog) (name : NameData) : Except String PGLogicalSubscription := do
  match ← catalog.findSubscriptionByName name with
  | some sub => return sub
  | none => throw s!"subscriber {name.str.toString} not found"

def getNodeSubscriptions (catalog : Catalog) (nodeid : Oid) (origin : Bool) :
    Except String (List PGLogicalSubscription) :=
  (catalog.subscription.filter fun subtup =>
    decide ((if origin then subtup.subOrigin else subtup.subTarget) = nodeid)).mapM catalog.subscriptionFromtuple

/-- The characters of a replication slot's name. -/
def validNameChar (c : UInt8) : Bool := (97 ≤ c && c ≤ 122) || (48 ≤ c && c ≤ 57) || c == 95

/-- A `NameData` is never too long. -/
def validateSubscriptionName (name : NameData) : Except String Unit := do
  if name.str.val = [] then throw s!"subscription  name \"{name.str.toString}\" is too short"
  if !name.str.val.all validNameChar then
    throw s!"subscription name \"{name.str.toString}\" contains invalid character"

def createSubscription (hashAny : Bytes → UInt32) (catalog : Catalog) (sub : SubscriptionTuple) :
    Except String (SubscriptionTuple × Catalog) := do
  validateSubscriptionName sub.subName
  if (← catalog.findSubscriptionByName sub.subName).isSome then
    throw s!"subscription {sub.subName.str.toString} already exists"
  let sub := if sub.subId = invalidOid then { sub with subId := hashAny sub.subName.str.val } else sub
  let rows ← insertUnique (fun other => decide (other.subId = sub.subId ∨ other.subName = sub.subName))
    catalog.subscription sub
  return (sub, { catalog with subscription := rows })

/-- The row a changed subscription is written as: identifier and name are kept. -/
def SubscriptionTuple.modify (subtup : SubscriptionTuple) (sub : PGLogicalSubscription) : SubscriptionTuple :=
  { subtup with
    subOrigin := sub.originIf.nodeid
    subTarget := sub.targetIf.nodeid
    subOriginIf := sub.originIf.id
    subTargetIf := sub.targetIf.id
    subEnabled := sub.enabled
    subSlotName := sub.slotName
    subReplicationSets := sub.replicationSets
    subForwardOrigins := sub.forwardOrigins
    subApplyDelay := sub.applyDelay }

/-- The identifier is the primary key, so at most one row changes. -/
def alterSubscription (catalog : Catalog) (sub : PGLogicalSubscription) : Except String Catalog :=
  if catalog.subscription.any fun subtup => decide (subtup.subId = sub.id) then
    .ok { catalog with subscription := catalog.subscription.map fun subtup =>
      if subtup.subId = sub.id then SubscriptionTuple.modify subtup sub else subtup }
  else .error s!"subscription {sub.id} not found"

def dropSubscription (catalog : Catalog) (subid : Oid) : Except String Catalog :=
  if catalog.subscription.any fun subtup => decide (subtup.subId = subid) then
    .ok { catalog with subscription := catalog.subscription.filter fun subtup => decide (subtup.subId ≠ subid) }
  else .error s!"subscription {subid} not found"

/-! ## Synchronisation statuses -/

/-- The unique index has NULLs in the row of a subscription, which never conflict. -/
def createLocalSyncStatus (catalog : Catalog) (sync : PGLogicalSyncStatus) : Except String Catalog := do
  let rows ← insertUnique
    (fun other => decide (sync.table.isSome ∧ other.subid = sync.subid ∧ other.table = sync.table))
    catalog.localSyncStatus sync
  return { catalog with localSyncStatus := rows }

def dropSubscriptionSyncStatus (catalog : Catalog) (subid : Oid) : Catalog :=
  { catalog with localSyncStatus := catalog.localSyncStatus.filter fun sync => decide (sync.subid ≠ subid) }

end Catalog

end PGLogical.Nodes
