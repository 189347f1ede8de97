import PGLogical.Model.Node
import PGLogical.Machine.Run

/-! # SQL functions on nodes and subscriptions

The functions that create, alter and drop nodes, interfaces and subscriptions. Each call is a
statement of its own: an error aborts its transaction, so that the catalogs stay as they were.
What a call learns from outside the catalogs (connections, the provider's answer, replication
slots in shared memory, the apply worker it waits for) is part of the call.
-/

namespace PGLogical.Nodes

open Wire (Bytes CString)

/-! ## Slot names -/

def hexDigit (value : ℕ) : UInt8 := if value < 10 then UInt8.ofNat (48 + value) else UInt8.ofNat (87 + value)

/-- `%08x`. -/
def hex8 (word : UInt32) : Bytes := (List.range 8).reverse.map fun k => hexDigit (word.toNat / 16 ^ k % 16)

/-- `snprintf` is given `maxlen` for the whole buffer, so that a shortened string has `maxlen - 1`
characters. -/
def shortenHash (hashAny : Bytes → UInt32) (str : Bytes) (maxlen : ℕ) : Bytes :=
  if str.length ≤ maxlen then str else (str.take (maxlen - 8) ++ hex8 (hashAny str)).take (maxlen - 1)

def replaceInvalid (c : UInt8) : UInt8 := if Catalog.validNameChar c then c else 95

theorem replaceInvalid_ne_zero (c : UInt8) : replaceInvalid c ≠ 0 := by
  unfold replaceInvalid
  split
  · rintro rfl
    contradiction
  · decide

/-- The name before it is cut and invalid characters are replaced. -/
def slotNameParts (hashAny : Bytes → UInt32) (dbname providerNode subscriptionName : NameData) : Bytes :=
  (CString.ofString "pgl_").val ++ shortenHash hashAny dbname.str.val 16 ++ [95] ++
    shortenHash hashAny providerNode.str.val 16 ++ [95] ++ shortenHash hashAny subscriptionName.str.val 16

section Cut

variable (hashAny : Bytes → UInt32) (dbname providerNode subscriptionName : NameData)

theorem slotName_noNul : 0 ∉
    ((slotNameParts hashAny dbname providerNode subscriptionName).take (namedatalen - 1)).map replaceInvalid := by
  intro inside
  obtain ⟨c, -, zero⟩ := List.mem_map.mp inside
  exact replaceInvalid_ne_zero c zero

theorem slotName_short :
    (((slotNameParts hashAny dbname providerNode subscriptionName).take (namedatalen - 1)).map replaceInvalid).length <
      namedatalen := by
  simp only [List.length_map, List.length_take, namedatalen]
  omega

end Cut

def genSlotName (hashAny : Bytes → UInt32) (dbname providerNode subscriptionName : NameData) : NameData where
  str := ⟨((slotNameParts hashAny dbname providerNode subscriptionName).take (namedatalen - 1)).map replaceInvalid,
    slotName_noNul hashAny dbname providerNode subscriptionName⟩
  short := slotName_short hashAny dbname providerNode subscriptionName

/-- The name `pglogical_sync_main` gives the slot and the origin of a table's sync worker. -/
def syncSlotName (slotName : NameData) (tablename : UInt32) : Bytes := slotName.str.val ++ [95] ++ hex8 tablename

/-! ## Nodes and interfaces -/

structure ReplicationSlot where
  name : CString
  plugin : CString
  database : Oid
  active : Bool

/-- A slot that belongs to the node of the current database. -/
def ReplicationSlot.isOfNode (database : Oid) (slot : ReplicationSlot) : Bool :=
  decide (slot.database = database) && decide (slot.plugin = CString.ofString "pglogical_output") &&
    decide (slot.name.val.take 4 = (CString.ofString "pgl_").val)

/-- The predefined replication sets of a node. -/
def predefinedRepsets (nodeid : Oid) : List PGLogicalRepSet :=
  [⟨invalidOid, nodeid, CString.ofString "default", true, true, true, true⟩,
    ⟨invalidOid, nodeid, CString.ofString "default_insert_only", true, false, false, true⟩,
    ⟨invalidOid, nodeid, CString.ofString "ddl_sql", true, false, false, false⟩]

/-- What the functions see of the server: the hash function and the current database. -/
structure Environment where
  hashAny : Bytes → UInt32
  myDatabaseId : Oid
  databaseName : NameData

variable (env : Environment)

def pglogicalCreateNode (catalog : Catalog) (nodeName : NameData) (nodeDsn : CString) :
    Except String (Oid × Catalog) := do
  let (node, catalog) ← catalog.createNode env.hashAny ⟨invalidOid, nodeName⟩
  let (nodeif, catalog) ← catalog.createNodeInterface env.hashAny ⟨invalidOid, node.name, node.id, nodeDsn⟩
  let catalog ← (predefinedRepsets node.id).foldlM
    (fun catalog repset => Prod.snd <$> catalog.createReplicationSet env.hashAny repset) catalog
  let catalog ← catalog.createLocalNode node.id nodeif.id
  return (node.id, catalog)

/-- "If the node is local node, drop the record as well", after its slots. Dropping the slots is not
undone by an error. -/
def dropLocalRecord (catalog : Catalog) (node : PGLogicalNode) (slots : List ReplicationSlot) :
    Except String Catalog := do
  match ← catalog.findLocalNode with
  | none => return catalog
  | some localnode =>
      if localnode.node.id ≠ node.id then return catalog
      match slots.find? fun slot => slot.isOfNode env.myDatabaseId && slot.active with
      | some slot => throw (s!"cannot drop node \"{node.name.str.toString}\" because replication slot " ++
          s!"\"{slot.name.toString}\" on the node is still active")
      | none => catalog.dropLocalNode

def pglogicalDropNode (catalog : Catalog) (nodeName : NameData) (ifexists : Bool)
    (slots : List ReplicationSlot) : Except String (Bool × Catalog) := do
  match catalog.findNodeByName nodeName with
  | none =>
      if ifexists then return (false, catalog) else throw s!"node {nodeName.str.toString} not found"
  | some node =>
      let osubs ← catalog.getNodeSubscriptions node.id true
      let tsubs ← catalog.getNodeSubscriptions node.id false
      if osubs.length ≠ 0 ∨ tsubs.length ≠ 0 then
        throw (s!"cannot drop node \"{nodeName.str.toString}\" because it still has " ++
          "subscriptions associated with it")
      let catalog ← dropLocalRecord env catalog node slots
      let catalog ← ((catalog.dropNodeInterfaces node.id).dropNodeReplicationSets node.id).dropNode node.id
      return (true, catalog)

def pglogicalAlterNodeAddInterface (catalog : Catalog) (nodeName ifName : NameData) (ifDsn : CString) :
    Except String (Oid × Catalog) := do
  let node ← catalog.getNodeByName nodeName
  if (catalog.findNodeInterfaceByName node.id ifName).isSome then
    throw s!"node \"{nodeName.str.toString}\" already has interface named \"{ifName.str.toString}\""
  let (newif, catalog) ← catalog.createNodeInterface env.hashAny ⟨invalidOid, ifName, node.id, ifDsn⟩
  return (newif.id, catalog)

def pglogicalAlterNodeDropInterface (catalog : Catalog) (nodeName ifName : NameData) :
    Except String (Bool × Catalog) := do
  let node ← catalog.getNodeByName nodeName
  match catalog.findNodeInterfaceByName node.id ifName with
  | none => throw s!"interface \"{ifName.str.toString}\" for node node \"{nodeName.str.toString}\" not found"
  | some oldif => return (true, ← catalog.dropNodeInterface oldif.id)

/-! ## Subscriptions -/

/-- The arguments of `pglogical_create_subscription`, with the provider's answer about its node and
whether the trial connections work. -/
structure CreateSubscription where
  subName : NameData
  providerDsn : CString
  repSetNames : List CString
  syncStructure : Bool
  syncData : Bool
  forwardOriginNames : List CString
  applyDelay : Interval
  remoteNode : Except String PGLogicalNode
  connections : Except String Unit

/-- The origin's node and interface: the local representation of the provider, created if needed. -/
def originInterface (catalog : Catalog) (origin : PGLogicalNode) (providerDsn : CString) :
    Except String (PGlogicalInterface × Catalog) := do
  match catalog.findNodeByName origin.name with
  | none =>
      let (origin, catalog) ← catalog.createNode env.hashAny origin
      catalog.createNodeInterface env.hashAny ⟨invalidOid, origin.name, origin.id, providerDsn⟩
  | some _ =>
      let existingif ← catalog.getNodeInterfaceByName origin.id origin.name
      if existingif.dsn ≠ providerDsn then
        throw (s!"dsn \"{providerDsn.toString}\" points to existing node \"{origin.name.str.toString}\" " ++
          s!"with different dsn \"{existingif.dsn.toString}\"")
      return (existingif, catalog)

/-- The first subscription and set of it that overlap the new list. -/
def overlappingSet (otherSubs : List PGLogicalSubscription) (replicationSets : List CString) :
    Option (PGLogicalSubscription × CString) :=
  otherSubs.findSome? fun esub => (esub.replicationSets.find? fun existingset =>
    decide (existingset ∈ replicationSets)).map fun existingset => (esub, existingset)

def syncKind (syncStructure syncData : Bool) : SyncKind :=
  if syncStructure && syncData then .full
  else if syncStructure then .struct
  else if syncData then .data
  else .init

def pglogicalCreateSubscription (catalog : Catalog) (args : CreateSubscription) :
    Except String (Oid × Catalog) := do
  let localnode ← catalog.getLocalNode
  let origin ← args.remoteNode
  args.connections
  let (originif, catalog) ← originInterface env catalog origin args.providerDsn
  let otherSubs ← catalog.getNodeSubscriptions originif.nodeid true
  if let some (esub, newset) := overlappingSet otherSubs args.repSetNames then
    throw (s!"existing subscription \"{esub.name.str.toString}\" to node \"{origin.name.str.toString}\" " ++
      s!"already subscribes to replication set \"{newset.toString}\"")
  let slotName := genSlotName env.hashAny env.databaseName origin.name args.subName
  let (sub, catalog) ← catalog.createSubscription env.hashAny
    ⟨invalidOid, args.subName, originif.nodeid, localnode.node.id, originif.id, localnode.nodeIf.id, true,
      slotName, args.repSetNames, args.forwardOriginNames, args.applyDelay⟩
  let catalog ← catalog.createLocalSyncStatus
    ⟨syncKind args.syncStructure args.syncData, sub.subId, none, .init⟩
  return (sub.subId, catalog)

/-- Returns whether there was a subscription, and the one whose remote slot and local origin are
dropped. `finish` is what happens behind the catalog changes: the wait for the apply worker and
`replorigin_drop`, either of which may raise an error. -/
def pglogicalDropSubscription (catalog : Catalog) (subName : NameData) (ifexists : Bool)
    (finish : Except String Unit) : Except String ((Bool × Option PGLogicalSubscription) × Catalog) := do
  match ← catalog.findSubscriptionByName subName with
  | none =>
      if ifexists then return ((false, none), catalog) else throw s!"subscriber {subName.str.toString} not found"
  | some sub =>
      let node ← catalog.getLocalNode
      let catalog ← (catalog.dropSubscriptionSyncStatus sub.id).dropSubscription sub.id
      if sub.origin.id = node.node.id then return ((true, none), catalog)
      let otherSubs ← catalog.getNodeSubscriptions sub.origin.id true
      let catalog ← if otherSubs.length = 0 then (catalog.dropNodeInterfaces sub.origin.id).dropNode sub.origin.id
        else pure catalog
      finish
      return ((true, some sub), catalog)

/-- `pglogical_alter_subscription_disable` and `_enable`: `immediate` must not be used in a
transaction block. -/
def alterSubscriptionEnabled (enabled : Bool) (message : String) (catalog : Catalog) (subName : NameData)
    (immediate inTransactionBlock : Bool) : Except String (Bool × Catalog) := do
  let sub ← catalog.getSubscriptionByName subName
  let _ ← catalog.getLocalNode
  let catalog ← catalog.alterSubscription { sub with enabled := enabled }
  if immediate && inTransactionBlock then throw message
  return (true, catalog)

def pglogicalAlterSubscriptionDisable : Catalog → NameData → Bool → Bool → Except String (Bool × Catalog) :=
  alterSubscriptionEnabled false
    "alter_subscription_disable with immediate = true cannot be run inside a transaction block"

def pglogicalAlterSubscriptionEnable : Catalog → NameData → Bool → Bool → Except String (Bool × Catalog) :=
  alterSubscriptionEnabled true
    "alter_subscription_enable with immediate = true cannot be run inside a transaction block"

def pglogicalAlterSubscriptionInterface (catalog : Catalog) (subName ifName : NameData) :
    Except String (Bool × Catalog) := do
  let sub ← catalog.getSubscriptionByName subName
  let _ ← catalog.getLocalNode
  let newIf ← catalog.getNodeInterfaceByName sub.origin.id ifName
  if newIf.id = sub.originIf.id then return (false, catalog)
  return (true, ← catalog.alterSubscription { sub with originIf := newIf })

def pglogicalAlterSubscriptionAddReplicationSet (catalog : Catalog) (subName repsetName : NameData) :
    Except String (Bool × Catalog) := do
  let sub ← catalog.getSubscriptionByName subName
  if repsetName.str ∈ sub.replicationSets then return (false, catalog)
  return (true, ← catalog.alterSubscription { sub with replicationSets := sub.replicationSets ++ [repsetName.str] })

def pglogicalAlterSubscriptionRemoveReplicationSet (catalog : Catalog) (subName repsetName : NameData) :
    Except String (Bool × Catalog) := do
  let sub ← catalog.getSubscriptionByName subName
  if repsetName.str ∈ sub.replicationSets then
    return (true, ← catalog.alterSubscription { sub with replicationSets := sub.replicationSets.erase repsetName.str })
  return (false, catalog)

/-! ## Calls -/

inductive Call where
  | createNode (nodeName : NameData) (nodeDsn : CString)
  | dropNode (nodeName : NameData) (ifexists : Bool) (slots : List ReplicationSlot)
  | alterNodeAddInterface (nodeName ifName : NameData) (ifDsn : CString)
  | alterNodeDropInterface (nodeName ifName : NameData)
  | createSubscription (args : CreateSubscription)
  | dropSubscription (subName : NameData) (ifexists : Bool) (finish : Except String Unit)
  | alterSubscriptionDisable (subName : NameData) (immediate inTransactionBlock : Bool)
  | alterSubscriptionEnable (subName : NameData) (immediate inTransactionBlock : Bool)
  | alterSubscriptionInterface (subName ifName : NameData)
  | alterSubscriptionAddReplicationSet (subName repsetName : NameData)
  | alterSubscriptionRemoveReplicationSet (subName repsetName : NameData)

/-- The catalogs a call commits, or its error. -/
def call (catalog : Catalog) : Call → Except String Catalog
  | .createNode nodeName nodeDsn => Prod.snd <$> pglogicalCreateNode env catalog nodeName nodeDsn
  | .dropNode nodeName ifexists slots => Prod.snd <$> pglogicalDropNode env catalog nodeName ifexists slots
  | .alterNodeAddInterface nodeName ifName ifDsn =>
      Prod.snd <$> pglogicalAlterNodeAddInterface env catalog nodeName ifName ifDsn
  | .alterNodeDropInterface nodeName ifName => Prod.snd <$> pglogicalAlterNodeDropInterface catalog nodeName ifName
  | .createSubscription args => Prod.snd <$> pglogicalCreateSubscription env catalog args
  | .dropSubscription subName ifexists finish =>
      Prod.snd <$> pglogicalDropSubscription catalog subName ifexists finish
  | .alterSubscriptionDisable subName immediate inTransactionBlock =>
      Prod.snd <$> pglogicalAlterSubscriptionDisable catalog subName immediate inTransactionBlock
  | .alterSubscriptionEnable subName immediate inTransactionBlock =>
      Prod.snd <$> pglogicalAlterSubscriptionEnable catalog subName immediate inTransactionBlock
  | .alterSubscriptionInterface subName ifName =>
      Prod.snd <$> pglogicalAlterSubscriptionInterface catalog subName ifName
  | .alterSubscriptionAddReplicationSet subName repsetName =>
      Prod.snd <$> pglogicalAlterSubscriptionAddReplicationSet catalog subName repsetName
  | .alterSubscriptionRemoveReplicationSet subName repsetName =>
      Prod.snd <$> pglogicalAlterSubscriptionRemoveReplicationSet catalog subName repsetName

/-- A call that fails is rolled back. -/
def step (catalog : Catalog) (statement : Call) : Option Catalog :=
  match call env catalog statement with
  | .ok next => some next
  | .error _ => some catalog

end PGLogical.Nodes
