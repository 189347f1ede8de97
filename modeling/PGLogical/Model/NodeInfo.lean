import PGLogical.Model.ReplicationCommand
import PGLogical.Model.RepsetFunctions
import PGLogical.Wire.HeapTuple

/-! # Information about a node

`pglogical_node_info` describes the local node to its subscribers, and `pglogical_remote_node_info` reads
the description. The names of the replication sets are joined by `stringlist_to_identifierstr`, which takes
an untyped list and reads what is behind each pointer as a string. The list holds `PGLogicalRepSet`s, so
their bytes in memory are part of the model: those of a 64-bit little-endian machine.
-/

namespace PGLogical.Repsets

open Wire (Bytes CString Lexicon decimal digitsValue isDigit)
open Nodes (Environment wordBytes)

/-! ## Replication sets in memory -/

/-- An address that a process can use. -/
structure Pointer where
  address : ℕ
  user : address < 2 ^ 47

def Pointer.bytes (pointer : Pointer) : Bytes := Wire.littleEndian 8 pointer.address

def boolByte (flag : Bool) : UInt8 := if flag then 1 else 0

/-- The struct, with the pointer to the name and the four flags. -/
def repSetBytes (name : Pointer) (repset : PGLogicalRepSet) : Bytes :=
  wordBytes repset.id ++ wordBytes repset.nodeid ++ name.bytes ++
    [boolByte repset.replicateInsert, boolByte repset.replicateUpdate, boolByte repset.replicateDelete,
      boolByte repset.replicateTruncate]

/-- `(char *) lfirst(lc)` for a cell that points to a replication set. -/
def repSetAsString (name : Pointer) (repset : PGLogicalRepSet) : CString := CString.ofBytes (repSetBytes name repset)

/-! ## The provider -/

variable {Node : Type}

/-- The rows are read as `RepSetTableTuple`s, whose first column is the id of a set as well. -/
def Catalog.getNodeReplicationSets (catalog : Catalog Node) (nodeid : Oid) : Except String (List PGLogicalRepSet) :=
  (catalog.nodes.replicationSet.filter fun repset => decide (repset.nodeid = nodeid)).mapM
    fun t => catalog.getReplicationSet t.id

/-- A row of `pglogical_node_info`. -/
structure NodeInfo where
  nodeId : Oid
  nodeName : CString
  sysid : Bytes
  dbname : CString
  replicationSets : Bytes

/-- What the function sees: how the server quotes, who it is, and where the names of the sets are. -/
structure InfoServer where
  lexicon : Lexicon
  env : Environment
  getSystemIdentifier : UInt64
  /-- Where the name of each set in the list was put. -/
  nameOf : ℕ → Pointer

variable (server : InfoServer)

def repSetsAsStrings (repsets : List PGLogicalRepSet) : List CString :=
  repsets.mapIdx fun position repset => repSetAsString (server.nameOf position) repset

def pglogicalNodeInfo (catalog : Catalog Node) : Except String NodeInfo := do
  let node ← catalog.nodes.getLocalNode
  let repsets ← catalog.getNodeReplicationSets node.node.id
  return { nodeId := node.node.id, nodeName := node.node.name.str,
           sysid := decimal server.getSystemIdentifier.toNat,
           dbname := server.env.databaseName.str,
           replicationSets := ReplicationCommand.stringlistToIdentifierstr server.lexicon
             ((repSetsAsStrings server repsets).map Subtype.val) }

/-! ## The subscriber -/

/-- A row of the result of the query, as text. -/
structure NodeInfoTexts where
  nodeId : Bytes
  nodeName : Bytes
  sysid : Bytes
  dbname : Bytes
  replicationSets : Bytes

def NodeInfo.texts (info : NodeInfo) : NodeInfoTexts :=
  ⟨decimal info.nodeId.toNat, info.nodeName.val, info.sysid, info.dbname.val, info.replicationSets⟩

/-- What `pglogical_remote_node_info` returns through its pointers. -/
structure RemoteNodeInfo where
  nodeid : Oid
  nodeName : Bytes
  sysid : Bytes
  dbname : Bytes
  replicationSets : Bytes

/-- `atooid`, on what is printed for an oid. -/
def atooid (text : Bytes) : Oid := UInt32.ofNat (digitsValue (text.takeWhile isDigit))

def pglogicalRemoteNodeInfo : Except String (List NodeInfoTexts) → Except String RemoteNodeInfo
  | .error message => .error s!"could fetch remote node info: {message}\n"
  | .ok [] => .error "the remote database is not configured as a pglogical node.\n"
  | .ok [row] => .ok ⟨atooid row.nodeId, row.nodeName, row.sysid, row.dbname, row.replicationSets⟩
  | .ok (_ :: _ :: _) => .error (("the remote database has multiple nodes configured. " ++
      "That is not supported with current version of pglogical.\n"))

end PGLogical.Repsets
