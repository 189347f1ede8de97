import PGLogical.Model.Relcache
import PGLogical.Model.Repset
import PGLogical.Wire.Identifier

/-! # The columns of the initial copy

Before a table is copied the subscriber asks the provider for its columns
(`pglogical_show_repset_table_info`), keeps the answer in its relation cache like a RELATION message
and opens the local table. The columns that are mapped, in local order, are what COPY TO lists. COPY
FROM lists none and takes all columns of the local table.
-/

namespace PGLogical.CopyColumns

open Wire

structure PGLogicalRemoteRel where
  relid : Oid
  nspname : CString
  relname : CString
  attnames : List CString
  hasRowFilter : Bool
deriving DecidableEq

/-! ## The provider's answer -/

/-- Whether a column gets past the column list. -/
def listed (attList : Option Bitmapset) (att : FormPgAttribute) : Bool :=
  match attList with
  | none => true
  | some members => decide (att.member ∈ members)

/-- The loop over the columns, of which only the column list leaves any out. -/
def repsetTableColumns (desc : TupleDesc) (attList : Option Bitmapset) : List CString :=
  (desc.attrs.filter (listed attList)).map (·.attname.str)

variable {Node : Type}

def pglogicalShowRepsetTableInfo (getattr : HeapGetattr Node) (catalog : List (RepSetTableTuple Node))
    (getNamespaceName : Oid → CString) (cache : RepSetTableHash Node) (rel : Relation)
    (replicationSets : List PGLogicalRepSet) : PGLogicalRemoteRel × RepSetTableHash Node :=
  let (tableinfo, cache) := getTableReplicationInfo getattr catalog cache rel replicationSets
  (⟨rel.relid, getNamespaceName rel.relnamespace, rel.relname.str,
    repsetTableColumns rel.desc tableinfo.attList, !tableinfo.rowFilter.isEmpty⟩, cache)

/-! ## The list of columns -/

/-- The remote column that is mapped to a local one. -/
def physattInAttmap (rel : PGLogicalRelation) (attid : ℕ) : Option ℕ :=
  rel.attmap.findIdx? fun position => decide (position = attid)

def makeCopyAttnamelist (rel : PGLogicalRelation) (desc : TupleDesc) : List CString :=
  desc.attrs.zipIdx.filterMap fun (att, attnum) =>
    if att.attisdropped then none else (physattInAttmap rel attnum).bind fun remoteattnum => rel.attnames[remoteattnum]?

/-! ## The two commands -/

def escapedName (remoterel : PGLogicalRemoteRel) : Bytes :=
  pqEscapeIdentifier remoterel.nspname.val ++ ascii "." ++ pqEscapeIdentifier remoterel.relname.val

/-- Without columns to list the command is left to take all of them. -/
def copyToQuery (remoterel : PGLogicalRemoteRel) (replicationSets : List CString) (attlist : Option Bytes) : Bytes :=
  ascii "COPY " ++
    (if remoterel.hasRowFilter then
      ascii "(SELECT " ++ attlist.getD (ascii "*") ++ ascii " FROM pglogical.table_data_filtered(NULL::" ++
        escapedName remoterel ++ ascii ", " ++ pqEscapeLiteral (escapedName remoterel) ++ ascii "::regclass, ARRAY[" ++
        [comma].intercalate (replicationSets.map fun name => pqEscapeLiteral name.val) ++ ascii "])) "
    else
      escapedName remoterel ++ ascii " " ++ (match attlist with
        | none => []
        | some attlist => ascii "(" ++ attlist ++ ascii ") ")) ++
    ascii "TO stdout"

def copyFromQuery (remoterel : PGLogicalRemoteRel) : Bytes :=
  ascii "COPY " ++ escapedName remoterel ++ ascii " FROM stdin"

/-- The columns to copy, and what is sent to the two servers. -/
structure CopyQueries where
  attnamelist : List CString
  copyTo : Bytes
  copyFrom : Bytes
deriving DecidableEq

/-- The part of `copy_table_data` in front of the copying. The names are joined as they are. -/
def copyTableQueries (catalog : LocalCatalog) (hash : PGLogicalRelationHash) (remoterel : PGLogicalRemoteRel)
    (replicationSets : List CString) : Except String CopyQueries := do
  let hash := pglogicalRelationCacheUpdate hash remoterel.relid remoterel.nspname remoterel.relname remoterel.attnames
  let (rel, here, _) ← pglogicalRelationOpen catalog hash remoterel.relid
  let attnamelist := makeCopyAttnamelist rel here.desc
  let attlist := [comma].intercalate (attnamelist.map Subtype.val)
  return ⟨attnamelist,
    copyToQuery remoterel replicationSets (if attnamelist.isEmpty then none else some attlist),
    copyFromQuery remoterel⟩

end PGLogical.CopyColumns
