import PGLogical.Model.Relation
import PGLogical.Wire.StringHash

/-! # Replication sets and the decision about a table

A table is in a replication set by a row of the membership catalog, with an optional column list
and row filter. `get_table_replication_info` merges the rows of a table that belong to the
subscribed sets into one entry, which a hash table with string keys keeps by relation. Row filters
are node trees; their type is a parameter.

The two nullable attributes of a membership row are fetched with `heap_getattr`, to which the code
passes the descriptor of the replicated table. That function is PostgreSQL's and is a parameter
here, together with the descriptor.
-/

namespace PGLogical

open Wire (CString StringHash)

/-- The three actions a row filter tells apart; any other change type is an error. -/
inductive ReorderBufferChangeType where
  | insert
  | update
  | delete
  | other (code : ℕ)
deriving DecidableEq

structure PGLogicalRepSet where
  id : Oid
  nodeid : Oid
  name : CString
  replicateInsert : Bool
  replicateUpdate : Bool
  replicateDelete : Bool
  replicateTruncate : Bool
deriving DecidableEq

variable {Node : Type}

/-- A row of the membership catalog. `replication_set_add_table` stores an empty list as NULL. -/
structure RepSetTableTuple (Node : Type) where
  setid : Oid
  reloid : Oid
  attList : Option (List CString)
  rowFilter : Option Node
  nonempty : attList ≠ some []

structure PGLogicalTableRepInfo (Node : Type) where
  reloid : Oid
  isvalid : Bool
  replicateInsert : Bool
  replicateUpdate : Bool
  replicateDelete : Bool
  attList : Option Bitmapset
  rowFilter : List Node

/-- The keys are identifiers, and the table is created without HASH_BLOBS. -/
abbrev RepSetTableHash (Node : Type) := StringHash (PGLogicalTableRepInfo Node)

/-- `heap_getattr` on a membership row, for its two nullable attributes, through a descriptor. -/
structure HeapGetattr (Node : Type) where
  attList : TupleDesc → RepSetTableTuple Node → Option (List CString)
  rowFilter : TupleDesc → RepSetTableTuple Node → Option Node

/-- The attribute number of a live column, or one below all attribute numbers. -/
def getAttNumByName (desc : TupleDesc) (attname : CString) : ℤ :=
  match desc.attrs.find? fun att => !att.attisdropped && decide (att.attname.str = attname) with
  | some att => att.attnum
  | none => firstLowInvalidHeapAttributeNumber

/-- `bms_add_member` for one listed name; the set is allocated by the first call. -/
def addAttribute (desc : TupleDesc) (attList : Option Bitmapset) (attname : CString) : Option Bitmapset :=
  some (insert (getAttNumByName desc attname - firstLowInvalidHeapAttributeNumber) (attList.getD ∅))

namespace PGLogicalTableRepInfo

/-- An entry before any membership has been looked at. -/
def empty (reloid : Oid) : PGLogicalTableRepInfo Node :=
  ⟨reloid, false, false, false, false, none, []⟩

/-- The body of the inner loop, for a membership in a subscribed set. -/
def merge (getattr : HeapGetattr Node) (desc : TupleDesc) (entry : PGLogicalTableRepInfo Node)
    (t : RepSetTableTuple Node) (repset : PGLogicalRepSet) : PGLogicalTableRepInfo Node :=
  { entry with
    replicateInsert := repset.replicateInsert || entry.replicateInsert
    replicateUpdate := repset.replicateUpdate || entry.replicateUpdate
    replicateDelete := repset.replicateDelete || entry.replicateDelete
    attList := match getattr.attList desc t with
      | none => entry.attList
      | some names => names.foldl (addAttribute desc) entry.attList
    rowFilter := match getattr.rowFilter desc t with
      | none => entry.rowFilter
      | some filter => entry.rowFilter ++ [filter] }

/-- The loop over the subscribed sets for one row of the catalog. -/
def mergeSets (getattr : HeapGetattr Node) (desc : TupleDesc) (subs : List PGLogicalRepSet)
    (entry : PGLogicalTableRepInfo Node) (t : RepSetTableTuple Node) : PGLogicalTableRepInfo Node :=
  subs.foldl (fun entry repset => if t.setid = repset.id then entry.merge getattr desc t repset else entry) entry

end PGLogicalTableRepInfo

/-- The part of `get_table_replication_info` behind the cache lookup: a scan of the catalog for the
table, whichever node the sets belong to. -/
def fillTableRepInfo (getattr : HeapGetattr Node) (catalog : List (RepSetTableTuple Node)) (table : Relation)
    (subs : List PGLogicalRepSet) : PGLogicalTableRepInfo Node :=
  { (catalog.filter fun t => decide (t.reloid = table.relid)).foldl
      (PGLogicalTableRepInfo.mergeSets getattr table.desc subs) (.empty table.relid) with isvalid := true }

/-- Returns the entry and the cache it is kept in. A valid entry is returned as it is, whatever
sets the caller asks about, and whichever table it was filled for. -/
def getTableReplicationInfo (getattr : HeapGetattr Node) (catalog : List (RepSetTableTuple Node))
    (cache : RepSetTableHash Node) (table : Relation) (subs : List PGLogicalRepSet) :
    PGLogicalTableRepInfo Node × RepSetTableHash Node :=
  match cache table.relid with
  | some entry =>
      if entry.isvalid then (entry, cache)
      else
        let entry := fillTableRepInfo getattr catalog table subs
        (entry, cache.enter table.relid entry)
  | none =>
      let entry := fillTableRepInfo getattr catalog table subs
      (entry, cache.enter table.relid entry)

/-- An invalidated entry keeps its action flags but is never returned again. -/
def PGLogicalTableRepInfo.invalidate (entry : PGLogicalTableRepInfo Node) : PGLogicalTableRepInfo Node :=
  { entry with isvalid := false, attList := none, rowFilter := [] }

def repsetRelcacheInvalidateCallback (cache : RepSetTableHash Node) (reloid : Oid) : RepSetTableHash Node :=
  if reloid = invalidOid then cache.map PGLogicalTableRepInfo.invalidate
  else match cache reloid with
    | none => cache
    | some entry => cache.enter reloid entry.invalidate

end PGLogical
