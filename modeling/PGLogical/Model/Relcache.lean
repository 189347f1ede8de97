import PGLogical.Model.Relation
import PGLogical.Wire.StringHash

/-! # The subscriber's relation cache

RELATION messages are kept by remote identifier, which the hash table takes for a string. The mapping to a local
table is computed when the relation is next opened: every remote column name is looked up in the local descriptor.
-/

namespace PGLogical

open Wire (CString StringHash)

/-- What `pglogical_relation_open` looks at in a trigger. -/
structure Trigger where
  tgenabled : Char
  forRow : Bool
deriving DecidableEq

/-- A table of the subscriber. -/
structure LocalRelation where
  reloid : Oid
  desc : TupleDesc
  triggers : List Trigger

/-- How tables of the subscriber are opened. -/
structure LocalCatalog where
  heapOpenrv : CString → CString → Except String LocalRelation
  heapOpen : Oid → Except String LocalRelation

structure PGLogicalRelation where
  /-- The key, as the hash table has copied it. -/
  remoteid : CString
  nspname : CString
  relname : CString
  natts : ℕ
  attnames : List CString
  /-- Invalid until the mapping below has been computed. -/
  reloid : Oid
  attmap : List ℕ
  hasTriggers : Bool

abbrev PGLogicalRelationHash := StringHash PGLogicalRelation

/-- Find attribute index in TupleDesc struct by attribute name. Dropped attributes count too. -/
def tupdescGetAttByName (desc : TupleDesc) (attname : CString) : Except String ℕ :=
  match desc.attrs.findIdx? fun att => decide (att.attname.str = attname) with
  | some i => .ok i
  | none => .error s!"unknown column name {attname.toString}"

def Trigger.firesOnReplica (trigger : Trigger) : Bool :=
  !(trigger.tgenabled == 'O' || trigger.tgenabled == 'D') && trigger.forRow

/-- Returns the entry as it is after the call, the opened table and the updated cache. -/
def pglogicalRelationOpen (catalog : LocalCatalog) (hash : PGLogicalRelationHash) (remoteid : Oid) :
    Except String (PGLogicalRelation × LocalRelation × PGLogicalRelationHash) :=
  match hash remoteid with
  | none => .error s!"cache lookup failed for remote relation {remoteid}"
  | some entry =>
      if entry.reloid = invalidOid then do
        let rel ← catalog.heapOpenrv entry.nspname entry.relname
        let attmap ← entry.attnames.mapM (tupdescGetAttByName rel.desc)
        let entry := { entry with
          attmap := attmap, reloid := rel.reloid, hasTriggers := rel.triggers.any Trigger.firesOnReplica }
        pure (entry, rel, hash.enter remoteid entry)
      else do
        let rel ← catalog.heapOpen entry.reloid
        pure (entry, rel, hash)

/-- A RELATION message replaces the entry under the key and forgets the mapping. -/
def pglogicalRelationCacheUpdate (hash : PGLogicalRelationHash) (remoteid : Oid) (schemaname relname : CString)
    (attnames : List CString) : PGLogicalRelationHash :=
  hash.enter remoteid ⟨hash.key remoteid, schemaname, relname, attnames.length, attnames, invalidOid, [], false⟩

end PGLogical
