import PGLogical.Model.Hooks
import PGLogical.Machine.Run

/-! # A backend that decodes and answers catalog queries

The cache of `get_table_replication_info` lives as long as its backend. Around it catalogs change,
invalidations arrive, decoding sessions start and end, and SQL functions look tables up with sets
of their own. A catalog operation delivers the invalidations it registers, and no others, together
with its effect: decoding replays the invalidations of a transaction before it uses the catalogs
that transaction left, and other callers accept pending invalidations when they lock a relation.
-/

namespace PGLogical.Backend

open Wire (CString)

variable {Row Node : Type}

structure State (Node : Type) where
  /-- `pglogical.replication_set`. -/
  sets : List PGLogicalRepSet
  /-- `pglogical.replication_set_table`. -/
  repsetTable : List (RepSetTableTuple Node)
  tables : List Relation
  cache : RepSetTableHash Node
  session : Option PGLogicalHooksPrivate

inductive Event (Row Node : Type) where
  | createReplicationSet (set : PGLogicalRepSet)
  | alterReplicationSet (set : PGLogicalRepSet)
  | dropReplicationSet (setid : Oid)
  | replicationSetAddTable (t : RepSetTableTuple Node)
  | replicationSetRemoveTable (setid reloid : Oid)
  /-- A table is created, or its definition changes; PostgreSQL invalidates it. -/
  | alterTable (rel : Relation)
  /-- The rows of the table leave the catalog with it, in the drop trigger. -/
  | dropTable (reloid : Oid)
  | invalidate (reloid : Oid)
  | startup (nodeid : Oid) (names : List CString) (onlyTable : Option (CString × CString))
  | decodeChange (reloid : Oid) (change : ReorderBufferChange Row)
  | shutdown
  /-- `show_repset_table_info` or `table_data_filtered`. -/
  | showRepsetTableInfo (nodeid reloid : Oid) (names : List CString)

/-- The sets of a node by name; one missing name is an error. -/
def getReplicationSets (sets : List PGLogicalRepSet) (nodeid : Oid) (names : List CString) :
    Option (List PGLogicalRepSet) :=
  names.mapM fun name => sets.find? fun s => decide (s.nodeid = nodeid ∧ s.name = name)

/-- The table with an identifier, as it is now. -/
def State.table (s : State Node) (reloid : Oid) : Option Relation :=
  s.tables.find? fun rel => decide (rel.relid = reloid)

/-- What the hook reads, with the membership catalog as it is now. -/
def State.env (base : HookEnv Row Node) (s : State Node) : HookEnv Row Node :=
  { base with repsetTable := s.repsetTable }

def State.invalidate (s : State Node) (reloid : Oid) : State Node :=
  { s with cache := repsetRelcacheInvalidateCallback s.cache reloid }

/-- Flags of an altered set replace the old ones in the catalog. Nothing is invalidated. -/
def alterReplicationSet (set : PGLogicalRepSet) (sets : List PGLogicalRepSet) : List PGLogicalRepSet :=
  sets.map fun s => if s.id = set.id then { set with nodeid := s.nodeid, name := s.name } else s

/-- `replication_set_remove_tables`: every removed row invalidates its table. -/
def replicationSetRemoveTables (s : State Node) (setid : Oid) : State Node :=
  let removed := s.repsetTable.filter fun t => decide (t.setid = setid)
  { s with
    repsetTable := s.repsetTable.filter fun t => decide (t.setid ≠ setid)
    cache := removed.foldl (fun cache t => repsetRelcacheInvalidateCallback cache t.reloid) s.cache }

/-- The lookup an event makes: the table and the sets it asks about. -/
def lookup? (base : HookEnv Row Node) (s : State Node) : Event Row Node → Option (Relation × List PGLogicalRepSet)
  | .decodeChange reloid _ =>
      match s.session, s.table reloid with
      | some hooks, some rel =>
          if hooks.replicateOnlyTable = none ∧ rel.relid ≠ base.queueTableOid ∧
              rel.relid ≠ base.replicationSetTableOid then some (rel, hooks.replicationSets)
          else none
      | _, _ => none
  | .showRepsetTableInfo nodeid reloid names =>
      match s.table reloid, getReplicationSets s.sets nodeid names with
      | some rel, some sets => some (rel, sets)
      | _, _ => none
  | _ => none

/-- The cache after a lookup that failed later on: what it filled stays. -/
def State.lookedUp (base : HookEnv Row Node) (s : State Node) :
    Option (Relation × List PGLogicalRepSet) → RepSetTableHash Node
  | none => s.cache
  | some (rel, subs) => (getTableReplicationInfo base.getattr s.repsetTable s.cache rel subs).2

/-- An operation that raises an error leaves everything as it was and is refused; an error of the
hook ends the session only. -/
def step (base : HookEnv Row Node) (s : State Node) : Event Row Node → Option (State Node)
  | .createReplicationSet set =>
      if set.name.val = [] ∨ s.sets.any (fun other => decide (other.nodeid = set.nodeid ∧ other.name = set.name)) then
        none
      else some { s with sets := s.sets ++ [set] }
  | .alterReplicationSet set =>
      if s.sets.any fun other => decide (other.id = set.id) then
        some { s with sets := alterReplicationSet set s.sets }
      else none
  | .dropReplicationSet setid =>
      if s.sets.any fun other => decide (other.id = setid) then
        let s := replicationSetRemoveTables s setid
        some ({ s with sets := s.sets.filter fun other => decide (other.id ≠ setid) }.invalidate
          base.replicationSetTableOid)
      else none
  | .replicationSetAddTable t =>
      if (s.sets.any fun set => decide (set.id = t.setid)) ∧ (s.table t.reloid).isSome ∧
          ¬ s.repsetTable.any (fun other => decide (other.setid = t.setid ∧ other.reloid = t.reloid)) then
        some ({ s with repsetTable := s.repsetTable ++ [t] }.invalidate t.reloid)
      else none
  | .replicationSetRemoveTable setid reloid =>
      if s.repsetTable.any fun t => decide (t.setid = setid ∧ t.reloid = reloid) then
        some ({ s with
          repsetTable := s.repsetTable.filter fun t => decide (¬ (t.setid = setid ∧ t.reloid = reloid)) }.invalidate
          reloid)
      else none
  | .alterTable rel =>
      some ({ s with tables := rel :: s.tables.filter fun other => decide (other.relid ≠ rel.relid) }.invalidate
        rel.relid)
  | .dropTable reloid =>
      some ({ s with
        tables := s.tables.filter fun rel => decide (rel.relid ≠ reloid)
        repsetTable := s.repsetTable.filter fun t => decide (t.reloid ≠ reloid) }.invalidate reloid)
  | .invalidate reloid => some (s.invalidate reloid)
  | .startup nodeid names onlyTable =>
      match s.session, getReplicationSets s.sets nodeid names with
      | none, some sets => some { s with session := some ⟨nodeid, sets, onlyTable⟩ }
      | _, _ => none
  | .decodeChange reloid change =>
      match s.session, s.table reloid with
      | some hooks, some rel =>
          match pglogicalRowFilterHook (s.env base) hooks s.cache rel change with
          | .ok result => some { s with session := some result.hooksPrivate, cache := result.cache }
          | .error _ => some { s with
              session := none, cache := s.lookedUp base (lookup? base s (.decodeChange reloid change)) }
      | _, _ => none
  | .shutdown => some { s with session := none }
  | .showRepsetTableInfo nodeid reloid names =>
      match s.table reloid, getReplicationSets s.sets nodeid names with
      | some rel, some sets =>
          some { s with cache := (getTableReplicationInfo base.getattr s.repsetTable s.cache rel sets).2 }
      | _, _ => none

/-- A backend that has just started. -/
def init (bigendian : Bool) (sets : List PGLogicalRepSet) (repsetTable : List (RepSetTableTuple Node))
    (tables : List Relation) : State Node :=
  ⟨sets, repsetTable, tables, .create bigendian, none⟩

end PGLogical.Backend
