import PGLogical.Model.Relcache

/-! # The relation cache and the invalidations of the server

A committed DDL command leaves an invalidation for every other backend. A backend processes what is pending
when it starts a transaction and whenever it gets a lock that it did not hold, and keeps its locks until
the end of the transaction; DDL on a table waits for them. The apply worker is told of an
invalidation by its callback, which forgets the local table of the entries concerned. An entry is
looked at before the table is opened, so an invalidation may come in between. DDL commands
that are replicated run in the worker itself, which sees their invalidations as soon as the command ends.
-/

namespace PGLogical.RelcacheInval

open Wire (CString)

/-- A table of the subscriber, without its identifier. -/
structure LocalTable where
  desc : TupleDesc
  triggers : List Trigger

inductive Invalidation where
  /-- Left by DDL on the table. -/
  | altered (reloid : Oid)
  /-- Left by anything else, such as ANALYZE. An overflow of the queue stands for all tables. -/
  | refreshed (reloid : Oid)
deriving DecidableEq

def Invalidation.reloid : Invalidation → Oid
  | .altered reloid => reloid
  | .refreshed reloid => reloid

structure State where
  tables : Oid → Option LocalTable
  relnameGetRelid : CString → CString → Option Oid
  hash : PGLogicalRelationHash
  /-- Invalidations that the worker has not processed. -/
  pending : List Invalidation
  /-- Tables that the transaction of the worker has locked. -/
  locks : List Oid
  inTransaction : Bool
  /-- The columns of the most recent RELATION message for an id. -/
  announced : Oid → Option (List CString)
  /-- The id of the most recent RELATION message for a key. -/
  announcer : CString → Option Oid

/-- The invalid identifier stands for all tables. -/
def pglogicalRelcacheInvalidateCallback (hash : PGLogicalRelationHash) (reloid : Oid) : PGLogicalRelationHash :=
  hash.map fun entry =>
    if reloid ≠ invalidOid then
      if entry.reloid = reloid then { entry with reloid := invalidOid } else entry
    else { entry with reloid := invalidOid }

def acceptInvalidationMessages (s : State) : State :=
  { s with
    hash := s.pending.foldl (fun hash message => pglogicalRelcacheInvalidateCallback hash message.reloid) s.hash
    pending := [] }

/-- Now that we have the lock, check for invalidation messages. -/
def lockRelationOid (s : State) (relid : Oid) : State :=
  if relid ∈ s.locks then s
  else { acceptInvalidationMessages s with locks := relid :: s.locks }

def heapOpen (s : State) (relid : Oid) : Except String (LocalRelation × State) :=
  match s.tables relid with
  | none => .error s!"could not open relation with OID {relid}"
  | some table => .ok (⟨relid, table.desc, table.triggers⟩, lockRelationOid s relid)

/-- The name is looked up again until it is still the name of the table that has been locked. -/
def heapOpenrv (s : State) (schemaname relname : CString) : Except String (LocalRelation × State) :=
  match s.relnameGetRelid schemaname relname with
  | none => .error s!"relation \"{schemaname.toString}.{relname.toString}\" does not exist"
  | some relid => heapOpen s relid

/-- Returns the opened table; the entry is the one in the cache afterwards. -/
def pglogicalRelationOpen (s : State) (remoteid : Oid) : Except String (LocalRelation × State) :=
  match s.hash remoteid with
  | none => .error s!"cache lookup failed for remote relation {remoteid}"
  | some entry =>
      if entry.reloid = invalidOid then do
        let (rel, s) ← heapOpenrv s entry.nspname entry.relname
        let attmap ← entry.attnames.mapM (tupdescGetAttByName rel.desc)
        let entry := { entry with
          attmap := attmap, reloid := rel.reloid, hasTriggers := rel.triggers.any Trigger.firesOnReplica }
        pure (rel, { s with hash := s.hash.enter remoteid entry })
      else heapOpen s entry.reloid

inductive Event where
  | relation (remoteid : Oid) (schemaname relname : CString) (attnames : List CString)
  /-- An INSERT, UPDATE or DELETE message, up to its tuples. -/
  | row (remoteid : Oid)
  | startTransaction
  /-- The worker locks a table for another reason, or a catalog. -/
  | lock (relid : Oid)
  /-- DDL from the queue. -/
  | queuedDdl (relid : Oid) (table : Option LocalTable) (names : CString → CString → Option Oid)
  | commit
  /-- DDL of another session: the table is created, altered or dropped, and names may change. -/
  | ddl (relid : Oid) (table : Option LocalTable) (names : CString → CString → Option Oid)
  | refresh (relid : Oid)

/-- Errors end the worker, and with it the run. -/
def step (s : State) : Event → Option State
  | .relation remoteid schemaname relname attnames => some { s with
      hash := pglogicalRelationCacheUpdate s.hash remoteid schemaname relname attnames
      announced := Function.update s.announced remoteid (some attnames)
      announcer := Function.update s.announcer (s.hash.key remoteid) (some remoteid) }
  | .row remoteid =>
      if s.inTransaction then
        match pglogicalRelationOpen s remoteid with
        | .ok (_, s) => some s
        | .error _ => none
      else none
  | .startTransaction =>
      if s.inTransaction then none
      else some { acceptInvalidationMessages s with inTransaction := true }
  | .lock relid => if s.inTransaction then some (lockRelationOid s relid) else none
  | .queuedDdl relid table names =>
      if s.inTransaction then
        let s := lockRelationOid s relid
        some { s with
          tables := Function.update s.tables relid table
          relnameGetRelid := names
          hash := pglogicalRelcacheInvalidateCallback s.hash relid }
      else none
  | .commit => if s.inTransaction then some { s with locks := [], inTransaction := false } else none
  | .ddl relid table names =>
      if relid ∈ s.locks then none
      else some { s with
        tables := Function.update s.tables relid table
        relnameGetRelid := names
        pending := s.pending ++ [.altered relid] }
  | .refresh relid => some { s with pending := s.pending ++ [.refreshed relid] }

/-- A new worker, with an empty cache. -/
def init (bigendian : Bool) (tables : Oid → Option LocalTable) (names : CString → CString → Option Oid) : State where
  tables := tables
  relnameGetRelid := names
  hash := .create bigendian
  pending := []
  locks := []
  inTransaction := false
  announced _ := none
  announcer _ := none

end PGLogical.RelcacheInval
