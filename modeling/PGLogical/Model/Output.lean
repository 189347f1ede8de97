import PGLogical.Model.Hooks
import PGLogical.Model.ProtoNative
import PGLogical.Machine.Run

/-! # The output plugin and its relation metadata cache

`pg_decode_change` describes a relation to the client before its first row and remembers that it
did. What it remembers lives in a hash table of the backend, not of the session: a relcache
invalidation marks an entry, a COMMIT prunes the marked entries, a clean shutdown removes all of
them, and an error removes none. Around the callbacks the catalogs change as decoding sees them,
and so does the column list that the row filter hook returns for a table.
-/

namespace PGLogical.Output

open Wire Native

/-! ## The relation metadata cache -/

structure PGLRelMetaCacheEntry where
  /-- Does the client have this relation cached? -/
  isCached : Bool
  /-- Entry is valid and not due to be purged. -/
  isValid : Bool
deriving DecidableEq

/-- The hash table by `relid`; before the first session it does not exist, which reads the same. -/
abbrev RelMetaCache := Oid → Option PGLRelMetaCacheEntry

/-- An existing table is kept as it is. -/
def pglogicalInitRelmetacache (cache : RelMetaCache) : RelMetaCache := cache

/-- `InvalidOid` is looked up like any other identifier. -/
def relmetaCacheCallback (cache : RelMetaCache) (relid : Oid) : RelMetaCache :=
  match cache relid with
  | none => cache
  | some hentry => Function.update cache relid (some { hentry with isValid := false })

/-- Look up an entry, creating it if not found; the answer is whether the client knows the relation. -/
def pglogicalCacheRelmeta (cache : RelMetaCache) (rel : Relation) : Bool × RelMetaCache :=
  match cache rel.relid with
  | none => (false, Function.update cache rel.relid (some ⟨false, true⟩))
  | some hentry => (hentry.isCached, cache)

def pglogicalDestroyRelmetacache (_cache : RelMetaCache) : RelMetaCache := fun _ => none

def pglogicalPruneRelmetacache (cache : RelMetaCache) : RelMetaCache :=
  fun relid => (cache relid).filter (·.isValid)

/-- The last lines of `pglogical_write_rel`. -/
def setCached (cache : RelMetaCache) (relid : Oid) : RelMetaCache :=
  Function.update cache relid ((cache relid).map fun hentry => { hentry with isCached := true })

/-! ## Messages -/

inductive PGLogicalProtoType where
  | native
  | json
deriving DecidableEq

/-- A message handed to `OutputPluginWrite`, by what it was written from. A JSON row names its own
columns. -/
inductive Message where
  | begin (txn : ReorderBufferTXN)
  | commit (txn : ReorderBufferTXN) (commitLsn : UInt64)
  | relation (rel : Relation) (attList : Option Bitmapset)
  | insert (rel : Relation) (newtuple : HeapTuple rel.desc) (attList : Option Bitmapset)
  | update (rel : Relation) (oldtuple : Option (HeapTuple rel.desc)) (newtuple : HeapTuple rel.desc)
      (attList : Option Bitmapset)
  | delete (rel : Relation) (oldtuple : HeapTuple rel.desc) (attList : Option Bitmapset)
  | json (rel : Relation) (change : ReorderBufferChange (HeapTuple rel.desc)) (attList : Option Bitmapset)

/-- The native writers. The text of a JSON message is not modelled; its writer failing is the event
`error`. -/
def Message.write (catalog : Catalog) (data : PGLogicalOutputData) : Message → Writer Unit
  | .begin txn => pglogicalWriteBegin txn
  | .commit txn commitLsn => pglogicalWriteCommit txn commitLsn
  | .relation rel attList => pglogicalWriteRel catalog rel attList
  | .insert rel newtuple attList => pglogicalWriteInsert catalog data rel newtuple attList
  | .update rel oldtuple newtuple attList => pglogicalWriteUpdate catalog data rel oldtuple newtuple attList
  | .delete rel oldtuple attList => pglogicalWriteDelete catalog data rel oldtuple attList
  | .json .. => pure ()

/-- The writer returns, from an empty buffer. -/
def Message.writes (catalog : Catalog) (data : PGLogicalOutputData) (message : Message) : Bool :=
  (message.write catalog data []).isOk

/-- The switch over the action. A DELETE without a key is not sent, and an INSERT or UPDATE always
comes with its new tuple. -/
def rowMessage? (rel : Relation) (change : ReorderBufferChange (HeapTuple rel.desc))
    (attList : Option Bitmapset) : Option Message :=
  match change.action with
  | .insert => change.newtuple.map fun newtuple => .insert rel newtuple attList
  | .update => change.newtuple.map fun newtuple => .update rel change.oldtuple newtuple attList
  | .delete => change.oldtuple.map fun oldtuple => .delete rel oldtuple attList
  | .other _ => none

/-! ## Decoding sessions -/

structure Session where
  proto : PGLogicalProtoType
  data : PGLogicalOutputData
  /-- The column list the row filter hook returns for a forwarded change of a table. -/
  attLists : Oid → Option Bitmapset
  out : List Message

def Session.emit (session : Session) (messages : List Message) : Session :=
  { session with out := session.out ++ messages }

structure State where
  /-- The tables as the historic snapshot shows them. -/
  tables : Oid → Option Relation
  cache : RelMetaCache
  session : Option Session
  /-- What the earlier sessions sent. -/
  ended : List (List Message)

/-- What a callback leaves behind, and whether it returned. -/
structure Decoded where
  cache : RelMetaCache
  sent : List Message
  returned : Bool

/-- Send one message, after what was already sent. -/
def Decoded.send (catalog : Catalog) (data : PGLogicalOutputData) (cache : RelMetaCache)
    (sent : List Message) (message : Message) : Decoded :=
  if message.writes catalog data then ⟨cache, sent ++ [message], true⟩ else ⟨cache, sent, false⟩

/-- The row of a change, after what was already sent. -/
def sendRow (catalog : Catalog) (session : Session) (rel : Relation)
    (change : ReorderBufferChange (HeapTuple rel.desc)) (cache : RelMetaCache) (sent : List Message) : Decoded :=
  match rowMessage? rel change (session.attLists rel.relid) with
  | none => ⟨cache, sent, true⟩
  | some row =>
      match session.proto with
      | .native => Decoded.send catalog session.data cache sent row
      | .json => ⟨cache, sent ++ [.json rel change (session.attLists rel.relid)], true⟩

/-- `pg_decode_change` for a change that the row filter hook forwards. Only the native protocol has
a `write_rel`. -/
def pgDecodeChange (catalog : Catalog) (session : Session) (cache : RelMetaCache) (rel : Relation)
    (change : ReorderBufferChange (HeapTuple rel.desc)) : Decoded :=
  match session.proto with
  | .json => sendRow catalog session rel change cache []
  | .native =>
      let (hit, cache) := pglogicalCacheRelmeta cache rel
      if hit then sendRow catalog session rel change cache []
      else
        let description := Decoded.send catalog session.data cache [] (.relation rel (session.attLists rel.relid))
        if description.returned then
          sendRow catalog session rel change (setCached cache rel.relid) description.sent
        else description

inductive Event where
  /-- `pg_decode_startup`, with the column lists the hook returns in this session. -/
  | startup (proto : PGLogicalProtoType) (data : PGLogicalOutputData) (attLists : Oid → Option Bitmapset)
  | begin (txn : ReorderBufferTXN)
  /-- A change of a relation as it is opened now, and what the row filter hook answers. -/
  | change (rel : Relation) (change : ReorderBufferChange (HeapTuple rel.desc)) (forward : Bool)
  | commit (txn : ReorderBufferTXN) (commitLsn : UInt64)
  | shutdown
  /-- An ERROR anywhere; `pg_decode_shutdown` is not called. -/
  | error
  | invalidate (relid : Oid)
  /-- Decoding reaches a new definition of a table, with the invalidations that are executed for it. -/
  | alterTable (rel : Relation) (invalidated : List Oid)
  /-- The hook's column list for a table changes, with the invalidations that are executed for it. -/
  | alterAttList (relid : Oid) (attList : Option Bitmapset) (invalidated : List Oid)

def State.finish (s : State) (session : Session) : State :=
  { s with session := none, ended := s.ended ++ [session.out] }

def State.decoded (s : State) (session : Session) (result : Decoded) : State :=
  let s := { s with cache := result.cache }
  let session := session.emit result.sent
  if result.returned then { s with session := some session } else s.finish session

def step (catalog : Catalog) (s : State) : Event → Option State
  | .startup proto data attLists =>
      match s.session with
      | some _ => none
      | none => some { s with
          cache := pglogicalInitRelmetacache s.cache, session := some ⟨proto, data, attLists, []⟩ }
  | .begin txn => s.session.map fun session => { s with session := some (session.emit [.begin txn]) }
  | .change rel change forward =>
      match s.session with
      | none => none
      | some session =>
          if s.tables rel.relid = some rel then
            if forward then some (s.decoded session (pgDecodeChange catalog session s.cache rel change))
            else some s
          else none
  | .commit txn commitLsn => s.session.map fun session => { s with
      session := some (session.emit [.commit txn commitLsn])
      cache := pglogicalPruneRelmetacache s.cache }
  | .shutdown => s.session.map fun session =>
      { s with cache := pglogicalDestroyRelmetacache s.cache }.finish session
  | .error => s.session.map s.finish
  | .invalidate relid => some { s with cache := relmetaCacheCallback s.cache relid }
  | .alterTable rel invalidated => some { s with
      tables := Function.update s.tables rel.relid (some rel)
      cache := invalidated.foldl relmetaCacheCallback s.cache }
  | .alterAttList relid attList invalidated => s.session.map fun session => { s with
      session := some { session with attLists := Function.update session.attLists relid attList }
      cache := invalidated.foldl relmetaCacheCallback s.cache }

/-- A backend that has not decoded yet. -/
def init (tables : Oid → Option Relation) : State := ⟨tables, fun _ => none, none, []⟩

end PGLogical.Output
