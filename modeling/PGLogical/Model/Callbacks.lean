import PGLogical.Model.Output
import PGLogical.Model.ProtoJson

/-! # The callbacks of the output plugin

Logical decoding calls the plugin for the begin, the changes and the commit of a transaction. A
message is what is written into the buffer between `OutputPluginPrepareWrite` and
`OutputPluginWrite`. The writers come from the table of functions of the session's format, in which
some entries may be missing. The build is one with replication origins.
-/

namespace PGLogical.Callbacks

open Wire Native Json Output

/-- `PGLogicalOutputData`, with the format behind `api`. -/
structure PGLogicalOutputData extends Native.PGLogicalOutputData where
  clientNoTxinfo : Bool
  forwardChangesetOrigins : Bool
  proto : PGLogicalProtoType

/-- What the callbacks look up. -/
structure Server where
  catalog : Catalog
  functions : JsonFunctions
  replOriginByOid : UInt16 → Option CString
  prepareStartupMessage : List (CString × CString)

structure PGLogicalProtoAPI where
  writeRel : Option (Relation → Option Bitmapset → Writer Unit)
  writeBegin : Json.ReorderBufferTXN → Writer Unit
  writeCommit : Json.ReorderBufferTXN → UInt64 → Writer Unit
  writeOrigin : Option (CString → UInt64 → Writer Unit)
  writeInsert : (rel : Relation) → HeapTuple rel.desc → Option Bitmapset → Writer Unit
  writeUpdate : (rel : Relation) → Option (HeapTuple rel.desc) → HeapTuple rel.desc → Option Bitmapset → Writer Unit
  writeDelete : (rel : Relation) → HeapTuple rel.desc → Option Bitmapset → Writer Unit
  writeStartupMessage : List (CString × CString) → Writer Unit

def pglogicalStartupMsgFormatFlat : UInt8 := 1

def writeStartupParams : List (CString × CString) → Writer Unit
  | [] => pure ()
  | (defname, arg) :: rest => do
      appendBinaryStringInfo defname.terminated
      appendBinaryStringInfo arg.terminated
      writeStartupParams rest

def writeStartupMessage (msg : List (CString × CString)) : Writer Unit := do
  pqSendbyte 'S'.toUInt8
  pqSendbyte pglogicalStartupMsgFormatFlat
  writeStartupParams msg

def pglogicalInitApi (server : Server) (data : PGLogicalOutputData) : PGLogicalProtoType → PGLogicalProtoAPI
  | .json => {
      writeRel := none
      writeBegin := pglogicalJsonWriteBegin server.functions data.clientNoTxinfo
      writeCommit := pglogicalJsonWriteCommit data.clientNoTxinfo
      writeOrigin := none
      writeInsert := pglogicalJsonWriteInsert server.functions server.catalog
      writeUpdate := pglogicalJsonWriteUpdate server.functions server.catalog
      writeDelete := pglogicalJsonWriteDelete server.functions server.catalog
      writeStartupMessage := jsonWriteStartupMessage server.functions }
  | .native => {
      writeRel := some (pglogicalWriteRel server.catalog)
      writeBegin := fun txn => pglogicalWriteBegin txn.toReorderBufferTXN
      writeCommit := fun txn => pglogicalWriteCommit txn.toReorderBufferTXN
      writeOrigin := some pglogicalWriteOrigin
      writeInsert := pglogicalWriteInsert server.catalog data.toPGLogicalOutputData
      writeUpdate := pglogicalWriteUpdate server.catalog data.toPGLogicalOutputData
      writeDelete := pglogicalWriteDelete server.catalog data.toPGLogicalOutputData
      writeStartupMessage := writeStartupMessage }

/-- The decoding context, with the messages that were handed over, and the plugin's own variables. -/
structure Context where
  preparedWrite : Bool
  out : Bytes
  written : List Bytes
  startupMessageSent : Bool
  cache : RelMetaCache

/-- An ERROR ends the session; what was written stays written. -/
abbrev CallbackM := EStateM String Context

def outputPluginPrepareWrite : CallbackM Unit := modify fun ctx => { ctx with preparedWrite := true, out := [] }

def outputPluginWrite : CallbackM Unit := fun ctx =>
  if ctx.preparedWrite then .ok () { ctx with preparedWrite := false, written := ctx.written ++ [ctx.out] }
  else .error "OutputPluginPrepareWrite needs to be called before OutputPluginWrite" ctx

/-- Write into the buffer of the context. -/
def fill (w : Writer Unit) : CallbackM Unit := fun ctx =>
  match w ctx.out with
  | .ok ((), out) => .ok () { ctx with out }
  | .error message => .error message ctx

variable (server : Server) (data : PGLogicalOutputData)

def api : PGLogicalProtoAPI := pglogicalInitApi server data data.proto

def sendStartupMessage : CallbackM Unit := do
  outputPluginPrepareWrite
  fill ((api server data).writeStartupMessage server.prepareStartupMessage)
  outputPluginWrite
  modify fun ctx => { ctx with startupMessageSent := true }

/-- The condition in front of the origin's writer. -/
def writeOrigin? (txn : Json.ReorderBufferTXN) : Writer Unit :=
  match (api server data).writeOrigin, server.replOriginByOid txn.originId with
  | some writeOrigin, some origin => writeOrigin origin txn.originLsn
  | some _, none => pure ()
  | none, _ => pure ()

def sendStartupMessageOnce : CallbackM Unit := do
  if (← get).startupMessageSent then pure () else sendStartupMessage server data

/-- If the record didn't originate locally, send origin info. -/
def sendsReplicationOrigin (txn : Json.ReorderBufferTXN) : Bool :=
  data.forwardChangesetOrigins && txn.originId != Json.invalidRepOriginId

/-- The message boundary between BEGIN and the origin. -/
def originBoundary (txn : Json.ReorderBufferTXN) : CallbackM Unit :=
  if sendsReplicationOrigin data txn then do
    outputPluginWrite
    outputPluginPrepareWrite
    fill (writeOrigin? server data txn)
  else pure ()

def pgDecodeBeginTxn (txn : Json.ReorderBufferTXN) : CallbackM Unit := do
  sendStartupMessageOnce server data
  outputPluginPrepareWrite
  fill ((api server data).writeBegin txn)
  originBoundary server data txn
  outputPluginWrite

def pgDecodeCommitTxn (txn : Json.ReorderBufferTXN) (commitLsn : UInt64) : CallbackM Unit := do
  outputPluginPrepareWrite
  fill ((api server data).writeCommit txn commitLsn)
  outputPluginWrite
  modify fun ctx => { ctx with cache := pglogicalPruneRelmetacache ctx.cache }

def cacheRelmeta (rel : Relation) : CallbackM Bool := modifyGet fun ctx =>
  let (hit, cache) := pglogicalCacheRelmeta ctx.cache rel
  (hit, { ctx with cache })

def sendRelation (rel : Relation) (attList : Option Bitmapset)
    (writeRel : Relation → Option Bitmapset → Writer Unit) : CallbackM Unit := do
  outputPluginPrepareWrite
  fill (writeRel rel attList)
  modify fun ctx => { ctx with cache := setCached ctx.cache rel.relid }
  outputPluginWrite

/-- Relation metadata, if the protocol wants to write it and the client isn't known to have it. -/
def sendRelationOnce (rel : Relation) (attList : Option Bitmapset) : CallbackM Unit :=
  match (api server data).writeRel with
  | none => pure ()
  | some writeRel => do
      if ← cacheRelmeta rel then pure () else sendRelation rel attList writeRel

/-- The writer the switch over the action calls. An INSERT or UPDATE always comes with its new tuple; a
DELETE without a key is not sent. -/
def rowWriter? (rel : Relation) (change : ReorderBufferChange (HeapTuple rel.desc)) (attList : Option Bitmapset) :
    Option (Writer Unit) :=
  match change.action with
  | .insert => change.newtuple.map fun newtuple => (api server data).writeInsert rel newtuple attList
  | .update => change.newtuple.map fun newtuple => (api server data).writeUpdate rel change.oldtuple newtuple attList
  | .delete => change.oldtuple.map fun oldtuple => (api server data).writeDelete rel oldtuple attList
  | .other _ => none

def sendRow : Option (Writer Unit) → CallbackM Unit
  | none => pure ()
  | some writer => do
      outputPluginPrepareWrite
      fill writer
      outputPluginWrite

/-- The hook's answer is the column list of a change that is forwarded. -/
def pgDecodeChange (rel : Relation) (change : ReorderBufferChange (HeapTuple rel.desc)) :
    Option (Option Bitmapset) → CallbackM Unit
  | none => pure ()
  | some attList => do
      sendRelationOnce server data rel attList
      sendRow (rowWriter? server data rel change attList)

inductive Callback where
  | begin (txn : Json.ReorderBufferTXN)
  | change (rel : Relation) (change : ReorderBufferChange (HeapTuple rel.desc)) (answer : Option (Option Bitmapset))
  | commit (txn : Json.ReorderBufferTXN) (commitLsn : UInt64)

def call : Callback → CallbackM Unit
  | .begin txn => pgDecodeBeginTxn server data txn
  | .change rel change answer => pgDecodeChange server data rel change answer
  | .commit txn commitLsn => pgDecodeCommitTxn server data txn commitLsn

/-- A session up to now: the callbacks one after the other, until one raises an error. -/
def session (callbacks : List Callback) : CallbackM Unit := callbacks.forM (call server data)

/-- The start of a session, with the cache of the backend. -/
def Context.start (cache : RelMetaCache) : Context := ⟨false, [], [], false, cache⟩

end PGLogical.Callbacks
