import PGLogical.Model.Callbacks
import PGLogical.Model.Proto
import PGLogical.Model.RelcacheInval

/-! # A decoding session and the worker at its other end

The callbacks of a session, with the relcache invalidations that the backend processes between them,
write messages. The apply worker reads them in the order in which they were written, into stack memory
that holds anything, and processes invalidations of its own in between.
-/

namespace PGLogical.Transfer

open Wire Native Callbacks

/-! ## The sender -/

inductive Occurrence where
  | callback (callback : Callback)
  /-- The backend processes a relcache invalidation of the table. -/
  | invalidate (relid : Oid)

def occur (server : Server) (data : Callbacks.PGLogicalOutputData) : Occurrence → CallbackM Unit
  | .callback callback => call server data callback
  | .invalidate relid => modify fun ctx => { ctx with cache := Output.relmetaCacheCallback ctx.cache relid }

/-- One after the other, until a callback raises an error. -/
def decoding (server : Server) (data : Callbacks.PGLogicalOutputData) (occurrences : List Occurrence) : CallbackM Unit :=
  occurrences.forM (occur server data)

/-! ## The receiver -/

inductive Arrival where
  /-- A message, with what is in the arrays of the stack frame that it is read into. -/
  | message (bytes : Bytes) (scratch : PGLogicalTupleData)
  | invalidate (reloid : Oid)

def Arrival.payload : Arrival → Option Bytes
  | .message bytes _ => some bytes
  | .invalidate _ => none

/-- What is read of the arrivals, up to the first message that cannot be read. -/
def receive (session : Session) : PGLogicalRelationHash → List Arrival →
    Except String (List Message × PGLogicalRelationHash)
  | hash, [] => .ok ([], hash)
  | hash, .message bytes scratch :: rest => do
      let ((message, hash), _) ← readMessage session hash scratch bytes
      let (messages, hash) ← receive session hash rest
      .ok (message :: messages, hash)
  | hash, .invalidate reloid :: rest =>
      receive session (RelcacheInval.pglogicalRelcacheInvalidateCallback hash reloid) rest

end PGLogical.Transfer
