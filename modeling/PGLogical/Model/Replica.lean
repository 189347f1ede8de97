import PGLogical.Model.RowHandlers
import PGLogical.Model.Transfer

/-! # The tables of the subscriber

The apply worker applies each message when it has read it. All rows of a remote transaction go into one
local transaction, which COMMIT makes visible. The tables are looked up by the local identifier of the opened
relation. Origins that are forwarded do not matter for the rows.
-/

namespace PGLogical.Replica

open Wire Native Apply Transfer

structure Subscriber where
  /-- The rows of each table, as the worker sees them. -/
  heaps : Oid → List StoredRow
  /-- The rows as everybody sees them. -/
  committed : Oid → List StoredRow
  session : ApplySession

/-- The table in the transaction that is being applied. -/
def during (site : Site) (session : ApplySession) : Site := { site with session }

section Apply

variable (sites : Oid → Site)

/-- A row handler on its table. -/
def applyRow (s : Subscriber) (rel : PGLogicalRelation) (handler : Site → RowM Unit) : Except Stop Subscriber :=
  match handler (during (sites rel.reloid) s.session) (ApplyState.start (s.heaps rel.reloid)) with
  | .ok () after => .ok { s with heaps := Function.update s.heaps rel.reloid after.heap }
  | .error stop _ => .error stop

/-- `replication_handler` behind the reading of the message. The next transaction has a new identifier. -/
def applyMessage (s : Subscriber) : Message → Except Stop Subscriber
  | .begin _ committime _ => .ok { s with session := { s.session with timestamp := committime.toInt } }
  | .commit _ _ _ => .ok { s with
      committed := s.heaps
      session := { s.session with topTransactionId := s.session.topTransactionId + 1 } }
  | .insert rel newtup => applyRow sites s rel fun site => handleInsert site rel newtup
  | .update rel oldtup newtup => applyRow sites s rel fun site => Apply.handleUpdate site rel oldtup newtup
  | .delete rel oldtup => applyRow sites s rel fun site => handleDelete site rel oldtup
  | .startup _ => .ok s
  | .origin _ _ => .ok s
  | .relation _ => .ok s

def applyMessages : Subscriber → List Message → Except Stop Subscriber := List.foldlM (applyMessage sites)

/-- One message after the other is read and applied, with invalidations in between. -/
def applyWork (session : Session) : PGLogicalRelationHash → Subscriber → List Arrival →
    Except Stop (Subscriber × PGLogicalRelationHash)
  | hash, s, [] => .ok (s, hash)
  | hash, s, .message bytes scratch :: rest =>
      match readMessage session hash scratch bytes with
      | .error message => .error (.error message)
      | .ok ((message, hash), _) =>
          match applyMessage sites s message with
          | .error stop => .error stop
          | .ok s => applyWork session hash s rest
  | hash, s, .invalidate reloid :: rest =>
      applyWork session (RelcacheInval.pglogicalRelcacheInvalidateCallback hash reloid) s rest

end Apply

end PGLogical.Replica
