import PGLogical.Machine.Run
import PGLogical.Model.RepsetFunctions
import PGLogical.Wire.Decimal

/-! # The trigger that queues truncations

Every table that is added to a replication set gets a TRUNCATE trigger on `pglogical.queue_truncate`,
unless `create_truncate_trigger` finds one. Its scan over the triggers leaves the pointer where it is
when it meets a trigger of another kind. Triggers are listed in the order of their names, and removing
a table from a set does not touch them. What is done to one table is a run of such calls, each a
transaction of its own.
-/

namespace PGLogical.TruncateTrigger

open Wire
open Repsets (TargetRel)

/-- A row of `pg_trigger` as the relation cache has it. -/
structure Trigger where
  tgoid : Oid
  tgname : NameData
  tgfoid : Oid
  tgtype : UInt16
  tgenabled : Char
  tgisinternal : Bool
deriving DecidableEq

def triggerTypeTruncate : UInt16 := 32

/-- `TRIGGER_FOR_TRUNCATE` -/
def Trigger.forTruncate (trigger : Trigger) : Bool := trigger.tgtype &&& triggerTypeTruncate != 0

/-- `strcmp` finds the first name before the second. -/
def nameBefore : Bytes → Bytes → Bool
  | [], [] => false
  | [], _ :: _ => true
  | _ :: _, [] => false
  | a :: s, b :: t => a < b || a == b && nameBefore s t

variable (funcoid : Oid)

/-- The loop that looks for the trigger, with the triggers from the pointer on. -/
def findsTrigger : ℕ → List Trigger → Bool
  | 0, _ => false
  | _ + 1, [] => false
  | rounds + 1, trigger :: rest =>
      if !trigger.forTruncate then findsTrigger rounds (trigger :: rest)
      else if trigger.tgfoid = funcoid then true
      else findsTrigger rounds rest

/-- An internal AFTER TRUNCATE trigger for each statement; the name of an internal trigger ends with its own identifier. -/
def queueTruncateTrigger (tgoid : Oid) : Trigger where
  tgoid := tgoid
  tgname := namestrcpy (.ofBytes (ascii "queue_truncate_trigger_" ++ decimal tgoid.toNat))
  tgfoid := funcoid
  tgtype := triggerTypeTruncate
  tgenabled := 'O'
  tgisinternal := true

/-- The relation cache sorts the triggers by name. -/
def insertTrigger (trigger : Trigger) (triggers : List Trigger) : List Trigger :=
  let before := fun other : Trigger => nameBefore other.tgname.str.val trigger.tgname.str.val
  triggers.takeWhile before ++ trigger :: triggers.dropWhile before

/-- `tgoid` is the identifier that a new trigger gets. -/
def createTruncateTrigger (tgoid : Oid) (triggers : List Trigger) : List Trigger :=
  if findsTrigger funcoid triggers.length triggers then triggers
  else insertTrigger (queueTruncateTrigger funcoid tgoid) triggers

/-! ## One table and its sets -/

/-- The triggers of the table and the sets it is in. -/
structure TableState where
  triggers : List Trigger
  sets : List Oid
deriving DecidableEq

variable (targetrel : TargetRel) (getReplicationSet : Oid → Except String PGLogicalRepSet)

def replicationSetAddTable (table : TableState) (setid tgoid : Oid) : Except String TableState := do
  let repset ← getReplicationSet setid
  if targetrel.relpersistence ≠ .permanent then throw "UNLOGGED and TEMP tables cannot be replicated"
  if targetrel.rdReplidindex = invalidOid ∧ (repset.replicateUpdate || repset.replicateDelete) = true then
    throw (s!"table {targetrel.rel.relname.str.toString} cannot be added to replication set " ++
      s!"{repset.name.toString}")
  let triggers := createTruncateTrigger funcoid tgoid table.triggers
  if repset.id ∈ table.sets then throw "duplicate key value violates unique constraint"
  return ⟨triggers, table.sets ++ [repset.id]⟩

def replicationSetRemoveTable (table : TableState) (setid : Oid) : Except String TableState :=
  if setid ∈ table.sets then .ok { table with sets := table.sets.filter fun other => decide (other ≠ setid) }
  else .error s!"replication set table mapping {setid}:{targetrel.rel.relid} not found"

inductive Call where
  | addTable (setid tgoid : Oid)
  | removeTable (setid : Oid)
deriving DecidableEq

def call (table : TableState) : Call → Except String TableState
  | .addTable setid tgoid => replicationSetAddTable funcoid targetrel getReplicationSet table setid tgoid
  | .removeTable setid => replicationSetRemoveTable targetrel table setid

/-- A call that fails is rolled back. -/
def step (table : TableState) (event : Call) : Option TableState :=
  match call funcoid targetrel getReplicationSet table event with
  | .ok next => some next
  | .error _ => some table

end PGLogical.TruncateTrigger
