import PGLogical.Model.Hooks
import PGLogical.Model.Conflict

/-! # A row-filtered table on both sides

The filter of a table is asked about the new tuple of an INSERT or UPDATE, and about the old tuple of a
DELETE, which has the columns of the primary key only. An UPDATE sends the old key when the key has
changed, and leaves out the values of TOASTed columns that it did not touch; the subscriber
takes those from the version it has. The initial copy is the filtered table. Rows are given by their key
and their other columns. The conflict resolution is the default one, which applies remote changes,
and the subscriber has no triggers.
-/

namespace PGLogical.RowFilter

/-- A NULL column is `none`. -/
abbrev Row (C D : Type) := C → Option D

structure Tuple (K C D : Type) where
  key : K
  values : Row C D

variable {K C D Expr : Type}

/-- The old tuple that logical decoding has of a row: only the replica identity. -/
def keyOnly (key : K) : Tuple K C D := ⟨key, fun _ => none⟩

/-- A published table, with all actions replicated. -/
structure FilteredTable (K C D Expr : Type) where
  env : HookEnv (Tuple K C D) Expr
  entry : PGLogicalTableRepInfo Expr
  /-- The columns besides the key that are sent. -/
  replicated : C → Bool
  /-- What the subscriber has in the other columns of a new row. -/
  defaults : Row C D
  actions : entry.replicateInsert = true ∧ entry.replicateUpdate = true ∧ entry.replicateDelete = true

/-- Decide if to return tuple or not. -/
def filterTuple (t : FilteredTable K C D Expr) (tuple : Tuple K C D) : Bool :=
  passesFilters t.env tuple t.entry.rowFilter

inductive Message (K C D : Type) where
  | insert (newtup : Tuple K C D)
  /-- The old key is sent when it has changed; `changed` are the columns with a value. -/
  | update (oldtup : Option K) (newtup : Tuple K C D) (changed : C → Bool)
  | delete (oldtup : K)

/-! ## The subscriber -/

variable [DecidableEq K]

/-- The row that the subscriber makes of a sent tuple. -/
def received (t : FilteredTable K C D Expr) (values : Row C D) : Row C D :=
  heapModifyTuple t.defaults values t.replicated

def handleInsert (t : FilteredTable K C D Expr) (table : K → Option (Row C D)) (newtup : Tuple K C D) :
    K → Option (Row C D) :=
  Function.update table newtup.key (some (received t newtup.values))

/-- A row that is not found is skipped. A new key that is taken is an error. -/
def handleUpdate (table : K → Option (Row C D)) (oldtup : Option K) (newtup : Tuple K C D) (changed : C → Bool) :
    Option (K → Option (Row C D)) :=
  let search := oldtup.getD newtup.key
  match table search with
  | none => some table
  | some localtuple =>
    if newtup.key ≠ search ∧ (table newtup.key).isSome then none
    else some (Function.update (Function.update table search none) newtup.key
      (some (heapModifyTuple localtuple newtup.values changed)))

def handleDelete (table : K → Option (Row C D)) (oldtup : K) : K → Option (Row C D) :=
  Function.update table oldtup none

def replay (t : FilteredTable K C D Expr) (table : K → Option (Row C D)) :
    Message K C D → Option (K → Option (Row C D))
  | .insert newtup => some (handleInsert t table newtup)
  | .update oldtup newtup changed => handleUpdate table oldtup newtup changed
  | .delete oldtup => some (handleDelete table oldtup)

/-! ## The provider -/

inductive Event (K C D : Type) where
  | insert (key : K) (values : Row C D)
  /-- Writes the columns that are not in `unchanged`, which are TOASTed. -/
  | update (key newKey : K) (values : Row C D) (unchanged : C → Bool)
  | delete (key : K)

/-- What a statement leaves in the table and in the write-ahead log. -/
structure Written (K C D : Type) where
  table : K → Option (Row C D)
  change : ReorderBufferChange (Tuple K C D)
  message : Message K C D

/-- The row after an UPDATE. -/
def updatedRow (old values : Row C D) (unchanged : C → Bool) : Row C D :=
  heapModifyTuple old values fun column => !unchanged column

def providerStep (t : FilteredTable K C D Expr) (table : K → Option (Row C D)) :
    Event K C D → Option (Written K C D)
  | .insert key values =>
      if (table key).isSome then none
      else some ⟨Function.update table key (some values), ⟨.insert, none, some ⟨key, values⟩⟩, .insert ⟨key, values⟩⟩
  | .update key newKey values unchanged =>
      (table key).bind fun old =>
        if newKey ≠ key ∧ (table newKey).isSome then none
        else
          let newtup : Tuple K C D := ⟨newKey, updatedRow old values unchanged⟩
          let oldKey := if newKey = key then none else some key
          some ⟨Function.update (Function.update table key none) newKey (some newtup.values),
            ⟨.update, oldKey.map keyOnly, some newtup⟩,
            .update oldKey newtup fun column => t.replicated column && !unchanged column⟩
  | .delete key =>
      (table key).map fun _ => ⟨Function.update table key none, ⟨.delete, some (keyOnly key), none⟩, .delete key⟩

/-! ## Both sides -/

structure State (K C D : Type) where
  provider : K → Option (Row C D)
  subscriber : K → Option (Row C D)
  /-- The versions that statements have written on the provider. -/
  history : List (Tuple K C D)

/-- A statement on the provider, and its replay if it is forwarded. -/
def step (t : FilteredTable K C D Expr) (s : State K C D) (event : Event K C D) : Option (State K C D) :=
  (providerStep t s.provider event).bind fun written =>
    let subscriber := match filterByTableInfo t.env t.entry written.change with
      | .ok true => replay t s.subscriber written.message
      | _ => some s.subscriber
    subscriber.map fun subscriber => ⟨written.table, subscriber, s.history ++ written.change.newtuple.toList⟩

/-- The initial copy. -/
def init (t : FilteredTable K C D Expr) (table : K → Option (Row C D)) : State K C D where
  provider := table
  subscriber key := (table key).bind fun values =>
    if filterTuple t ⟨key, values⟩ then some (received t values) else none
  history := []

end PGLogical.RowFilter
