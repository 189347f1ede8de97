import PGLogical.Model.Conflict
import PGLogical.Model.Proto

/-! # The tuple of a row change at the subscriber

How the arrays that a row message is read into become a row of the local table, and how the rows it
meets there are found. Columns are positions of the local table. The table is looked at as it stands
when the change is applied: a search does not wait for other transactions. What a column default
evaluates to, the equality operator of an index column and the predicate of an index are
PostgreSQL's and are parameters.
-/

namespace PGLogical.Apply

open Native (PGLogicalTupleData)

/-- A row of a local table; a NULL is `none`. -/
abbrev Row := ℕ → Option Datum

/-! ## Forming a row -/

/-- What `build_column_default` and the executor make of a column's default, if it has one. -/
abbrev ColumnDefault := ℕ → Option (Option Datum)

def attisdropped (desc : TupleDesc) (attnum : ℕ) : Bool := (desc.attrs[attnum]?).any FormPgAttribute.attisdropped

def physattInAttmap (rel : PGLogicalRelation) (attid : ℕ) : Bool := decide (attid ∈ rel.attmap)

/-- The columns for which there is no data and which have a default, with its value. -/
def missingDefaults (rel : PGLogicalRelation) (desc : TupleDesc) (columnDefault : ColumnDefault) :
    List (ℕ × Option Datum) :=
  (List.range desc.attrs.length).filterMap fun attnum =>
    if attisdropped desc attnum then none
    else if physattInAttmap rel attnum then none
    else (columnDefault attnum).map fun value => (attnum, value)

/-- `ExecEvalExpr` returns a zero datum with a NULL. -/
def setDefault (tuple : PGLogicalTupleData) (column : ℕ × Option Datum) : PGLogicalTupleData :=
  { tuple with
    values := Function.update tuple.values column.1 (column.2.getD (.byval 0))
    nulls := Function.update tuple.nulls column.1 column.2.isNone }

/-- When there are as many columns as were sent, nothing is looked at. -/
def fillMissingDefaults (rel : PGLogicalRelation) (desc : TupleDesc) (columnDefault : ColumnDefault)
    (tuple : PGLogicalTupleData) : PGLogicalTupleData :=
  if desc.attrs.length = rel.natts then tuple
  else (missingDefaults rel desc columnDefault).foldl setDefault tuple

def heapFormTuple (desc : TupleDesc) (tuple : PGLogicalTupleData) : Row := fun attnum =>
  if attnum < desc.attrs.length ∧ tuple.nulls attnum = false then some (tuple.values attnum) else none

/-- The row that an INSERT stores. -/
def insertedRow (rel : PGLogicalRelation) (desc : TupleDesc) (columnDefault : ColumnDefault)
    (newtup : PGLogicalTupleData) : Row :=
  heapFormTuple desc (fillMissingDefaults rel desc columnDefault newtup)

/-- The row that an UPDATE makes of the row it has found. -/
def updatedRow (rel : PGLogicalRelation) (desc : TupleDesc) (columnDefault : ColumnDefault)
    (newtup : PGLogicalTupleData) (localtuple : Row) : Row :=
  let newtup := fillMissingDefaults rel desc columnDefault newtup
  heapModifyTuple localtuple (heapFormTuple desc newtup) newtup.changed

/-! ## Finding a row -/

/-- `ItemPointerData` -/
abbrev Tid := ℕ

structure StoredRow where
  tSelf : Tid
  version : HeapVersion ℕ (Option Datum)

def StoredRow.row (stored : StoredRow) : Row := stored.version.values

structure IndexInfo where
  indexrelid : Oid
  /-- `ii_Unique` -/
  unique : Bool
  /-- `ii_Expressions != NIL` -/
  expressions : Bool
  /-- Column positions, counted from 0. -/
  indkey : List ℕ
  /-- The equality operator of each key column's operator class. -/
  equal : ℕ → Datum → Datum → Bool
  /-- `ii_Predicate`: only rows that satisfy it are in the index. -/
  predicate : Row → Bool

/-- The value of a column of the arrays. -/
def argument (tup : PGLogicalTupleData) (attnum : ℕ) : Option Datum :=
  if tup.nulls attnum then none else some (tup.values attnum)

/-- The scan key, and whether any column contains NULLs. -/
def buildIndexScanKey (index : IndexInfo) (tup : PGLogicalTupleData) : List (Option Datum) × Bool :=
  (index.indkey.map (argument tup), (index.indkey.map (argument tup)).any Option.isNone)

/-- An equality with a NULL on either side holds for no row. -/
def keyMatches (index : IndexInfo) (row : Row) (column : ℕ × Option Datum) : Bool :=
  match column.2, row column.1 with
  | some wanted, some value => index.equal column.1 wanted value
  | _, _ => false

def scanMatches (index : IndexInfo) (skey : List (Option Datum)) (row : Row) : Bool :=
  (index.indkey.zip skey).all (keyMatches index row)

/-- The first row that the scan returns. -/
def findIndexTuple (index : IndexInfo) (heap : List StoredRow) (skey : List (Option Datum)) : Option StoredRow :=
  heap.find? fun stored => index.predicate stored.row && scanMatches index skey stored.row

/-- With the replica identity index of the table, if it has one. -/
def pglogicalTupleFindReplidx (replidindex : Option IndexInfo) (heap : List StoredRow) (tuple : PGLogicalTupleData) :
    Except String (Option StoredRow) :=
  match replidindex with
  | none => .error "could not find primary key for table"
  | some index => .ok (findIndexTuple index heap (buildIndexScanKey index tuple).1)

/-- The loop over the indexes of the table, with `conflicting_tid`. The first hit ends it. -/
def findConflict (heap : List StoredRow) (tuple : PGLogicalTupleData) :
    Option Tid → List IndexInfo → Except String (Option (Oid × StoredRow))
  | _, [] => .ok none
  | conflictingTid, index :: rest =>
      if !index.unique || index.expressions then findConflict heap tuple conflictingTid rest
      else if (buildIndexScanKey index tuple).2 then findConflict heap tuple conflictingTid rest
      else match findIndexTuple index heap (buildIndexScanKey index tuple).1 with
        | none => findConflict heap tuple conflictingTid rest
        | some found =>
            if conflictingTid.any fun tid => decide (found.tSelf ≠ tid) then
              .error "multiple unique constraints violated by remote tuple"
            else .ok (some (index.indexrelid, found))

def pglogicalTupleFindConflict (indexes : List IndexInfo) (heap : List StoredRow) (tuple : PGLogicalTupleData) :
    Except String (Option (Oid × StoredRow)) :=
  findConflict heap tuple none indexes

end PGLogical.Apply
