import PGLogical.Model.Repset
import PGLogical.Wire.HeapTuple

/-! # Membership rows as stored tuples

`replication_set_add_table` forms a row of the membership catalog with the catalog's own
descriptor. `get_table_replication_info` reads the set and the relation of a row through
`GETSTRUCT`, and its two nullable attributes with `heap_getattr`, to which it passes the descriptor
of the replicated table. What it then makes of the two values is `PGLogicalTableRepInfo.merge`.

The alignment of a column is a function of its `pg_attribute` row, since the descriptors of
`Model.Relation` leave it out. Column lists and row filters are opaque varlenas here, in whatever
form they were stored.
-/

namespace PGLogical

open Wire

variable (attalign : FormPgAttribute → AttAlign)

def FormPgAttribute.layout (att : FormPgAttribute) : AttLayout :=
  ⟨att.attlen, attalign att, att.attbyval, by simpa using att.byvalLen⟩

/-- The layouts of the columns, dropped ones included: their values stay in the tuples. -/
def TupleDesc.layout (desc : TupleDesc) : List AttLayout :=
  desc.attrs.map (FormPgAttribute.layout attalign)

/-- A row of `replication_set_table`, its values as they are stored. -/
structure RepSetTableRow where
  setid : Oid
  reloid : Oid
  attList : Option Varlena
  rowFilter : Option Varlena

namespace RepSetTableRow

/-- The types `oid` and `regclass`. -/
def oidLayout : AttLayout := ⟨4, .int, true, by simp⟩

/-- The types `text[]` and `pg_node_tree`. -/
def varlenaLayout : AttLayout := ⟨-1, .int, false, nofun⟩

/-- The attributes of the catalog, `set_id`, `set_reloid`, `set_att_list` and `set_row_filter`. -/
def columns (row : RepSetTableRow) : List (AttLayout × Option Bytes) :=
  [(oidLayout, some (littleEndian 4 row.setid.toNat)), (oidLayout, some (littleEndian 4 row.reloid.toNat)),
    (varlenaLayout, row.attList.map (·.val)), (varlenaLayout, row.rowFilter.map (·.val))]

def tuple (row : RepSetTableRow) : HeapTupleData := heapFormTuple row.columns

end RepSetTableRow

/-- The members of `RepSetTableTuple` that `GETSTRUCT` gives access to. -/
def getstructSetid (tuple : HeapTupleData) : Oid := UInt32.ofNat (ofLittleEndian (tuple.data.take 4))

def getstructReloid (tuple : HeapTupleData) : Oid := UInt32.ofNat (ofLittleEndian ((tuple.data.drop 4).take 4))

def anumRepsetTableAttList : ℕ := 3

def anumRepsetTableRowFilter : ℕ := 4

/-- `DatumGetArrayTypeP` and `TextDatumGetCString` take the datum for a pointer to a varlena; a word
that was fetched by value does not point into the tuple. -/
def datumGetVarlena (tuple : HeapTupleData) : Fetched → Option (Option Bytes)
  | .null => some none
  | .byval _ => none
  | .pointer off => (varlenaAt tuple.data off).map some

/-- The column list and the row filter the body of the inner loop obtains. -/
def getMembership (desc : List AttLayout) (tuple : HeapTupleData) : Option (Option Bytes × Option Bytes) := do
  let attList ← (heapGetattr tuple anumRepsetTableAttList desc).bind (datumGetVarlena tuple)
  let rowFilter ← (heapGetattr tuple anumRepsetTableRowFilter desc).bind (datumGetVarlena tuple)
  pure (attList, rowFilter)

/-- The two loops of `get_table_replication_info`, with the set that matched each time. The scan key
is the table, the descriptor is the table's too. -/
def scanMemberships (table : Relation) (catalog : List HeapTupleData) (subs : List PGLogicalRepSet) :
    Option (List (PGLogicalRepSet × Option Bytes × Option Bytes)) :=
  ((catalog.filter fun tuple => decide (getstructReloid tuple = table.relid)).flatMap fun tuple =>
    (subs.filter fun repset => decide (getstructSetid tuple = repset.id)).map fun repset => (tuple, repset)).mapM
      fun (tuple, repset) => (getMembership (table.desc.layout attalign) tuple).map fun found => (repset, found)

end PGLogical
