import PGLogical.Model.ProtoJson
import PGLogical.Soundness.Wire

/-! # The columns the two formats disclose

A row message of either format carries the old tuple, the new tuple or both. For each of them the
native writer visits the live, listed columns and leaves out the value of an unchanged TOAST column;
the JSON writer visits all live columns and has the value of each. `writeNative_eq` and `writeJson_eq`
give a message from what it discloses of its tuples, so that it depends on nothing else of them.
-/

namespace PGLogical.Json

open Wire Native

/-- What a message tells about a column besides its name. -/
inductive Disclosed where
  | null
  | unchanged
  | value (datum : Datum)
deriving DecidableEq

/-- A column that is stored out of line and was not touched. -/
def Unchanged (column : FormPgAttribute × Option Datum) : Prop :=
  ∃ datum ∈ column.2, column.1.attlen = -1 ∧ datum.isExternalOndisk = true

/-- The first two branches of the native writer's loop send no value. -/
def nativeDisclosed (att : FormPgAttribute) : Option Datum → Disclosed
  | none => .null
  | some datum => if att.attlen = -1 ∧ datum.isExternalOndisk then .unchanged else .value datum

def jsonDisclosed : Option Datum → Disclosed
  | none => .null
  | some datum => .value datum

theorem disclosed_eq_iff (column : FormPgAttribute × Option Datum) :
    nativeDisclosed column.1 column.2 = jsonDisclosed column.2 ↔ ¬ Unchanged column := by
  obtain ⟨att, value⟩ := column
  cases value with
  | none => simp [nativeDisclosed, jsonDisclosed, Unchanged]
  | some datum =>
    simp only [nativeDisclosed, jsonDisclosed, Unchanged, Option.mem_def, Option.some.injEq, exists_eq_left']
    split
    · next unchanged => simp [unchanged]
    · next sent => simp [sent]

/-! ## The native writer sends nothing else -/

/-- The native writer's loop body in terms of what it discloses. -/
def writeDisclosed (catalog : Catalog) (data : PGLogicalOutputData) (att : FormPgAttribute) :
    Disclosed → Writer Unit
  | .null => pqSendbyte 'n'.toUInt8
  | .unchanged => pqSendbyte 'u'.toUInt8
  | .value datum =>
      match catalog.typeForm att.atttypid with
      | none => throw s!"cache lookup failed for type {att.atttypid}"
      | some typclass =>
          match decideDatumTransfer att typclass data.allowInternalBasetypes data.allowBinaryBasetypes with
          | 'i' => writeInternal catalog.io att datum
          | 'b' => writeBinary catalog.io att datum
          | _ => writeText catalog.io att datum

variable {desc : TupleDesc} {catalog : Catalog} {data : PGLogicalOutputData} {attList : Option Bitmapset}

theorem writeColumn_eq (att : FormPgAttribute) (value : Option Datum) :
    writeColumn catalog data att value = writeDisclosed catalog data att (nativeDisclosed att value) := by
  cases value with
  | none => rfl
  | some datum =>
    by_cases unchanged : att.attlen = -1 ∧ datum.isExternalOndisk = true
    · simp only [writeColumn, nativeDisclosed, if_pos unchanged, writeDisclosed]
    · simp only [writeColumn, nativeDisclosed, if_neg unchanged]
      rfl

/-- The columns of a tuple as a native message discloses them. -/
def nativeColumns (attList : Option Bitmapset) (tuple : HeapTuple desc) : List (FormPgAttribute × Disclosed) :=
  (tuple.sentColumns attList).map fun column => (column.1, nativeDisclosed column.1 column.2)

theorem writeColumns_eq (tuple : HeapTuple desc) :
    writeColumns catalog data (tuple.sentColumns attList) =
      (nativeColumns attList tuple).forM fun column => writeDisclosed catalog data column.1 column.2 := by
  unfold nativeColumns
  induction tuple.sentColumns attList with
  | nil => rfl
  | cons column rest ih =>
    rw [writeColumns, writeColumn_eq, ih]
    rfl

/-- A tuple as it is disclosed, with the length that the buffer is enlarged by. -/
def writeTuple (catalog : Catalog) (data : PGLogicalOutputData) (tLen : ℕ)
    (columns : List (FormPgAttribute × Disclosed)) : Writer Unit := do
  pqSendbyte 'T'.toUInt8
  pqSendint columns.length 2
  enlargeStringInfo (tLen + columns.length * (1 + 4))
  columns.forM fun column => writeDisclosed catalog data column.1 column.2

theorem pglogicalWriteTuple_eq (tuple : HeapTuple desc) :
    pglogicalWriteTuple catalog data tuple attList =
      writeTuple catalog data tuple.tLen (nativeColumns attList tuple) := by
  have length : (nativeColumns attList tuple).length = (desc.sentAttributes attList).length := by
    rw [nativeColumns, List.length_map, ← tuple.map_sentColumns attList, List.length_map]
  rw [pglogicalWriteTuple, writeTuple, writeColumns_eq, length]

/-! ## The JSON writer sends all of it -/

/-- The columns of a tuple as a JSON message discloses them. -/
def jsonTold (tuple : HeapTuple desc) : List (FormPgAttribute × Disclosed) :=
  (jsonColumns tuple).map fun column => (column.1, jsonDisclosed column.2)

def disclosedToJson (functions : JsonFunctions) (att : FormPgAttribute) : Disclosed → Except String Bytes
  | .value datum => do functions.datumToJson att.atttypid (← flatten functions datum)
  | _ => .ok (text "null")

/-- The loop of `composite_to_json` over what is disclosed. -/
def toldToJson (functions : JsonFunctions) : List (FormPgAttribute × Disclosed) → Except String Bytes
  | [] => .ok []
  | (att, disclosed) :: rest => do
      let value ← disclosedToJson functions att disclosed
      let others ← toldToJson functions rest
      let comma := if rest.isEmpty then [] else text ","
      return functions.escapeJson att.attname.str ++ text ":" ++ value ++ comma ++ others

theorem columnsToJson_eq (functions : JsonFunctions) (columns : List (FormPgAttribute × Option Datum)) :
    columnsToJson functions columns =
      toldToJson functions (columns.map fun column => (column.1, jsonDisclosed column.2)) := by
  induction columns with
  | nil => rfl
  | cons column rest ih =>
    obtain ⟨att, value⟩ := column
    have same : columnToJson functions att value = disclosedToJson functions att (jsonDisclosed value) := by
      cases value <;> rfl
    rw [columnsToJson, List.map_cons, toldToJson, ih, same, List.isEmpty_map]

def objectToJson (functions : JsonFunctions) (columns : List (FormPgAttribute × Disclosed)) : Except String Bytes := do
  return text "\x7b" ++ (← toldToJson functions columns) ++ text "\x7d"

/-- A tuple under its key. -/
def writeTold (functions : JsonFunctions) (key : String) (columns : List (FormPgAttribute × Disclosed)) :
    Writer Unit := do
  appendStringInfoString key
  appendBinaryStringInfo (← objectToJson functions columns)

theorem jsonWriteTuple?_eq (functions : JsonFunctions) (key : String) (tuple : Option (HeapTuple desc)) :
    jsonWriteTuple? functions key tuple = (tuple.map jsonTold).forM (writeTold functions key) := by
  cases tuple with
  | none => rfl
  | some tuple =>
    rw [jsonWriteTuple?, jsonWriteTuple, rowToJson, columnsToJson_eq]
    rfl

/-! ## Agreement of the formats -/

/-- A row change as the writers are given it. -/
inductive RowChange (desc : TupleDesc) where
  | insert (newtuple : HeapTuple desc)
  | update (oldtuple : Option (HeapTuple desc)) (newtuple : HeapTuple desc)
  | delete (oldtuple : HeapTuple desc)

inductive TupleRole where
  | old
  | new
deriving DecidableEq

def RowChange.writeNative (catalog : Catalog) (data : PGLogicalOutputData) (rel : Relation)
    (attList : Option Bitmapset) : RowChange rel.desc → Writer Unit
  | .insert newtuple => pglogicalWriteInsert catalog data rel newtuple attList
  | .update oldtuple newtuple => pglogicalWriteUpdate catalog data rel oldtuple newtuple attList
  | .delete oldtuple => pglogicalWriteDelete catalog data rel oldtuple attList

def RowChange.writeJson (functions : JsonFunctions) (catalog : Catalog) (rel : Relation)
    (attList : Option Bitmapset) : RowChange rel.desc → Writer Unit
  | .insert newtuple => pglogicalJsonWriteInsert functions catalog rel newtuple attList
  | .update oldtuple newtuple => pglogicalJsonWriteUpdate functions catalog rel oldtuple newtuple attList
  | .delete oldtuple => pglogicalJsonWriteDelete functions catalog rel oldtuple attList

/-- The tuples of the message, in either format. -/
def RowChange.tuple? : RowChange desc → TupleRole → Option (HeapTuple desc)
  | .insert _, .old => none
  | .insert newtuple, .new => some newtuple
  | .update oldtuple _, .old => oldtuple
  | .update _ newtuple, .new => some newtuple
  | .delete oldtuple, .old => some oldtuple
  | .delete _, .new => none

def RowChange.action : RowChange desc → String
  | .insert _ => "I"
  | .update _ _ => "U"
  | .delete _ => "D"

def RowChange.actionChar : RowChange desc → Char
  | .insert _ => 'I'
  | .update _ _ => 'U'
  | .delete _ => 'D'

/-- A native message from what is disclosed of its tuples. -/
def nativeMessage (catalog : Catalog) (data : PGLogicalOutputData) (action : Char) (rel : Relation)
    (told : TupleRole → Option (ℕ × List (FormPgAttribute × Disclosed))) : Writer Unit := do
  writeRowHeader action rel
  (told .old).forM fun (tLen, columns) => do
    pqSendbyte 'K'.toUInt8
    writeTuple catalog data tLen columns
  (told .new).forM fun (tLen, columns) => do
    pqSendbyte 'N'.toUInt8
    writeTuple catalog data tLen columns

/-- A JSON message from what is disclosed of its tuples. -/
def jsonMessage (functions : JsonFunctions) (catalog : Catalog) (action : String) (rel : Relation)
    (told : TupleRole → Option (List (FormPgAttribute × Disclosed))) : Writer Unit := do
  appendStringInfoString "\x7b"
  let nspname := match catalog.getNamespaceName rel.relnamespace with
    | none => text "(null)"
    | some nspname => nspname.str.val
  appendBinaryStringInfo (text ("\"action\":\"" ++ action ++ "\",\"relation\":[\"") ++ nspname ++ text "\",\"" ++
    rel.relname.str.val ++ text "\"]")
  (told .old).forM (writeTold functions ",\"oldtuple\":")
  (told .new).forM (writeTold functions ",\"newtuple\":")
  appendStringInfoString "\x7d"

/-- INSERT, UPDATE and DELETE of the native format. -/
theorem RowChange.writeNative_eq {rel : Relation} (change : RowChange rel.desc) :
    change.writeNative catalog data rel attList = nativeMessage catalog data change.actionChar rel fun role =>
      (change.tuple? role).map fun tuple => (tuple.tLen, nativeColumns attList tuple) := by
  cases change with
  | insert newtuple =>
    rw [RowChange.writeNative, pglogicalWriteInsert, pglogicalWriteTuple_eq]
    rfl
  | update oldtuple newtuple =>
    cases oldtuple with
    | none =>
      rw [RowChange.writeNative, pglogicalWriteUpdate, pglogicalWriteTuple_eq]
      rfl
    | some oldtuple =>
      rw [RowChange.writeNative, pglogicalWriteUpdate, writeOldKey, pglogicalWriteTuple_eq, pglogicalWriteTuple_eq]
      rfl
  | delete oldtuple =>
    rw [RowChange.writeNative, pglogicalWriteDelete, pglogicalWriteTuple_eq]
    -- there is no new tuple
    refine congrArg (writeRowHeader 'D' rel >>= ·) (funext fun _ => ?_)
    exact bind_pure_unit.symm

/-- INSERT, UPDATE and DELETE of the JSON format; the list of columns is no part of it. -/
theorem RowChange.writeJson_eq {rel : Relation} (functions : JsonFunctions) (change : RowChange rel.desc) :
    change.writeJson functions catalog rel attList = jsonMessage functions catalog change.action rel fun role =>
      (change.tuple? role).map jsonTold := by
  have written (action : String) (oldtuple newtuple : Option (HeapTuple rel.desc)) :
      pglogicalJsonWriteChange functions catalog action rel oldtuple newtuple =
        jsonMessage functions catalog action rel
          (fun | .old => oldtuple.map jsonTold | .new => newtuple.map jsonTold) := by
    rw [pglogicalJsonWriteChange, jsonWriteTuple?_eq, jsonWriteTuple?_eq]
    rfl
  cases change with
  | insert newtuple =>
    refine (written "I" none (some newtuple)).trans (congrArg _ (funext fun role => ?_))
    cases role <;> rfl
  | update oldtuple newtuple =>
    refine (written "U" oldtuple (some newtuple)).trans (congrArg _ (funext fun role => ?_))
    cases role <;> rfl
  | delete oldtuple =>
    refine (written "D" (some oldtuple) none).trans (congrArg _ (funext fun role => ?_))
    cases role <;> rfl

/-- The names and values in the native message, by `writeNative_eq`, and in the RELATION message it refers to. -/
def RowChange.nativeSent (change : RowChange desc) (attList : Option Bitmapset) :
    Set (TupleRole × NameData × Disclosed) :=
  { entry | ∃ tuple ∈ change.tuple? entry.1, ∃ column ∈ tuple.sentColumns attList,
      entry.2 = (column.1.attname, nativeDisclosed column.1 column.2) }

/-- The names and values in the JSON message, by `writeJson_eq`. -/
def RowChange.jsonSent (change : RowChange desc) : Set (TupleRole × NameData × Disclosed) :=
  { entry | ∃ tuple ∈ change.tuple? entry.1, ∃ column ∈ jsonColumns tuple,
      entry.2 = (column.1.attname, jsonDisclosed column.2) }

theorem mem_sentColumns_iff {tuple : HeapTuple desc} {column : FormPgAttribute × Option Datum} :
    column ∈ tuple.sentColumns attList ↔ column ∈ jsonColumns tuple ∧ column.1.sent attList = true := by
  simp only [HeapTuple.sentColumns, jsonColumns, List.mem_filter, Bool.not_eq_true', and_assoc]
  refine and_congr_right fun _ => ⟨fun sent => ⟨?_, sent⟩, And.right⟩
  simp only [FormPgAttribute.sent, Bool.and_eq_true, Bool.not_eq_true'] at sent
  exact sent.1

/-- A column is known by its name. -/
theorem column_unique {tuple : HeapTuple desc} {column other : FormPgAttribute × Option Datum}
    (inside : column ∈ jsonColumns tuple) (otherInside : other ∈ jsonColumns tuple)
    (name : column.1.attname = other.1.attname) : column = other := by
  have names : ((desc.attrs.zip tuple.values).map fun column => column.1.attname).Nodup := by
    have attrs : (desc.attrs.zip tuple.values).map Prod.fst = desc.attrs :=
      List.map_fst_zip (le_of_eq tuple.length.symm)
    have named := desc.named
    rw [← attrs, List.map_map] at named
    exact named
  exact List.inj_on_of_nodup_map names (List.mem_filter.mp inside).1 (List.mem_filter.mp otherInside).1 name

/-- The formats disclose the same columns exactly if every live column is listed and none of them is an
unchanged TOAST column. -/
theorem formats_disclose_same_columns_iff (change : RowChange desc) (attList : Option Bitmapset) :
    change.jsonSent = change.nativeSent attList ↔
      ∀ role, ∀ tuple ∈ change.tuple? role, ∀ column ∈ jsonColumns tuple,
        column.1.sent attList = true ∧ ¬ Unchanged column := by
  constructor
  · intro same role tuple member column inside
    have entry : (role, column.1.attname, jsonDisclosed column.2) ∈ change.jsonSent :=
      ⟨tuple, member, column, inside, rfl⟩
    rw [same] at entry
    obtain ⟨_, sameTuple, other, sent, told⟩ := entry
    cases Option.mem_unique member sameTuple
    obtain ⟨otherInside, listed⟩ := mem_sentColumns_iff.mp sent
    obtain ⟨name, disclosed⟩ := Prod.mk.inj told
    cases column_unique inside otherInside name
    exact ⟨listed, (disclosed_eq_iff column).mp disclosed.symm⟩
  · intro agrees
    ext ⟨role, entry⟩
    constructor
    · rintro ⟨tuple, member, column, inside, rfl⟩
      obtain ⟨listed, changed⟩ := agrees role tuple member column inside
      refine ⟨tuple, member, column, mem_sentColumns_iff.mpr ⟨inside, listed⟩, ?_⟩
      rw [(disclosed_eq_iff column).mpr changed]
    · rintro ⟨tuple, member, column, sent, rfl⟩
      obtain ⟨inside, _⟩ := mem_sentColumns_iff.mp sent
      refine ⟨tuple, member, column, inside, ?_⟩
      rw [(disclosed_eq_iff column).mpr (agrees role tuple member column inside).2]

/-- `int4` and a text type in JSON, on short values. -/
def sampleFunctions : JsonFunctions where
  timestamptzToStr := fun _ => ⟨[], by decide⟩
  escapeJson := fun s => text "\"" ++ s.val ++ text "\""
  datumToJson := fun _ datum => .ok <| match datum with
    | .byval word => text (decimal word.toNat)
    | other => text "\"" ++ other.data.drop 4 ++ text "\""
  detoast := fun _ => .error "missing chunk number 0 for toast value"

/-- An INSERT with a list that leaves the second column out. The JSON message has its value. -/
theorem excluded_column_in_json :
    let change : RowChange sampleRel.desc := .insert sampleTuple
    change.writeNative sampleCatalog ⟨false, false⟩ sampleRel (some {9}) [] =
      .ok ((), [73, 0, 0, 0, 64, 16, 78, 84, 0, 1, 116, 0, 0, 0, 2, 55, 0]) ∧
    change.writeJson sampleFunctions sampleCatalog sampleRel (some {9}) [] = .ok ((), text
      "\x7b\"action\":\"I\",\"relation\":[\"p\",\"t\"],\"newtuple\":\x7b\"id\":7,\"no\":\"hi\"\x7d\x7d") ∧
    change.jsonSent ≠ change.nativeSent (some {9}) := by
  intro change
  refine ⟨by decide +kernel, by decide +kernel, fun same => ?_⟩
  have entry : (TupleRole.new, (sampleNote 3).attname, Disclosed.value (.byref [24, 0, 0, 0, 104, 105])) ∈
      change.jsonSent :=
    ⟨sampleTuple, rfl, (sampleNote 3, some (.byref [24, 0, 0, 0, 104, 105])), by decide +kernel, rfl⟩
  rw [same] at entry
  obtain ⟨_, member, column, sent, told⟩ := entry
  cases member
  have only : sampleTuple.sentColumns (some {9}) = [(sampleId 1, some (.byval 7))] := by decide +kernel
  rw [only, List.mem_singleton] at sent
  subst sent
  exact absurd (Prod.mk.inj told).1 (by decide)

end PGLogical.Json
