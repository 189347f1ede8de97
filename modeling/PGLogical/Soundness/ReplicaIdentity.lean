import PGLogical.Soundness.AppliedRow
import PGLogical.Soundness.UniqueConflict

/-! # Finding the row of an UPDATE or DELETE

The provider sends the old key of a row, or nothing but the new row if the key has not changed. The
subscriber searches its replica identity index with whichever tuple it got. A key column that is sent as
unchanged, because it is a TOAST pointer on disk, arrives as a NULL in that tuple and matches no row.
This happens only in a new row without an old key.
-/

namespace PGLogical.Apply

open Machine Wire Native

section Identity

variable {catalog : Catalog} {data : PGLogicalOutputData} {session : LocalCatalog} {hash : PGLogicalRelationHash}
variable {scratch : PGLogicalTupleData} {rel : Relation} {nspname : NameData} {attList : Option Bitmapset}
variable {here : LocalRelation} {entry : PGLogicalRelation} {index : IndexInfo} {heap : List StoredRow}
variable {tup : PGLogicalTupleData} {ident : FormPgAttribute → Datum} {stored : StoredRow}

/-- Where a column of the provider is in the local table. -/
def position (here : TupleDesc) (att : FormPgAttribute) : ℕ :=
  here.attrs.findIdx fun column => decide (column.attname.str = att.attname.str)

/-- The columns of the replica identity. -/
def identityColumns (rel : Relation) (attList : Option Bitmapset) : List FormPgAttribute :=
  (rel.desc.sentAttributes attList).filter fun att => decide (att.member ∈ rel.identityKey)

/-- The index has the provider's identity columns, is not partial, and compares values. -/
structure SameIdentity (io : TypeFunctions) (rel : Relation) (attList : Option Bitmapset) (here : TupleDesc)
    (index : IndexInfo) : Prop where
  /-- REPLICA IDENTITY columns must be replicated. -/
  replicated : ∀ att ∈ rel.desc.attrs, att.attisdropped = false → att.member ∈ rel.identityKey → att.sent attList = true
  indkey : ∀ attnum, attnum ∈ index.indkey ↔ ∃ att ∈ identityColumns rel attList, position here att = attnum
  predicate : ∀ row, index.predicate row = true
  respects : ∀ attnum a b value, io.SameValue a b → index.equal attnum a value = index.equal attnum b value

/-- The local row has these identity values. -/
def Identifies (rel : Relation) (attList : Option Bitmapset) (here : TupleDesc) (index : IndexInfo)
    (ident : FormPgAttribute → Datum) (stored : StoredRow) : Prop :=
  ∀ att ∈ identityColumns rel attList,
    ∃ value, stored.row (position here att) = some value ∧ index.equal (position here att) (ident att) value = true

/-! ## The scan key -/

/-- The tuple has the identity values in its key columns. -/
def HasKey (rel : Relation) (attList : Option Bitmapset) (here : TupleDesc) (index : IndexInfo)
    (ident : FormPgAttribute → Datum) (tup : PGLogicalTupleData) : Prop :=
  ∀ att ∈ identityColumns rel attList, ∃ datum, argument tup (position here att) = some datum ∧
    ∀ value, index.equal (position here att) datum value = index.equal (position here att) (ident att) value

theorem HasKey.equalKeys_iff (identity : SameIdentity catalog.io rel attList here.desc index)
    (key : HasKey rel attList here.desc index ident tup) :
    EqualKeys index (argument tup) stored.row ↔ Identifies rel attList here.desc index ident stored := by
  constructor
  · intro equal att listed
    obtain ⟨datum, held, same⟩ := key att listed
    have matched := equal (position here.desc att) ((identity.indkey _).mpr ⟨att, listed, rfl⟩)
    obtain ⟨wanted, value, sought, found, equal⟩ := keyMatches_eq_true.mp matched
    rw [held] at sought
    cases sought
    exact ⟨value, found, (same value).symm.trans equal⟩
  · intro identifies attnum member
    obtain ⟨att, listed, rfl⟩ := (identity.indkey attnum).mp member
    obtain ⟨datum, held, same⟩ := key att listed
    obtain ⟨value, found, equal⟩ := identifies att listed
    exact keyMatches_eq_true.mpr ⟨datum, value, held, found, (same value).trans equal⟩

/-- The only row with the identity values is found. -/
theorem findReplidx_of_hasKey (identity : SameIdentity catalog.io rel attList here.desc index)
    (key : HasKey rel attList here.desc index ident tup) (member : stored ∈ heap)
    (identifies : Identifies rel attList here.desc index ident stored)
    (only : ∀ other ∈ heap, Identifies rel attList here.desc index ident other → other = stored) :
    pglogicalTupleFindReplidx (some index) heap tup = .ok (some stored) := by
  have accepts : ∀ other : StoredRow,
      (index.predicate other.row && scanMatches index (buildIndexScanKey index tup).1 other.row) = true ↔
        Identifies rel attList here.desc index ident other := by
    intro other
    rw [identity.predicate, Bool.true_and, scanMatches_eq, key.equalKeys_iff identity]
  have hits : (findIndexTuple index heap (buildIndexScanKey index tup).1).isSome = true :=
    List.find?_isSome.mpr ⟨stored, member, (accepts stored).mpr identifies⟩
  obtain ⟨found, first⟩ := Option.isSome_iff_exists.mp hits
  have accepted := List.find?_some first
  have same := only found (findIndexTuple_mem first) ((accepts found).mp accepted)
  rw [same] at first
  exact congrArg Except.ok first

/-- A NULL in the key finds nothing. -/
theorem findReplidx_of_null {att : FormPgAttribute} (identity : SameIdentity catalog.io rel attList here.desc index)
    (listed : att ∈ identityColumns rel attList) (isNull : argument tup (position here.desc att) = none) :
    pglogicalTupleFindReplidx (some index) heap tup = .ok none := by
  refine congrArg Except.ok (List.find?_eq_none.mpr fun other _ accepted => ?_)
  rw [Bool.and_eq_true, scanMatches_eq] at accepted
  have matched := accepted.2 (position here.desc att) ((identity.indkey _).mpr ⟨att, listed, rfl⟩)
  rw [isNull] at matched
  cases matched

/-! ## What arrives -/

theorem columnReceived_of_mem {io : TypeFunctions} {tuple : HeapTuple rel.desc}
    (received : Received io (columnMap here.desc (sentNames rel attList)) (tuple.sentColumns attList) tup)
    {column : FormPgAttribute × Option Datum} (member : column ∈ tuple.sentColumns attList) :
    ColumnReceived io tup (position here.desc column.1) column.2 := by
  have positions : columnMap here.desc (sentNames rel attList) =
      (tuple.sentColumns attList).map fun column => position here.desc column.1 := by
    rw [columnMap, sentNames, ← tuple.map_sentColumns attList, List.map_map, List.map_map]
    rfl
  have columns := received.columns
  rw [positions, List.forall₂_map_left_iff, List.forall₂_same] at columns
  exact columns column member

/-- The old key holds the identity values, none of them as a pointer to disk. -/
def HoldsKey (io : TypeFunctions) (rel : Relation) (attList : Option Bitmapset) (ident : FormPgAttribute → Datum)
    (tuple : HeapTuple rel.desc) : Prop :=
  ∀ column ∈ tuple.sentColumns attList, column.1.member ∈ rel.identityKey →
    ∃ datum, column.2 = some datum ∧ datum.isExternalOndisk = false ∧ io.SameValue datum (ident column.1)

theorem HoldsKey.hasKey {tuple : HeapTuple rel.desc} (identity : SameIdentity catalog.io rel attList here.desc index)
    (holds : HoldsKey catalog.io rel attList ident tuple)
    (received : Received catalog.io (columnMap here.desc (sentNames rel attList)) (tuple.sentColumns attList) tup) :
    HasKey rel attList here.desc index ident tup := by
  intro att listed
  obtain ⟨sent, isKey⟩ := List.mem_filter.mp listed
  rw [← tuple.map_sentColumns attList] at sent
  obtain ⟨column, member, rfl⟩ := List.mem_map.mp sent
  obtain ⟨datum, value, inline, same⟩ := holds column member (of_decide_eq_true isKey)
  have arrived := columnReceived_of_mem received member
  rw [value] at arrived
  have stored : tup.nulls (position here.desc column.1) = false ∧
      catalog.io.SameValue (tup.values (position here.desc column.1)) datum := by
    cases datum with
    | externalOndisk pointer => cases inline
    | byval word => exact ⟨arrived.1, arrived.2.2⟩
    | byref bytes => exact ⟨arrived.1, arrived.2.2⟩
    | externalIndirect target => exact ⟨arrived.1, arrived.2.2⟩
  refine ⟨tup.values (position here.desc column.1), by simp [argument, stored.1], fun value => ?_⟩
  rw [identity.respects _ _ _ _ stored.2, identity.respects _ _ _ _ same]

/-- A column that does not count as changed is a NULL in the arrays. -/
def Consistent (tuple : PGLogicalTupleData) : Prop := ∀ attnum, tuple.changed attnum = false → tuple.nulls attnum = true

theorem Consistent.receive {tuple : PGLogicalTupleData} (consistent : Consistent tuple) (column : ℕ × SentColumn) :
    Consistent (receive tuple column) := by
  obtain ⟨attid, sent⟩ := column
  intro attnum unchanged
  by_cases same : attnum = attid
  · subst same
    cases sent with
    | null => simp [Apply.receive] at unchanged
    | unchanged => exact consistent attnum unchanged
    | value datum => simp [Apply.receive, PGLogicalTupleData.set] at unchanged
  · obtain ⟨-, nulls, changed⟩ := receive_of_ne tuple sent same
    rw [changed] at unchanged
    rw [nulls]
    exact consistent attnum unchanged

theorem consistent_foldl {columns : List (ℕ × SentColumn)} {tuple : PGLogicalTupleData} (consistent : Consistent tuple) :
    Consistent (columns.foldl receive tuple) := by
  induction columns generalizing tuple with
  | nil => exact consistent
  | cons column rest ih => exact ih (consistent.receive column)

theorem consistent_of_readTuple {io : TypeFunctions} {opened : PGLogicalRelation} {desc : TupleDesc} {bytes rest : Bytes}
    (read : pglogicalReadTuple io opened desc scratch bytes = .ok (tup, rest)) : Consistent tup := by
  obtain ⟨sent, -, isRead⟩ := exists_read read
  rw [isRead]
  exact consistent_foldl fun _ _ => rfl

theorem consistent_of_readUpdate {io : TypeFunctions} {bytes rest : Bytes} {hash' : PGLogicalRelationHash}
    {opened : PGLogicalRelation} {newtup : PGLogicalTupleData} {oldtup : Option PGLogicalTupleData}
    (read : pglogicalReadUpdate ⟨io, session⟩ hash scratch scratch bytes = .ok ((opened, oldtup, newtup, hash'), rest)) :
    Consistent newtup := by
  unfold pglogicalReadUpdate at read
  obtain ⟨⟨flags, tail⟩, -, read⟩ := bind_eq_ok.mp read
  obtain ⟨⟨relid, tail⟩, -, read⟩ := bind_eq_ok.mp read
  obtain ⟨⟨action, tail⟩, -, read⟩ := bind_eq_ok.mp read
  obtain ⟨⟨checked, tail⟩, -, read⟩ := bind_eq_ok.mp read
  obtain ⟨⟨⟨rel, table, hash⟩, tail⟩, -, read⟩ := bind_eq_ok.mp read
  dsimp only at read
  split_ifs at read
  · obtain ⟨⟨old, tail⟩, -, read⟩ := bind_eq_ok.mp read
    obtain ⟨⟨action, tail⟩, -, read⟩ := bind_eq_ok.mp read
    obtain ⟨⟨checked, tail⟩, -, read⟩ := bind_eq_ok.mp read
    obtain ⟨⟨new, tail⟩, newRead, read⟩ := bind_eq_ok.mp read
    cases read
    exact consistent_of_readTuple newRead
  · obtain ⟨⟨checked, tail⟩, -, read⟩ := bind_eq_ok.mp read
    obtain ⟨⟨new, tail⟩, newRead, read⟩ := bind_eq_ok.mp read
    cases read
    exact consistent_of_readTuple newRead

/-- The tuple that the handler of a message searches with. -/
def searchtup : Message → Option PGLogicalTupleData
  | .update _ oldtup newtup => some (oldtup.getD newtup)
  | .delete _ oldtup => some oldtup
  | _ => none

/-- The new row arrives in the arrays in the same way as a tuple on its own. -/
theorem consistent_of_readMessage {io : TypeFunctions} {bytes rest : Bytes} {hash' : PGLogicalRelationHash}
    {opened : PGLogicalRelation} {newtup : PGLogicalTupleData}
    (read : readMessage ⟨io, session⟩ hash scratch bytes = .ok ((.update opened none newtup, hash'), rest)) :
    Consistent newtup := by
  unfold readMessage at read
  obtain ⟨⟨action, tail⟩, -, read⟩ := bind_eq_ok.mp read
  dsimp only at read
  split_ifs at read
  · obtain ⟨_, -, read⟩ := bind_eq_ok.mp read
    cases read
  · obtain ⟨_, -, read⟩ := bind_eq_ok.mp read
    cases read
  · obtain ⟨_, -, read⟩ := bind_eq_ok.mp read
    cases read
  · obtain ⟨_, -, read⟩ := bind_eq_ok.mp read
    cases read
  · obtain ⟨_, -, read⟩ := bind_eq_ok.mp read
    cases read
  · obtain ⟨⟨⟨opened', oldtup, newtup', hash''⟩, tail'⟩, update, read⟩ := bind_eq_ok.mp read
    cases read
    exact consistent_of_readUpdate update
  · obtain ⟨_, -, read⟩ := bind_eq_ok.mp read
    cases read
  · obtain ⟨_, -, read⟩ := bind_eq_ok.mp read
    cases read
  · cases read

/-! ## Changes of the provider -/

/-- An UPDATE, with or without the old key, or a DELETE. -/
inductive Change (rel : Relation) where
  | update (oldtuple : Option (HeapTuple rel.desc)) (newtuple : HeapTuple rel.desc)
  | delete (oldtuple : HeapTuple rel.desc)

def writeChange (catalog : Catalog) (data : PGLogicalOutputData) (rel : Relation) (attList : Option Bitmapset) :
    Change rel → Writer Unit
  | .update oldtuple newtuple => pglogicalWriteUpdate catalog data rel oldtuple newtuple attList
  | .delete oldtuple => pglogicalWriteDelete catalog data rel oldtuple attList

def Change.tuples : Change rel → List (HeapTuple rel.desc)
  | .update oldtuple newtuple => newtuple :: oldtuple.toList
  | .delete oldtuple => [oldtuple]

/-- Without an old key the key has not changed: the new row holds it, or points to it on disk. -/
def HoldsUnchangedKey (io : TypeFunctions) (rel : Relation) (attList : Option Bitmapset) (ident : FormPgAttribute → Datum)
    (tuple : HeapTuple rel.desc) : Prop :=
  ∀ column ∈ tuple.sentColumns attList, column.1.member ∈ rel.identityKey →
    ∃ datum, column.2 = some datum ∧ (datum.isExternalOndisk = true ∨ io.SameValue datum (ident column.1))

/-- The forms in which a change of the row with these identity values is decoded. -/
def Change.Of (io : TypeFunctions) (attList : Option Bitmapset) (ident : FormPgAttribute → Datum) : Change rel → Prop
  | .update (some oldtuple) _ => HoldsKey io rel attList ident oldtuple
  | .update none newtuple => HoldsUnchangedKey io rel attList ident newtuple
  | .delete oldtuple => HoldsKey io rel attList ident oldtuple

/-- The old key is sent, or no key column of the new row is a pointer to disk. -/
def Change.Inline (attList : Option Bitmapset) : Change rel → Prop
  | .update none newtuple => ∀ column ∈ newtuple.sentColumns attList, column.1.member ∈ rel.identityKey →
      ∀ datum ∈ column.2, datum.isExternalOndisk = false
  | _ => True

/-- The handler of the message finds the row and no other. -/
def Finds (io : TypeFunctions) (session : LocalCatalog) (hash : PGLogicalRelationHash) (scratch : PGLogicalTupleData)
    (index : IndexInfo) (heap : List StoredRow) (message : Bytes) (stored : StoredRow) : Prop :=
  ∃ read hash' tup, readMessage ⟨io, session⟩ hash scratch message = .ok ((read, hash'), []) ∧ searchtup read = some tup ∧
    pglogicalTupleFindReplidx (some index) heap tup = .ok (some stored)

theorem Decodes.read_all {α : Type} {w : Writer Unit} {r : Reader α} {P : α → Prop} {message : Bytes}
    (decodes : Decodes w r P) (written : w [] = .ok ((), message)) : ∃ value, P value ∧ r message = .ok (value, []) := by
  obtain ⟨appended, value, same, holds, reads⟩ := decodes written
  have all := reads []
  rw [List.append_nil] at all
  rw [List.nil_append] at same
  rw [same]
  exact ⟨value, holds, all⟩

theorem HoldsUnchangedKey.holdsKey {io : TypeFunctions} {newtuple : HeapTuple rel.desc}
    (unchanged : HoldsUnchangedKey io rel attList ident newtuple)
    (inline : (Change.update none newtuple).Inline attList) : HoldsKey io rel attList ident newtuple := by
  intro column member isKey
  obtain ⟨datum, value, same⟩ := unchanged column member isKey
  have notPointer := inline column member isKey datum (by rw [value]; rfl)
  refine ⟨datum, value, notPointer, same.resolve_left ?_⟩
  rw [notPointer]
  decide

/-- A key column on disk makes the search fail. -/
theorem findReplidx_of_ondisk {newtuple : HeapTuple rel.desc} {column : FormPgAttribute × Option Datum} {datum : Datum}
    (identity : SameIdentity catalog.io rel attList here.desc index)
    (received : Received catalog.io (columnMap here.desc (sentNames rel attList)) (newtuple.sentColumns attList) tup)
    (consistent : Consistent tup) (member : column ∈ newtuple.sentColumns attList)
    (isKey : column.1.member ∈ rel.identityKey) (value : column.2 = some datum)
    (ondisk : datum.isExternalOndisk = true) : pglogicalTupleFindReplidx (some index) heap tup = .ok none := by
  have arrived := columnReceived_of_mem received member
  rw [value] at arrived
  have unchanged : tup.changed (position here.desc column.1) = false := by
    cases datum with
    | externalOndisk pointer => exact arrived
    | byval word => cases ondisk
    | byref bytes => cases ondisk
    | externalIndirect target => cases ondisk
  have listed : column.1 ∈ identityColumns rel attList := by
    refine List.mem_filter.mpr ⟨?_, decide_eq_true isKey⟩
    rw [← newtuple.map_sentColumns attList]
    exact List.mem_map_of_mem member
  refine findReplidx_of_null identity listed ?_
  simp [argument, consistent _ unchanged]

/-- What the subscriber searches with when it has read the message. -/
theorem exists_searchtup (scratch : PGLogicalTupleData) (opens : Opens session nspname.str rel.relname.str here)
    (columns : SameColumns here.desc (rel.desc.sentAttributes attList))
    (describes : Describes hash rel nspname attList here entry) {change : Change rel} {message : Bytes}
    (invertible : ∀ tuple ∈ change.tuples, Invertible catalog attList tuple)
    (written : writeChange catalog data rel attList change [] = .ok ((), message)) :
    ∃ read hash' tup, readMessage ⟨catalog.io, session⟩ hash scratch message = .ok ((read, hash'), []) ∧
      searchtup read = some tup ∧
      match change with
      | .update (some oldtuple) _ =>
          Received catalog.io (columnMap here.desc (sentNames rel attList)) (oldtuple.sentColumns attList) tup
      | .update none newtuple =>
          Received catalog.io (columnMap here.desc (sentNames rel attList)) (newtuple.sentColumns attList) tup ∧
            Consistent tup
      | .delete oldtuple =>
          Received catalog.io (columnMap here.desc (sentNames rel attList)) (oldtuple.sentColumns attList) tup := by
  cases change with
  | delete oldtuple =>
    obtain ⟨⟨_, hash'⟩, ⟨opened, oldtup, rfl, -, attmap, received⟩, read⟩ :=
      Decodes.read_all (decodes_delete opens columns describes (invertible oldtuple (by simp [Change.tuples]))) written
    rw [attmap] at received
    exact ⟨_, hash', oldtup, read, rfl, received⟩
  | update oldtuple newtuple =>
    obtain ⟨⟨_, hash'⟩, ⟨opened, oldtup, newtup, rfl, -, attmap, oldReceived, received⟩, read⟩ :=
      Decodes.read_all (decodes_update opens columns describes
        (fun old isOld => invertible old (by simp [Change.tuples, Option.mem_def.mp isOld]))
        (invertible newtuple (by simp [Change.tuples]))) written
    rw [attmap] at received oldReceived
    cases oldReceived with
    | none => exact ⟨_, hash', newtup, read, rfl, received, consistent_of_readMessage read⟩
    | some oldReceived => exact ⟨_, hash', _, read, rfl, oldReceived⟩

theorem finds_iff (opens : Opens session nspname.str rel.relname.str here)
    (columns : SameColumns here.desc (rel.desc.sentAttributes attList))
    (describes : Describes hash rel nspname attList here entry)
    (identity : SameIdentity catalog.io rel attList here.desc index) {change : Change rel} {message : Bytes}
    (invertible : ∀ tuple ∈ change.tuples, Invertible catalog attList tuple)
    (ofRow : change.Of catalog.io attList ident) (member : stored ∈ heap)
    (identifies : Identifies rel attList here.desc index ident stored)
    (only : ∀ other ∈ heap, Identifies rel attList here.desc index ident other → other = stored)
    (written : writeChange catalog data rel attList change [] = .ok ((), message)) :
    Finds catalog.io session hash scratch index heap message stored ↔ change.Inline attList := by
  obtain ⟨read, hash', tup, isRead, isTup, arrived⟩ := exists_searchtup scratch opens columns describes invertible
    written
  have searches : Finds catalog.io session hash scratch index heap message stored ↔
      pglogicalTupleFindReplidx (some index) heap tup = .ok (some stored) := by
    constructor
    · rintro ⟨read', hash'', tup', isRead', isTup', found⟩
      rw [isRead] at isRead'
      cases isRead'
      rw [isTup] at isTup'
      cases isTup'
      exact found
    · exact fun found => ⟨read, hash', tup, isRead, isTup, found⟩
  have found_of_key : HasKey rel attList here.desc index ident tup →
      pglogicalTupleFindReplidx (some index) heap tup = .ok (some stored) :=
    fun key => findReplidx_of_hasKey identity key member identifies only
  rw [searches]
  cases change with
  | delete oldtuple => exact iff_of_true (found_of_key (HoldsKey.hasKey identity ofRow arrived)) trivial
  | update oldtuple newtuple =>
    cases oldtuple with
    | some oldtuple => exact iff_of_true (found_of_key (HoldsKey.hasKey identity ofRow arrived)) trivial
    | none =>
      constructor
      · intro found column listed isKey datum value
        rw [Option.mem_def] at value
        by_contra pointer
        rw [Bool.not_eq_false] at pointer
        rw [findReplidx_of_ondisk identity arrived.1 arrived.2 listed isKey value pointer] at found
        cases found
      · exact fun inline => found_of_key (HoldsKey.hasKey identity (HoldsUnchangedKey.holdsKey ofRow inline) arrived.1)

end Identity

/-! ## A key on disk -/

/-- A table whose key is its text column. -/
def textKeyRel : Relation := { sampleRel with identityKey := {11} }

def textKeyIndex : IndexInfo where
  indexrelid := 17001
  unique := true
  expressions := false
  indkey := [0]
  equal := fun _ wanted value => decide (wanted.data = value.data ∧ wanted.word = value.word)
  predicate := fun _ => true

def textKey : Datum := .byref [24, 0, 0, 0, 104, 105]

def textKeyRow : StoredRow := ⟨0, ⟨fun attnum => if attnum = 0 then some textKey else some (.byval 7), 80, 600, 0⟩⟩

/-- The row behind an UPDATE of the id; the text is where it was. -/
def textKeyTuple : HeapTuple textKeyRel.desc where
  tLen := 40
  values := [some (.byval 8), none, some (.externalOndisk [24, 0, 0, 0, 104, 105])]
  length := rfl
  holds := by decide

theorem sentColumns_textKey : textKeyTuple.sentColumns none =
    [(sampleId 1, some (.byval 8)), (sampleNote 3, some (.externalOndisk [24, 0, 0, 0, 104, 105]))] := by rfl

theorem invertible_textKey : Invertible sampleCatalog none textKeyTuple := by
  intro column inside datum held
  rw [sentColumns_textKey] at inside
  simp only [List.mem_cons, List.not_mem_nil, or_false] at inside
  rcases inside with rfl | rfl
  · cases held
    constructor
    · intro s printed
      obtain rfl := Except.ok.inj printed
      exact ⟨.byval 8, rfl, rfl, rfl⟩
    · intro bytes sent
      obtain rfl := Except.ok.inj sent
      exact ⟨.byval 8, rfl, rfl, rfl⟩
    · intro word equal
      cases equal
      rfl
  · cases held
    constructor
    · intro s printed
      obtain rfl := Except.ok.inj printed
      exact ⟨textKey, rfl, rfl, rfl⟩
    · intro bytes sent
      obtain rfl := Except.ok.inj sent
      exact ⟨textKey, rfl, rfl, rfl⟩
    · intro word equal
      cases equal

theorem identityColumns_textKey : identityColumns textKeyRel none = [sampleNote 3] := by rfl

theorem sameIdentity_textKey : SameIdentity sampleCatalog.io textKeyRel none sampleHere.desc textKeyIndex where
  replicated := by decide
  indkey := by
    intro attnum
    rw [identityColumns_textKey]
    simp [textKeyIndex, eq_comm, show position sampleHere.desc (sampleNote 3) = 0 from rfl]
  predicate := fun _ => rfl
  respects := by
    rintro attnum a b value ⟨sameData, sameWord⟩
    simp [textKeyIndex, sameData, sameWord]

theorem identifies_textKey : Identifies textKeyRel none sampleHere.desc textKeyIndex (fun _ => textKey) textKeyRow := by
  intro att listed
  rw [identityColumns_textKey] at listed
  rw [List.mem_singleton.mp listed]
  exact ⟨textKey, rfl, rfl⟩

theorem textKey_of : (Change.update none textKeyTuple).Of sampleCatalog.io none fun _ => textKey := by
  intro column member isKey
  rw [sentColumns_textKey] at member
  simp only [List.mem_cons, List.not_mem_nil, or_false] at member
  rcases member with rfl | rfl
  · exact absurd isKey (by decide)
  · exact ⟨_, rfl, .inl rfl⟩

/-- The cache after the RELATION message. -/
def textKeyHash : PGLogicalRelationHash :=
  pglogicalRelationCacheUpdate (.create false) 16400 sampleSchema.str textKeyRel.relname.str (sentNames textKeyRel none)

theorem written_textKey : writeChange sampleCatalog ⟨true, false⟩ textKeyRel none (.update none textKeyTuple) [] =
    .ok ((), [85, 0, 0, 0, 64, 16, 78, 84, 0, 2, 105, 0, 0, 0, 4, 8, 0, 0, 0, 117]) := by rfl

theorem opens_textKey : Opens sampleSession sampleSchema.str textKeyRel.relname.str sampleHere := ⟨rfl, rfl, by decide⟩

/-- The same UPDATE with the text in the tuple. -/
def inlineKeyTuple : HeapTuple textKeyRel.desc where
  tLen := 40
  values := [some (.byval 8), none, some textKey]
  length := rfl
  holds := by decide

theorem sentColumns_inlineKey : inlineKeyTuple.sentColumns none =
    [(sampleId 1, some (.byval 8)), (sampleNote 3, some textKey)] := by rfl

theorem invertible_inlineKey :
    ∀ tuple ∈ (Change.update none inlineKeyTuple).tuples, Invertible sampleCatalog none tuple := by
  intro tuple listed column inside datum held
  rw [List.mem_singleton.mp listed, sentColumns_inlineKey] at inside
  simp only [List.mem_cons, List.not_mem_nil, or_false] at inside
  rcases inside with rfl | rfl
  · exact invertible_textKey (sampleId 1, some (.byval 8)) (List.mem_cons_self ..) datum held
  · exact sample_invertible (sampleNote 3, some textKey) (List.mem_cons_of_mem _ (List.mem_cons_self ..)) datum held

theorem inlineKey_of : (Change.update none inlineKeyTuple).Of sampleCatalog.io none fun _ => textKey := by
  intro column member isKey
  rw [sentColumns_inlineKey] at member
  simp only [List.mem_cons, List.not_mem_nil, or_false] at member
  rcases member with rfl | rfl
  · exact absurd isKey (by decide)
  · exact ⟨_, rfl, .inr ⟨rfl, rfl⟩⟩

theorem inlineKey_inline : (Change.update none inlineKeyTuple).Inline none := by
  intro column member isKey datum value
  rw [sentColumns_inlineKey] at member
  simp only [List.mem_cons, List.not_mem_nil, or_false] at member
  rcases member with rfl | rfl
  · exact absurd isKey (by decide)
  · cases value
    rfl

theorem finds_inlineKey :
    Finds sampleCatalog.io sampleSession textKeyHash (noteKey 0) textKeyIndex [textKeyRow]
      [85, 0, 0, 0, 64, 16, 78, 84, 0, 2, 105, 0, 0, 0, 4, 8, 0, 0, 0, 116, 0, 0, 0, 3, 104, 105, 0] textKeyRow := by
  obtain ⟨entry, describes⟩ := describes_cacheUpdate (.create false) textKeyRel sampleSchema none sampleHere
  have written : writeChange sampleCatalog ⟨true, false⟩ textKeyRel none (.update none inlineKeyTuple) [] =
      .ok ((), [85, 0, 0, 0, 64, 16, 78, 84, 0, 2, 105, 0, 0, 0, 4, 8, 0, 0, 0, 116, 0, 0, 0, 3, 104, 105, 0]) := by rfl
  refine (finds_iff opens_textKey sample_columns describes sameIdentity_textKey invertible_inlineKey inlineKey_of
    (List.mem_singleton_self _) identifies_textKey (fun other listed _ => List.mem_singleton.mp listed) written).mpr ?_
  exact inlineKey_inline

/-- The row is there, and is not found. -/
theorem textKey_not_found :
    (Change.update none textKeyTuple).Of sampleCatalog.io none (fun _ => textKey) ∧
    SameIdentity sampleCatalog.io textKeyRel none sampleHere.desc textKeyIndex ∧
    Identifies textKeyRel none sampleHere.desc textKeyIndex (fun _ => textKey) textKeyRow ∧
    writeChange sampleCatalog ⟨true, false⟩ textKeyRel none (.update none textKeyTuple) [] =
      .ok ((), [85, 0, 0, 0, 64, 16, 78, 84, 0, 2, 105, 0, 0, 0, 4, 8, 0, 0, 0, 117]) ∧
    ¬ Finds sampleCatalog.io sampleSession textKeyHash (noteKey 0) textKeyIndex [textKeyRow]
      [85, 0, 0, 0, 64, 16, 78, 84, 0, 2, 105, 0, 0, 0, 4, 8, 0, 0, 0, 117] textKeyRow := by
  refine ⟨textKey_of, sameIdentity_textKey, identifies_textKey, written_textKey, ?_⟩
  rintro ⟨read, hash', tup, isRead, isTup, found⟩
  have lost : ∃ read hash' tup, readMessage ⟨sampleCatalog.io, sampleSession⟩ textKeyHash (noteKey 0)
      [85, 0, 0, 0, 64, 16, 78, 84, 0, 2, 105, 0, 0, 0, 4, 8, 0, 0, 0, 117] = .ok ((read, hash'), []) ∧
      searchtup read = some tup ∧ pglogicalTupleFindReplidx (some textKeyIndex) [textKeyRow] tup = .ok none :=
    ⟨_, _, _, rfl, rfl, rfl⟩
  obtain ⟨read', hash'', tup', isRead', isTup', notFound⟩ := lost
  rw [isRead] at isRead'
  cases isRead'
  rw [isTup] at isTup'
  cases isTup'
  rw [found] at notFound
  cases notFound

end PGLogical.Apply
