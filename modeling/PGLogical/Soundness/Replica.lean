import Mathlib.Algebra.Order.BigOperators.Group.List
import PGLogical.Model.Replica
import PGLogical.Soundness.ReplicaIdentity
import PGLogical.Soundness.RowReturns
import PGLogical.Soundness.Transfer

/-! # The subscriber mirrors the provider

The published tables of the provider are lists of rows, which its transactions insert, update and delete.
A table of the subscriber mirrors them if it has the same rows in its replicated columns and nobody else has
written there. Every change that is decoded, sent, read and applied keeps that, with the old key or without, with
the key changed or not, and with TOASTed values left out.
-/

namespace PGLogical.Replica

open Machine Wire Native Apply Callbacks Transfer

/-! ## The provider -/

/-- The value of each column, none of them as a pointer to disk. -/
abbrev PublishedRow := FormPgAttribute → Option Datum

/-- The rows of the published tables. -/
abbrev Tables := Oid → List PublishedRow

/-- The new row is decoded in full. -/
def Inserts (attList : Option Bitmapset) {desc : TupleDesc} (tuple : HeapTuple desc) (new : PublishedRow) : Prop :=
  ∀ column ∈ tuple.sentColumns attList, column.2 = new column.1 ∧ ∀ datum ∈ column.2, datum.isExternalOndisk = false

/-- A value on disk is the one of the old row. -/
def Rewrites (attList : Option Bitmapset) {desc : TupleDesc} (tuple : HeapTuple desc) (old new : PublishedRow) : Prop :=
  ∀ column ∈ tuple.sentColumns attList,
    ((∃ datum ∈ column.2, datum.isExternalOndisk = true) ∧ new column.1 = old column.1) ∨
      (column.2 = new column.1 ∧ ∀ datum ∈ column.2, datum.isExternalOndisk = false)

/-- The identity values of a row. -/
def identityValue (row : PublishedRow) (att : FormPgAttribute) : Datum := (row att).getD (.byval 0)

/-- What a statement does to the rows of a table, and the change that is decoded for it. -/
inductive Writes (io : TypeFunctions) (rel : Relation) (attList : Option Bitmapset) :
    List PublishedRow → ReorderBufferChange (HeapTuple rel.desc) → List PublishedRow → Prop
  | insert {rows : List PublishedRow} {tuple : HeapTuple rel.desc} {new : PublishedRow}
      (inserts : Inserts attList tuple new) : Writes io rel attList rows ⟨.insert, none, some tuple⟩ (rows ++ [new])
  | update {before behind : List PublishedRow} {old new : PublishedRow} {oldtuple : Option (HeapTuple rel.desc)}
      {newtuple : HeapTuple rel.desc} (rewrites : Rewrites attList newtuple old new)
      (keyed : Change.Of io attList (identityValue old) (.update oldtuple newtuple))
      (inline : Change.Inline attList (.update oldtuple newtuple)) :
      Writes io rel attList (before ++ old :: behind) ⟨.update, oldtuple, some newtuple⟩ (before ++ new :: behind)
  | delete {before behind : List PublishedRow} {old : PublishedRow} {oldtuple : HeapTuple rel.desc}
      (keyed : HoldsKey io rel attList (identityValue old) oldtuple) :
      Writes io rel attList (before ++ old :: behind) ⟨.delete, some oldtuple, none⟩ (before ++ behind)

section History

variable {catalog : Catalog} {session : LocalCatalog}

/-- The transactions of the provider, as logical decoding hands them to the plugin: what the tables hold, and
what they held at the last COMMIT. The states of a table are `legal`. A change of a table that is not published is
filtered out. -/
inductive Decoded (publication : Publication catalog session) (legal : Oid → List PublishedRow → Prop) :
    Tables × Tables → Callback → Tables × Tables → Prop
  | begin {tables : Tables × Tables} (txn : Json.ReorderBufferTXN) :
      Decoded publication legal tables (.begin txn) tables
  | change {tables committed : Tables} {table : PublishedTable catalog session}
      {change : ReorderBufferChange (HeapTuple table.rel.desc)} {rows : List PublishedRow}
      (listed : table ∈ publication.tables table.rel.relid)
      (writes : Writes catalog.io table.rel table.attList (tables table.rel.relid) change rows)
      (allowed : legal table.rel.relid rows) :
      Decoded publication legal (tables, committed) (.change table.rel change (some table.attList))
        (Function.update tables table.rel.relid rows, committed)
  | filtered {tables : Tables × Tables} {rel : Relation} {change : ReorderBufferChange (HeapTuple rel.desc)}
      (unlisted : publication.tables rel.relid = none) :
      Decoded publication legal tables (.change rel change none) tables
  | commit {tables committed : Tables} (txn : Json.ReorderBufferTXN) (commitLsn : UInt64) :
      Decoded publication legal (tables, committed) (.commit txn commitLsn) (tables, tables)

/-- One after the other, with invalidations in between. -/
inductive History (publication : Publication catalog session) (legal : Oid → List PublishedRow → Prop) :
    Tables × Tables → List Occurrence → Tables × Tables → Prop
  | nil {tables : Tables × Tables} : History publication legal tables [] tables
  | callback {tables mid tables' : Tables × Tables} {callback : Callback} {rest : List Occurrence}
      (now : Decoded publication legal tables callback mid) (later : History publication legal mid rest tables') :
      History publication legal tables (.callback callback :: rest) tables'
  | invalidate {tables tables' : Tables × Tables} {relid : Oid} {rest : List Occurrence}
      (later : History publication legal tables rest tables') :
      History publication legal tables (.invalidate relid :: rest) tables'

end History

/-! ## Mirrored rows -/

section Rows

variable {io : TypeFunctions} {rel : Relation} {attList : Option Bitmapset} {here : TupleDesc} {index : IndexInfo}
variable {rows : List PublishedRow} {heap : List StoredRow} {origin : RepOriginId}

/-- The local row has the values of the replicated columns. -/
def Copies (io : TypeFunctions) (rel : Relation) (attList : Option Bitmapset) (here : TupleDesc) (row : PublishedRow)
    (copy : Row) : Prop :=
  ∀ att ∈ rel.desc.sentAttributes attList, Option.Rel io.SameValue (copy (position here att)) (row att)

/-- The rows of the table are copies of the provider's, written by the worker. -/
structure Mirrors (io : TypeFunctions) (rel : Relation) (attList : Option Bitmapset) (here : TupleDesc)
    (origin : RepOriginId) (rows : List PublishedRow) (heap : List StoredRow) : Prop where
  copies : List.Forall₂ (fun row stored => Copies io rel attList here row stored.row) rows heap
  tids : (heap.map StoredRow.tSelf).Nodup
  own : ∀ stored ∈ heap, stored.version.origin = origin

/-- The operators of an index compare values, whatever represents them. -/
structure Compares (io : TypeFunctions) (index : IndexInfo) : Prop where
  reflexive : ∀ attnum a, index.equal attnum a a = true
  symmetric : ∀ attnum a b, index.equal attnum a b = true → index.equal attnum b a = true
  respects : ∀ attnum a b value, io.SameValue a b → index.equal attnum a value = index.equal attnum b value

/-- Two rows of the provider agree in the key columns of an index of the subscriber. -/
def SameKey (rel : Relation) (attList : Option Bitmapset) (here : TupleDesc) (index : IndexInfo)
    (a b : PublishedRow) : Prop :=
  ∀ att ∈ rel.desc.sentAttributes attList, position here att ∈ index.indkey →
    ∃ one other, a att = some one ∧ b att = some other ∧ index.equal (position here att) one other = true

/-- The provider has no two rows with the key. -/
def UniqueKey (rel : Relation) (attList : Option Bitmapset) (here : TupleDesc) (index : IndexInfo)
    (rows : List PublishedRow) : Prop :=
  rows.Pairwise fun a b => ¬ SameKey rel attList here index a b

theorem Compares.right (compares : Compares io index) {attnum : ℕ} {a b value : Datum} (same : io.SameValue a b) :
    index.equal attnum value a = index.equal attnum value b := by
  have swap : ∀ c d, index.equal attnum c d = index.equal attnum d c := fun c d =>
    Bool.eq_iff_iff.mpr ⟨compares.symmetric attnum c d, compares.symmetric attnum d c⟩
  rw [swap value a, swap value b, compares.respects attnum a b value same]

theorem SameKey.symm (compares : Compares io index) {a b : PublishedRow} (same : SameKey rel attList here index a b) :
    SameKey rel attList here index b a := by
  intro att sent inKey
  obtain ⟨one, other, isOne, isOther, equal⟩ := same att sent inKey
  exact ⟨other, one, isOther, isOne, compares.symmetric _ _ _ equal⟩

/-! ### Columns -/

/-- Different columns are at different positions. -/
theorem position_injective (columns : SameColumns here (rel.desc.sentAttributes attList)) {att other : FormPgAttribute}
    (sent : att ∈ rel.desc.sentAttributes attList) (sent' : other ∈ rel.desc.sentAttributes attList)
    (same : position here att = position here other) : att = other := by
  have distinct := columnMap_nodup columns (rel.desc.nodup_sentNames attList)
  rw [columnMap, List.map_map] at distinct
  exact List.inj_on_of_nodup_map distinct sent sent' same

theorem position_lt (columns : SameColumns here (rel.desc.sentAttributes attList)) {att : FormPgAttribute}
    (sent : att ∈ rel.desc.sentAttributes attList) : position here att < here.attrs.length := by
  obtain ⟨column, member, named, -⟩ := columns att sent
  exact (List.getElem?_eq_some_iff.mp (findIdx_attname member named)).1

theorem position_mem_columnMap {att : FormPgAttribute} (sent : att ∈ rel.desc.sentAttributes attList) :
    position here att ∈ columnMap here (sentNames rel attList) := by
  rw [columnMap, sentNames, List.map_map]
  exact List.mem_map_of_mem sent

theorem exists_sentColumn (tuple : HeapTuple rel.desc) {att : FormPgAttribute}
    (sent : att ∈ rel.desc.sentAttributes attList) : ∃ value, (att, value) ∈ tuple.sentColumns attList := by
  rw [← tuple.map_sentColumns attList] at sent
  obtain ⟨column, member, rfl⟩ := List.mem_map.mp sent
  exact ⟨column.2, member⟩

theorem argument_of_received {tup : PGLogicalTupleData} {p : ℕ} {value : Option Datum}
    (received : ColumnReceived io tup p value) (inline : ∀ datum ∈ value, datum.isExternalOndisk = false) :
    Option.Rel io.SameValue (argument tup p) value ∧ tup.changed p = true := by
  cases value with
  | none =>
    obtain ⟨null, changed⟩ := received
    rw [argument, if_pos null]
    exact ⟨.none, changed⟩
  | some datum =>
    have stored : tup.nulls p = false ∧ tup.changed p = true ∧ io.SameValue (tup.values p) datum := by
      cases datum with
      | externalOndisk pointer => cases inline _ rfl
      | byval word => exact received
      | byref bytes => exact received
      | externalIndirect target => exact received
    obtain ⟨present, changed, same⟩ := stored
    rw [argument, if_neg (by simp [present])]
    exact ⟨.some same, changed⟩

/-- Defaults are for columns that are not sent. -/
theorem argument_fillMissingDefaults {opened : PGLogicalRelation} {columnDefault : ColumnDefault}
    {tup : PGLogicalTupleData} {attnum : ℕ} (inside : attnum ∈ opened.attmap) :
    argument (fillMissingDefaults opened here columnDefault tup) attnum = argument tup attnum := by
  unfold fillMissingDefaults
  split_ifs
  · rfl
  · refine setDefault_outside tup fun listed => ?_
    obtain ⟨column, member, rfl⟩ := List.mem_map.mp listed
    exact (mem_missingDefaults.mp member).2.2.1 inside

theorem changed_fillDefaults {opened : PGLogicalRelation} {columnDefault : ColumnDefault} {tup : PGLogicalTupleData} :
    (fillMissingDefaults opened here columnDefault tup).changed = tup.changed := by
  unfold fillMissingDefaults
  split_ifs
  · rfl
  · exact changed_setDefaults _ tup

section Read

variable {opened : PGLogicalRelation} {columnDefault : ColumnDefault} {newtup : PGLogicalTupleData}
variable {tuple : HeapTuple rel.desc} {old new : PublishedRow} {target : LocalRelation}

theorem copies_insertedRow (columns : SameColumns target.desc (rel.desc.sentAttributes attList))
    (attmap : opened.attmap = columnMap target.desc (sentNames rel attList))
    (received : Received io opened.attmap (tuple.sentColumns attList) newtup) (inserts : Inserts attList tuple new) :
    Copies io rel attList target.desc new (insertedRow opened target.desc columnDefault newtup) := by
  intro att sent
  obtain ⟨value, member⟩ := exists_sentColumn tuple sent
  obtain ⟨same, inline⟩ := inserts (att, value) member
  rw [attmap] at received
  have inside : position target.desc att ∈ opened.attmap := attmap ▸ position_mem_columnMap sent
  rw [insertedRow, heapFormTuple_eq_argument (position_lt columns sent), argument_fillMissingDefaults inside, ← same]
  exact (argument_of_received (columnReceived_of_mem received member) inline).1

theorem copies_updatedRow (columns : SameColumns target.desc (rel.desc.sentAttributes attList))
    (attmap : opened.attmap = columnMap target.desc (sentNames rel attList))
    (received : Received io opened.attmap (tuple.sentColumns attList) newtup) (rewrites : Rewrites attList tuple old new)
    {copy : Row} (copies : Copies io rel attList target.desc old copy) :
    Copies io rel attList target.desc new (updatedRow opened target.desc columnDefault newtup copy) := by
  intro att sent
  obtain ⟨value, member⟩ := exists_sentColumn tuple sent
  rw [attmap] at received
  have arrived := columnReceived_of_mem received member
  have inside : position target.desc att ∈ opened.attmap := attmap ▸ position_mem_columnMap sent
  simp only [updatedRow, heapModifyTuple, changed_fillDefaults]
  rcases rewrites (att, value) member with ⟨⟨datum, isValue, ondisk⟩, kept⟩ | ⟨same, inline⟩
  · obtain rfl : value = some datum := isValue
    have unchanged : newtup.changed (position target.desc att) = false := by
      cases datum with
      | externalOndisk pointer => exact arrived
      | byval word => cases ondisk
      | byref bytes => cases ondisk
      | externalIndirect target => cases ondisk
    rw [unchanged, if_neg (by decide), kept]
    exact copies att sent
  · obtain ⟨written, changed⟩ := argument_of_received arrived inline
    rw [changed, if_pos rfl, heapFormTuple_eq_argument (position_lt columns sent), argument_fillMissingDefaults inside,
      ← same]
    exact written

end Read

/-! ### Keys -/

/-- A copy has the identity values of its row. -/
theorem identifies_of_copies (compares : Compares io index) {row : PublishedRow} {stored : StoredRow}
    (present : ∀ att ∈ identityColumns rel attList, (row att).isSome = true)
    (copies : Copies io rel attList here row stored.row) :
    Identifies rel attList here index (identityValue row) stored := by
  intro att listed
  obtain ⟨datum, held⟩ := Option.isSome_iff_exists.mp (present att listed)
  have copied := copies att (List.mem_of_mem_filter listed)
  rw [held] at copied
  cases value : stored.row (position here att) with
  | none =>
    rw [value] at copied
    cases copied
  | some datum' =>
    rw [value] at copied
    cases copied with
    | some same =>
      refine ⟨datum', rfl, ?_⟩
      rw [identityValue, held, Option.getD_some, compares.right same]
      exact compares.reflexive _ _

/-- A local row with the identity values of a row is the copy of one with the same key. -/
theorem sameKey_of_identifies (columns : SameColumns here (rel.desc.sentAttributes attList))
    (same : SameIdentity io rel attList here index) (compares : Compares io index) {row other : PublishedRow}
    {stored : StoredRow} (present : ∀ att ∈ identityColumns rel attList, (row att).isSome = true)
    (copies : Copies io rel attList here other stored.row)
    (identifies : Identifies rel attList here index (identityValue row) stored) :
    SameKey rel attList here index row other := by
  intro att sent inKey
  obtain ⟨att', listed, at'⟩ := (same.indkey _).mp inKey
  obtain rfl := position_injective columns (List.mem_of_mem_filter listed) sent at'
  obtain ⟨datum, held⟩ := Option.isSome_iff_exists.mp (present att' listed)
  obtain ⟨value, found, equal⟩ := identifies att' listed
  have copied := copies att' sent
  rw [found] at copied
  rw [identityValue, held, Option.getD_some] at equal
  cases copy : other att' with
  | none =>
    rw [copy] at copied
    cases copied
  | some datum' =>
    rw [copy] at copied
    cases copied with
    | some represents => exact ⟨datum, datum', held, rfl, (compares.right represents).symm.trans equal⟩

/-- Copies with equal keys are copies of rows with the same key. -/
theorem sameKey_of_equalKeys (compares : Compares io index) {a b : PublishedRow} {copy copy' : Row}
    (copies : Copies io rel attList here a copy) (copies' : Copies io rel attList here b copy')
    (equal : EqualKeys index copy copy') : SameKey rel attList here index a b := by
  intro att sent inKey
  obtain ⟨wanted, held, one, other, same⟩ := keyMatches_eq_true.mp (equal _ inKey)
  have copied := copies att sent
  have copied' := copies' att sent
  rw [one] at copied
  rw [other] at copied'
  cases isA : a att with
  | none =>
    rw [isA] at copied
    cases copied
  | some datum =>
    cases isB : b att with
    | none =>
      rw [isB] at copied'
      cases copied'
    | some datum' =>
      rw [isA] at copied
      rw [isB] at copied'
      cases copied with
      | some represents =>
        cases copied' with
        | some represents' =>
          refine ⟨datum, datum', rfl, rfl, ?_⟩
          rw [← compares.respects _ _ _ _ represents, ← compares.right represents']
          exact same

/-! ### Changes of a mirror -/

/-- The row that is changed has its copy at the same place. -/
theorem exists_split {α β : Type} {R : α → β → Prop} {before behind : List α} {old : α} {items : List β}
    (related : List.Forall₂ R (before ++ old :: behind) items) :
    ∃ early item late, items = early ++ item :: late ∧ List.Forall₂ R before early ∧ R old item ∧
      List.Forall₂ R behind late := by
  induction before generalizing items with
  | nil =>
    cases related with
    | cons here later => exact ⟨[], _, _, rfl, .nil, here, later⟩
  | cons first rest ih =>
    cases related with
    | cons here later =>
      obtain ⟨early, item, late, rfl, before, same, behind⟩ := ih later
      exact ⟨_ :: early, item, late, rfl, .cons here before, same, behind⟩

theorem exists_mem_of_forall₂ {α β : Type} {R : α → β → Prop} {items : List α} {items' : List β}
    (related : List.Forall₂ R items items') {item : β} (member : item ∈ items') : ∃ other ∈ items, R other item := by
  induction related with
  | nil => cases member
  | cons here _ ih =>
    rcases List.mem_cons.mp member with rfl | later
    · exact ⟨_, List.mem_cons_self .., here⟩
    · obtain ⟨other, listed, same⟩ := ih later
      exact ⟨other, List.mem_cons_of_mem _ listed, same⟩

variable {site : Site} {new old : PublishedRow} {before behind : List PublishedRow} {early late : List StoredRow}
variable {stored : StoredRow} {row : Row}

theorem Mirrors.insert (mirrors : Mirrors io rel attList here origin rows heap)
    (copies : Copies io rel attList here new row) (fresh : ∀ stored ∈ heap, stored.tSelf ≠ site.newTid heap)
    (ours : site.session.origin = origin) :
    Mirrors io rel attList here origin (rows ++ [new]) (heapInsert site row heap) where
  copies := List.rel_append mirrors.copies (.cons copies .nil)
  tids := by
    rw [heapInsert, List.map_append, List.map_singleton]
    refine mirrors.tids.append (List.nodup_singleton _) fun tid earlier last => ?_
    obtain ⟨stored, member, rfl⟩ := List.mem_map.mp earlier
    exact fresh stored member (List.mem_singleton.mp last)
  own stored member := by
    rcases List.mem_append.mp member with earlier | last
    · exact mirrors.own stored earlier
    · rw [List.mem_singleton.mp last]
      exact ours

/-- Identifiers tell the rows of a table apart. -/
theorem tSelf_ne (tids : ((early ++ stored :: late).map StoredRow.tSelf).Nodup) :
    (∀ other ∈ early, other.tSelf ≠ stored.tSelf) ∧ ∀ other ∈ late, other.tSelf ≠ stored.tSelf := by
  rw [List.map_append, List.map_cons] at tids
  obtain ⟨-, rest, apart⟩ := List.nodup_append.mp tids
  refine ⟨fun other member => apart _ (List.mem_map_of_mem member) _ (List.mem_cons_self ..), fun other member same => ?_⟩
  exact (List.nodup_cons.mp rest).1 (same ▸ List.mem_map_of_mem member)

theorem heapUpdate_split (tids : ((early ++ stored :: late).map StoredRow.tSelf).Nodup) :
    heapUpdate site stored.tSelf row (early ++ stored :: late) =
      early ++ ⟨stored.tSelf, site.version row⟩ :: late := by
  obtain ⟨before, behind⟩ := tSelf_ne tids
  have keep : ∀ part : List StoredRow, (∀ other ∈ part, other.tSelf ≠ stored.tSelf) →
      (part.map fun other => if other.tSelf = stored.tSelf then ⟨stored.tSelf, site.version row⟩ else other) = part :=
    fun part apart => (List.map_congr_left fun other member => if_neg (apart other member)).trans (List.map_id' part)
  rw [heapUpdate, List.map_append, List.map_cons, if_pos rfl, keep early before, keep late behind]

theorem heapDelete_split (tids : ((early ++ stored :: late).map StoredRow.tSelf).Nodup) :
    heapDelete stored.tSelf (early ++ stored :: late) = early ++ late := by
  obtain ⟨before, behind⟩ := tSelf_ne tids
  have keep : ∀ part : List StoredRow, (∀ other ∈ part, other.tSelf ≠ stored.tSelf) →
      (part.filter fun other => decide (other.tSelf ≠ stored.tSelf)) = part :=
    fun part apart => List.filter_eq_self.mpr fun other member => decide_eq_true (apart other member)
  rw [heapDelete, List.filter_append, List.filter_cons_of_neg (by simp), keep early before, keep late behind]

theorem Mirrors.update (mirrors : Mirrors io rel attList here origin (before ++ old :: behind) (early ++ stored :: late))
    (aligned : List.Forall₂ (fun row stored => Copies io rel attList here row stored.row) before early)
    (aligned' : List.Forall₂ (fun row stored => Copies io rel attList here row stored.row) behind late)
    (copies : Copies io rel attList here new row) (ours : site.session.origin = origin) :
    Mirrors io rel attList here origin (before ++ new :: behind)
      (heapUpdate site stored.tSelf row (early ++ stored :: late)) := by
  rw [heapUpdate_split mirrors.tids]
  refine ⟨List.rel_append aligned (.cons copies aligned'), ?_, fun other member => ?_⟩
  · have tids := mirrors.tids
    rwa [List.map_append, List.map_cons] at tids ⊢
  · rcases List.mem_append.mp member with earlier | later
    · exact mirrors.own other (List.mem_append_left _ earlier)
    · rcases List.mem_cons.mp later with rfl | later
      · exact ours
      · exact mirrors.own other (List.mem_append_right _ (List.mem_cons_of_mem _ later))

theorem Mirrors.delete (mirrors : Mirrors io rel attList here origin (before ++ old :: behind) (early ++ stored :: late))
    (aligned : List.Forall₂ (fun row stored => Copies io rel attList here row stored.row) before early)
    (aligned' : List.Forall₂ (fun row stored => Copies io rel attList here row stored.row) behind late) :
    Mirrors io rel attList here origin (before ++ behind) (heapDelete stored.tSelf (early ++ stored :: late)) := by
  rw [heapDelete_split mirrors.tids]
  have fewer : (early ++ late).Sublist (early ++ stored :: late) :=
    (List.sublist_cons_self stored late).append_left early
  exact ⟨List.rel_append aligned aligned', mirrors.tids.sublist (fewer.map _),
    fun other member => mirrors.own other (fewer.subset member)⟩

/-- No two rows have equal keys in a unique index. -/
def Distinct (indexes : List IndexInfo) (heap : List StoredRow) : Prop :=
  ∀ index ∈ indexes, index.Eligible → heap.Pairwise fun a b => ¬ EqualKeys index a.row b.row

theorem Mirrors.pairwise (mirrors : Mirrors io rel attList here origin rows heap) (compares : Compares io index)
    (unique : UniqueKey rel attList here index rows) : heap.Pairwise fun a b => ¬ EqualKeys index a.row b.row := by
  obtain ⟨copies, -, -⟩ := mirrors
  induction copies with
  | nil => exact .nil
  | @cons row stored rows heap copies rest ih =>
    obtain ⟨first, others⟩ := List.pairwise_cons.mp unique
    refine .cons (fun other member equal => ?_) (ih others)
    obtain ⟨row', listed, copies'⟩ := exists_mem_of_forall₂ rest member
    exact first row' listed (sameKey_of_equalKeys compares copies copies' equal)

/-- The copy of a row is found by the identity values of the row, and it is the only one. -/
theorem only_copy (columns : SameColumns here (rel.desc.sentAttributes attList))
    (same : SameIdentity io rel attList here index) (compares : Compares io index)
    (present : ∀ att ∈ identityColumns rel attList, (old att).isSome = true)
    (unique : UniqueKey rel attList here index (before ++ old :: behind))
    (aligned : List.Forall₂ (fun row stored => Copies io rel attList here row stored.row) before early)
    (aligned' : List.Forall₂ (fun row stored => Copies io rel attList here row stored.row) behind late) :
    ∀ other ∈ early ++ stored :: late, Identifies rel attList here index (identityValue old) other → other = stored := by
  obtain ⟨-, rest, apart⟩ := List.pairwise_append.mp unique
  obtain ⟨others, -⟩ := List.pairwise_cons.mp rest
  intro other member identifies
  rcases List.mem_append.mp member with earlier | later
  · obtain ⟨row, listed, copies⟩ := exists_mem_of_forall₂ aligned earlier
    have key := sameKey_of_identifies columns same compares present copies identifies
    exact absurd (key.symm compares) (apart row listed old (List.mem_cons_self ..))
  · rcases List.mem_cons.mp later with rfl | later
    · rfl
    · obtain ⟨row, listed, copies⟩ := exists_mem_of_forall₂ aligned' later
      have key := sameKey_of_identifies columns same compares present copies identifies
      exact absurd key (others row listed)

end Rows

/-! ## A table that is kept for replication -/

section Table

variable {catalog : Catalog} {session : LocalCatalog} {table : PublishedTable catalog session} {site : Site}
variable {legal : List PublishedRow → Prop} {origin : RepOriginId} {rows rows' : List PublishedRow}
variable {heap : List StoredRow} {opened : PGLogicalRelation}

/-- No trigger of the local table is enabled, its replica identity is the provider's, and its constraints and unique
indexes ask for no more than the provider's do. Insertion into its indexes fails on duplicates only, and
new rows have identifiers of their own. -/
structure Prepared (legal : List PublishedRow → Prop) (table : PublishedTable catalog session) (site : Site) : Prop where
  desc : site.desc = table.here.desc
  idle : ∀ event, site.triggers.any (RowTrigger.fires · event) = false
  ordinary : site.isQueue = false
  replicating : (table.nspname.str, table.rel.relname.str) ∉ site.syncingTables
  identity : ∃ index, site.replidindex = some index ∧
    SameIdentity catalog.io table.rel table.attList table.here.desc index ∧ Compares catalog.io index ∧
    ∀ rows, legal rows → UniqueKey table.rel table.attList table.here.desc index rows
  unique : ∀ index ∈ site.indexes, index.Eligible → Compares catalog.io index ∧
    ∀ rows, legal rows → UniqueKey table.rel table.attList table.here.desc index rows
  present : ∀ rows, legal rows → ∀ row ∈ rows, ∀ att ∈ identityColumns table.rel table.attList, (row att).isSome = true
  constraints : ∀ rows, legal rows → ∀ row ∈ rows, ∀ copy,
    Copies catalog.io table.rel table.attList table.here.desc row copy → site.execConstraints copy = .ok ()
  indexes : ∀ heap row, Distinct site.indexes heap → site.execInsertIndexTuples heap row = .ok false
  fresh : ∀ heap, ∀ stored ∈ heap, stored.tSelf ≠ site.newTid heap

/-- The rows of a published table and those of the local one. -/
abbrev TableMirrors (table : PublishedTable catalog session) (origin : RepOriginId) (rows : List PublishedRow)
    (heap : List StoredRow) : Prop :=
  Mirrors catalog.io table.rel table.attList table.here.desc origin rows heap

theorem Prepared.during (prepared : Prepared legal table site) (transaction : ApplySession) :
    Prepared legal table (during site transaction) :=
  ⟨prepared.desc, prepared.idle, prepared.ordinary, prepared.replicating, prepared.identity, prepared.unique,
    prepared.present, prepared.constraints, prepared.indexes, prepared.fresh⟩

/-- The relation of a row message is the table. -/
theorem opened_eq (names : NamesTable catalog session table.rel table.attList opened) :
    opened.reloid = table.here.reloid ∧ opened.nspname = table.nspname.str ∧ opened.relname = table.rel.relname.str ∧
      opened.attmap = columnMap table.here.desc (sentNames table.rel table.attList) := by
  obtain ⟨nspname, named, isName⟩ := names.nspname
  obtain ⟨here, byName, reloid, attmap⟩ := names.attmap
  rw [table.namespaceName] at named
  cases named
  rw [isName, names.relname, table.opens.byName] at byName
  cases byName
  exact ⟨reloid, isName, names.relname, attmap⟩

theorem Prepared.applies (prepared : Prepared legal table site)
    (names : NamesTable catalog session table.rel table.attList opened) : checkSyncingRelation site opened = false := by
  obtain ⟨-, nspname, relname, -⟩ := opened_eq names
  rw [checkSyncingRelation, nspname, relname]
  exact decide_eq_false prepared.replicating

theorem Prepared.distinct (prepared : Prepared legal table site) (allowed : legal rows)
    (mirrors : TableMirrors table origin rows heap) : Distinct site.indexes heap := by
  intro index listed eligible
  obtain ⟨compares, unique⟩ := prepared.unique index listed eligible
  exact mirrors.pairwise compares (unique rows allowed)

/-- A row that the worker has written is not a conflict. -/
theorem resolveUpdate_own {found : StoredRow} (ours : site.session.origin = origin)
    (own : found.version.origin = origin) : resolveUpdate site found = .ok true := by
  have same : (getTupleOrigin site.trackCommitTimestamp site.session found.version).1 = site.session.origin := by
    unfold getTupleOrigin
    split_ifs
    · exact own.trans ours.symm
    · rfl
  exact if_neg fun conflict => conflict.2 same

/-! ### INSERT -/

/-- The key of the new row is free. -/
theorem Prepared.alone (prepared : Prepared legal table site) {new : PublishedRow} (allowed : legal (rows ++ [new]))
    (mirrors : TableMirrors table origin rows heap) {newtup : PGLogicalTupleData}
    (copies : Copies catalog.io table.rel table.attList table.here.desc new (argument newtup)) :
    pglogicalTupleFindConflict site.indexes heap newtup = .ok none := by
  rw [findConflict_eq]
  refine congrArg Except.ok (List.findSome?_eq_none_iff.mpr fun index listed => ?_)
  rw [Option.map_eq_none_iff, Option.eq_none_iff_forall_ne_some]
  intro stored isHit
  obtain ⟨eligible, member, -, equal⟩ := hit_eq_some isHit
  obtain ⟨compares, unique⟩ := prepared.unique index listed eligible
  obtain ⟨row, isRow, copies'⟩ := exists_mem_of_forall₂ mirrors.copies member
  have key := sameKey_of_equalKeys compares copies copies' equal
  obtain ⟨-, -, apart⟩ := List.pairwise_append.mp (unique _ allowed)
  exact apart row isRow new (List.mem_singleton_self new) (key.symm compares)

theorem stores_inserted (prepared : Prepared legal table site) (ours : site.session.origin = origin)
    (mirrors : TableMirrors table origin rows heap) {new : PublishedRow} {tuple : HeapTuple table.rel.desc}
    (inserts : Inserts table.attList tuple new) (allowed : legal (rows ++ [new])) {newtup : PGLogicalTupleData}
    (names : NamesTable catalog session table.rel table.attList opened)
    (received : Received catalog.io opened.attmap (tuple.sentColumns table.attList) newtup) :
    ∃ heap', Stores (handleInsert site opened newtup) heap heap' ∧ TableMirrors table origin (rows ++ [new]) heap' := by
  obtain ⟨-, -, -, attmap⟩ := opened_eq names
  have copies : Copies catalog.io table.rel table.attList table.here.desc new
      (insertedRow opened site.desc site.columnDefault newtup) := by
    rw [prepared.desc]
    exact copies_insertedRow table.columns attmap received inserts
  have arrived : Copies catalog.io table.rel table.attList table.here.desc new (argument newtup) := by
    intro att sent
    obtain ⟨value, member⟩ := exists_sentColumn tuple sent
    obtain ⟨same, inline⟩ := inserts (att, value) member
    rw [attmap] at received
    rw [← same]
    exact (argument_of_received (columnReceived_of_mem received member) inline).1
  have mirrors' : TableMirrors table origin (rows ++ [new]) (heapInsert site _ heap) :=
    mirrors.insert copies (prepared.fresh heap) ours
  refine ⟨_, stores_insert (prepared.applies names) (prepared.idle .insert) prepared.ordinary
    (prepared.alone allowed mirrors arrived) ?_ ?_, mirrors'⟩
  · exact prepared.constraints _ allowed new (List.mem_append_right _ (List.mem_singleton_self new)) _ copies
  · exact prepared.indexes _ _ (prepared.distinct allowed mirrors')

/-! ### UPDATE and DELETE -/

/-- The search with the old key finds the copy of the old row. -/
theorem Prepared.finds (prepared : Prepared legal table site) {before behind : List PublishedRow} {old : PublishedRow}
    {early late : List StoredRow} {stored : StoredRow} (allowed : legal (before ++ old :: behind))
    (aligned : List.Forall₂ (fun row stored => Copies catalog.io table.rel table.attList table.here.desc row stored.row)
      before early)
    (copies : Copies catalog.io table.rel table.attList table.here.desc old stored.row)
    (aligned' : List.Forall₂ (fun row stored => Copies catalog.io table.rel table.attList table.here.desc row stored.row)
      behind late) {tuple : HeapTuple table.rel.desc} {tup : PGLogicalTupleData}
    (keyed : HoldsKey catalog.io table.rel table.attList (identityValue old) tuple)
    (received : Received catalog.io (columnMap table.here.desc (sentNames table.rel table.attList))
      (tuple.sentColumns table.attList) tup) :
    pglogicalTupleFindReplidx site.replidindex (early ++ stored :: late) tup = .ok (some stored) := by
  obtain ⟨index, isIndex, same, compares, unique⟩ := prepared.identity
  have present := prepared.present _ allowed old (List.mem_append_right _ (List.mem_cons_self ..))
  rw [isIndex]
  exact findReplidx_of_hasKey same (keyed.hasKey same received) (List.mem_append_right _ (List.mem_cons_self ..))
    (identifies_of_copies compares present copies)
    (only_copy table.columns same compares present (unique _ allowed) aligned aligned')

theorem stores_updated (prepared : Prepared legal table site) (ours : site.session.origin = origin)
    {before behind : List PublishedRow} {old new : PublishedRow}
    (mirrors : TableMirrors table origin (before ++ old :: behind) heap) (allowed : legal (before ++ old :: behind))
    {oldtuple : Option (HeapTuple table.rel.desc)} {newtuple : HeapTuple table.rel.desc}
    (rewrites : Rewrites table.attList newtuple old new)
    (keyed : Change.Of catalog.io table.attList (identityValue old) (.update oldtuple newtuple))
    (inline : Change.Inline table.attList (.update oldtuple newtuple)) (allowed' : legal (before ++ new :: behind))
    {oldtup : Option PGLogicalTupleData} {newtup : PGLogicalTupleData}
    (names : NamesTable catalog session table.rel table.attList opened)
    (oldReceived : Option.Rel (fun old => Received catalog.io opened.attmap (old.sentColumns table.attList)) oldtuple oldtup)
    (received : Received catalog.io opened.attmap (newtuple.sentColumns table.attList) newtup) :
    ∃ heap', Stores (Apply.handleUpdate site opened oldtup newtup) heap heap' ∧
      TableMirrors table origin (before ++ new :: behind) heap' := by
  obtain ⟨-, -, -, attmap⟩ := opened_eq names
  obtain ⟨early, stored, late, rfl, aligned, copies, aligned'⟩ := exists_split mirrors.copies
  have found : pglogicalTupleFindReplidx site.replidindex (early ++ stored :: late) (oldtup.getD newtup) =
      .ok (some stored) := by
    rw [attmap] at received oldReceived
    cases oldReceived with
    | none => exact prepared.finds allowed aligned copies aligned' (HoldsUnchangedKey.holdsKey keyed inline) received
    | some old => exact prepared.finds allowed aligned copies aligned' keyed old
  have updated : Copies catalog.io table.rel table.attList table.here.desc new
      (updatedRow opened site.desc site.columnDefault newtup stored.row) := by
    rw [prepared.desc]
    exact copies_updatedRow table.columns attmap received rewrites copies
  have own : stored.version.origin = origin := mirrors.own stored (List.mem_append_right _ (List.mem_cons_self ..))
  have mirrors' : TableMirrors table origin (before ++ new :: behind) (heapUpdate site stored.tSelf _ _) :=
    mirrors.update aligned aligned' updated ours
  refine ⟨_, stores_update (prepared.applies names) (prepared.idle .update) found (resolveUpdate_own ours own) ?_ ?_,
    mirrors'⟩
  · exact prepared.constraints _ allowed' new (List.mem_append_right _ (List.mem_cons_self ..)) _ updated
  · exact prepared.indexes _ _ (prepared.distinct allowed' mirrors')

theorem stores_deleted (prepared : Prepared legal table site) {before behind : List PublishedRow} {old : PublishedRow}
    (mirrors : TableMirrors table origin (before ++ old :: behind) heap) (allowed : legal (before ++ old :: behind))
    {oldtuple : HeapTuple table.rel.desc}
    (keyed : HoldsKey catalog.io table.rel table.attList (identityValue old) oldtuple) {oldtup : PGLogicalTupleData}
    (names : NamesTable catalog session table.rel table.attList opened)
    (received : Received catalog.io opened.attmap (oldtuple.sentColumns table.attList) oldtup) :
    ∃ heap', Stores (Apply.handleDelete site opened oldtup) heap heap' ∧
      TableMirrors table origin (before ++ behind) heap' := by
  obtain ⟨-, -, -, attmap⟩ := opened_eq names
  rw [attmap] at received
  obtain ⟨early, stored, late, rfl, aligned, copies, aligned'⟩ := exists_split mirrors.copies
  exact ⟨_, stores_delete (prepared.applies names) (prepared.idle .delete)
    (prepared.finds allowed aligned copies aligned' keyed received), mirrors.delete aligned aligned'⟩

end Table

/-! ## The whole subscriber -/

section Run

variable {server : Server} {session : LocalCatalog} {publication : Publication server.catalog session}
variable {sites : Oid → Site} {legal : Oid → List PublishedRow → Prop} {origin : RepOriginId}
variable {tables mid tables' : Tables × Tables} {s : Subscriber} {data : Callbacks.PGLogicalOutputData}

/-- Every published table has a local table of its own, kept for replication. -/
structure Kept (publication : Publication server.catalog session) (legal : Oid → List PublishedRow → Prop)
    (sites : Oid → Site) : Prop where
  prepared : ∀ relid, ∀ table ∈ publication.tables relid, Prepared (legal relid) table (sites table.here.reloid)
  separate : ∀ relid, ∀ table ∈ publication.tables relid, ∀ relid', ∀ other ∈ publication.tables relid',
    table.here.reloid = other.here.reloid → relid = relid'

def AllMirror (publication : Publication server.catalog session) (origin : RepOriginId) (tables : Tables)
    (heaps : Oid → List StoredRow) : Prop :=
  ∀ relid, ∀ table ∈ publication.tables relid, TableMirrors table origin (tables relid) (heaps table.here.reloid)

/-- The worker sees what the provider's transaction sees, and everybody sees what it had committed. -/
structure InSync (publication : Publication server.catalog session) (legal : Oid → List PublishedRow → Prop)
    (origin : RepOriginId) (tables : Tables × Tables) (s : Subscriber) : Prop where
  seen : AllMirror publication origin tables.1 s.heaps
  committed : AllMirror publication origin tables.2 s.committed
  allowed : ∀ relid, ∀ table ∈ publication.tables relid, legal relid (tables.1 relid)
  ours : s.session.origin = origin

theorem applyRow_of_stores {rel : PGLogicalRelation} {handler : Site → RowM Unit} {heap' : List StoredRow}
    (stores : Stores (handler (during (sites rel.reloid) s.session)) (s.heaps rel.reloid) heap') :
    applyRow sites s rel handler = .ok { s with heaps := Function.update s.heaps rel.reloid heap' } := by
  obtain ⟨after, done, rfl⟩ := stores
  rw [applyRow, done]

/-- The table that has changed is its mirror again, and the others have not changed. -/
theorem AllMirror.update (kept : Kept publication legal sites) {rows : Tables} {heaps : Oid → List StoredRow}
    (mirror : AllMirror publication origin rows heaps) {table : PublishedTable server.catalog session}
    (listed : table ∈ publication.tables table.rel.relid) {changed : List PublishedRow} {heap : List StoredRow}
    (mirrors : TableMirrors table origin changed heap) :
    AllMirror publication origin (Function.update rows table.rel.relid changed)
      (Function.update heaps table.here.reloid heap) := by
  intro relid other found
  by_cases same : relid = table.rel.relid
  · subst same
    obtain rfl : table = other := Option.some.inj (listed.symm.trans found)
    rwa [Function.update_self, Function.update_self]
  · have apart : other.here.reloid ≠ table.here.reloid := fun equal =>
      same (kept.separate _ other found _ table listed equal)
    rw [Function.update_of_ne same, Function.update_of_ne apart]
    exact mirror relid other found

/-- A row message is applied as the statement was. -/
theorem exists_applyMessage (kept : Kept publication legal sites) (inSync : InSync publication legal origin tables s)
    {table : PublishedTable server.catalog session} (listed : table ∈ publication.tables table.rel.relid)
    {change : ReorderBufferChange (HeapTuple table.rel.desc)} {rows : List PublishedRow}
    (writes : Writes server.catalog.io table.rel table.attList (tables.1 table.rel.relid) change rows)
    (allowed : legal table.rel.relid rows) {message : Message}
    (told : RowTold server.catalog session table.rel change table.attList message) :
    ∃ heap', applyMessage sites s message =
        .ok { s with heaps := Function.update s.heaps table.here.reloid heap' } ∧
      TableMirrors table origin rows heap' := by
  have prepared := (kept.prepared _ table listed).during s.session
  have mirrors := inSync.seen _ table listed
  have before := inSync.allowed _ table listed
  have apply : ∀ {opened : PGLogicalRelation} (handler : Site → RowM Unit) {heap' : List StoredRow},
      NamesTable server.catalog session table.rel table.attList opened →
      Stores (handler (during (sites table.here.reloid) s.session)) (s.heaps table.here.reloid) heap' →
      applyRow sites s opened handler = .ok { s with heaps := Function.update s.heaps table.here.reloid heap' } := by
    intro opened handler heap' names stores
    obtain ⟨reloid, -⟩ := opened_eq names
    rw [← reloid] at stores ⊢
    exact applyRow_of_stores stores
  generalize tables.1 table.rel.relid = rowsBefore at writes mirrors before
  cases writes with
  | insert inserts =>
    cases message with
    | insert opened newtup =>
      obtain ⟨-, names, received⟩ := told
      obtain ⟨heap', stores, mirrors'⟩ := stores_inserted prepared inSync.ours mirrors inserts allowed names (received _ rfl)
      exact ⟨heap', apply (fun site => handleInsert site opened newtup) names stores, mirrors'⟩
    | update opened oldtup newtup => cases told.1
    | delete opened oldtup => cases told.1
    | _ => exact told.elim
  | update rewrites keyed inline =>
    cases message with
    | insert opened newtup => cases told.1
    | update opened oldtup newtup =>
      obtain ⟨-, names, oldReceived, received⟩ := told
      obtain ⟨heap', stores, mirrors'⟩ := stores_updated prepared inSync.ours mirrors before rewrites keyed inline allowed
        names oldReceived (received _ rfl)
      exact ⟨heap', apply (fun site => Apply.handleUpdate site opened oldtup newtup) names stores, mirrors'⟩
    | delete opened oldtup => cases told.1
    | _ => exact told.elim
  | delete keyed =>
    cases message with
    | insert opened newtup => cases told.1
    | update opened oldtup newtup => cases told.1
    | delete opened oldtup =>
      obtain ⟨-, names, received⟩ := told
      obtain ⟨heap', stores, mirrors'⟩ := stores_deleted prepared mirrors before keyed names (received _ rfl)
      exact ⟨heap', apply (fun site => handleDelete site opened oldtup) names stores, mirrors'⟩
    | _ => exact told.elim

/-! ### Notices -/

/-- No row is changed and nothing is committed. -/
def Quiet : Notice → Prop
  | .row _ _ _ => False
  | .commit _ _ => False
  | _ => True

theorem applyMessages_append {received received' : List Message} {s' : Subscriber}
    (first : applyMessages sites s received = .ok s') :
    applyMessages sites s (received ++ received') = applyMessages sites s' received' := by
  rw [applyMessages, List.foldlM_append]
  rw [applyMessages] at first
  rw [first]
  rfl

theorem applyMessages_one {message : Message} {s' : Subscriber} (done : applyMessage sites s message = .ok s') :
    applyMessages sites s [message] = .ok s' := by
  rw [applyMessages, List.foldlM_cons, done]
  rfl

/-- The messages of one quiet notice. -/
theorem inSync_of_quiet {notice : Notice} {part : List Message} (quiet : Quiet notice)
    (told : Told server session notice part) (inSync : InSync publication legal origin tables s) :
    ∃ s', applyMessages sites s part = .ok s' ∧ InSync publication legal origin tables s' := by
  rcases told with ⟨message, rfl, means⟩ | ⟨rel, rfl, rfl | rfl⟩
  · cases notice with
    | startup =>
      cases means
      exact ⟨s, rfl, inSync⟩
    | begin txn =>
      cases means
      exact ⟨_, rfl, { inSync with }⟩
    | origin name originLsn =>
      cases means
      exact ⟨s, rfl, inSync⟩
    | describe rel => exact means.elim
    | row rel change attList => exact quiet.elim
    | commit txn commitLsn => exact quiet.elim
  · exact ⟨s, rfl, inSync⟩
  · exact ⟨s, rfl, inSync⟩

theorem inSync_of_all_quiet {notices : List Notice} {received : List Message} (quiet : ∀ notice ∈ notices, Quiet notice)
    (tells : Tells server session notices received) (inSync : InSync publication legal origin tables s) :
    ∃ s', applyMessages sites s received = .ok s' ∧ InSync publication legal origin tables s' := by
  obtain ⟨parts, rfl, told⟩ := tells
  induction told generalizing s with
  | nil => exact ⟨s, rfl, inSync⟩
  | cons first _ ih =>
    obtain ⟨quietFirst, quietRest⟩ := List.forall_mem_cons.mp quiet
    obtain ⟨mid, done, inSync⟩ := inSync_of_quiet quietFirst first inSync
    obtain ⟨s', rest, inSync⟩ := ih quietRest inSync
    exact ⟨s', (applyMessages_append done).trans rest, inSync⟩

theorem quiet_announced_begin (server : Server) (data : Callbacks.PGLogicalOutputData) (sent : Bool)
    (txn : Json.ReorderBufferTXN) : ∀ notice ∈ announced server data sent (.begin txn), Quiet notice := by
  intro notice member
  rcases List.mem_append.mp member with startup | rest
  · unfold startupNotice at startup
    split_ifs at startup
    · cases startup
    · rw [List.mem_singleton.mp startup]
      trivial
  · rcases List.mem_cons.mp rest with rfl | origin
    · trivial
    · unfold originNotice at origin
      split_ifs at origin
      · obtain ⟨name, -, rfl⟩ := List.mem_map.mp origin
        trivial
      · cases origin

theorem Writes.sendsRow {io : TypeFunctions} {rel : Relation} {attList : Option Bitmapset}
    {rows rows' : List PublishedRow} {change : ReorderBufferChange (HeapTuple rel.desc)}
    (writes : Writes io rel attList rows change rows') : sendsRow change = true := by
  cases writes <;> rfl

/-- A callback of which everything or only the first part is told: either its effect is there, or none. -/
theorem inSync_of_decoded (kept : Kept publication legal sites) {callback : Callback} {sent : Bool}
    (now : Decoded publication legal tables callback mid) (inSync : InSync publication legal origin tables s)
    {told : List Notice} {received : List Message} (short : told <+: announced server data sent callback)
    (tells : Tells server session told received) :
    ∃ s', applyMessages sites s received = .ok s' ∧
      (told = announced server data sent callback → InSync publication legal origin mid s') ∧
      (told ≠ announced server data sent callback → InSync publication legal origin tables s') := by
  cases now with
  | begin txn =>
    have quiet : ∀ notice ∈ told, Quiet notice :=
      fun notice member => quiet_announced_begin server data sent txn notice (short.subset member)
    obtain ⟨s', done, inSync'⟩ := inSync_of_all_quiet quiet tells inSync
    exact ⟨s', done, fun _ => inSync', fun _ => inSync'⟩
  | filtered unlisted =>
    obtain rfl := List.prefix_nil.mp short
    rw [tells.eq_nil]
    exact ⟨s, rfl, fun _ => inSync, fun _ => inSync⟩
  | commit txn commitLsn =>
    rcases List.prefix_cons_iff.mp short with rfl | ⟨rest, rfl, nothing⟩
    · rw [tells.eq_nil]
      exact ⟨s, rfl, fun whole => (nomatch whole), fun _ => inSync⟩
    · obtain rfl := List.prefix_nil.mp nothing
      obtain ⟨parts, rfl, each⟩ := tells
      cases each with
      | cons first last =>
        cases last
        rcases first with ⟨message, rfl, means⟩ | ⟨rel, impossible, -⟩
        · cases means
          exact ⟨_, rfl, fun _ => ⟨inSync.seen, inSync.seen, inSync.allowed, inSync.ours⟩, fun other => absurd rfl other⟩
        · cases impossible
  | @change _ _ table change rows listed writes allowed =>
    have announces : announced server data sent (.change table.rel change (some table.attList)) =
        [.describe table.rel, .row table.rel change table.attList] := by
      rw [announced, writes.sendsRow, if_pos rfl]
    rw [announces] at short ⊢
    rcases List.prefix_cons_iff.mp short with rfl | ⟨rest, rfl, more⟩
    · rw [tells.eq_nil]
      exact ⟨s, rfl, fun whole => (nomatch whole), fun _ => inSync⟩
    · rcases List.prefix_cons_iff.mp more with rfl | ⟨rest, rfl, nothing⟩
      · obtain ⟨s', done, inSync'⟩ := inSync_of_all_quiet (by simp [Quiet]) tells inSync
        exact ⟨s', done, fun whole => (nomatch whole), fun _ => inSync'⟩
      · obtain rfl := List.prefix_nil.mp nothing
        obtain ⟨early, late, rfl, describes, row⟩ := Tells.split
          (show Tells server session ([.describe table.rel] ++ [.row table.rel change table.attList]) received from tells)
        obtain ⟨s', described, inSync'⟩ := inSync_of_all_quiet (by simp [Quiet]) describes inSync
        obtain ⟨parts, rfl, each⟩ := row
        cases each with
        | cons first last =>
          cases last
          rcases first with ⟨message, rfl, means⟩ | ⟨rel, impossible, -⟩
          · obtain ⟨heap', done, mirrors⟩ := exists_applyMessage kept inSync' listed writes allowed means
            refine ⟨_, (applyMessages_append described).trans (applyMessages_one done), fun _ => ?_,
              fun other => absurd rfl other⟩
            refine ⟨inSync'.seen.update kept listed mirrors, inSync'.committed, fun relid other found => ?_, inSync'.ours⟩
            dsimp only
            by_cases same : relid = table.rel.relid
            · subst same
              rwa [Function.update_self]
            · rw [Function.update_of_ne same]
              exact inSync'.allowed relid other found
          · cases impossible

/-- What is told of a history leads to one of its states. -/
theorem inSync_of_history (kept : Kept publication legal sites) {occurrences : List Occurrence} {sent : Bool}
    (history : History publication legal tables occurrences tables') (inSync : InSync publication legal origin tables s)
    {told : List Notice} {received : List Message} (short : told <+: announcements server data sent occurrences)
    (tells : Tells server session told received) :
    ∃ s' before reached, applyMessages sites s received = .ok s' ∧ before <+: occurrences ∧
      History publication legal tables before reached ∧ InSync publication legal origin reached s' ∧
      (told = announcements server data sent occurrences → reached = tables') := by
  induction history generalizing s sent told received with
  | nil =>
    obtain rfl := List.prefix_nil.mp short
    rw [tells.eq_nil]
    exact ⟨s, [], _, rfl, List.prefix_refl _, .nil, inSync, fun _ => rfl⟩
  | invalidate _ ih =>
    obtain ⟨s', before, reached, done, first, history, inSync', whole⟩ := ih inSync short tells
    exact ⟨s', _ :: before, reached, done, (List.prefix_cons_inj _).mpr first, .invalidate history, inSync', whole⟩
  | @callback tables mid tables' callback rest now _ ih =>
    have split : announcements server data sent (.callback callback :: rest) =
        announced server data sent callback ++ announcements server data (sent || isBegin callback) rest := rfl
    rw [split] at short ⊢
    by_cases all : announced server data sent callback <+: told
    · obtain ⟨more, rfl⟩ := all
      obtain ⟨early, late, rfl, toldNow, toldLater⟩ := tells.split
      obtain ⟨mid', done, effect, -⟩ := inSync_of_decoded kept now inSync (List.prefix_refl _) toldNow
      obtain ⟨s', before, reached, doneRest, first, history, inSync', whole⟩ :=
        ih (effect rfl) ((List.prefix_append_right_inj _).mp short) toldLater
      exact ⟨s', _ :: before, reached, (applyMessages_append done).trans doneRest, (List.prefix_cons_inj _).mpr first,
        .callback now history, inSync', fun same => whole (List.append_cancel_left same)⟩
    · have within : told <+: announced server data sent callback :=
        (List.prefix_or_prefix_of_prefix short (List.prefix_append _ _)).resolve_right all
      have other : told ≠ announced server data sent callback := fun same => all (same ▸ List.prefix_refl _)
      obtain ⟨s', done, -, none⟩ := inSync_of_decoded kept now inSync within tells
      refine ⟨s', [], tables, done, List.nil_prefix, .nil, none other, fun same => absurd ?_ all⟩
      rw [same]
      exact List.prefix_append _ _

theorem applyWork_of_receive {reader : Native.Session} {hash hash' : PGLogicalRelationHash} {arrivals : List Arrival}
    {received : List Message} {s' : Subscriber} (read : Transfer.receive reader hash arrivals = .ok (received, hash'))
    (done : applyMessages sites s received = .ok s') : applyWork sites reader hash s arrivals = .ok (s', hash') := by
  induction arrivals generalizing hash s received with
  | nil =>
    cases read
    cases done
    rfl
  | cons arrival rest ih =>
    cases arrival with
    | invalidate reloid => exact ih read done
    | message bytes scratch =>
      rw [Transfer.receive] at read
      obtain ⟨⟨⟨message, next⟩, tail⟩, isRead, read⟩ := bind_eq_ok.mp read
      obtain ⟨⟨more, last⟩, later, read⟩ := bind_eq_ok.mp read
      cases read
      rw [applyMessages, List.foldlM_cons] at done
      obtain ⟨mid, now, done⟩ := bind_eq_ok.mp done
      rw [applyWork, isRead]
      simp only [now]
      exact ih later done

/-- What a session of the native protocol has written, a worker whose cache keeps the published tables apart reads and
applies without an error, and behind it the subscriber is in step with the provider: the local tables hold the rows
that the provider's transactions have left in the published ones, as far as they were decoded, and visible is what
the provider had committed. -/
theorem subscriber_mirrors (publication : Publication server.catalog session) (native : data.proto = .native)
    (readable : Transfer.Readable server.prepareStartupMessage) {occurrences : List Occurrence}
    (publishable : ∀ callback, .callback callback ∈ occurrences → Publishable publication data callback)
    (kept : Kept publication legal sites) (history : History publication legal tables occurrences tables')
    (inSync : InSync publication legal origin tables s) {cache : Output.RelMetaCache} (fresh : Fresh cache)
    (hash : PGLogicalRelationHash) (apart : publication.Apart hash) (arrivals : List Arrival)
    (arrived : arrivals.filterMap Arrival.payload =
      (stateOf (decoding server data occurrences (Context.start cache))).written) :
    ∃ s' hash' before reached, applyWork sites ⟨server.catalog.io, session⟩ hash s arrivals = .ok (s', hash') ∧
      before <+: occurrences ∧ History publication legal tables before reached ∧
      InSync publication legal origin reached s' ∧
      ∀ after, decoding server data occurrences (Context.start cache) = .ok () after → reached = tables' := by
  have performs : Performs publication (decoding server data occurrences) (Context.start cache)
      (announcements server data false occurrences) := performs_decoding native readable publishable
  obtain ⟨received, hash', told, read, tells, short, whole⟩ :=
    performs.received (fresh.inStep apart) arrived
  obtain ⟨s', before, reached, done, first, history', inSync', all⟩ := inSync_of_history kept history inSync short tells
  exact ⟨s', hash', before, reached, applyWork_of_receive read done, first, history', inSync',
    fun after finished => all (whole after finished)⟩

end Run

/-! ## A row that is inserted, changed and deleted -/

def mirrorIndex : IndexInfo where
  indexrelid := 17000
  unique := true
  expressions := false
  indkey := [1]
  equal := fun _ wanted value => decide (wanted.data = value.data ∧ wanted.word = value.word)
  predicate := fun _ => true

def mirrorSite : Site where
  desc := sampleHere.desc
  columnDefault := fun _ => none
  indexes := [mirrorIndex]
  replidindex := some mirrorIndex
  triggers := []
  execConstraints := fun _ => .ok ()
  execInsertIndexTuples := fun _ _ => .ok false
  heapOnly := fun _ _ => false
  newTid := fun heap => (heap.map StoredRow.tSelf).sum + 1
  isQueue := false
  handleQueuedMessage := fun _ => .ok ()
  syncingTables := []
  resolver := .applyRemote
  trackCommitTimestamp := true
  session := ⟨1, 0, 700⟩

/-- The old key of a row. -/
def mirrorKey (id : UInt64) (small : id.toNat < 256 ^ 4) : HeapTuple sampleRel.desc where
  tLen := 32
  values := [some (.byval id), none, none]
  length := rfl
  holds := by
    intro column member datum held
    simp only [sampleRel, List.zip_cons_cons, List.zip_nil_left, List.mem_cons, List.not_mem_nil, or_false] at member
    rcases member with rfl | rfl | rfl
    · cases held
      exact ⟨rfl, small⟩
    · cases held
    · cases held

def mirrorRow (id : UInt64) : PublishedRow := fun att =>
  if att.attnum = 1 then some (.byval id) else if att.attnum = 3 then some textKey else none

def mirrorLegal (_ : Oid) (rows : List PublishedRow) : Prop :=
  UniqueKey sampleRel none sampleHere.desc mirrorIndex rows ∧ ∀ row ∈ rows, (row (sampleId 1)).isSome = true

def mirrorUpdate : Callback := .change sampleRel ⟨.update, some (mirrorKey 7 (by decide)), some textKeyTuple⟩ (some none)

def mirrorDelete : Callback := .change sampleRel ⟨.delete, some (mirrorKey 8 (by decide)), none⟩ (some none)

def mirrorOccurrences : List Occurrence :=
  [.callback (.begin localTxn), .callback sampleInsert, .invalidate 16400, .callback mirrorUpdate,
    .callback mirrorDelete, .callback (.commit localTxn 100)]

theorem mirror_identityColumns : identityColumns sampleRel none = [sampleId 1] := by rfl

theorem mirrorKey_sentColumns (id : UInt64) (small : id.toNat < 256 ^ 4) :
    (mirrorKey id small).sentColumns none = [(sampleId 1, some (.byval id)), (sampleNote 3, none)] := by rfl

theorem mirror_compares : Compares sampleCatalog.io mirrorIndex where
  reflexive := by simp [mirrorIndex]
  symmetric := by
    intro attnum a b equal
    simp only [mirrorIndex, decide_eq_true_eq] at equal ⊢
    exact ⟨equal.1.symm, equal.2.symm⟩
  respects := by
    rintro attnum a b value ⟨sameData, sameWord⟩
    simp [mirrorIndex, sameData, sameWord]

theorem mirror_sameIdentity : SameIdentity sampleCatalog.io sampleRel none sampleHere.desc mirrorIndex where
  replicated := by decide
  indkey := by
    intro attnum
    rw [mirror_identityColumns]
    simp [mirrorIndex, eq_comm, show position sampleHere.desc (sampleId 1) = 1 from rfl]
  predicate := fun _ => rfl
  respects := mirror_compares.respects

theorem mirror_prepared : Prepared (mirrorLegal 16400) samplePublished mirrorSite where
  desc := rfl
  idle _ := rfl
  ordinary := rfl
  replicating := List.not_mem_nil
  identity := ⟨mirrorIndex, rfl, mirror_sameIdentity, mirror_compares, fun _ allowed => allowed.1⟩
  unique index listed _ := by
    obtain rfl := List.mem_singleton.mp listed
    exact ⟨mirror_compares, fun _ allowed => allowed.1⟩
  present rows allowed row member att listed := by
    obtain rfl := List.mem_singleton.mp (mirror_identityColumns ▸ listed)
    exact allowed.2 row member
  constraints _ _ _ _ _ _ := rfl
  indexes _ _ _ := rfl
  fresh heap stored member same := by
    have small := List.single_le_sum (fun _ _ => Nat.zero_le _) _ (List.mem_map_of_mem (f := StoredRow.tSelf) member)
    rw [same] at small
    exact absurd small (by simp [mirrorSite])

theorem mirror_kept : Kept samplePublication mirrorLegal fun _ => mirrorSite where
  prepared relid table listed := by
    obtain ⟨rfl, rfl⟩ : relid = 16400 ∧ samplePublished = table := by simpa [samplePublication] using listed
    exact mirror_prepared
  separate relid table listed relid' other listed' _ := by
    obtain ⟨rfl, -⟩ : relid = 16400 ∧ samplePublished = table := by simpa [samplePublication] using listed
    obtain ⟨rfl, -⟩ : relid' = 16400 ∧ samplePublished = other := by simpa [samplePublication] using listed'
    rfl

theorem mirror_legal (rows : List PublishedRow) (id : UInt64) (few : rows = [] ∨ rows = [mirrorRow id]) :
    mirrorLegal 16400 rows := by
  rcases few with rfl | rfl
  · exact ⟨.nil, by simp⟩
  · refine ⟨List.pairwise_singleton _ _, fun row member => ?_⟩
    rw [List.mem_singleton.mp member]
    rfl

theorem mirror_holdsKey (id : UInt64) (small : id.toNat < 256 ^ 4) :
    HoldsKey sampleCatalog.io sampleRel none (identityValue (mirrorRow id)) (mirrorKey id small) := by
  intro column member isKey
  rw [mirrorKey_sentColumns] at member
  simp only [List.mem_cons, List.not_mem_nil, or_false] at member
  rcases member with rfl | rfl
  · exact ⟨_, rfl, rfl, rfl, rfl⟩
  · exact absurd isKey (by decide)

theorem mirror_invertible (id : UInt64) (small : id.toNat < 256 ^ 4) (few : id = 7 ∨ id = 8) :
    Invertible sampleCatalog none (mirrorKey id small) := by
  intro column inside datum held
  rw [mirrorKey_sentColumns] at inside
  simp only [List.mem_cons, List.not_mem_nil, or_false] at inside
  rcases inside with rfl | rfl
  · rcases few with rfl | rfl
    · exact sample_invertible (sampleId 1, some (.byval 7)) (List.mem_cons_self ..) datum held
    · exact invertible_textKey (sampleId 1, some (.byval 8)) (List.mem_cons_self ..) datum held
  · cases held

theorem mirror_publishable :
    ∀ callback, .callback callback ∈ mirrorOccurrences → Publishable samplePublication sampleOutput callback := by
  intro callback inside
  simp only [mirrorOccurrences, List.mem_cons, Occurrence.callback.injEq, reduceCtorEq, List.not_mem_nil, or_false,
    false_or] at inside
  rcases inside with rfl | rfl | rfl | rfl | rfl
  · intro sends
    cases sends
  · refine ⟨samplePublished, rfl, rfl, rfl, ?_, by simp⟩
    rintro tuple ⟨⟩
    exact sample_invertible
  · refine ⟨samplePublished, rfl, rfl, rfl, ?_, ?_⟩
    · rintro tuple ⟨⟩
      exact invertible_textKey
    · rintro tuple ⟨⟩
      exact mirror_invertible 7 _ (.inl rfl)
  · refine ⟨samplePublished, rfl, rfl, rfl, by simp, ?_⟩
    rintro tuple ⟨⟩
    exact mirror_invertible 8 _ (.inr rfl)
  · trivial

theorem mirror_inserts : Inserts none sampleTuple (mirrorRow 7) := by
  intro column member
  have sent : sampleTuple.sentColumns none = [(sampleId 1, some (.byval 7)), (sampleNote 3, some textKey)] := by rfl
  rw [sent] at member
  simp only [List.mem_cons, List.not_mem_nil, or_false] at member
  rcases member with rfl | rfl
  · exact ⟨rfl, by rintro datum ⟨⟩; rfl⟩
  · exact ⟨rfl, by rintro datum ⟨⟩; rfl⟩

theorem mirror_rewrites : Rewrites none textKeyTuple (mirrorRow 7) (mirrorRow 8) := by
  intro column member
  rw [sentColumns_textKey] at member
  simp only [List.mem_cons, List.not_mem_nil, or_false] at member
  rcases member with rfl | rfl
  · exact .inr ⟨rfl, by rintro datum ⟨⟩; rfl⟩
  · exact .inl ⟨⟨_, rfl, rfl⟩, rfl⟩

theorem mirror_history : ∃ tables', History samplePublication mirrorLegal (fun _ => [], fun _ => []) mirrorOccurrences
    tables' := by
  have inserted : Writes sampleCatalog.io sampleRel none [] ⟨.insert, none, some sampleTuple⟩ [mirrorRow 7] :=
    .insert mirror_inserts
  have updated : Writes sampleCatalog.io sampleRel none [mirrorRow 7]
      ⟨.update, some (mirrorKey 7 (by decide)), some textKeyTuple⟩ [mirrorRow 8] :=
    @Writes.update _ _ _ [] [] _ _ _ _ mirror_rewrites (mirror_holdsKey 7 _) trivial
  have deleted : Writes sampleCatalog.io sampleRel none [mirrorRow 8] ⟨.delete, some (mirrorKey 8 (by decide)), none⟩ [] :=
    @Writes.delete _ _ _ [] [] _ _ (mirror_holdsKey 8 _)
  have listed : samplePublished ∈ samplePublication.tables samplePublished.rel.relid := rfl
  refine ⟨_, .callback (.begin _) (.callback (.change listed ?_ (mirror_legal [mirrorRow 7] 7 (.inr rfl))) (.invalidate
    (.callback (.change listed ?_ (mirror_legal [mirrorRow 8] 8 (.inr rfl))) (.callback (.change listed ?_
      (mirror_legal [] 7 (.inl rfl))) (.callback (.commit _ _) .nil)))))⟩
  · exact inserted
  · rw [Function.update_self]
    exact updated
  · rw [Function.update_self]
    exact deleted

theorem mirror_inSync : InSync samplePublication mirrorLegal 1 (fun _ => [], fun _ => [])
    ⟨fun _ => [], fun _ => [], ⟨1, 0, 700⟩⟩ where
  seen _ _ _ := ⟨.nil, List.nodup_nil, by simp⟩
  committed _ _ _ := ⟨.nil, List.nodup_nil, by simp⟩
  allowed relid table listed := by
    obtain ⟨rfl, -⟩ : relid = 16400 ∧ samplePublished = table := by simpa [samplePublication] using listed
    exact mirror_legal [] 7 (.inl rfl)
  ours := rfl

/-- What the session has written arrives. -/
def mirrorArrivals : List Arrival :=
  (stateOf (decoding sampleServer sampleOutput mirrorOccurrences (Context.start fun _ => none))).written.map
    (.message · sampleScratch)

theorem subscriber_mirrors_sample : ∃ s' hash' reached,
    applyWork (fun _ => mirrorSite) ⟨sampleServer.catalog.io, sampleSession⟩ (.create false)
      ⟨fun _ => [], fun _ => [], ⟨1, 0, 700⟩⟩ mirrorArrivals = .ok (s', hash') ∧
    InSync samplePublication mirrorLegal 1 reached s' := by
  obtain ⟨tables', history⟩ := mirror_history
  have arrived : mirrorArrivals.filterMap Arrival.payload =
      (stateOf (decoding sampleServer sampleOutput mirrorOccurrences (Context.start fun _ => none))).written := by
    rw [mirrorArrivals, List.filterMap_map]
    exact List.filterMap_some
  obtain ⟨s', hash', before, reached, applied, -, -, inSync, -⟩ := subscriber_mirrors samplePublication rfl
    sample_readable mirror_publishable mirror_kept history mirror_inSync (fun _ _ present => by cases present)
    (.create false) sample_apart mirrorArrivals arrived
  exact ⟨s', hash', reached, applied, inSync⟩

end PGLogical.Replica
