import PGLogical.Machine.Fallible
import PGLogical.Soundness.RelcacheInval
import PGLogical.Soundness.RowTriggers
import PGLogical.Soundness.Wire
import Mathlib.Data.List.Perm.Subperm

/-! # Applied rows, column by column

A tuple on the wire is a list of columns, each a value, a NULL or an unchanged TOAST column, and the
reader puts them where the column map says. Behind that the row is described by position alone:
mapped columns have what was sent, the others what the defaults or the existing row have. The shortcut
for equal column counts is sound because the map is injective: names are distinct, so that a map with
as many entries as the table has columns leaves none out.
-/

namespace PGLogical.Apply

open Machine Wire Native

/-! ## What a tuple sends -/

inductive SentColumn where
  | null
  | unchanged
  | value (datum : Datum)

/-- What a column holds when only what was sent counts. -/
def SentColumn.stored : SentColumn → Option Datum
  | .null => none
  | .unchanged => none
  | .value datum => some datum

/-- What it holds when there is an existing value. -/
def SentColumn.merged (existing : Option Datum) : SentColumn → Option Datum
  | .null => none
  | .unchanged => existing
  | .value datum => some datum

def readSent (io : TypeFunctions) (att : FormPgAttribute) : Reader SentColumn := do
  let kind ← pqGetmsgbyte
  if kind = 'n'.toUInt8 then return .null
  else if kind = 'u'.toUInt8 then return .unchanged
  else if kind = 'i'.toUInt8 then return .value (← readInternal io att)
  else if kind = 'b'.toUInt8 then return .value (← readBinary io att)
  else if kind = 't'.toUInt8 then return .value (← readText io att)
  else throw s!"unknown data representation type '{chr kind}'"

def readSents (io : TypeFunctions) (desc : TupleDesc) : List ℕ → Reader (List SentColumn)
  | [] => pure []
  | attid :: rest =>
      match desc.attrs[attid]? with
      | none => throw "attribute position out of range"
      | some att => do
          let sent ← readSent io att
          return sent :: (← readSents io desc rest)

/-- Where a column of the message goes. -/
def receive (tuple : PGLogicalTupleData) (column : ℕ × SentColumn) : PGLogicalTupleData :=
  match column.2 with
  | .null => { tuple with
      values := Function.update tuple.values column.1 (.byval 0xdeadbeef)
      changed := Function.update tuple.changed column.1 true }
  | .unchanged => { tuple with values := Function.update tuple.values column.1 (.byval 0xfbadbeef) }
  | .value datum => tuple.set column.1 datum

theorem readColumn_eq (io : TypeFunctions) (att : FormPgAttribute) (attid : ℕ) (tuple : PGLogicalTupleData) :
    readColumn io att attid tuple = (fun sent => receive tuple (attid, sent)) <$> readSent io att := by
  unfold readColumn readSent
  rw [map_bind]
  congr 1
  funext kind
  split_ifs
  · simp [receive]
  · simp [receive]
  · simp [receive]
  · simp [receive]
  · simp [receive]
  · rfl

theorem readColumns_eq (io : TypeFunctions) (desc : TupleDesc) (attmap : List ℕ) (tuple : PGLogicalTupleData) :
    readColumns io desc attmap tuple =
      (fun sent => (attmap.zip sent).foldl receive tuple) <$> readSents io desc attmap := by
  induction attmap generalizing tuple with
  | nil => simp [readColumns, readSents]
  | cons attid rest ih =>
    unfold readColumns readSents
    cases desc.attrs[attid]? with
    | none => rfl
    | some att => simp [readColumn_eq, ih]

theorem length_readSents {io : TypeFunctions} {desc : TupleDesc} {attmap : List ℕ} {bytes rest : Bytes}
    {sent : List SentColumn} (read : readSents io desc attmap bytes = .ok (sent, rest)) :
    sent.length = attmap.length := by
  induction attmap generalizing bytes sent with
  | nil =>
    cases read
    rfl
  | cons attid more ih =>
    unfold readSents at read
    cases found : desc.attrs[attid]? with
    | none =>
      rw [found] at read
      cases read
    | some att =>
      rw [found] at read
      obtain ⟨⟨column, behind⟩, -, read⟩ := bind_eq_ok.mp read
      obtain ⟨⟨columns, last⟩, later, read⟩ := bind_eq_ok.mp read
      cases read
      rw [List.length_cons, List.length_cons, ih later]

/-- The columns that a tuple of a message sends. -/
def sentColumns (io : TypeFunctions) (rel : PGLogicalRelation) (desc : TupleDesc) : Reader (List SentColumn) := do
  let action ← pqGetmsgbyte
  ensure (action == 'T'.toUInt8) s!"expected TUPLE, got {chr action}"
  let natts ← pqGetmsgint 2
  ensure (rel.natts == natts) s!"tuple natts mismatch, {rel.natts} vs {natts}"
  readSents io desc rel.attmap

theorem length_sentColumns {io : TypeFunctions} {rel : PGLogicalRelation} {desc : TupleDesc} {bytes rest : Bytes}
    {sent : List SentColumn} (read : sentColumns io rel desc bytes = .ok (sent, rest)) :
    sent.length = rel.attmap.length := by
  obtain ⟨_, -, read⟩ := bind_eq_ok.mp read
  obtain ⟨_, -, read⟩ := bind_eq_ok.mp read
  obtain ⟨_, -, read⟩ := bind_eq_ok.mp read
  obtain ⟨_, -, read⟩ := bind_eq_ok.mp read
  exact length_readSents read

theorem pglogicalReadTuple_eq (io : TypeFunctions) (rel : PGLogicalRelation) (desc : TupleDesc)
    (tuple : PGLogicalTupleData) :
    pglogicalReadTuple io rel desc tuple =
      (fun sent => (rel.attmap.zip sent).foldl receive { tuple with nulls := fun _ => true, changed := fun _ => false }) <$>
        sentColumns io rel desc := by
  simp only [pglogicalReadTuple, sentColumns, readColumns_eq, map_bind]

/-! ## Where the columns are -/

/-- Whether the column counts as changed. -/
def SentColumn.changes : SentColumn → Bool
  | .null => true
  | .unchanged => false
  | .value _ => true

theorem receive_self {tuple : PGLogicalTupleData} {attid : ℕ} (column : SentColumn) (empty : tuple.nulls attid = true)
    (unchanged : tuple.changed attid = false) :
    argument (receive tuple (attid, column)) attid = column.stored ∧
      (receive tuple (attid, column)).changed attid = column.changes := by
  cases column with
  | null => simp [receive, argument, SentColumn.stored, SentColumn.changes, empty]
  | unchanged => simp [receive, argument, SentColumn.stored, SentColumn.changes, empty, unchanged]
  | value datum => simp [receive, PGLogicalTupleData.set, argument, SentColumn.stored, SentColumn.changes]

theorem receive_of_ne {attid other : ℕ} (tuple : PGLogicalTupleData) (column : SentColumn) (different : other ≠ attid) :
    (receive tuple (attid, column)).values other = tuple.values other ∧
      (receive tuple (attid, column)).nulls other = tuple.nulls other ∧
      (receive tuple (attid, column)).changed other = tuple.changed other := by
  cases column with
  | null => simp [receive, different]
  | unchanged => simp [receive, different]
  | value datum => simp [receive, PGLogicalTupleData.set, different]

/-- A column that is not mapped is not touched. -/
theorem receive_outside {attmap : List ℕ} {attid : ℕ} (sent : List SentColumn) (tuple : PGLogicalTupleData)
    (outside : attid ∉ attmap) :
    ((attmap.zip sent).foldl receive tuple).values attid = tuple.values attid ∧
      ((attmap.zip sent).foldl receive tuple).nulls attid = tuple.nulls attid ∧
      ((attmap.zip sent).foldl receive tuple).changed attid = tuple.changed attid := by
  induction attmap generalizing sent tuple with
  | nil => simp
  | cons first more ih =>
    cases sent with
    | nil => simp
    | cons column columns =>
      obtain ⟨different, later⟩ : attid ≠ first ∧ attid ∉ more := by simpa using outside
      obtain ⟨values, nulls, changed⟩ := receive_of_ne tuple column different
      obtain ⟨values', nulls', changed'⟩ := ih columns (receive tuple (first, column)) later
      exact ⟨values'.trans values, nulls'.trans nulls, changed'.trans changed⟩

/-- A mapped column has what was sent for it. -/
theorem receive_mapped {attmap : List ℕ} {sent : List SentColumn} {tuple : PGLogicalTupleData} {column : ℕ × SentColumn}
    (distinct : attmap.Nodup) (fresh : ∀ attid ∈ attmap, tuple.nulls attid = true ∧ tuple.changed attid = false)
    (member : column ∈ attmap.zip sent) :
    argument ((attmap.zip sent).foldl receive tuple) column.1 = column.2.stored ∧
      ((attmap.zip sent).foldl receive tuple).changed column.1 = column.2.changes := by
  induction attmap generalizing sent tuple with
  | nil => simp at member
  | cons first more ih =>
    cases sent with
    | nil => simp at member
    | cons sentFirst columns =>
      obtain ⟨notLater, distinct⟩ := List.nodup_cons.mp distinct
      rw [List.zip_cons_cons, List.foldl_cons]
      rcases List.mem_cons.mp member with here | later
      · subst here
        obtain ⟨values, nulls, changed⟩ := receive_outside columns (receive tuple (first, sentFirst)) notLater
        obtain ⟨isNull, unchanged⟩ := fresh first (List.mem_cons_self ..)
        have self := receive_self sentFirst isNull unchanged
        rw [argument, values, nulls, changed]
        exact self
      · refine ih distinct (fun attid inMore => ?_) later
        have different : attid ≠ first := fun same => notLater (same ▸ inMore)
        obtain ⟨-, nulls, changed⟩ := receive_of_ne tuple sentFirst different
        rw [nulls, changed]
        exact fresh attid (List.mem_cons_of_mem _ inMore)

/-! ## Defaults -/

theorem setDefault_outside {columns : List (ℕ × Option Datum)} {attid : ℕ} (tuple : PGLogicalTupleData)
    (outside : attid ∉ columns.map Prod.fst) :
    argument (columns.foldl setDefault tuple) attid = argument tuple attid := by
  induction columns generalizing tuple with
  | nil => rfl
  | cons first rest ih =>
    obtain ⟨different, later⟩ : attid ≠ first.1 ∧ attid ∉ rest.map Prod.fst := by simpa using outside
    rw [List.foldl_cons, ih (setDefault tuple first) later]
    simp [setDefault, argument, different]

theorem setDefault_inside {columns : List (ℕ × Option Datum)} {columnDefault : ColumnDefault} {attid : ℕ}
    {value : Option Datum} (tuple : PGLogicalTupleData)
    (defaults : ∀ column ∈ columns, columnDefault column.1 = some column.2)
    (inside : attid ∈ columns.map Prod.fst) (evaluated : columnDefault attid = some value) :
    argument (columns.foldl setDefault tuple) attid = value := by
  induction columns generalizing tuple with
  | nil => simp at inside
  | cons first rest ih =>
    rw [List.foldl_cons]
    by_cases later : attid ∈ rest.map Prod.fst
    · exact ih (setDefault tuple first) (fun column member => defaults column (List.mem_cons_of_mem _ member)) later
    · have here : attid = first.1 := by simpa [later] using inside
      rw [setDefault_outside _ later]
      have same := defaults first (List.mem_cons_self ..)
      rw [← here, evaluated] at same
      cases same
      cases held : first.2 <;> simp [setDefault, argument, here, held]

theorem changed_setDefaults (columns : List (ℕ × Option Datum)) (tuple : PGLogicalTupleData) :
    (columns.foldl setDefault tuple).changed = tuple.changed := by
  induction columns generalizing tuple with
  | nil => rfl
  | cons first rest ih => rw [List.foldl_cons, ih, setDefault]

theorem mem_missingDefaults {rel : PGLogicalRelation} {desc : TupleDesc} {columnDefault : ColumnDefault}
    {column : ℕ × Option Datum} :
    column ∈ missingDefaults rel desc columnDefault ↔
      column.1 < desc.attrs.length ∧ attisdropped desc column.1 = false ∧ column.1 ∉ rel.attmap ∧
        columnDefault column.1 = some column.2 := by
  obtain ⟨attid, value⟩ := column
  simp only [missingDefaults, List.mem_filterMap, List.mem_range, physattInAttmap, decide_eq_true_eq]
  constructor
  · rintro ⟨attnum, inRange, kept⟩
    split_ifs at kept with dropped mapped
    obtain ⟨_, evaluated, same⟩ := Option.map_eq_some_iff.mp kept
    cases same
    exact ⟨inRange, by simpa using dropped, mapped, evaluated⟩
  · rintro ⟨inRange, live, unmapped, evaluated⟩
    exact ⟨attid, inRange, by simp [live, unmapped, evaluated]⟩

/-! ## The column map -/

/-- The relation as it is when its table has been opened. -/
structure Mapped (rel : PGLogicalRelation) (desc : TupleDesc) : Prop where
  natts : rel.natts = rel.attnames.length
  distinct : rel.attnames.Nodup
  attmap : rel.attnames.mapM (tupdescGetAttByName desc) = .ok rel.attmap

section Mapping

variable {rel : PGLogicalRelation} {desc : TupleDesc}

theorem Mapped.length (mapped : Mapped rel desc) : rel.attmap.length = rel.natts := by
  rw [mapped.natts, length_of_mapM_eq_ok mapped.attmap]

theorem Mapped.nodup (mapped : Mapped rel desc) : rel.attmap.Nodup := by
  refine nodup_of_mapM_eq_ok (fun here there => ?_) mapped.distinct mapped.attmap
  obtain ⟨att, position, named⟩ := RelcacheInval.tupdescGetAttByName_eq_ok here
  obtain ⟨other, position', named'⟩ := RelcacheInval.tupdescGetAttByName_eq_ok there
  rw [position] at position'
  cases position'
  exact named.symm.trans named'

theorem Mapped.lt_length (mapped : Mapped rel desc) {attid : ℕ} (member : attid ∈ rel.attmap) :
    attid < desc.attrs.length := by
  obtain ⟨name, -, found⟩ := mem_of_mapM_eq_ok mapped.attmap member
  obtain ⟨att, position, -⟩ := RelcacheInval.tupdescGetAttByName_eq_ok found
  exact (List.getElem?_eq_some_iff.mp position).1

/-- A map with as many entries as there are columns leaves none out. -/
theorem Mapped.all_mapped (mapped : Mapped rel desc) (full : desc.attrs.length = rel.natts) {attid : ℕ}
    (inside : attid < desc.attrs.length) : attid ∈ rel.attmap := by
  have subset : rel.attmap ⊆ List.range desc.attrs.length :=
    fun _ member => List.mem_range.mpr (mapped.lt_length member)
  have perm := (List.subperm_of_subset mapped.nodup subset).perm_of_length_le
    (by rw [List.length_range, mapped.length, full])
  exact perm.mem_iff.mpr (List.mem_range.mpr inside)

theorem Mapped.missingDefaults_eq_nil (mapped : Mapped rel desc) (full : desc.attrs.length = rel.natts)
    (columnDefault : ColumnDefault) : missingDefaults rel desc columnDefault = [] := by
  refine List.eq_nil_iff_forall_not_mem.mpr fun column member => ?_
  obtain ⟨inside, -, unmapped, -⟩ := mem_missingDefaults.mp member
  exact unmapped (mapped.all_mapped full inside)

/-- The shortcut for equal column counts gives what the loop gives. -/
theorem Mapped.fillMissingDefaults_eq (mapped : Mapped rel desc) (columnDefault : ColumnDefault)
    (tuple : PGLogicalTupleData) :
    fillMissingDefaults rel desc columnDefault tuple =
      (missingDefaults rel desc columnDefault).foldl setDefault tuple := by
  unfold fillMissingDefaults
  split_ifs with full
  · rw [mapped.missingDefaults_eq_nil full]
    rfl
  · rfl

end Mapping

/-! ## Rows -/

section Rows

variable {io : TypeFunctions} {rel : PGLogicalRelation} {desc : TupleDesc} {columnDefault : ColumnDefault}
variable {newtup scratch : PGLogicalTupleData} {sent : List SentColumn}

/-- The row of an INSERT: sent values and NULLs in the mapped columns, defaults in the other live ones. -/
structure InsertColumns (rel : PGLogicalRelation) (desc : TupleDesc) (columnDefault : ColumnDefault)
    (sent : List SentColumn) (row : Row) : Prop where
  sent_stored : ∀ column ∈ rel.attmap.zip sent, row column.1 = column.2.stored
  unmapped : ∀ attnum < desc.attrs.length, attnum ∉ rel.attmap → attisdropped desc attnum = false →
    row attnum = (columnDefault attnum).getD none

/-- The row of an UPDATE: what was sent as changed, and else what the row had. -/
structure UpdateColumns (rel : PGLogicalRelation) (sent : List SentColumn) (existing row : Row) : Prop where
  sent_merged : ∀ column ∈ rel.attmap.zip sent, row column.1 = column.2.merged (existing column.1)
  unmapped : ∀ attnum ∉ rel.attmap, row attnum = existing attnum

/-- The arrays in which a message with these columns is read. -/
def Read (rel : PGLogicalRelation) (sent : List SentColumn) (scratch newtup : PGLogicalTupleData) : Prop :=
  newtup = (rel.attmap.zip sent).foldl receive { scratch with nulls := fun _ => true, changed := fun _ => false }

theorem heapFormTuple_eq_argument {tuple : PGLogicalTupleData} {attnum : ℕ} (inside : attnum < desc.attrs.length) :
    heapFormTuple desc tuple attnum = argument tuple attnum := by
  cases isNull : tuple.nulls attnum <;> simp [heapFormTuple, argument, inside, isNull]

theorem Read.unmapped (read : Read rel sent scratch newtup) {attnum : ℕ} (outside : attnum ∉ rel.attmap) :
    newtup.nulls attnum = true ∧ newtup.changed attnum = false := by
  obtain ⟨-, nulls, changed⟩ := receive_outside sent
    { scratch with nulls := fun _ => true, changed := fun _ => false } outside
  rw [read, nulls, changed]
  exact ⟨rfl, rfl⟩

theorem Read.mapped (mapped : Mapped rel desc) (read : Read rel sent scratch newtup) {column : ℕ × SentColumn}
    (member : column ∈ rel.attmap.zip sent) :
    argument newtup column.1 = column.2.stored ∧ newtup.changed column.1 = column.2.changes := by
  rw [read]
  exact receive_mapped mapped.nodup (fun _ _ => ⟨rfl, rfl⟩) member

/-- Filling in defaults leaves the mapped columns alone. -/
theorem fillMissingDefaults_mapped (mapped : Mapped rel desc) (tuple : PGLogicalTupleData) {attnum : ℕ}
    (inside : attnum ∈ rel.attmap) :
    argument (fillMissingDefaults rel desc columnDefault tuple) attnum = argument tuple attnum := by
  rw [mapped.fillMissingDefaults_eq]
  refine setDefault_outside tuple fun listed => ?_
  obtain ⟨column, member, rfl⟩ := List.mem_map.mp listed
  exact (mem_missingDefaults.mp member).2.2.1 inside

theorem fillMissingDefaults_unmapped (mapped : Mapped rel desc) (tuple : PGLogicalTupleData) {attnum : ℕ}
    (inside : attnum < desc.attrs.length) (outside : attnum ∉ rel.attmap) (live : attisdropped desc attnum = false)
    (empty : tuple.nulls attnum = true) :
    argument (fillMissingDefaults rel desc columnDefault tuple) attnum = (columnDefault attnum).getD none := by
  rw [mapped.fillMissingDefaults_eq]
  cases evaluated : columnDefault attnum with
  | some value =>
    refine setDefault_inside tuple (fun column member => (mem_missingDefaults.mp member).2.2.2) ?_ evaluated
    exact List.mem_map.mpr ⟨(attnum, value), mem_missingDefaults.mpr ⟨inside, live, outside, evaluated⟩, rfl⟩
  | none =>
    rw [setDefault_outside tuple fun listed => ?_]
    · simp [argument, empty]
    · obtain ⟨column, member, same⟩ := List.mem_map.mp listed
      have some_default := (mem_missingDefaults.mp member).2.2.2
      rw [same, evaluated] at some_default
      cases some_default

theorem insertColumns_insertedRow (mapped : Mapped rel desc) (read : Read rel sent scratch newtup) :
    InsertColumns rel desc columnDefault sent (insertedRow rel desc columnDefault newtup) where
  sent_stored column member := by
    have inside : column.1 ∈ rel.attmap := (List.of_mem_zip member).1
    rw [insertedRow, heapFormTuple_eq_argument (mapped.lt_length inside), fillMissingDefaults_mapped mapped _ inside]
    exact (read.mapped mapped member).1
  unmapped attnum inside outside live := by
    rw [insertedRow, heapFormTuple_eq_argument inside]
    exact fillMissingDefaults_unmapped mapped newtup inside outside live (read.unmapped outside).1

theorem changed_fillMissingDefaults (mapped : Mapped rel desc) (tuple : PGLogicalTupleData) :
    (fillMissingDefaults rel desc columnDefault tuple).changed = tuple.changed := by
  rw [mapped.fillMissingDefaults_eq, changed_setDefaults]

theorem updateColumns_updatedRow (mapped : Mapped rel desc) (read : Read rel sent scratch newtup) (existing : Row) :
    UpdateColumns rel sent existing (updatedRow rel desc columnDefault newtup existing) where
  sent_merged column member := by
    have inside : column.1 ∈ rel.attmap := (List.of_mem_zip member).1
    obtain ⟨stored, changes⟩ := read.mapped mapped member
    simp only [updatedRow, heapModifyTuple, changed_fillMissingDefaults mapped, changes,
      heapFormTuple_eq_argument (mapped.lt_length inside), fillMissingDefaults_mapped mapped _ inside, stored]
    cases column.2 <;> rfl
  unmapped attnum outside := by
    simp [updatedRow, heapModifyTuple, changed_fillMissingDefaults mapped, (read.unmapped outside).2]

theorem exists_read {bytes rest : Bytes} (ran : pglogicalReadTuple io rel desc scratch bytes = .ok (newtup, rest)) :
    ∃ sent, sentColumns io rel desc bytes = .ok (sent, rest) ∧ Read rel sent scratch newtup := by
  rw [pglogicalReadTuple_eq, map_eq_pure_bind] at ran
  obtain ⟨⟨sent, behind⟩, columns, ran⟩ := bind_eq_ok.mp ran
  cases ran
  exact ⟨sent, columns, rfl⟩

end Rows

/-! ## Applied changes -/

section Applied

variable {io : TypeFunctions} {site : Site} {rel : PGLogicalRelation} {newtup scratch : PGLogicalTupleData}
variable {bytes rest : Bytes}

theorem fireBefore_eq_some {event : TriggerEvent} {old : Option Row} {row : Row}
    (idle : site.triggers.any (RowTrigger.fires · event) = false) : fireBefore event old site.triggers row = some row := by
  simp [fireBefore, filter_fires_eq_nil idle]

/-- What has been stored by a handler that returns. -/
theorem heap_of_ended {event : TriggerEvent} {any : Bool} {leaked : ℕ} {heap heap' : List StoredRow} {m : RowM Unit}
    {E : ApplyState → Prop} {after : ApplyState}
    (contract : Contract (At Calm false Ledger.empty heap) m (fun _ => Ended event any leaked heap') E)
    (returned : m (ApplyState.start heap) = .ok () after) : after.heap = heap' := by
  have ran := contract _ (start_at heap)
  rw [returned] at ran
  exact ran.heap_eq

theorem heap_of_insert {heap : List StoredRow} {after : ApplyState} (applies : checkSyncingRelation site rel = false)
    (idle : site.triggers.any (RowTrigger.fires · .insert) = false)
    (alone : pglogicalTupleFindConflict site.indexes heap newtup = .ok none)
    (returned : handleInsert site rel newtup (ApplyState.start heap) = .ok () after) :
    after.heap = heapInsert site (insertedRow rel site.desc site.columnDefault newtup) heap :=
  heap_of_ended (handleInsert_fired applies alone (fireBefore_eq_some idle) (storeAndFinish_new working_insertOpening))
    returned

theorem heap_of_update {heap : List StoredRow} {after : ApplyState} {oldtup : Option PGLogicalTupleData}
    {found : StoredRow} (applies : checkSyncingRelation site rel = false)
    (idle : site.triggers.any (RowTrigger.fires · .update) = false)
    (searched : pglogicalTupleFindReplidx site.replidindex heap (oldtup.getD newtup) = .ok (some found))
    (resolved : resolveUpdate site found = .ok true)
    (returned : handleUpdate site rel oldtup newtup (ApplyState.start heap) = .ok () after) :
    after.heap =
      heapUpdate site found.tSelf (updatedRow rel site.desc site.columnDefault newtup found.row) heap := by
  rw [heap_of_ended (handleUpdate_ended applies searched) returned, updatedHeap, fireBefore_eq_some idle, resolved]

/-- A row that was written by another origin, in another transaction. -/
def UpdateConflict (site : Site) (found : StoredRow) : Prop :=
  found.version.xmin ≠ site.session.topTransactionId ∧
    (getTupleOrigin site.trackCommitTimestamp site.session found.version).1 ≠ site.session.origin

theorem applied_rows (mapped : Mapped rel site.desc)
    (read : pglogicalReadTuple io rel site.desc scratch bytes = .ok (newtup, rest))
    (applies : checkSyncingRelation site rel = false)
    (idle : ∀ event, site.triggers.any (RowTrigger.fires · event) = false) :
    ∃ sent, sentColumns io rel site.desc bytes = .ok (sent, rest) ∧ sent.length = rel.attmap.length ∧
      (∀ heap after, pglogicalTupleFindConflict site.indexes heap newtup = .ok none →
        handleInsert site rel newtup (ApplyState.start heap) = .ok () after →
        ∃ row, InsertColumns rel site.desc site.columnDefault sent row ∧ after.heap = heapInsert site row heap) ∧
      (∀ heap after oldtup found,
        pglogicalTupleFindReplidx site.replidindex heap (oldtup.getD newtup) = .ok (some found) →
        ¬ UpdateConflict site found →
        handleUpdate site rel oldtup newtup (ApplyState.start heap) = .ok () after →
        ∃ row, UpdateColumns rel sent found.row row ∧ after.heap = heapUpdate site found.tSelf row heap) ∧
      fillMissingDefaults rel site.desc site.columnDefault newtup =
        (missingDefaults rel site.desc site.columnDefault).foldl setDefault newtup := by
  obtain ⟨sent, columns, isRead⟩ := exists_read read
  refine ⟨sent, columns, length_sentColumns columns, fun heap after alone returned => ?_,
    fun heap after oldtup found searched unconflicted returned => ?_, mapped.fillMissingDefaults_eq _ _⟩
  · exact ⟨_, insertColumns_insertedRow mapped isRead, heap_of_insert applies (idle .insert) alone returned⟩
  · have resolved : resolveUpdate site found = .ok true := if_neg unconflicted
    exact ⟨_, updateColumns_updatedRow mapped isRead found.row,
      heap_of_update applies (idle .update) searched resolved returned⟩

theorem mapped_note (triggers : List RowTrigger) : Mapped noteRel (noteSite triggers).desc := ⟨rfl, by decide, rfl⟩

/-- One column is sent to a table of two. -/
theorem applied_rows_note :
    ∃ newtup sent,
      pglogicalReadTuple sampleTypes noteRel noteDesc (noteKey 0) [84, 0, 1, 105, 0, 0, 0, 4, 7, 0, 0, 0] =
        .ok (newtup, []) ∧
      sent.length = 1 ∧
      ∀ after, handleInsert (noteSite []) noteRel newtup (ApplyState.start []) = .ok () after →
        ∃ row, InsertColumns noteRel noteDesc (fun _ => none) sent row ∧
          after.heap = heapInsert (noteSite []) row [] := by
  have read : ∃ newtup, pglogicalReadTuple sampleTypes noteRel noteDesc (noteKey 0)
      [84, 0, 1, 105, 0, 0, 0, 4, 7, 0, 0, 0] = .ok (newtup, []) := ⟨_, rfl⟩
  obtain ⟨newtup, read⟩ := read
  have alone : pglogicalTupleFindConflict (noteSite []).indexes [] newtup = .ok none := by
    simp [pglogicalTupleFindConflict, findConflict, findIndexTuple, noteSite]
  obtain ⟨sent, -, count, inserts, -⟩ := applied_rows (mapped_note []) read rfl fun _ => rfl
  exact ⟨newtup, sent, read, count, fun after returned => inserts [] after alone returned⟩

end Applied

end PGLogical.Apply
