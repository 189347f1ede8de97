import PGLogical.Soundness.AppliedRow

/-! # Columns of the subscriber under conflicts

An INSERT that meets an existing row is applied to it as an update, with the tuple that was formed for
insertion. Columns that the provider does not send have their defaults in that tuple, so the existing
row loses what it had there. An UPDATE keeps it. Triggers of the user may write such columns as well;
what is said about the handlers themselves is for triggers that leave them alone.
-/

namespace PGLogical.Apply

open Machine Wire
open Native (PGLogicalTupleData pglogicalReadTuple sampleTypes)

/-- The row with an identifier. -/
def rowAt (heap : List StoredRow) (tid : Tid) : Option Row :=
  (heap.find? fun stored => decide (stored.tSelf = tid)).map StoredRow.row

/-- A live column that the remote relation does not send. -/
def LocalOnly (rel : PGLogicalRelation) (desc : TupleDesc) (attnum : ℕ) : Prop :=
  attnum < desc.attrs.length ∧ attnum ∉ rel.attmap ∧ attisdropped desc attnum = false

def KeepsLocal (rel : PGLogicalRelation) (desc : TupleDesc) (existing row : Row) : Prop :=
  ∀ attnum, LocalOnly rel desc attnum → row attnum = existing attnum

/-- The triggers do not write columns that are not sent. -/
def LeavesLocal (rel : PGLogicalRelation) (desc : TupleDesc) (triggers : List RowTrigger) : Prop :=
  ∀ trigger ∈ triggers, ∀ event old row row', trigger.call event old (some row) = some row' →
    KeepsLocal rel desc row row'

section Rows

variable {site : Site} {rel : PGLogicalRelation} {desc : TupleDesc} {heap : List StoredRow} {found : StoredRow}

theorem rowAt_heapUpdate (member : found ∈ heap) (row : Row) :
    rowAt (heapUpdate site found.tSelf row heap) found.tSelf = some row := by
  induction heap with
  | nil => cases member
  | cons first rest ih =>
    by_cases same : first.tSelf = found.tSelf
    · simp [rowAt, heapUpdate, same, StoredRow.row, Site.version]
    · have later : found ∈ rest := by
        rcases List.mem_cons.mp member with rfl | later
        · exact absurd rfl same
        · exact later
      simpa [rowAt, heapUpdate, same] using ih later

theorem rowAt_mem (distinct : (heap.map StoredRow.tSelf).Nodup) (member : found ∈ heap) :
    rowAt heap found.tSelf = some found.row := by
  induction heap with
  | nil => cases member
  | cons first rest ih =>
    obtain ⟨fresh, distinct⟩ := List.nodup_cons.mp distinct
    rcases List.mem_cons.mp member with rfl | later
    · simp [rowAt]
    · have different : first.tSelf ≠ found.tSelf := fun same => fresh (same ▸ List.mem_map_of_mem later)
      simpa [rowAt, different] using ih distinct later

theorem KeepsLocal.trans {first second third : Row} (one : KeepsLocal rel desc first second)
    (two : KeepsLocal rel desc second third) : KeepsLocal rel desc first third :=
  fun attnum isLocal => (two attnum isLocal).trans (one attnum isLocal)

/-- Then a chain of them does not, either. -/
theorem LeavesLocal.fireBefore {triggers : List RowTrigger} (leaves : LeavesLocal rel desc triggers)
    {event : TriggerEvent} {old : Option Row} {row row' : Row} (fired : fireBefore event old triggers row = some row') :
    KeepsLocal rel desc row row' := by
  have listed : ∀ trigger ∈ triggers.filter (RowTrigger.fires · event), trigger ∈ triggers :=
    fun _ member => List.mem_of_mem_filter member
  unfold Apply.fireBefore at fired
  generalize triggers.filter (RowTrigger.fires · event) = firing at fired listed
  induction firing generalizing row with
  | nil =>
    cases fired
    exact fun _ _ => rfl
  | cons trigger rest ih =>
    rw [List.foldlM_cons] at fired
    obtain ⟨next, called, fired⟩ := Option.bind_eq_some_iff.mp fired
    have first := leaves trigger (listed trigger (List.mem_cons_self ..)) event old row next called
    exact first.trans (ih fired fun other member => listed other (List.mem_cons_of_mem _ member))

end Rows

/-! ## Conflicting INSERT -/

section Conflict

variable {io : TypeFunctions} {site : Site} {rel : PGLogicalRelation} {newtup scratch : PGLogicalTupleData}
variable {bytes rest : Bytes} {heap : List StoredRow} {found : StoredRow} {index : Oid} {row : Row} {after : ApplyState}
variable {oldtup : Option PGLogicalTupleData}

/-- The rows after an INSERT that is applied to a conflicting row. -/
theorem heap_of_conflict (applies : checkSyncingRelation site rel = false)
    (searched : pglogicalTupleFindConflict site.indexes heap newtup = .ok (some (index, found)))
    (resolved : tryResolveConflict site.resolver site.trackCommitTimestamp site.session found.version = some .applyRemote)
    (fired : fireBefore .insert none site.triggers (insertedRow rel site.desc site.columnDefault newtup) = some row)
    (returned : handleInsert site rel newtup (ApplyState.start heap) = .ok () after) :
    ∃ row', fireBefore .update (some found.row) site.triggers row = some row' ∧
      after.heap = heapUpdate site found.tSelf row' heap := by
  cases updated : fireBefore .update (some found.row) site.triggers row with
  | none =>
    have ran := handleInsert_fired applies searched fired (storeAndFinish_crashes resolved updated) _ (start_at heap)
    rw [returned] at ran
    exact ran.elim
  | some row' =>
    exact ⟨row', rfl, heap_of_ended (handleInsert_fired applies searched fired
      (storeAndFinish_applied working_insertOpening resolved updated)) returned⟩

/-- Every column that is not sent has its default in the existing row. -/
def HoldsDefaults (site : Site) (rel : PGLogicalRelation) (existing : Row) : Prop :=
  ∀ attnum, LocalOnly rel site.desc attnum → existing attnum = (site.columnDefault attnum).getD none

/-- The row formed for insertion has, behind all triggers, the existing values in the columns that are not sent. -/
def FormsExisting (site : Site) (rel : PGLogicalRelation) (newtup : PGLogicalTupleData) (existing : Row) : Prop :=
  ∀ row row', fireBefore .insert none site.triggers (insertedRow rel site.desc site.columnDefault newtup) = some row →
    fireBefore .update (some existing) site.triggers row = some row' → KeepsLocal rel site.desc existing row'

/-- Columns that are not sent have their defaults in the row formed for insertion. -/
theorem insertedRow_localOnly (mapped : Mapped rel site.desc)
    (read : pglogicalReadTuple io rel site.desc scratch bytes = .ok (newtup, rest)) {attnum : ℕ}
    (isLocal : LocalOnly rel site.desc attnum) :
    insertedRow rel site.desc site.columnDefault newtup attnum = (site.columnDefault attnum).getD none := by
  obtain ⟨sent, -, isRead⟩ := exists_read read
  exact (insertColumns_insertedRow mapped isRead).unmapped attnum isLocal.1 isLocal.2.1 isLocal.2.2

theorem updatedRow_keepsLocal (mapped : Mapped rel site.desc)
    (read : pglogicalReadTuple io rel site.desc scratch bytes = .ok (newtup, rest)) (existing : Row) :
    KeepsLocal rel site.desc existing (updatedRow rel site.desc site.columnDefault newtup existing) := by
  obtain ⟨sent, -, isRead⟩ := exists_read read
  exact fun attnum isLocal => (updateColumns_updatedRow mapped isRead existing).unmapped attnum isLocal.2.1

/-- What an UPDATE leaves at the row it has found. -/
theorem rowAt_of_update (mapped : Mapped rel site.desc)
    (read : pglogicalReadTuple io rel site.desc scratch bytes = .ok (newtup, rest))
    (applies : checkSyncingRelation site rel = false) (distinct : (heap.map StoredRow.tSelf).Nodup)
    (leaves : LeavesLocal rel site.desc site.triggers)
    (searched : pglogicalTupleFindReplidx site.replidindex heap (oldtup.getD newtup) = .ok (some found))
    (member : found ∈ heap) (returned : handleUpdate site rel oldtup newtup (ApplyState.start heap) = .ok () after) :
    ∃ row, rowAt after.heap found.tSelf = some row ∧ KeepsLocal rel site.desc found.row row := by
  have unchanged : ∃ row, rowAt heap found.tSelf = some row ∧ KeepsLocal rel site.desc found.row row :=
    ⟨found.row, rowAt_mem distinct member, fun _ _ => rfl⟩
  rw [heap_of_ended (handleUpdate_ended applies searched) returned]
  unfold updatedHeap
  split
  · next row fired _ =>
    exact ⟨row, rowAt_heapUpdate member row,
      (updatedRow_keepsLocal mapped read found.row).trans (leaves.fireBefore fired)⟩
  · exact unchanged

theorem findReplidx_mem {index : Option IndexInfo} {tuple : PGLogicalTupleData}
    (searched : pglogicalTupleFindReplidx index heap tuple = .ok (some found)) : found ∈ heap := by
  unfold pglogicalTupleFindReplidx at searched
  split at searched
  · cases searched
  · exact findIndexTuple_mem (Except.ok.inj searched)

/-- An INSERT applied to a conflicting row keeps the columns that are not sent exactly if they had their
defaults; an UPDATE keeps them always. -/
theorem conflict_keepsLocal_iff (mapped : Mapped rel site.desc)
    (read : pglogicalReadTuple io rel site.desc scratch bytes = .ok (newtup, rest))
    (applies : checkSyncingRelation site rel = false) (distinct : (heap.map StoredRow.tSelf).Nodup) :
    (∀ index found row after,
      pglogicalTupleFindConflict site.indexes heap newtup = .ok (some (index, found)) →
      tryResolveConflict site.resolver site.trackCommitTimestamp site.session found.version = some .applyRemote →
      fireBefore .insert none site.triggers (insertedRow rel site.desc site.columnDefault newtup) = some row →
      handleInsert site rel newtup (ApplyState.start heap) = .ok () after →
      ∃ stored, rowAt after.heap found.tSelf = some stored ∧
        (KeepsLocal rel site.desc found.row stored ↔ FormsExisting site rel newtup found.row) ∧
        (LeavesLocal rel site.desc site.triggers →
          (KeepsLocal rel site.desc found.row stored ↔ HoldsDefaults site rel found.row))) ∧
    (LeavesLocal rel site.desc site.triggers → ∀ oldtup found after,
      pglogicalTupleFindReplidx site.replidindex heap (oldtup.getD newtup) = .ok (some found) →
      handleUpdate site rel oldtup newtup (ApplyState.start heap) = .ok () after →
      ∃ stored, rowAt after.heap found.tSelf = some stored ∧ KeepsLocal rel site.desc found.row stored) := by
  refine ⟨fun index found row after searched resolved fired returned => ?_,
    fun leaves oldtup found after searched returned =>
      rowAt_of_update mapped read applies distinct leaves searched (findReplidx_mem searched) returned⟩
  obtain ⟨row', updated, stored⟩ := heap_of_conflict applies searched resolved fired returned
  refine ⟨row', ?_, ⟨fun keeps other other' again again' => ?_, fun forms => forms row row' fired updated⟩, fun leaves => ?_⟩
  · rw [stored]
    exact rowAt_heapUpdate (findConflict_mem searched) row'
  · rw [fired] at again
    cases again
    rw [updated] at again'
    cases again'
    exact keeps
  · have defaults : ∀ attnum, LocalOnly rel site.desc attnum → row' attnum = (site.columnDefault attnum).getD none := by
      intro attnum isLocal
      rw [((leaves.fireBefore fired).trans (leaves.fireBefore updated)) attnum isLocal]
      exact insertedRow_localOnly mapped read isLocal
    constructor
    · exact fun keeps attnum isLocal => (keeps attnum isLocal).symm.trans (defaults attnum isLocal)
    · exact fun holds attnum isLocal => (defaults attnum isLocal).trans (holds attnum isLocal).symm

end Conflict

/-- The arrays when only the id has been read. -/
def noteTuple (id : UInt64) : PGLogicalTupleData :=
  PGLogicalTupleData.set ⟨fun _ => .byval 0, fun _ => true, fun _ => false⟩ 0 (.byval id)

theorem read_noteTuple :
    pglogicalReadTuple sampleTypes noteRel (noteSite []).desc (noteKey 0) [84, 0, 1, 105, 0, 0, 0, 4, 1, 0, 0, 0] =
      .ok (noteTuple 1, []) := rfl

/-- The conflicting INSERT returns, and what it leaves in the column that was not sent. -/
theorem noteConflict : ∃ after,
    handleInsert (noteSite []) noteRel (noteTuple 1) (ApplyState.start [noteRow 0 1 7]) = .ok () after ∧
      (rowAt after.heap 0).map (fun row => row 1) = some none := ⟨_, rfl, rfl⟩

theorem conflict_keepsLocal_iff_note : ∃ after stored,
    handleInsert (noteSite []) noteRel (noteTuple 1) (ApplyState.start [noteRow 0 1 7]) = .ok () after ∧
      rowAt after.heap 0 = some stored ∧
      (KeepsLocal noteRel noteDesc (noteRow 0 1 7).row stored ↔
        HoldsDefaults (noteSite []) noteRel (noteRow 0 1 7).row) := by
  obtain ⟨after, returned, -⟩ := noteConflict
  obtain ⟨conflicts, -⟩ := conflict_keepsLocal_iff (mapped_note []) read_noteTuple rfl
    (show ([noteRow 0 1 7].map StoredRow.tSelf).Nodup by decide)
  obtain ⟨stored, there, -, iff⟩ := conflicts 16390 (noteRow 0 1 7) _ after rfl rfl rfl returned
  exact ⟨after, stored, returned, there, iff fun _ member => nomatch member⟩

theorem not_forall_conflict_keepsLocal :
    ¬ ∀ (site : Site) (rel : PGLogicalRelation) (io : TypeFunctions) (scratch newtup : PGLogicalTupleData)
        (bytes rest : Bytes) (heap : List StoredRow) (index : Oid) (found : StoredRow) (after : ApplyState),
      Mapped rel site.desc → pglogicalReadTuple io rel site.desc scratch bytes = .ok (newtup, rest) →
      checkSyncingRelation site rel = false → LeavesLocal rel site.desc site.triggers →
      pglogicalTupleFindConflict site.indexes heap newtup = .ok (some (index, found)) →
      tryResolveConflict site.resolver site.trackCommitTimestamp site.session found.version = some .applyRemote →
      handleInsert site rel newtup (ApplyState.start heap) = .ok () after →
      ∃ stored, rowAt after.heap found.tSelf = some stored ∧ KeepsLocal rel site.desc found.row stored := by
  intro all
  obtain ⟨after, returned, lost⟩ := noteConflict
  obtain ⟨stored, there, keeps⟩ := all (noteSite []) noteRel sampleTypes (noteKey 0) (noteTuple 1) _ [] _ 16390
    (noteRow 0 1 7) after (mapped_note []) read_noteTuple rfl (fun _ member => nomatch member) rfl rfl returned
  have kept : stored 1 = some (.byval 7) := keeps 1 ⟨by decide, by decide, rfl⟩
  have same : rowAt after.heap 0 = some stored := there
  rw [same, Option.map_some, kept] at lost
  cases lost

end PGLogical.Apply
