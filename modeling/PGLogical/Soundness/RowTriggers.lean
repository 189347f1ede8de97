import PGLogical.Soundness.RowRelease

/-! # Filtering by triggers

A BEFORE ROW trigger of the subscriber sees every change of its kind, and stops it by returning NULL.
What should be stored is stated for each action by the triggers of that action alone. An UPDATE leaves
out the triggers with a column list, also those that list a column it sets. A DELETE consults its
triggers only if the table also has one for UPDATE, and an INSERT that is applied to a conflicting row
goes through the triggers for UPDATE as well.
-/

namespace PGLogical.Apply

open Machine
open Native (PGLogicalTupleData)

variable {site : Site} {rel : PGLogicalRelation} {heap : List StoredRow}

/-! ## What should be stored -/

def intendedInsert (site : Site) (heap : List StoredRow) (conflict : Option (Oid × StoredRow)) (row : Row) :
    List StoredRow :=
  match fireBefore .insert none site.triggers row, conflict with
  | none, _ => heap
  | some row, none => heapInsert site row heap
  | some row, some (_, found) =>
      if tryResolveConflict site.resolver site.trackCommitTimestamp site.session found.version = some .applyRemote then
        heapUpdate site found.tSelf row heap
      else heap

/-- What all triggers for an UPDATE of the columns make of the row. -/
def fireFor (modifiedCols : ℕ → Bool) (old : Row) (triggers : List RowTrigger) (row : Row) : Option Row :=
  (triggers.filter (RowTrigger.firesFor · .update modifiedCols)).foldlM
    (fun row trigger => trigger.call .update (some old) (some row)) row

def intendedUpdate (site : Site) (modifiedCols : ℕ → Bool) (heap : List StoredRow) (found : StoredRow) (row : Row) :
    List StoredRow :=
  match fireFor modifiedCols found.row site.triggers row with
  | none => heap
  | some row => if resolveUpdate site found = .ok true then heapUpdate site found.tSelf row heap else heap

def intendedDelete (site : Site) (heap : List StoredRow) (found : StoredRow) : List StoredRow :=
  if fireBeforeDelete site.triggers found.row then heapDelete found.tSelf heap else heap

/-- Triggers of the event were executed if there are any, and the rows are the intended ones. A crash is neither. -/
def Filtered (event : TriggerEvent) (any : Bool) (intended : List StoredRow) :
    EStateM.Result Stop ApplyState Unit → Prop
  | .ok _ after => (event ∈ (ledger after.trace).executed ↔ any = true) ∧ after.heap = intended
  | .error _ _ => False

/-- An error of the handler; a crash is none. -/
def Raises (result : EStateM.Result Stop ApplyState Unit) : Prop :=
  ∃ stop after, result = .error stop after ∧ Action.useReleased ∉ after.trace

theorem Calm.useReleased_notMem {trace : List Action} (calm : Calm trace) : Action.useReleased ∉ trace := by
  intro member
  cases calm _ member

/-- A contract decides what is executed and stored, unless the handler raises an error. -/
theorem filtered_iff_of_ended {event : TriggerEvent} {any there : Bool} {leaked : ℕ} {heap' intended : List StoredRow}
    {m : RowM Unit}
    (contract : Contract (At Calm false Ledger.empty heap) m (fun _ => Ended event any leaked heap')
      fun state => Calm state.trace) (returns : ¬ Raises (m (ApplyState.start heap))) :
    Filtered event there intended (m (ApplyState.start heap)) ↔ any = there ∧ heap' = intended := by
  have ran := contract _ (start_at heap)
  cases answer : m (ApplyState.start heap) with
  | error stop after =>
    rw [answer] at ran
    exact (returns ⟨stop, after, answer, ran.useReleased_notMem⟩).elim
  | ok value after =>
    rw [answer] at ran
    rw [Filtered, ran.executed, ran.heap_eq, ← Bool.eq_iff_iff]

/-! ## UPDATE and DELETE -/

/-- The version of a row behind an UPDATE for which its triggers returned this. -/
def versionAfter (site : Site) (stored : StoredRow) (fired : Option Row) : HeapVersion ℕ (Option Datum) :=
  fired.elim stored.version site.version

/-- Leaving out the triggers with a column list makes no difference: others are executed if there are any, and if
the change is to be stored, the row gets the same version. -/
structure UpdateFilters (site : Site) (rel : PGLogicalRelation) (heap : List StoredRow) (newtup : PGLogicalTupleData)
    (found : StoredRow) : Prop where
  executed : site.triggers.any (RowTrigger.fires · .update) =
    site.triggers.any (RowTrigger.firesFor · .update newtup.changed)
  stored : resolveUpdate site found = .ok true → ∀ stored ∈ heap, stored.tSelf = found.tSelf →
    let row := updatedRow rel site.desc site.columnDefault newtup found.row
    versionAfter site stored (fireBefore .update (some found.row) site.triggers row) =
      versionAfter site stored (fireFor newtup.changed found.row site.triggers row)

/-- The rows behind an UPDATE for which its triggers returned this. -/
def updatedBy (site : Site) (heap : List StoredRow) (found : StoredRow) (fired : Option Row) : List StoredRow :=
  if resolveUpdate site found = .ok true then
    heap.map fun stored => if stored.tSelf = found.tSelf then ⟨found.tSelf, versionAfter site stored fired⟩ else stored
  else heap

theorem updatedBy_none (found : StoredRow) : updatedBy site heap found none = heap := by
  unfold updatedBy
  split
  · refine (List.map_congr_left fun stored _ => ?_).trans heap.map_id
    split
    · next same =>
      rw [← same]
      rfl
    · rfl
  · rfl

theorem updatedHeap_eq_updatedBy (found : StoredRow) (row : Row) :
    updatedHeap site heap found row = updatedBy site heap found (fireBefore .update (some found.row) site.triggers row) := by
  unfold updatedHeap
  cases fireBefore .update (some found.row) site.triggers row with
  | none => exact (updatedBy_none found).symm
  | some row' =>
    unfold updatedBy
    cases resolveUpdate site found with
    | error message => rfl
    | ok applies => cases applies <;> rfl

theorem intendedUpdate_eq_updatedBy (modifiedCols : ℕ → Bool) (found : StoredRow) (row : Row) :
    intendedUpdate site modifiedCols heap found row =
      updatedBy site heap found (fireFor modifiedCols found.row site.triggers row) := by
  unfold intendedUpdate
  cases fireFor modifiedCols found.row site.triggers row with
  | none => exact (updatedBy_none found).symm
  | some row' => rfl

theorem updatedBy_inj_iff (found : StoredRow) (fired fired' : Option Row) :
    updatedBy site heap found fired = updatedBy site heap found fired' ↔
      (resolveUpdate site found = .ok true → ∀ stored ∈ heap, stored.tSelf = found.tSelf →
        versionAfter site stored fired = versionAfter site stored fired') := by
  unfold updatedBy
  by_cases applied : resolveUpdate site found = .ok true
  · rw [if_pos applied, if_pos applied, List.map_inj_left, forall_prop_of_true applied]
    refine forall₂_congr fun stored _ => ?_
    by_cases same : stored.tSelf = found.tSelf
    · simp [same]
    · simp [same]
  · simp [applied]

theorem handleUpdate_filtered_iff {oldtup : Option PGLogicalTupleData} {newtup : PGLogicalTupleData} {found : StoredRow}
    (applies : checkSyncingRelation site rel = false)
    (searched : pglogicalTupleFindReplidx site.replidindex heap (oldtup.getD newtup) = .ok (some found))
    (returns : ¬ Raises (handleUpdate site rel oldtup newtup (ApplyState.start heap))) :
    Filtered .update (site.triggers.any (RowTrigger.firesFor · .update newtup.changed))
      (intendedUpdate site newtup.changed heap found (updatedRow rel site.desc site.columnDefault newtup found.row))
      (handleUpdate site rel oldtup newtup (ApplyState.start heap)) ↔ UpdateFilters site rel heap newtup found := by
  rw [filtered_iff_of_ended (handleUpdate_ended applies searched) returns, updatedHeap_eq_updatedBy,
    intendedUpdate_eq_updatedBy, updatedBy_inj_iff]
  exact ⟨fun ⟨executed, stored⟩ => ⟨executed, stored⟩, fun filters => ⟨filters.executed, filters.stored⟩⟩

/-- A trigger for UPDATE OF the only column that is sent. -/
example : ¬ UpdateFilters (noteSite [⟨'A', true, [.update], [0], fun _ _ _ => none⟩]) noteRel [noteRow 0 1 7] (noteKey 1)
    (noteRow 0 1 7) :=
  fun filters => nomatch filters.executed

/-- A DELETE meets no trigger, or its triggers are consulted. -/
def DeleteFilters (site : Site) : Prop :=
  site.triggers.any (RowTrigger.fires · .delete) = true → trigBeforeRow site.triggers .update = true

theorem handleDelete_filtered_iff {oldtup : PGLogicalTupleData} {found : StoredRow}
    (applies : checkSyncingRelation site rel = false)
    (searched : pglogicalTupleFindReplidx site.replidindex heap oldtup = .ok (some found))
    (returns : ¬ Raises (handleDelete site rel oldtup (ApplyState.start heap))) :
    Filtered .delete (site.triggers.any (RowTrigger.fires · .delete)) (intendedDelete site heap found)
      (handleDelete site rel oldtup (ApplyState.start heap)) ↔ DeleteFilters site := by
  rw [filtered_iff_of_ended (handleDelete_ended applies searched) returns, DeleteFilters]
  constructor
  · rintro ⟨executed, -⟩ fires
    exact (Bool.and_eq_true_iff.mp (executed.trans fires)).1
  · intro consulted
    cases fires : site.triggers.any (RowTrigger.fires · .delete) with
    | true => simp [consulted fires, deleteGoesOn, intendedDelete]
    | false => simp [deleteGoesOn, intendedDelete, fireBeforeDelete, filter_fires_eq_nil fires]

/-! ## INSERT -/

section Insert

variable {newtup : PGLogicalTupleData} {row row' : Row} {found : StoredRow}
  {conflict : Option (Oid × StoredRow)} {index : Oid}

theorem findIndexTuple_mem {info : IndexInfo} {skey : List (Option Datum)}
    (hit : findIndexTuple info heap skey = some found) : found ∈ heap := List.mem_of_find?_eq_some hit

theorem findConflict_mem {indexes : List IndexInfo} {tid : Option Tid}
    (searched : findConflict heap newtup tid indexes = .ok (some (index, found))) : found ∈ heap := by
  induction indexes with
  | nil => cases searched
  | cons info rest ih =>
    unfold findConflict at searched
    split_ifs at searched
    · exact ih searched
    · exact ih searched
    · split at searched
      · exact ih searched
      · rename_i stored hit
        split_ifs at searched
        cases searched
        exact findIndexTuple_mem hit

/-- An update of a row that exists tells what it has stored. -/
theorem heapUpdate_inj (member : found ∈ heap)
    (same : heapUpdate site found.tSelf row heap = heapUpdate site found.tSelf row' heap) : row = row' := by
  have stored := List.map_inj_left.mp same found member
  simp only [if_true] at stored
  exact congrArg (fun stored : StoredRow => stored.version.values) stored

theorem intendedInsert_suppressed (fired : fireBefore .insert none site.triggers row = none) :
    intendedInsert site heap conflict row = heap := by
  simp [intendedInsert, fired]

theorem intendedInsert_conflict (fired : fireBefore .insert none site.triggers row = some row') :
    intendedInsert site heap (some (index, found)) row =
      if tryResolveConflict site.resolver site.trackCommitTimestamp site.session found.version = some .applyRemote then
        heapUpdate site found.tSelf row' heap
      else heap := by
  simp [intendedInsert, fired]

/-- The update triggers return what the insert triggers produced, wherever a conflict is applied. -/
def InsertFilters (site : Site) (rel : PGLogicalRelation) (heap : List StoredRow) (newtup : PGLogicalTupleData) : Prop :=
  ∀ row index found,
    fireBefore .insert none site.triggers (insertedRow rel site.desc site.columnDefault newtup) = some row →
    pglogicalTupleFindConflict site.indexes heap newtup = .ok (some (index, found)) →
    tryResolveConflict site.resolver site.trackCommitTimestamp site.session found.version = some .applyRemote →
    fireBefore .update (some found.row) site.triggers row = some row

/-- Nothing is stored by a handler that crashes. -/
theorem not_filtered_of_crash {event : TriggerEvent} {there : Bool} {intended : List StoredRow} {m : RowM Unit}
    (contract : Contract (At Calm false Ledger.empty heap) m (fun _ _ => False)
      fun state => ¬ Quiet state.trace ∧ Action.useReleased ∈ state.trace) :
    ¬ Filtered event there intended (m (ApplyState.start heap)) := by
  have ran := contract _ (start_at heap)
  cases answer : m (ApplyState.start heap) with
  | ok value after =>
    rw [answer] at ran
    exact ran.elim
  | error stop after => exact id

theorem raises_of_contract {m : RowM Unit}
    (contract : Contract (At Calm false Ledger.empty heap) m (fun _ _ => False) fun state => Calm state.trace) :
    Raises (m (ApplyState.start heap)) := by
  have ran := contract _ (start_at heap)
  cases answer : m (ApplyState.start heap) with
  | ok value after =>
    rw [answer] at ran
    exact ran.elim
  | error stop after =>
    rw [answer] at ran
    exact ⟨stop, after, rfl, ran.useReleased_notMem⟩

/-- The conflicting row gets what the update triggers return. -/
theorem handleInsert_conflict_filtered_iff (applies : checkSyncingRelation site rel = false)
    (searched : pglogicalTupleFindConflict site.indexes heap newtup = .ok (some (index, found)))
    (fired : fireBefore .insert none site.triggers (insertedRow rel site.desc site.columnDefault newtup) = some row)
    (resolved : tryResolveConflict site.resolver site.trackCommitTimestamp site.session found.version = some .applyRemote)
    (returns : ¬ Raises (handleInsert site rel newtup (ApplyState.start heap))) :
    Filtered .insert (site.triggers.any (RowTrigger.fires · .insert))
      (intendedInsert site heap (some (index, found)) (insertedRow rel site.desc site.columnDefault newtup))
      (handleInsert site rel newtup (ApplyState.start heap)) ↔
    fireBefore .update (some found.row) site.triggers row = some row := by
  rw [intendedInsert_conflict fired, if_pos resolved]
  cases updated : fireBefore .update (some found.row) site.triggers row with
  | none =>
    have crashes := handleInsert_fired applies searched fired (storeAndFinish_crashes resolved updated)
    simpa using not_filtered_of_crash crashes
  | some row' =>
    have ends := handleInsert_fired applies searched fired (storeAndFinish_applied working_insertOpening resolved updated)
    rw [filtered_iff_of_ended ends returns]
    constructor
    · rintro ⟨-, same⟩
      rw [heapUpdate_inj (findConflict_mem searched) same]
    · intro same
      cases same
      exact ⟨rfl, rfl⟩

theorem handleInsert_filtered_iff (applies : checkSyncingRelation site rel = false)
    (searched : pglogicalTupleFindConflict site.indexes heap newtup = .ok conflict)
    (returns : ¬ Raises (handleInsert site rel newtup (ApplyState.start heap))) :
    Filtered .insert (site.triggers.any (RowTrigger.fires · .insert))
      (intendedInsert site heap conflict (insertedRow rel site.desc site.columnDefault newtup))
      (handleInsert site rel newtup (ApplyState.start heap)) ↔ InsertFilters site rel heap newtup := by
  cases fired : fireBefore .insert none site.triggers (insertedRow rel site.desc site.columnDefault newtup) with
  | none =>
    have ends := handleInsert_suppressed applies searched fired
    have vacuous : InsertFilters site rel heap newtup := fun row _ _ isSome => by
      rw [fired] at isSome
      cases isSome
    rw [intendedInsert_suppressed fired]
    refine iff_of_true ((filtered_iff_of_ended (ends.weaken (fun _ here => here) (fun _ _ done => done)
      fun _ impossible => impossible.elim) returns).mpr ⟨rfl, rfl⟩) vacuous
  | some row =>
    cases conflict with
    | none =>
      have ends := handleInsert_fired applies searched fired (storeAndFinish_new working_insertOpening)
      have vacuous : InsertFilters site rel heap newtup := fun _ _ _ _ isConflict => by
        rw [searched] at isConflict
        cases isConflict
      refine iff_of_true ((filtered_iff_of_ended ends returns).mpr ⟨rfl, ?_⟩) vacuous
      simp [intendedInsert, fired]
    | some conflicting =>
      obtain ⟨index, found⟩ := conflicting
      cases resolved : tryResolveConflict site.resolver site.trackCommitTimestamp site.session found.version with
      | none =>
        exact (returns (raises_of_contract
          (handleInsert_fired applies searched fired (storeAndFinish_raises resolved)))).elim
      | some resolution =>
        cases resolution with
        | keepLocal =>
          have ends := handleInsert_fired applies searched fired (storeAndFinish_kept working_insertOpening resolved)
          have vacuous : InsertFilters site rel heap newtup := by
            intro _ _ _ _ isConflict applied
            rw [searched] at isConflict
            cases isConflict
            rw [resolved] at applied
            cases applied
          refine iff_of_true ((filtered_iff_of_ended ends returns).mpr ⟨rfl, ?_⟩) vacuous
          rw [intendedInsert_conflict fired, resolved]
          rfl
        | applyRemote =>
          rw [handleInsert_conflict_filtered_iff applies searched fired resolved returns]
          constructor
          · intro same row' index' found' fired' searched' _
            rw [fired] at fired'
            rw [searched] at searched'
            cases fired'
            cases searched'
            exact same
          · exact fun filters => filters row index found fired searched resolved

end Insert

/-! ## Every action -/

/-- The message is applied: the table is not skipped, the search succeeds, an UPDATE or DELETE finds
its row, and no error is raised. -/
def Applied (site : Site) (rel : PGLogicalRelation) (heap : List StoredRow) (message : RowMessage) : Prop :=
  checkSyncingRelation site rel = false ∧ ¬ Raises (handleRow site rel message (ApplyState.start heap)) ∧
    match message with
    | .insert newtup => ∃ conflict, pglogicalTupleFindConflict site.indexes heap newtup = .ok conflict
    | .update oldtup newtup =>
        ∃ found, pglogicalTupleFindReplidx site.replidindex heap (oldtup.getD newtup) = .ok (some found)
    | .delete oldtup => ∃ found, pglogicalTupleFindReplidx site.replidindex heap oldtup = .ok (some found)

/-- Row filtering works for the message. The columns that an UPDATE sets are those that were sent. -/
def RowFiltered (site : Site) (rel : PGLogicalRelation) (heap : List StoredRow) (message : RowMessage) : Prop :=
  match message with
  | .insert newtup => ∀ conflict, pglogicalTupleFindConflict site.indexes heap newtup = .ok conflict →
      Filtered .insert (site.triggers.any (RowTrigger.fires · .insert))
        (intendedInsert site heap conflict (insertedRow rel site.desc site.columnDefault newtup))
        (handleRow site rel message (ApplyState.start heap))
  | .update oldtup newtup => ∀ found,
      pglogicalTupleFindReplidx site.replidindex heap (oldtup.getD newtup) = .ok (some found) →
      Filtered .update (site.triggers.any (RowTrigger.firesFor · .update newtup.changed))
        (intendedUpdate site newtup.changed heap found (updatedRow rel site.desc site.columnDefault newtup found.row))
        (handleRow site rel message (ApplyState.start heap))
  | .delete oldtup => ∀ found, pglogicalTupleFindReplidx site.replidindex heap oldtup = .ok (some found) →
      Filtered .delete (site.triggers.any (RowTrigger.fires · .delete)) (intendedDelete site heap found)
        (handleRow site rel message (ApplyState.start heap))

def RowFilters (site : Site) (rel : PGLogicalRelation) (heap : List StoredRow) : RowMessage → Prop
  | .insert newtup => InsertFilters site rel heap newtup
  | .update oldtup newtup => ∀ found,
      pglogicalTupleFindReplidx site.replidindex heap (oldtup.getD newtup) = .ok (some found) →
      UpdateFilters site rel heap newtup found
  | .delete _ => DeleteFilters site

theorem rowFiltered_iff {message : RowMessage} (applied : Applied site rel heap message) :
    RowFiltered site rel heap message ↔ RowFilters site rel heap message := by
  obtain ⟨applies, returns, finds⟩ := applied
  cases message with
  | insert newtup =>
    obtain ⟨conflict, searched⟩ := finds
    constructor
    · exact fun filtered => (handleInsert_filtered_iff applies searched returns).mp (filtered conflict searched)
    · exact fun filters _ other => (handleInsert_filtered_iff applies other returns).mpr filters
  | update oldtup newtup =>
    exact forall₂_congr fun found searched => handleUpdate_filtered_iff applies searched returns
  | delete oldtup =>
    obtain ⟨found, searched⟩ := finds
    constructor
    · exact fun filtered => (handleDelete_filtered_iff applies searched returns).mp (filtered found searched)
    · exact fun filters _ other => (handleDelete_filtered_iff applies other returns).mpr filters

/-- A DELETE in a table whose only trigger is one for DELETE. -/
theorem noteDelete_eq :
    handleRow (noteSite [suppressing .delete]) noteRel (.delete (noteKey 1)) (ApplyState.start [noteRow 0 1 7]) =
      .ok () ⟨[], false, [Action.openRelation, Action.initEstate, Action.pushSnapshot, Action.pushSnapshot,
        Action.popSnapshot, Action.heapDelete, Action.queueAfterTriggers .delete, Action.popSnapshot,
        Action.finishEstate, Action.closeRelation]⟩ := rfl

theorem noteDelete_applied :
    Applied (noteSite [suppressing .delete]) noteRel [noteRow 0 1 7] (.delete (noteKey 1)) := by
  refine ⟨rfl, ?_, noteRow 0 1 7, rfl⟩
  rintro ⟨stop, after, raised, -⟩
  rw [noteDelete_eq] at raised
  cases raised

theorem rowFiltered_iff_note : Applied (noteSite [suppressing .delete]) noteRel [noteRow 0 1 7] (.delete (noteKey 1)) ∧
    (RowFiltered (noteSite [suppressing .delete]) noteRel [noteRow 0 1 7] (.delete (noteKey 1)) ↔
      RowFilters (noteSite [suppressing .delete]) noteRel [noteRow 0 1 7] (.delete (noteKey 1))) :=
  ⟨noteDelete_applied, rowFiltered_iff noteDelete_applied⟩

/-- The row is removed although the trigger returns NULL. -/
theorem not_forall_rowFiltered :
    ¬ ∀ (site : Site) (rel : PGLogicalRelation) (heap : List StoredRow) (message : RowMessage),
      Applied site rel heap message → RowFiltered site rel heap message := by
  intro all
  have filtered := all _ _ _ _ noteDelete_applied (noteRow 0 1 7) rfl
  rw [noteDelete_eq] at filtered
  cases filtered.2

end PGLogical.Apply
