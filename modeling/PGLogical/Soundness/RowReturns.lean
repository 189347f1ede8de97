import PGLogical.Soundness.AppliedRow

/-! # Row handlers that return

A row change that no trigger looks at, that meets no conflict and that constraints and indexes accept is
stored, and its handler returns.
-/

namespace PGLogical.Apply

open Machine Native

variable {site : Site} {rel : PGLogicalRelation} {newtup tuple : PGLogicalTupleData} {oldtup : Option PGLogicalTupleData}
variable {heap : List StoredRow} {row : Row} {found : StoredRow} {l : Ledger} {E : ApplyState → Prop} {any : Bool}

/-! ## Statements that do not raise errors -/

theorem check_returns {result : Except String Unit} (passed : result = .ok ()) :
    Contract (Busy l heap) (check result) (fun _ => Busy l heap) E := by
  subst passed
  exact .pure fun _ here => here

theorem userTableUpdateOpenIndexes_returns (accepted : site.execInsertIndexTuples heap row = .ok false) :
    Contract (Busy l heap) (userTableUpdateOpenIndexes site row) (fun _ => Busy l heap) E := by
  unfold userTableUpdateOpenIndexes
  refine .ite (fun _ => .pure fun _ here => here) fun _ => ?_
  refine .bind (perform_busy rfl rfl) fun _ => .get_bind fun state here => ?_
  rw [here.heap_eq, accepted]
  refine .pure ?_
  rintro _ rfl
  exact here

theorem insertNew_returns (allowed : site.execConstraints row = .ok ())
    (accepted : site.execInsertIndexTuples (heapInsert site row heap) row = .ok false) :
    Contract (Busy l heap) (insertNew site row)
      (fun answer state => answer = row ∧ Busy l (heapInsert site row heap) state) E := by
  unfold insertNew simpleHeapInsert
  refine .bind (perform_busy rfl rfl) fun _ => .bind (check_returns allowed) fun _ => ?_
  refine .bind (.bind (perform_busy rfl rfl) fun _ => modifyHeap_busy _) fun _ => ?_
  refine .bind (userTableUpdateOpenIndexes_returns accepted) fun _ => ?_
  exact .bind (perform_busy rfl rfl) fun _ => .pure fun _ here => ⟨rfl, here⟩

theorem storeUpdated_returns (allowed : site.execConstraints row = .ok ())
    (accepted : site.execInsertIndexTuples (heapUpdate site found.tSelf row heap) row = .ok false) :
    Contract (Busy l heap) (storeUpdated site found row)
      (fun _ state => ∃ n, Busy (l.indexed n) (heapUpdate site found.tSelf row heap) state) E := by
  unfold storeUpdated simpleHeapUpdate
  refine .bind (perform_busy rfl rfl) fun _ => .bind (check_returns allowed) fun _ => ?_
  refine .bind (.bind (perform_busy rfl rfl) fun _ => modifyHeap_busy _) fun _ => ?_
  refine .ite (fun _ => ?_) fun _ => ?_
  · exact (perform_busy rfl rfl).weaken (fun _ here => here) (fun _ _ here => ⟨0, here⟩) fun _ stop => stop
  · refine .bind (execOpenIndices_busy site) fun _ => .bind (userTableUpdateOpenIndexes_returns accepted) fun _ => ?_
    refine .bind (execCloseIndices_busy site) fun _ => ?_
    exact (perform_busy rfl rfl).weaken (fun _ here => here) (fun _ _ here => ⟨site.indexes.length, here⟩) fun _ stop => stop

/-! ## The handlers -/

/-- The handler returns, with these rows in the table. -/
def Stores (m : RowM Unit) (heap heap' : List StoredRow) : Prop :=
  ∃ after, m (ApplyState.start heap) = .ok () after ∧ after.heap = heap'

theorem stores_of_contract {heap' : List StoredRow} {m : RowM Unit}
    (contract : Contract (At Calm false Ledger.empty heap) m (fun _ state => state.heap = heap') fun _ => False) :
    Stores m heap heap' := by
  have ran := contract _ (start_at heap)
  cases done : m (ApplyState.start heap) with
  | ok result after =>
    rw [done] at ran
    exact ⟨after, done, ran⟩
  | error stop after =>
    rw [done] at ran
    exact ran.elim

/-- Behind the insertion the handler of an ordinary table only cleans up. -/
theorem storeAndFinish_returns (ordinary : site.isQueue = false) (allowed : site.execConstraints row = .ok ())
    (accepted : site.execInsertIndexTuples (heapInsert site row heap) row = .ok false) :
    Contract (Busy l heap) (storeAndFinish site none row)
      (fun _ state => state.heap = heapInsert site row heap) E := by
  unfold storeAndFinish
  refine .bind (perform_busy rfl rfl) fun _ => .bind (insertNew_returns allowed accepted) fun answer => ?_
  rintro state ⟨-, here⟩
  refine Contract.bind (execCloseIndices_busy site) (fun _ => .bind (perform_busy rfl rfl) fun _ => ?_) state here
  unfold finishInsert
  rw [ordinary]
  refine .bind (perform_at (fun _ => rfl) fun _ calm => calm.append rfl) fun _ => ?_
  exact (perform_idle rfl rfl).weaken (fun _ here => here) (fun _ _ here => here.heap_eq) fun _ stop => stop

theorem stores_insert (applies : checkSyncingRelation site rel = false)
    (idle : site.triggers.any (RowTrigger.fires · .insert) = false) (ordinary : site.isQueue = false)
    (alone : pglogicalTupleFindConflict site.indexes heap newtup = .ok none)
    (allowed : site.execConstraints (insertedRow rel site.desc site.columnDefault newtup) = .ok ())
    (accepted : site.execInsertIndexTuples
      (heapInsert site (insertedRow rel site.desc site.columnDefault newtup) heap)
      (insertedRow rel site.desc site.columnDefault newtup) = .ok false) :
    Stores (handleInsert site rel newtup) heap
      (heapInsert site (insertedRow rel site.desc site.columnDefault newtup) heap) := by
  refine stores_of_contract (handleInsert_contract applies alone (fun suppressed => ?_) fun row fired => ?_)
  · rw [fireBefore_eq_some idle] at suppressed
    cases suppressed
  · rw [fireBefore_eq_some idle] at fired
    cases fired
    rintro state ⟨k, -, here⟩
    exact storeAndFinish_returns ordinary allowed accepted state here

theorem resolveAndStore_returns (resolved : resolveUpdate site found = .ok true)
    (allowed : site.execConstraints row = .ok ())
    (accepted : site.execInsertIndexTuples (heapUpdate site found.tSelf row heap) row = .ok false) :
    Contract (Busy l heap) (resolveAndStore site found row)
      (fun _ state => state.heap = heapUpdate site found.tSelf row heap) E := by
  unfold resolveAndStore
  rw [resolved]
  refine .bind (perform_busy rfl rfl) fun _ => .bind (storeUpdated_returns allowed accepted) fun _ => ?_
  rintro state ⟨n, here⟩
  have cleaned : Contract (At (mannerOf true) true (l.indexed n) (heapUpdate site found.tSelf row heap)) cleanUp
      (fun _ => At (mannerOf true) false _ (heapUpdate site found.tSelf row heap)) E := cleanUp_at
  exact cleaned.weaken (fun _ here => here) (fun _ _ here => here.heap_eq) (fun _ stop => stop) state here

theorem stores_update (applies : checkSyncingRelation site rel = false)
    (idle : site.triggers.any (RowTrigger.fires · .update) = false)
    (searched : pglogicalTupleFindReplidx site.replidindex heap (oldtup.getD newtup) = .ok (some found))
    (resolved : resolveUpdate site found = .ok true)
    (allowed : site.execConstraints (updatedRow rel site.desc site.columnDefault newtup found.row) = .ok ())
    (accepted : site.execInsertIndexTuples
      (heapUpdate site found.tSelf (updatedRow rel site.desc site.columnDefault newtup found.row) heap)
      (updatedRow rel site.desc site.columnDefault newtup found.row) = .ok false) :
    Stores (handleUpdate site rel oldtup newtup) heap
      (heapUpdate site found.tSelf (updatedRow rel site.desc site.columnDefault newtup found.row) heap) := by
  refine stores_of_contract ?_
  unfold handleUpdate applyUpdate
  refine .bind openRelation_at fun _ => ?_
  rw [applies]
  refine begin_at (.bind (searchReplidx_busy searched) fun answer => ?_)
  rintro state ⟨rfl, here⟩
  refine Contract.bind (beforeUpdate_busy site found.row _) (fun fired => ?_) state here
  rintro after ⟨isSome, k, -, there⟩
  rw [fireBefore_eq_some idle] at isSome
  subst isSome
  exact resolveAndStore_returns resolved allowed accepted after there

theorem stores_delete (applies : checkSyncingRelation site rel = false)
    (idle : site.triggers.any (RowTrigger.fires · .delete) = false)
    (searched : pglogicalTupleFindReplidx site.replidindex heap tuple = .ok (some found)) :
    Stores (handleDelete site rel tuple) heap (heapDelete found.tSelf heap) := by
  have goesOn : deleteGoesOn site found = true := by
    simp [deleteGoesOn, fireBeforeDelete, filter_fires_eq_nil idle]
  refine stores_of_contract ((handleDelete_ended applies searched).weaken (fun _ here => here) (fun _ state ended => ?_)
    fun _ stop => stop)
  rw [ended.heap_eq, goesOn, if_pos rfl]

end PGLogical.Apply
