import PGLogical.Machine.Contract
import PGLogical.Model.RowHandlers

/-! # What the row handlers do on each path

The trace of a handler is summed up in a ledger of what was acquired and released. A contract follows
a handler statement by statement with the ledger, the rows of the table and whether the executor state
is allocated. Which path is taken depends on pure functions of the input: the conflict that is found,
what the triggers return and how a conflict is resolved.
-/

namespace PGLogical.Apply

open Machine
open Native (PGLogicalTupleData)

/-! ## The ledger -/

structure Ledger where
  pushed : ℕ
  popped : ℕ
  inited : ℕ
  finished : ℕ
  closed : ℕ
  indexesOpened : ℕ
  indexesClosed : ℕ
  queueOpened : ℕ
  queueClosed : ℕ
  /-- The events whose BEFORE ROW triggers were executed, one entry for each trigger. -/
  executed : List TriggerEvent
deriving DecidableEq

def Ledger.empty : Ledger := ⟨0, 0, 0, 0, 0, 0, 0, 0, 0, []⟩

def Ledger.add (l : Ledger) : Action → Ledger
  | .pushSnapshot => { l with pushed := l.pushed + 1 }
  | .popSnapshot => { l with popped := l.popped + 1 }
  | .initEstate => { l with inited := l.inited + 1 }
  | .finishEstate => { l with finished := l.finished + 1 }
  | .closeRelation => { l with closed := l.closed + 1 }
  | .openIndex => { l with indexesOpened := l.indexesOpened + 1 }
  | .closeIndex => { l with indexesClosed := l.indexesClosed + 1 }
  | .openQueue => { l with queueOpened := l.queueOpened + 1 }
  | .closeQueue => { l with queueClosed := l.queueClosed + 1 }
  | .trigger event _ => { l with executed := l.executed ++ [event] }
  | _ => l

def ledger (trace : List Action) : Ledger := trace.foldl Ledger.add Ledger.empty

/-- A BEFORE ROW trigger returned NULL. -/
def Action.suppresses : Action → Bool
  | .trigger _ false => true
  | _ => false

/-- Neither a change of the table or its indexes nor the use of something released. -/
def Action.harmless : Action → Bool
  | .heapInsert => false
  | .heapUpdate => false
  | .heapDelete => false
  | .insertIndexTuples => false
  | .useReleased => false
  | _ => true

/-- Neither a trigger that returned NULL nor the use of something released. -/
def Action.ordinary : Action → Bool
  | .trigger _ false => false
  | .useReleased => false
  | _ => true

theorem Action.suppresses_eq_false {action : Action} (ordinary : action.ordinary = true) :
    action.suppresses = false := by
  unfold Action.suppresses
  split
  · cases ordinary
  · rfl

def Calm (trace : List Action) : Prop := ∀ action ∈ trace, action.ordinary = true

/-- After a trigger has returned NULL there are harmless statements only. -/
def Quiet (trace : List Action) : Prop :=
  trace.Pairwise fun earlier later => earlier.suppresses = true → later.harmless = true

theorem Calm.append {trace : List Action} {action : Action} (goesOn : action.ordinary = true) (calm : Calm trace) :
    Calm (trace ++ [action]) := by
  intro other member
  rcases List.mem_append.mp member with earlier | last
  · exact calm other earlier
  · rw [List.mem_singleton.mp last]
    exact goesOn

theorem Calm.quiet {trace : List Action} (calm : Calm trace) : Quiet trace := by
  refine List.pairwise_iff_forall_sublist.mpr fun {earlier later} sub suppressed => ?_
  have never := calm earlier (sub.subset (by simp))
  rw [Action.suppresses_eq_false never] at suppressed
  cases suppressed

/-- The action after which nothing may happen may itself be anything. -/
theorem Calm.quiet_append {trace : List Action} (action : Action) (calm : Calm trace) : Quiet (trace ++ [action]) := by
  refine List.pairwise_append.mpr ⟨calm.quiet, List.pairwise_singleton _ _, fun earlier member _ _ suppressed => ?_⟩
  rw [Action.suppresses_eq_false (calm earlier member)] at suppressed
  cases suppressed

theorem Quiet.append {trace : List Action} {action : Action} (harmless : action.harmless = true) (quiet : Quiet trace) :
    Quiet (trace ++ [action]) := by
  refine List.pairwise_append.mpr ⟨quiet, List.pairwise_singleton _ _, fun _ _ later last _ => ?_⟩
  rw [List.mem_singleton.mp last]
  exact harmless

/-- A trigger has returned NULL, and only harmless statements followed. -/
def Hushed (trace : List Action) : Prop := Quiet trace ∧ ∃ action ∈ trace, action.suppresses = true

theorem Hushed.append {trace : List Action} {action : Action} (harmless : action.harmless = true)
    (hushed : Hushed trace) : Hushed (trace ++ [action]) := by
  obtain ⟨quiet, suppressing, member, suppresses⟩ := hushed
  exact ⟨quiet.append harmless, suppressing, List.mem_append_left _ member, suppresses⟩

theorem Hushed.not_quiet_append {trace : List Action} {action : Action} (harms : action.harmless = false)
    (hushed : Hushed trace) : ¬ Quiet (trace ++ [action]) := by
  intro quiet
  obtain ⟨-, suppressing, member, suppresses⟩ := hushed
  have harmless := (List.pairwise_append.mp quiet).2.2 suppressing member action (List.mem_singleton_self action) suppresses
  rw [harms] at harmless
  cases harmless

/-! ## One statement -/

/-- Where a handler is. -/
structure At (manner : List Action → Prop) (estate : Bool) (l : Ledger) (heap : List StoredRow)
    (state : ApplyState) : Prop where
  manner_trace : manner state.trace
  estate_eq : state.estate = estate
  ledger_eq : ledger state.trace = l
  heap_eq : state.heap = heap

/-- A handler that has an executor state and in which no trigger has returned NULL. -/
abbrev Busy := At Calm true

variable {manner manner' : List Action → Prop} {estate : Bool} {l : Ledger} {heap : List StoredRow}
variable {E : ApplyState → Prop}

theorem perform_at {action : Action} (allowed : action.needsEstate = true → estate = true)
    (keeps : ∀ trace, manner trace → manner' (trace ++ [action])) :
    Contract (At manner estate l heap) (perform action)
      (fun _ => At manner' (estateAfter estate action) (l.add action) heap) E := by
  intro state here
  have live : (action.needsEstate && !state.estate) = false := by
    rw [here.estate_eq]
    cases needs : action.needsEstate with
    | false => rfl
    | true => rw [allowed needs]; rfl
  have answer : perform action state = .ok () (state.record action) := by simp [perform, live]
  rw [answer]
  refine ⟨keeps _ here.manner_trace, ?_, ?_, here.heap_eq⟩
  · simp [ApplyState.record, here.estate_eq]
  · simp [ApplyState.record, ledger, List.foldl_append, ← here.ledger_eq]

theorem perform_busy {action : Action} (keeps : estateAfter true action = true) (goesOn : action.ordinary = true) :
    Contract (Busy l heap) (perform action) (fun _ => Busy (l.add action) heap) E := by
  have contract : Contract (Busy l heap) (perform action)
      (fun _ => At Calm (estateAfter true action) (l.add action) heap) E :=
    perform_at (fun _ => rfl) fun _ calm => calm.append goesOn
  rwa [keeps] at contract

theorem perform_idle {action : Action} (free : action.needsEstate = false) (goesOn : action.ordinary = true) :
    Contract (At Calm estate l heap) (perform action)
      (fun _ => At Calm (estateAfter estate action) (l.add action) heap) E := by
  refine perform_at (fun needs => ?_) fun _ calm => calm.append goesOn
  rw [free] at needs
  cases needs

/-! ## Indexes and searches -/

theorem execOpenIndices_busy (site : Site) :
    Contract (Busy l heap) (execOpenIndices site)
      (fun _ => Busy { l with indexesOpened := l.indexesOpened + site.indexes.length } heap) E := by
  unfold execOpenIndices
  induction site.indexes generalizing l with
  | nil => exact .pure fun _ here => here
  | cons index rest ih =>
    change Contract _ (perform .openIndex >>= fun _ => rest.forM fun _ => perform .openIndex) _ _
    refine .bind (perform_busy rfl rfl) fun _ => ?_
    have later := ih (l := l.add .openIndex)
    simpa [Ledger.add, Nat.add_assoc, Nat.add_comm 1] using later

theorem execCloseIndices_busy (site : Site) :
    Contract (Busy l heap) (execCloseIndices site)
      (fun _ => Busy { l with indexesClosed := l.indexesClosed + site.indexes.length } heap) E := by
  unfold execCloseIndices
  induction site.indexes generalizing l with
  | nil => exact .pure fun _ here => here
  | cons index rest ih =>
    change Contract _ (perform .closeIndex >>= fun _ => rest.forM fun _ => perform .closeIndex) _ _
    refine .bind (perform_busy rfl rfl) fun _ => ?_
    have later := ih (l := l.add .closeIndex)
    simpa [Ledger.add, Nat.add_assoc, Nat.add_comm 1] using later

/-- A snapshot that was pushed and popped. -/
def Ledger.locked {α : Type} (l : Ledger) (found : Option α) : Ledger :=
  match found with
  | none => l
  | some _ => { l with pushed := l.pushed + 1, popped := l.popped + 1 }

theorem lockFound_busy {α : Type} (found : Option α) :
    Contract (Busy l heap) (lockFound found) (fun answer state => answer = found ∧ Busy (l.locked found) heap state) E := by
  cases found with
  | none => exact .pure fun _ here => ⟨rfl, here⟩
  | some value =>
    unfold lockFound
    refine .bind (perform_busy rfl rfl) fun _ => ?_
    refine .bind (perform_busy rfl rfl) fun _ => ?_
    exact .pure fun _ here => ⟨rfl, here⟩

theorem searchConflict_busy {site : Site} {newtup : PGLogicalTupleData} {conflict : Option (Oid × StoredRow)}
    (found : pglogicalTupleFindConflict site.indexes heap newtup = .ok conflict) :
    Contract (Busy l heap) (searchConflict site newtup)
      (fun answer state => answer = conflict ∧ Busy (l.locked conflict) heap state) E := by
  unfold searchConflict
  refine .get_bind fun state here => ?_
  rw [here.heap_eq, found]
  refine (lockFound_busy conflict).weaken (fun current same => ?_) (fun _ _ post => post) fun _ stop => stop
  rw [same]
  exact here

theorem searchReplidx_busy {site : Site} {tuple : PGLogicalTupleData} {row : Option StoredRow}
    (found : pglogicalTupleFindReplidx site.replidindex heap tuple = .ok row) :
    Contract (Busy l heap) (searchReplidx site tuple)
      (fun answer state => answer = row ∧ Busy (l.locked row) heap state) E := by
  unfold searchReplidx
  refine .get_bind fun state here => ?_
  rw [here.heap_eq, found]
  refine (lockFound_busy row).weaken (fun current same => ?_) (fun _ _ post => post) fun _ stop => stop
  rw [same]
  exact here

/-! ## Triggers -/

/-- What the enabled triggers make of a row, one after the other. -/
def fireBefore (event : TriggerEvent) (old : Option Row) (triggers : List RowTrigger) (row : Row) : Option Row :=
  (triggers.filter (RowTrigger.fires · event)).foldlM (fun row trigger => trigger.call event old (some row)) row

def fireBeforeDelete (triggers : List RowTrigger) (old : Row) : Bool :=
  (triggers.filter (RowTrigger.fires · .delete)).all fun trigger => (trigger.call .delete (some old) none).isSome

def Ledger.ran (l : Ledger) (event : TriggerEvent) (k : ℕ) : Ledger :=
  { l with executed := l.executed ++ List.replicate k event }

theorem Ledger.ran_zero (l : Ledger) (event : TriggerEvent) : l.ran event 0 = l := by simp [Ledger.ran]

theorem Ledger.ran_add_trigger (l : Ledger) (event : TriggerEvent) (returned : Bool) (k : ℕ) :
    (l.add (.trigger event returned)).ran event k = l.ran event (k + 1) := by
  simp [Ledger.add, Ledger.ran, List.replicate_succ]

def mannerOf (goesOn : Bool) : List Action → Prop := if goesOn then Calm else Hushed

/-- Where a handler is behind its triggers. -/
def Fired (l : Ledger) (heap : List StoredRow) (event : TriggerEvent) (any goesOn : Bool) (state : ApplyState) : Prop :=
  ∃ k, (0 < k ↔ any = true) ∧ At (mannerOf goesOn) true (l.ran event k) heap state

theorem Fired.none_run {event : TriggerEvent} {state : ApplyState} (here : Busy l heap state) :
    Fired l heap event false true state := ⟨0, by simp, by rwa [Ledger.ran_zero]⟩

theorem Fired.succ {event : TriggerEvent} {any goesOn returned : Bool} {state : ApplyState}
    (later : Fired (l.add (.trigger event returned)) heap event any goesOn state) :
    Fired l heap event true goesOn state := by
  obtain ⟨k, -, here⟩ := later
  rw [Ledger.ran_add_trigger] at here
  exact ⟨k + 1, by simp, here⟩

/-- A trigger that returns NULL is the last thing that may matter. -/
theorem perform_suppressing (event : TriggerEvent) :
    Contract (Busy l heap) (perform (.trigger event false)) (fun _ => Fired l heap event true false) E := by
  have contract : Contract (Busy l heap) (perform (.trigger event false))
      (fun _ => At Hushed true (l.add (.trigger event false)) heap) E :=
    perform_at (fun _ => rfl) fun _ calm => ⟨calm.quiet_append _, .trigger event false, by simp, rfl⟩
  refine contract.weaken (fun _ here => here) (fun _ state here => ⟨1, by simp, ?_⟩) fun _ stop => stop
  rw [← Ledger.ran_add_trigger l event false, Ledger.ran_zero]
  exact here

theorem execBRTriggers_busy (event : TriggerEvent) (old : Option Row) (triggers : List RowTrigger) (row : Row) :
    Contract (Busy l heap) (execBRTriggers event old triggers row)
      (fun answer state => answer = fireBefore event old triggers row ∧
        Fired l heap event (triggers.any (RowTrigger.fires · event)) answer.isSome state) E := by
  induction triggers generalizing l row with
  | nil => exact .pure fun _ here => ⟨rfl, Fired.none_run here⟩
  | cons trigger rest ih =>
    unfold execBRTriggers
    refine .ite (fun fires => ?_) fun idle => ?_
    · cases returned : trigger.call event old (some row) with
      | none =>
        refine .bind (perform_suppressing event) fun _ => .pure fun state here => ⟨?_, ?_⟩
        · simp [fireBefore, fires, returned]
        · simpa [fires] using here
      | some row' =>
        refine .bind (perform_busy rfl rfl) fun _ => ?_
        refine (ih row').weaken (fun _ here => here) (fun answer state post => ⟨?_, ?_⟩) fun _ stop => stop
        · simp [post.1, fireBefore, fires, returned]
        · rw [List.any_cons, fires, Bool.true_or]
          exact post.2.succ
    · rw [Bool.not_eq_true] at idle
      refine (ih row).weaken (fun _ here => here) (fun answer state post => ⟨?_, ?_⟩) fun _ stop => stop
      · simp [post.1, fireBefore, idle]
      · simpa [idle] using post.2

theorem execBRDeleteTriggers_busy (old : Row) (triggers : List RowTrigger) :
    Contract (Busy l heap) (execBRDeleteTriggers old triggers)
      (fun answer state => answer = fireBeforeDelete triggers old ∧
        Fired l heap .delete (triggers.any (RowTrigger.fires · .delete)) answer state) E := by
  induction triggers generalizing l with
  | nil => exact .pure fun _ here => ⟨rfl, Fired.none_run here⟩
  | cons trigger rest ih =>
    unfold execBRDeleteTriggers
    refine .ite (fun fires => ?_) fun idle => ?_
    · cases returned : trigger.call .delete (some old) none with
      | none =>
        refine .bind (perform_suppressing .delete) fun _ => .pure fun state here => ⟨?_, ?_⟩
        · simp [fireBeforeDelete, fires, returned]
        · simpa [fires] using here
      | some row' =>
        refine .bind (perform_busy rfl rfl) fun _ => ?_
        refine ih.weaken (fun _ here => here) (fun answer state post => ⟨?_, ?_⟩) fun _ stop => stop
        · simp [post.1, fireBeforeDelete, fires, returned]
        · rw [List.any_cons, fires, Bool.true_or]
          exact post.2.succ
    · rw [Bool.not_eq_true] at idle
      refine ih.weaken (fun _ here => here) (fun answer state post => ⟨?_, ?_⟩) fun _ stop => stop
      · simp [post.1, fireBeforeDelete, idle]
      · simpa [idle] using post.2

/-- Without a trigger for the event in the descriptor there is none that fires. -/
theorem any_fires_eq_false {triggers : List RowTrigger} {event : TriggerEvent}
    (unset : trigBeforeRow triggers event = false) : triggers.any (RowTrigger.fires · event) = false := by
  rw [trigBeforeRow, List.any_eq_false] at unset
  rw [List.any_eq_false]
  intro trigger member
  simp [RowTrigger.fires, RowTrigger.firesFor, unset trigger member]

theorem filter_fires_eq_nil {triggers : List RowTrigger} {event : TriggerEvent}
    (idle : triggers.any (RowTrigger.fires · event) = false) : triggers.filter (RowTrigger.fires · event) = [] := by
  rw [List.any_eq_false] at idle
  exact List.filter_eq_nil_iff.mpr idle

/-- The guard in front of the triggers of an event. -/
theorem guarded_triggers_busy (event : TriggerEvent) (old : Option Row) (triggers : List RowTrigger) (row : Row) :
    Contract (Busy l heap)
      (if trigBeforeRow triggers event then execBRTriggers event old triggers row else pure (some row))
      (fun answer state => answer = fireBefore event old triggers row ∧
        Fired l heap event (triggers.any (RowTrigger.fires · event)) answer.isSome state) E := by
  refine .ite (fun _ => execBRTriggers_busy event old triggers row) fun unset => .pure fun state here => ?_
  rw [Bool.not_eq_true] at unset
  have idle := any_fires_eq_false unset
  refine ⟨?_, ?_⟩
  · simp [fireBefore, filter_fires_eq_nil idle]
  · rw [idle]
    exact Fired.none_run here

theorem beforeInsert_busy (site : Site) (row : Row) :
    Contract (Busy l heap) (beforeInsert site row)
      (fun answer state => answer = fireBefore .insert none site.triggers row ∧
        Fired l heap .insert (site.triggers.any (RowTrigger.fires · .insert)) answer.isSome state) E :=
  guarded_triggers_busy .insert none site.triggers row

theorem beforeUpdate_busy (site : Site) (old row : Row) :
    Contract (Busy l heap) (beforeUpdate site old row)
      (fun answer state => answer = fireBefore .update (some old) site.triggers row ∧
        Fired l heap .update (site.triggers.any (RowTrigger.fires · .update)) answer.isSome state) E :=
  guarded_triggers_busy .update (some old) site.triggers row

/-- The triggers of a DELETE run only where the table has a trigger for UPDATE. -/
theorem beforeDelete_busy (site : Site) (old : Row) :
    Contract (Busy l heap) (beforeDelete site old)
      (fun answer state => answer = (!trigBeforeRow site.triggers .update || fireBeforeDelete site.triggers old) ∧
        Fired l heap .delete (trigBeforeRow site.triggers .update && site.triggers.any (RowTrigger.fires · .delete))
          answer state) E := by
  unfold beforeDelete
  refine .ite (fun set => ?_) fun unset => .pure fun state here => ?_
  · simpa [set] using execBRDeleteTriggers_busy old site.triggers
  · rw [Bool.not_eq_true] at unset
    rw [unset]
    exact ⟨rfl, Fired.none_run here⟩

/-! ## Changes of the table -/

theorem raise_busy {α : Type} {Q : α → ApplyState → Prop} (message : String) :
    Contract (Busy l heap) (raise message) Q fun state => Calm state.trace :=
  .throw fun _ here => here.manner_trace

theorem check_busy (result : Except String Unit) :
    Contract (Busy l heap) (check result) (fun _ => Busy l heap) fun state => Calm state.trace := by
  cases result with
  | ok _ => exact .pure fun _ here => here
  | error message => exact raise_busy message

theorem modifyHeap_busy (change : List StoredRow → List StoredRow) :
    Contract (Busy l heap) (modifyHeap change) (fun _ => Busy l (change heap)) E :=
  .modify fun _ here => ⟨here.manner_trace, here.estate_eq, here.ledger_eq, congrArg change here.heap_eq⟩

theorem userTableUpdateOpenIndexes_busy (site : Site) (row : Row) :
    Contract (Busy l heap) (userTableUpdateOpenIndexes site row) (fun _ => Busy l heap)
      fun state => Calm state.trace := by
  unfold userTableUpdateOpenIndexes
  refine .ite (fun _ => .pure fun _ here => here) fun _ => ?_
  refine .bind (perform_busy rfl rfl) fun _ => .get_keep fun state => ?_
  cases site.execInsertIndexTuples state.heap row with
  | error message => exact raise_busy message
  | ok recheck =>
    cases recheck with
    | true => exact raise_busy _
    | false => exact .pure fun _ here => here

theorem insertNew_busy (site : Site) (row : Row) :
    Contract (Busy l heap) (insertNew site row)
      (fun answer state => answer = row ∧ Busy l (heapInsert site row heap) state) fun state => Calm state.trace := by
  unfold insertNew simpleHeapInsert
  refine .bind (perform_busy rfl rfl) fun _ => .bind (check_busy _) fun _ => ?_
  refine .bind (.bind (perform_busy rfl rfl) fun _ => modifyHeap_busy _) fun _ => ?_
  refine .bind (userTableUpdateOpenIndexes_busy site row) fun _ => ?_
  exact .bind (perform_busy rfl rfl) fun _ => .pure fun _ here => ⟨rfl, here⟩

theorem updateConflicting_busy (site : Site) (found : StoredRow) (row : Row) :
    Contract (Busy l heap) (updateConflicting site found row)
      (fun _ => Busy l (heapUpdate site found.tSelf row heap)) fun state => Calm state.trace := by
  unfold updateConflicting simpleHeapUpdate
  refine .bind (perform_busy rfl rfl) fun _ => .bind (check_busy _) fun _ => ?_
  refine .bind (.bind (perform_busy rfl rfl) fun _ => modifyHeap_busy _) fun _ => ?_
  refine .ite (fun _ => perform_busy rfl rfl) fun _ => ?_
  exact .bind (userTableUpdateOpenIndexes_busy site row) fun _ => perform_busy rfl rfl

/-- Index relations that were opened and closed. -/
def Ledger.indexed (l : Ledger) (n : ℕ) : Ledger :=
  { l with indexesOpened := l.indexesOpened + n, indexesClosed := l.indexesClosed + n }

theorem storeUpdated_busy (site : Site) (found : StoredRow) (row : Row) :
    Contract (Busy l heap) (storeUpdated site found row)
      (fun _ state => ∃ n, Busy (l.indexed n) (heapUpdate site found.tSelf row heap) state)
      fun state => Calm state.trace := by
  unfold storeUpdated simpleHeapUpdate
  refine .bind (perform_busy rfl rfl) fun _ => .bind (check_busy _) fun _ => ?_
  refine .bind (.bind (perform_busy rfl rfl) fun _ => modifyHeap_busy _) fun _ => ?_
  refine .ite (fun _ => ?_) fun _ => ?_
  · exact (perform_busy rfl rfl).weaken (fun _ here => here) (fun _ _ here => ⟨0, here⟩) fun _ stop => stop
  · refine .bind (execOpenIndices_busy site) fun _ => .bind (userTableUpdateOpenIndexes_busy site row) fun _ => ?_
    refine .bind (execCloseIndices_busy site) fun _ => ?_
    exact (perform_busy rfl rfl).weaken (fun _ here => here) (fun _ _ here => ⟨site.indexes.length, here⟩) fun _ stop => stop

/-! ## Ends -/

/-- How a handler for an event leaves things: so many index relations are still open, and its triggers
have been executed if there were any. -/
structure Ended (event : TriggerEvent) (any : Bool) (leaked : ℕ) (heap : List StoredRow) (state : ApplyState) : Prop where
  quiet : Quiet state.trace
  heap_eq : state.heap = heap
  snapshots : (ledger state.trace).popped = (ledger state.trace).pushed
  finished : (ledger state.trace).finished = (ledger state.trace).inited
  inited : (ledger state.trace).inited = 1
  closed : (ledger state.trace).closed = 1
  indexes : (ledger state.trace).indexesOpened = (ledger state.trace).indexesClosed + leaked
  queue : (ledger state.trace).queueClosed = (ledger state.trace).queueOpened
  executed : event ∈ (ledger state.trace).executed ↔ any = true

theorem mannerOf_append {goesOn : Bool} {action : Action} (ordinary : action.ordinary = true)
    (harmless : action.harmless = true) (trace : List Action) (here : mannerOf goesOn trace) :
    mannerOf goesOn (trace ++ [action]) := by
  cases goesOn with
  | false => exact Hushed.append harmless here
  | true => exact Calm.append ordinary here

theorem mannerOf_quiet {goesOn : Bool} {trace : List Action} (here : mannerOf goesOn trace) : Quiet trace := by
  cases goesOn with
  | false => exact here.1
  | true => exact Calm.quiet here

theorem cleanUp_at {goesOn : Bool} :
    Contract (At (mannerOf goesOn) true l heap) cleanUp
      (fun _ => At (mannerOf goesOn) false (((l.add .popSnapshot).add .finishEstate).add .closeRelation) heap) E := by
  unfold cleanUp
  refine .bind (perform_at (fun _ => rfl) (mannerOf_append rfl rfl)) fun _ => ?_
  refine .bind (perform_at (fun _ => rfl) (mannerOf_append rfl rfl)) fun _ => ?_
  exact perform_at (fun needs => nomatch needs) (mannerOf_append rfl rfl)

/-- What is acquired while a handler for an event works on the row. -/
structure Working (event : TriggerEvent) (any : Bool) (leaked : ℕ) (l : Ledger) : Prop where
  snapshots : l.pushed = l.popped + 1
  inited : l.inited = 1
  finished : l.finished = 0
  closed : l.closed = 0
  indexes : l.indexesOpened = l.indexesClosed + leaked
  queue : l.queueClosed = l.queueOpened
  executed : event ∈ l.executed ↔ any = true

variable {event : TriggerEvent} {any : Bool} {leaked : ℕ}

theorem Working.ran {k : ℕ} (working : Working event false leaked l) (count : 0 < k ↔ any = true) :
    Working event any leaked (l.ran event k) :=
  { working with
    executed := by
      have before : event ∉ l.executed := by simpa using working.executed
      simp [Ledger.ran, before, ← count, Nat.pos_iff_ne_zero] }

theorem Working.ran_other {other : TriggerEvent} (different : event ≠ other) (working : Working event any leaked l)
    (k : ℕ) : Working event any leaked (l.ran other k) :=
  { working with
    executed := by
      rw [← working.executed]
      simp [Ledger.ran, different] }

theorem Working.indexed (working : Working event any leaked l) (n : ℕ) : Working event any leaked (l.indexed n) :=
  { working with
    indexes := by
      have open_indexes := working.indexes
      simp only [Ledger.indexed]
      omega }

theorem cleanUp_ended (goesOn : Bool) (working : Working event any leaked l) :
    Contract (At (mannerOf goesOn) true l heap) cleanUp (fun _ => Ended event any leaked heap) E := by
  refine cleanUp_at.weaken (fun _ here => here) (fun _ state here => ?_) fun _ stop => stop
  refine ⟨mannerOf_quiet here.manner_trace, here.heap_eq, ?_, ?_, ?_, ?_, ?_, ?_, ?_⟩ <;> rw [here.ledger_eq]
  · exact working.snapshots.symm
  · simp [Ledger.add, working.finished, working.inited]
  · exact working.inited
  · simp [Ledger.add, working.closed]
  · exact working.indexes
  · exact working.queue
  · exact working.executed

theorem cleanUp_fired {goesOn : Bool} (working : Working event false leaked l) :
    Contract (Fired l heap event any goesOn) cleanUp (fun _ => Ended event any leaked heap) E := by
  rintro state ⟨k, count, here⟩
  exact cleanUp_ended goesOn (working.ran count) state here

theorem start_at (heap : List StoredRow) : At Calm false Ledger.empty heap (ApplyState.start heap) :=
  ⟨fun _ member => (nomatch member), rfl, rfl, rfl⟩

/-- The relation is opened by the reader of the message. -/
theorem openRelation_at :
    Contract (At Calm false l heap) (perform .openRelation) (fun _ => At Calm false l heap) E :=
  perform_idle rfl rfl

/-- A change of a table that is being synchronized is skipped. -/
theorem skip_at :
    Contract (At Calm false Ledger.empty heap) (perform .closeRelation)
      (fun _ => At Calm false (Ledger.empty.add .closeRelation) heap) E :=
  perform_idle rfl rfl

theorem begin_at {m : RowM Unit} {Q : Unit → ApplyState → Prop}
    (rest : Contract (Busy ((Ledger.empty.add .initEstate).add .pushSnapshot) heap) m Q E) :
    Contract (At Calm false Ledger.empty heap)
      (do perform .initEstate; perform .pushSnapshot; m) Q E := by
  refine .bind (perform_idle rfl rfl) fun _ => ?_
  exact .bind (perform_at (fun _ => rfl) fun _ calm => calm.append rfl) fun _ => rest

/-! ## INSERT -/

section Insert

variable {site : Site} {rel : PGLogicalRelation} {newtup : PGLogicalTupleData} {row row' : Row} {found : StoredRow}
variable {conflict : Option (Oid × StoredRow)} {index : Oid}

/-- The ledger when the triggers of an INSERT are reached. -/
def insertOpening (site : Site) (conflict : Option (Oid × StoredRow)) : Ledger :=
  Ledger.locked { (Ledger.empty.add .initEstate).add .pushSnapshot with indexesOpened := site.indexes.length } conflict

theorem working_insertOpening : Working .insert false site.indexes.length (insertOpening site conflict) := by
  cases conflict <;> constructor <;> simp [insertOpening, Ledger.locked, Ledger.add, Ledger.empty]

/-- Up to the triggers an INSERT takes one path, unless the search raises an error. -/
theorem handleInsert_contract {Q : Unit → ApplyState → Prop} (applies : checkSyncingRelation site rel = false)
    (searched : pglogicalTupleFindConflict site.indexes heap newtup = .ok conflict)
    (suppressed : fireBefore .insert none site.triggers (insertedRow rel site.desc site.columnDefault newtup) = none →
      Contract (Fired (insertOpening site conflict) heap .insert (site.triggers.any (RowTrigger.fires · .insert)) false)
        cleanUp Q E)
    (goesOn : ∀ row,
      fireBefore .insert none site.triggers (insertedRow rel site.desc site.columnDefault newtup) = some row →
      Contract (Fired (insertOpening site conflict) heap .insert (site.triggers.any (RowTrigger.fires · .insert)) true)
        (storeAndFinish site conflict row) Q E) :
    Contract (At Calm false Ledger.empty heap) (handleInsert site rel newtup) Q E := by
  unfold handleInsert applyInsert
  refine .bind openRelation_at fun _ => ?_
  rw [applies]
  refine begin_at ?_
  refine .bind (execOpenIndices_busy site) fun _ => .bind (searchConflict_busy searched) fun answer => ?_
  rintro state ⟨rfl, here⟩
  have opened : Busy (insertOpening site answer) heap state := by
    have length : (0 : ℕ) + site.indexes.length = site.indexes.length := Nat.zero_add _
    simpa [insertOpening, Ledger.add, Ledger.empty, length] using here
  refine Contract.bind (beforeInsert_busy site _) (fun fired => ?_) state opened
  cases fired with
  | none =>
    rintro after ⟨isNone, here⟩
    exact suppressed isNone.symm after here
  | some row =>
    rintro after ⟨isSome, here⟩
    exact goesOn row isSome.symm after here

/-- A search that raises an error ends the handler. -/
theorem handleInsert_raises {message : String} (applies : checkSyncingRelation site rel = false)
    (searched : pglogicalTupleFindConflict site.indexes heap newtup = .error message) :
    Contract (At Calm false Ledger.empty heap) (handleInsert site rel newtup) (fun _ _ => False)
      fun state => Calm state.trace := by
  unfold handleInsert applyInsert
  refine .bind openRelation_at fun _ => ?_
  rw [applies]
  refine begin_at ?_
  refine .bind (execOpenIndices_busy site) fun _ => ?_
  refine .bind (R := fun _ _ => False) ?_ fun _ _ impossible => impossible.elim
  unfold searchConflict
  refine .get_bind fun state here => ?_
  rw [here.heap_eq, searched]
  refine .throw fun current same => ?_
  rw [same]
  exact here.manner_trace

theorem finishInsert_ended (working : Working .insert any 0 l) :
    Contract (Busy l heap) (do perform .popSnapshot; finishInsert site row)
      (fun _ => Ended .insert any 0 heap) fun state => Calm state.trace := by
  refine .bind (perform_busy rfl rfl) fun _ => ?_
  unfold finishInsert
  have ends : ∀ (q : ℕ) (state : ApplyState),
      At Calm false { ((l.add .popSnapshot).add .finishEstate).add .closeRelation with
        queueOpened := l.queueOpened + q, queueClosed := l.queueClosed + q } heap state →
      Ended .insert any 0 heap state := by
    intro q state here
    refine ⟨here.manner_trace.quiet, here.heap_eq, ?_, ?_, ?_, ?_, ?_, ?_, ?_⟩ <;> rw [here.ledger_eq]
    · exact working.snapshots.symm
    · simp [Ledger.add, working.finished, working.inited]
    · exact working.inited
    · simp [Ledger.add, working.closed]
    · exact working.indexes
    · simp [working.queue]
    · exact working.executed
  refine .ite (fun _ => ?_) fun _ => ?_
  · refine .bind (perform_at (fun _ => rfl) fun _ calm => calm.append rfl) fun _ => ?_
    refine .bind (perform_idle rfl rfl) fun _ => ?_
    refine .bind (R := fun _ => At Calm false (((l.add .popSnapshot).add .finishEstate).add .closeRelation) heap) ?_
      fun _ => ?_
    · cases site.handleQueuedMessage row with
      | ok _ => exact .pure fun _ here => here
      | error message => exact .throw fun _ here => here.manner_trace
    refine .bind (perform_idle rfl rfl) fun _ => ?_
    refine (perform_idle rfl rfl).weaken (fun _ here => here)
      (fun _ state here => ends 1 state here) fun _ stop => stop
  · refine .bind (perform_at (fun _ => rfl) fun _ calm => calm.append rfl) fun _ => ?_
    refine (perform_idle rfl rfl).weaken (fun _ here => here)
      (fun _ state here => ends 0 state here) fun _ stop => stop

/-- Behind the store the indexes are closed. -/
theorem closeAndFinish_ended (working : Working .insert any site.indexes.length l) :
    Contract (Busy l heap) (do execCloseIndices site; perform .popSnapshot; finishInsert site row)
      (fun _ => Ended .insert any 0 heap) fun state => Calm state.trace := by
  refine .bind (execCloseIndices_busy site) fun _ => finishInsert_ended ?_
  exact { working with indexes := by simp [working.indexes] }

theorem storeAndFinish_new (working : Working .insert false site.indexes.length l) :
    Contract (Fired l heap .insert any true) (storeAndFinish site none row)
      (fun _ => Ended .insert any 0 (heapInsert site row heap)) fun state => Calm state.trace := by
  rintro state ⟨k, count, here⟩
  unfold storeAndFinish
  refine Contract.bind (perform_busy rfl rfl) (fun _ => ?_) state here
  refine .bind (insertNew_busy site row) fun _ => ?_
  rintro after ⟨-, there⟩
  exact closeAndFinish_ended (working.ran count) after there

theorem storeAndFinish_kept (working : Working .insert false site.indexes.length l)
    (kept : tryResolveConflict site.resolver site.trackCommitTimestamp site.session found.version = some .keepLocal) :
    Contract (Fired l heap .insert any true) (storeAndFinish site (some (index, found)) row)
      (fun _ => Ended .insert any 0 heap) fun state => Calm state.trace := by
  rintro state ⟨k, count, here⟩
  unfold storeAndFinish storeInserted insertConflicting
  simp only [kept]
  refine Contract.bind (perform_busy rfl rfl) (fun _ => ?_) state here
  exact closeAndFinish_ended (working.ran count)

theorem storeAndFinish_raises
    (asked : tryResolveConflict site.resolver site.trackCommitTimestamp site.session found.version = none) :
    Contract (Fired l heap .insert any true) (storeAndFinish site (some (index, found)) row) (fun _ _ => False)
      fun state => Calm state.trace := by
  rintro state ⟨k, count, here⟩
  unfold storeAndFinish storeInserted insertConflicting
  simp only [asked]
  refine Contract.bind (perform_busy rfl rfl) (fun _ => ?_) state here
  exact .bind (R := fun _ _ => False) (raise_busy _) fun _ _ impossible => impossible.elim

theorem beforeConflictUpdate_fired (updated : fireBefore .update (some found.row) site.triggers row = some row') :
    Contract (Busy l heap) (beforeConflictUpdate site found row)
      (fun answer state => answer = some row' ∧ ∃ j, Busy (l.ran .update j) heap state) E := by
  unfold beforeConflictUpdate
  refine .bind (beforeUpdate_busy site found.row row) fun answer => ?_
  rintro state ⟨isSome, j, -, here⟩
  rw [updated] at isSome
  subst isSome
  exact ⟨rfl, j, here⟩

theorem execMaterializeSlot_busy (row : Row) :
    Contract (Busy l heap) (execMaterializeSlot (some row)) (fun answer state => answer = row ∧ Busy l heap state) E :=
  .bind (perform_busy rfl rfl) fun _ => .pure fun _ here => ⟨rfl, here⟩

theorem insertConflicting_applied
    (applied : tryResolveConflict site.resolver site.trackCommitTimestamp site.session found.version = some .applyRemote)
    (updated : fireBefore .update (some found.row) site.triggers row = some row') :
    Contract (Busy l heap) (insertConflicting site found row)
      (fun _ state => ∃ j, Busy (l.ran .update j) (heapUpdate site found.tSelf row' heap) state)
      fun state => Calm state.trace := by
  unfold insertConflicting
  rw [applied]
  refine .bind (beforeConflictUpdate_fired updated) fun answer => ?_
  rintro state ⟨rfl, j, here⟩
  refine Contract.bind (execMaterializeSlot_busy row') (fun answer => ?_) state here
  rintro after ⟨rfl, there⟩
  refine Contract.bind (updateConflicting_busy site found _) (fun _ => ?_) after there
  exact .pure fun _ last => ⟨j, last⟩

theorem storeAndFinish_applied (working : Working .insert false site.indexes.length l)
    (applied : tryResolveConflict site.resolver site.trackCommitTimestamp site.session found.version = some .applyRemote)
    (updated : fireBefore .update (some found.row) site.triggers row = some row') :
    Contract (Fired l heap .insert any true) (storeAndFinish site (some (index, found)) row)
      (fun _ => Ended .insert any 0 (heapUpdate site found.tSelf row' heap)) fun state => Calm state.trace := by
  rintro state ⟨k, count, here⟩
  unfold storeAndFinish
  refine Contract.bind (perform_busy rfl rfl) (fun _ => ?_) state here
  refine .bind (insertConflicting_applied applied updated) fun _ => ?_
  rintro after ⟨j, there⟩
  exact closeAndFinish_ended ((working.ran count).ran_other (by decide) j) after there

theorem beforeConflictUpdate_suppressed (suppressed : fireBefore .update (some found.row) site.triggers row = none) :
    Contract (Busy l heap) (beforeConflictUpdate site found row)
      (fun answer state => answer = none ∧ state.estate = false ∧ Hushed state.trace) E := by
  unfold beforeConflictUpdate
  refine .bind (beforeUpdate_busy site found.row row) fun answer => ?_
  rintro state ⟨isNone, j, -, here⟩
  rw [suppressed] at isNone
  subst isNone
  exact Contract.bind cleanUp_at (fun _ => .pure fun _ done => ⟨rfl, done.estate_eq, done.manner_trace⟩) state here

/-- The slot is read from an executor state that has been freed. -/
theorem execMaterializeSlot_crashes {state : ApplyState} (released : state.estate = false) (slot : Option Row) :
    execMaterializeSlot slot state = .error .crash (state.record .useReleased) := by
  have crash : perform .materializeSlot state = .error .crash (state.record .useReleased) := by
    simp [perform, Action.needsEstate, released]
  simp [execMaterializeSlot, Bind.bind, EStateM.bind, crash]

/-- With the update triggers of a conflicting INSERT the clean-up is not the end. -/
theorem storeAndFinish_crashes
    (applied : tryResolveConflict site.resolver site.trackCommitTimestamp site.session found.version = some .applyRemote)
    (suppressed : fireBefore .update (some found.row) site.triggers row = none) :
    Contract (Fired l heap .insert any true) (storeAndFinish site (some (index, found)) row) (fun _ _ => False)
      fun state => ¬ Quiet state.trace ∧ Action.useReleased ∈ state.trace := by
  rintro state ⟨k, count, here⟩
  unfold storeAndFinish storeInserted insertConflicting
  simp only [applied]
  refine Contract.bind (perform_busy rfl rfl) (fun _ => ?_) state here
  refine .bind (R := fun _ _ => False) ?_ fun _ _ impossible => impossible.elim
  refine .bind (beforeConflictUpdate_suppressed suppressed) fun slot => ?_
  rintro after ⟨rfl, released, hushed⟩
  refine Contract.bind (R := fun _ _ => False) (P := fun current => current = after) ?_
    (fun _ _ impossible => impossible.elim) after rfl
  intro current same
  rw [same, execMaterializeSlot_crashes released]
  exact ⟨hushed.not_quiet_append rfl, List.mem_append_right _ (List.mem_singleton_self _)⟩

theorem handleInsert_suppressed (applies : checkSyncingRelation site rel = false)
    (searched : pglogicalTupleFindConflict site.indexes heap newtup = .ok conflict)
    (fired : fireBefore .insert none site.triggers (insertedRow rel site.desc site.columnDefault newtup) = none) :
    Contract (At Calm false Ledger.empty heap) (handleInsert site rel newtup)
      (fun _ => Ended .insert (site.triggers.any (RowTrigger.fires · .insert)) site.indexes.length heap) fun _ => False := by
  refine handleInsert_contract applies searched (fun _ => cleanUp_fired working_insertOpening) fun row isSome => ?_
  rw [fired] at isSome
  cases isSome

/-- Behind triggers that return a row, the path depends on the conflict. -/
theorem handleInsert_fired {Q : Unit → ApplyState → Prop}
    (applies : checkSyncingRelation site rel = false)
    (searched : pglogicalTupleFindConflict site.indexes heap newtup = .ok conflict)
    (fired : fireBefore .insert none site.triggers (insertedRow rel site.desc site.columnDefault newtup) = some row)
    (rest : Contract
      (Fired (insertOpening site conflict) heap .insert (site.triggers.any (RowTrigger.fires · .insert)) true)
      (storeAndFinish site conflict row) Q E) :
    Contract (At Calm false Ledger.empty heap) (handleInsert site rel newtup) Q E := by
  refine handleInsert_contract applies searched (fun isNone => ?_) fun row' isSome => ?_
  · rw [fired] at isNone
    cases isNone
  · rw [fired] at isSome
    cases isSome
    exact rest

end Insert

/-! ## UPDATE and DELETE -/

section Replidx

variable {site : Site} {rel : PGLogicalRelation} {oldtup : Option PGLogicalTupleData} {newtup tuple : PGLogicalTupleData}
variable {row row' : Row} {found : StoredRow}

/-- The ledger when the row has been looked for. -/
def replidxOpening (found : Option StoredRow) : Ledger :=
  Ledger.locked ((Ledger.empty.add .initEstate).add .pushSnapshot) found

theorem working_replidxOpening (found : Option StoredRow) (event : TriggerEvent) :
    Working event false 0 (replidxOpening found) := by
  cases found <;> constructor <;> simp [replidxOpening, Ledger.locked, Ledger.add, Ledger.empty]

theorem searchReplidx_raises {message : String}
    (searched : pglogicalTupleFindReplidx site.replidindex heap tuple = .error message) :
    Contract (Busy l heap) (searchReplidx site tuple) (fun _ _ => False) fun state => Calm state.trace := by
  unfold searchReplidx
  refine .get_bind fun state here => ?_
  rw [here.heap_eq, searched]
  refine .throw fun current same => ?_
  rw [same]
  exact here.manner_trace

/-- The rows after an UPDATE that has found its row. -/
def updatedHeap (site : Site) (heap : List StoredRow) (found : StoredRow) (row : Row) : List StoredRow :=
  match fireBefore .update (some found.row) site.triggers row, resolveUpdate site found with
  | some row, .ok true => heapUpdate site found.tSelf row heap
  | _, _ => heap

theorem resolveAndStore_ended (working : Working .update any 0 l)
    (fired : fireBefore .update (some found.row) site.triggers row = some row') :
    Contract (Busy l heap) (resolveAndStore site found row')
      (fun _ => Ended .update any 0 (updatedHeap site heap found row)) fun state => Calm state.trace := by
  unfold resolveAndStore updatedHeap
  rw [fired]
  refine .bind (perform_busy rfl rfl) fun _ => ?_
  cases resolveUpdate site found with
  | error message => exact raise_busy message
  | ok applies =>
    cases applies with
    | false => exact cleanUp_ended true working
    | true =>
      refine .bind (storeUpdated_busy site found row') fun _ => ?_
      rintro state ⟨n, here⟩
      exact cleanUp_ended true (working.indexed n) state here

theorem handleUpdate_ended (applies : checkSyncingRelation site rel = false)
    (searched : pglogicalTupleFindReplidx site.replidindex heap (oldtup.getD newtup) = .ok (some found)) :
    Contract (At Calm false Ledger.empty heap) (handleUpdate site rel oldtup newtup)
      (fun _ => Ended .update (site.triggers.any (RowTrigger.fires · .update)) 0
        (updatedHeap site heap found (updatedRow rel site.desc site.columnDefault newtup found.row)))
      fun state => Calm state.trace := by
  unfold handleUpdate applyUpdate
  refine .bind openRelation_at fun _ => ?_
  rw [applies]
  refine begin_at (.bind (searchReplidx_busy searched) fun answer => ?_)
  rintro state ⟨rfl, here⟩
  have working := working_replidxOpening (some found) .update
  refine Contract.bind (beforeUpdate_busy site found.row _) (fun fired => ?_) state here
  cases fired with
  | none =>
    rintro after ⟨isNone, there⟩
    have unchanged : updatedHeap site heap found (updatedRow rel site.desc site.columnDefault newtup found.row) = heap := by
      simp [updatedHeap, ← isNone]
    rw [unchanged]
    exact cleanUp_fired working after there
  | some row =>
    rintro after ⟨isSome, k, count, there⟩
    exact resolveAndStore_ended (working.ran count) isSome.symm after there

theorem handleUpdate_missing (applies : checkSyncingRelation site rel = false)
    (searched : pglogicalTupleFindReplidx site.replidindex heap (oldtup.getD newtup) = .ok none) :
    Contract (At Calm false Ledger.empty heap) (handleUpdate site rel oldtup newtup)
      (fun _ => Ended .update false 0 heap) E := by
  unfold handleUpdate applyUpdate
  refine .bind openRelation_at fun _ => ?_
  rw [applies]
  refine begin_at (.bind (searchReplidx_busy searched) fun answer => ?_)
  rintro state ⟨rfl, here⟩
  exact cleanUp_ended true (working_replidxOpening none .update) state here

theorem handleUpdate_raises {message : String} (applies : checkSyncingRelation site rel = false)
    (searched : pglogicalTupleFindReplidx site.replidindex heap (oldtup.getD newtup) = .error message) :
    Contract (At Calm false Ledger.empty heap) (handleUpdate site rel oldtup newtup) (fun _ _ => False)
      fun state => Calm state.trace := by
  unfold handleUpdate applyUpdate
  refine .bind openRelation_at fun _ => ?_
  rw [applies]
  exact begin_at (.bind (searchReplidx_raises searched) fun _ _ impossible => impossible.elim)

/-- Does a DELETE go on behind its triggers? -/
def deleteGoesOn (site : Site) (found : StoredRow) : Bool :=
  !trigBeforeRow site.triggers .update || fireBeforeDelete site.triggers found.row

theorem deleteFound_ended (working : Working .delete false 0 l) :
    Contract (Busy l heap) (deleteFound site found)
      (fun _ => Ended .delete (trigBeforeRow site.triggers .update && site.triggers.any (RowTrigger.fires · .delete)) 0
        (if deleteGoesOn site found then heapDelete found.tSelf heap else heap)) E := by
  unfold deleteFound simpleHeapDelete
  refine .bind (beforeDelete_busy site found.row) fun goesOn => ?_
  cases goesOn with
  | false =>
    rintro state ⟨answer, here⟩
    have stops : deleteGoesOn site found = false := answer.symm
    rw [stops]
    exact cleanUp_fired working state here
  | true =>
    rintro state ⟨answer, k, count, here⟩
    have goesOn : deleteGoesOn site found = true := answer.symm
    rw [goesOn]
    refine Contract.bind (.bind (perform_busy rfl rfl) fun _ => modifyHeap_busy _) (fun _ => ?_) state here
    exact .bind (perform_busy rfl rfl) fun _ => cleanUp_ended true (working.ran count)

theorem handleDelete_ended (applies : checkSyncingRelation site rel = false)
    (searched : pglogicalTupleFindReplidx site.replidindex heap tuple = .ok (some found)) :
    Contract (At Calm false Ledger.empty heap) (handleDelete site rel tuple)
      (fun _ => Ended .delete (trigBeforeRow site.triggers .update && site.triggers.any (RowTrigger.fires · .delete)) 0
        (if deleteGoesOn site found then heapDelete found.tSelf heap else heap)) E := by
  unfold handleDelete applyDelete
  refine .bind openRelation_at fun _ => ?_
  rw [applies]
  refine begin_at (.bind (searchReplidx_busy searched) fun answer => ?_)
  rintro state ⟨rfl, here⟩
  exact deleteFound_ended (working_replidxOpening (some found) .delete) state here

theorem handleDelete_missing (applies : checkSyncingRelation site rel = false)
    (searched : pglogicalTupleFindReplidx site.replidindex heap tuple = .ok none) :
    Contract (At Calm false Ledger.empty heap) (handleDelete site rel tuple)
      (fun _ => Ended .delete false 0 heap) E := by
  unfold handleDelete applyDelete
  refine .bind openRelation_at fun _ => ?_
  rw [applies]
  refine begin_at (.bind (searchReplidx_busy searched) fun answer => ?_)
  rintro state ⟨rfl, here⟩
  exact cleanUp_ended true (working_replidxOpening none .delete) state here

theorem handleDelete_raises {message : String} (applies : checkSyncingRelation site rel = false)
    (searched : pglogicalTupleFindReplidx site.replidindex heap tuple = .error message) :
    Contract (At Calm false Ledger.empty heap) (handleDelete site rel tuple) (fun _ _ => False)
      fun state => Calm state.trace := by
  unfold handleDelete applyDelete
  refine .bind openRelation_at fun _ => ?_
  rw [applies]
  exact begin_at (.bind (searchReplidx_raises searched) fun _ _ impossible => impossible.elim)

end Replidx

/-! ## A table -/

def noteId : FormPgAttribute := .int4 (namestrcpy (.ofBytes [105, 100])) 1

/-- A column that only the subscriber has. -/
def noteLocal : FormPgAttribute := .int4 (namestrcpy (.ofBytes [109])) 2

def noteDesc : TupleDesc := ⟨[noteId, noteLocal], by decide, by decide, by decide⟩

def noteRel : PGLogicalRelation := ⟨.ofBytes [], .ofBytes [112], .ofBytes [110], 1, [noteId.attname.str], 16385, [0], true⟩

/-- The primary key. -/
def noteIndex : IndexInfo := ⟨16390, true, false, [0], fun _ wanted value => decide (wanted = value), fun _ => true⟩

def noteSite (triggers : List RowTrigger) : Site where
  desc := noteDesc
  columnDefault := fun _ => none
  indexes := [noteIndex]
  replidindex := some noteIndex
  triggers := triggers
  execConstraints := fun _ => .ok ()
  execInsertIndexTuples := fun _ _ => .ok false
  heapOnly := fun _ _ => false
  newTid := List.length
  isQueue := false
  handleQueuedMessage := fun _ => .ok ()
  syncingTables := []
  resolver := .applyRemote
  trackCommitTimestamp := true
  session := ⟨1, 700, 90⟩

/-- The arrays of a message with the id. -/
def noteKey (id : UInt64) : PGLogicalTupleData := ⟨fun _ => .byval id, fun attnum => attnum != 0, fun attnum => attnum == 0⟩

/-- A row of the table, written locally. -/
def noteRow (tid : Tid) (id other : UInt64) : StoredRow :=
  ⟨tid, ⟨fun attnum => if attnum = 0 then some (.byval id) else if attnum = 1 then some (.byval other) else none,
    80, 600, 0⟩⟩

def suppressing (event : TriggerEvent) : RowTrigger := ⟨'A', true, [event], [], fun _ _ _ => none⟩

end PGLogical.Apply
