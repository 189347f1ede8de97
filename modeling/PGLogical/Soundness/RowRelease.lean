import PGLogical.Soundness.RowHandlers

/-! # What a row handler leaves behind

A handler that returns has to have released what it acquired, and nothing may follow a trigger that
returned NULL but the clean-up. UPDATE and DELETE do so on all their paths. INSERT has two exits that do
not: the one behind its own triggers leaves the index relations open, and the one behind the update
triggers of a conflicting row goes on after the clean-up.
-/

namespace PGLogical.Apply

open Machine
open Native (PGLogicalTupleData)

inductive RowMessage where
  | insert (newtup : PGLogicalTupleData)
  | update (oldtup : Option PGLogicalTupleData) (newtup : PGLogicalTupleData)
  | delete (oldtup : PGLogicalTupleData)

def handleRow (site : Site) (rel : PGLogicalRelation) : RowMessage → RowM Unit
  | .insert newtup => handleInsert site rel newtup
  | .update oldtup newtup => handleUpdate site rel oldtup newtup
  | .delete oldtup => handleDelete site rel oldtup

structure Released (trace : List Action) : Prop where
  snapshots : (ledger trace).popped = (ledger trace).pushed
  finished : (ledger trace).finished = (ledger trace).inited
  inited : (ledger trace).inited ≤ 1
  closed : (ledger trace).closed = 1
  indexes : (ledger trace).indexesClosed = (ledger trace).indexesOpened
  queue : (ledger trace).queueClosed = (ledger trace).queueOpened

/-- Everything is released on return, and suppression is final however the handler ends. -/
def Tidy : EStateM.Result Stop ApplyState Unit → Prop
  | .ok _ after => Released after.trace ∧ Quiet after.trace
  | .error _ after => Quiet after.trace

theorem Ended.released {event : TriggerEvent} {any : Bool} {heap : List StoredRow} {state : ApplyState}
    (ended : Ended event any 0 heap state) : Released state.trace :=
  ⟨ended.snapshots, ended.finished, ended.inited.le, ended.closed, ended.indexes.symm, ended.queue⟩

/-- A contract that ends well is tidy. -/
theorem tidy_of_contract {heap : List StoredRow} {m : RowM Unit} {Q : Unit → ApplyState → Prop}
    (contract : Contract (At Calm false Ledger.empty heap) m Q fun state => Calm state.trace)
    (ends : ∀ state, Q () state → Released state.trace ∧ Quiet state.trace) :
    Tidy (m (ApplyState.start heap)) := by
  have ran := contract _ (start_at heap)
  cases answer : m (ApplyState.start heap) with
  | ok value after =>
    rw [answer] at ran
    exact ends after ran
  | error stop after =>
    rw [answer] at ran
    exact ran.quiet

theorem tidy_of_ended {event : TriggerEvent} {any : Bool} {heap heap' : List StoredRow} {m : RowM Unit}
    (contract : Contract (At Calm false Ledger.empty heap) m (fun _ => Ended event any 0 heap')
      fun state => Calm state.trace) : Tidy (m (ApplyState.start heap)) :=
  tidy_of_contract contract fun _ ended => ⟨ended.released, ended.quiet⟩

theorem tidy_of_raises {heap : List StoredRow} {m : RowM Unit}
    (contract : Contract (At Calm false Ledger.empty heap) m (fun _ _ => False) fun state => Calm state.trace) :
    Tidy (m (ApplyState.start heap)) :=
  tidy_of_contract contract fun _ impossible => impossible.elim

variable {site : Site} {rel : PGLogicalRelation} {heap : List StoredRow}

theorem tidy_skipped {m : RowM Unit} (skipped : checkSyncingRelation site rel = true) :
    Tidy ((do perform .openRelation; if checkSyncingRelation site rel then perform .closeRelation else m : RowM Unit)
      (ApplyState.start heap)) := by
  rw [skipped]
  refine tidy_of_contract (.bind openRelation_at fun _ => skip_at) fun state here => ⟨?_, here.manner_trace.quiet⟩
  constructor <;> simp [here.ledger_eq, Ledger.add, Ledger.empty]

theorem handleUpdate_tidy (oldtup : Option PGLogicalTupleData) (newtup : PGLogicalTupleData) :
    Tidy (handleUpdate site rel oldtup newtup (ApplyState.start heap)) := by
  cases applies : checkSyncingRelation site rel with
  | true => exact tidy_skipped applies
  | false =>
    cases searched : pglogicalTupleFindReplidx site.replidindex heap (oldtup.getD newtup) with
    | error message => exact tidy_of_raises (handleUpdate_raises applies searched)
    | ok answer =>
      cases answer with
      | none => exact tidy_of_ended (handleUpdate_missing applies searched)
      | some found => exact tidy_of_ended (handleUpdate_ended applies searched)

theorem handleDelete_tidy (oldtup : PGLogicalTupleData) :
    Tidy (handleDelete site rel oldtup (ApplyState.start heap)) := by
  cases applies : checkSyncingRelation site rel with
  | true => exact tidy_skipped applies
  | false =>
    cases searched : pglogicalTupleFindReplidx site.replidindex heap oldtup with
    | error message => exact tidy_of_raises (handleDelete_raises applies searched)
    | ok answer =>
      cases answer with
      | none => exact tidy_of_ended (handleDelete_missing applies searched)
      | some found => exact tidy_of_ended (handleDelete_ended applies searched)

/-! ## INSERT -/

/-- Index relations that are still open are all that is left. -/
theorem tidy_iff_of_ended {event : TriggerEvent} {any : Bool} {leaked : ℕ} {heap' : List StoredRow} {m : RowM Unit}
    (contract : Contract (At Calm false Ledger.empty heap) m (fun _ => Ended event any leaked heap') fun _ => False) :
    Tidy (m (ApplyState.start heap)) ↔ leaked = 0 := by
  have ran := contract _ (start_at heap)
  cases answer : m (ApplyState.start heap) with
  | error stop after =>
    rw [answer] at ran
    exact ran.elim
  | ok value after =>
    rw [answer] at ran
    constructor
    · rintro ⟨released, -⟩
      have opened := ran.indexes
      have balanced := released.indexes
      omega
    · rintro rfl
      exact ⟨ran.released, ran.quiet⟩

theorem not_tidy_of_crash {m : RowM Unit}
    (contract : Contract (At Calm false Ledger.empty heap) m (fun _ _ => False)
      fun state => ¬ Quiet state.trace ∧ Action.useReleased ∈ state.trace) :
    ¬ Tidy (m (ApplyState.start heap)) := by
  have ran := contract _ (start_at heap)
  cases answer : m (ApplyState.start heap) with
  | ok value after =>
    rw [answer] at ran
    exact ran.elim
  | error stop after =>
    rw [answer] at ran
    exact ran.1

/-- What an INSERT needs: its own triggers suppress it only in a table without indexes, and no update
trigger suppresses the change of a row that it conflicts with. -/
def InsertTidies (site : Site) (rel : PGLogicalRelation) (heap : List StoredRow) (newtup : PGLogicalTupleData) : Prop :=
  checkSyncingRelation site rel = false →
  ∀ conflict, pglogicalTupleFindConflict site.indexes heap newtup = .ok conflict →
    (fireBefore .insert none site.triggers (insertedRow rel site.desc site.columnDefault newtup) = none →
      site.indexes = []) ∧
    ∀ row index found,
      fireBefore .insert none site.triggers (insertedRow rel site.desc site.columnDefault newtup) = some row →
      conflict = some (index, found) →
      tryResolveConflict site.resolver site.trackCommitTimestamp site.session found.version = some .applyRemote →
      fireBefore .update (some found.row) site.triggers row ≠ none

theorem handleInsert_tidy {newtup : PGLogicalTupleData} (tidies : InsertTidies site rel heap newtup) :
    Tidy (handleInsert site rel newtup (ApplyState.start heap)) := by
  cases applies : checkSyncingRelation site rel with
  | true => exact tidy_skipped applies
  | false =>
    cases searched : pglogicalTupleFindConflict site.indexes heap newtup with
    | error message => exact tidy_of_raises (handleInsert_raises applies searched)
    | ok conflict =>
      obtain ⟨noIndexes, noSuppression⟩ := tidies applies conflict searched
      cases fired : fireBefore .insert none site.triggers (insertedRow rel site.desc site.columnDefault newtup) with
      | none =>
        refine (tidy_iff_of_ended (handleInsert_suppressed applies searched fired)).mpr ?_
        rw [noIndexes fired]
        rfl
      | some row =>
        cases conflict with
        | none =>
          exact tidy_of_ended (handleInsert_fired applies searched fired (storeAndFinish_new working_insertOpening))
        | some conflicting =>
          obtain ⟨index, found⟩ := conflicting
          cases resolved : tryResolveConflict site.resolver site.trackCommitTimestamp site.session found.version with
          | none => exact tidy_of_raises (handleInsert_fired applies searched fired (storeAndFinish_raises resolved))
          | some resolution =>
            cases resolution with
            | keepLocal =>
              exact tidy_of_ended
                (handleInsert_fired applies searched fired (storeAndFinish_kept working_insertOpening resolved))
            | applyRemote =>
              obtain ⟨row', updated⟩ := Option.ne_none_iff_exists'.mp (noSuppression row index found fired rfl resolved)
              exact tidy_of_ended
                (handleInsert_fired applies searched fired (storeAndFinish_applied working_insertOpening resolved updated))

theorem insertTidies_of_tidy {newtup : PGLogicalTupleData}
    (tidy : Tidy (handleInsert site rel newtup (ApplyState.start heap))) : InsertTidies site rel heap newtup := by
  refine fun applies conflict searched => ⟨fun fired => ?_, ?_⟩
  · have closed := (tidy_iff_of_ended (handleInsert_suppressed applies searched fired)).mp tidy
    exact List.eq_nil_of_length_eq_zero closed
  · rintro row index found fired rfl resolved suppressed
    exact not_tidy_of_crash (handleInsert_fired applies searched fired (storeAndFinish_crashes resolved suppressed)) tidy

/-- When the handler of a message is tidy. -/
def Tidies (site : Site) (rel : PGLogicalRelation) (heap : List StoredRow) : RowMessage → Prop
  | .insert newtup => InsertTidies site rel heap newtup
  | .update _ _ => True
  | .delete _ => True

/-- A trigger that returns NULL leaves the index of the table open. -/
theorem not_forall_tidy : ¬ ∀ (site : Site) (rel : PGLogicalRelation) (heap : List StoredRow) (message : RowMessage),
    Tidy (handleRow site rel message (ApplyState.start heap)) := by
  intro all
  have tidy := all (noteSite [suppressing .insert]) noteRel [] (.insert (noteKey 1))
  have ends : handleRow (noteSite [suppressing .insert]) noteRel (.insert (noteKey 1)) (ApplyState.start []) =
      .ok () ⟨[], false, [Action.openRelation, Action.initEstate, Action.pushSnapshot, Action.openIndex,
        Action.trigger .insert false, Action.popSnapshot, Action.finishEstate, Action.closeRelation]⟩ := rfl
  rw [ends] at tidy
  exact absurd tidy.1.indexes (by decide)

theorem handleRow_tidy_iff (site : Site) (rel : PGLogicalRelation) (heap : List StoredRow) (message : RowMessage) :
    Tidy (handleRow site rel message (ApplyState.start heap)) ↔ Tidies site rel heap message := by
  cases message with
  | insert newtup => exact ⟨insertTidies_of_tidy, handleInsert_tidy⟩
  | update oldtup newtup => exact ⟨fun _ => trivial, fun _ => handleUpdate_tidy oldtup newtup⟩
  | delete oldtup => exact ⟨fun _ => trivial, fun _ => handleDelete_tidy oldtup⟩

end PGLogical.Apply
