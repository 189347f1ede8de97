import PGLogical.Machine.Contract
import PGLogical.Model.SyncSubscription

/-! # One attempt to initialise a subscription

While an attempt is on its way no state that the disk may hold is CATCHUP or READY, so that wherever it
stops there is nothing to apply from. CATCHUP is set by an attempt that has created the slot, set the
origin to its position and run every step of the kind, with nothing in between. The contracts say so
of every function, for every interruption before every step.
-/

namespace PGLogical.SubscriptionSync

open Machine Nodes

variable {Change : Type}

/-! ## What an attempt has to do -/

/-- The attempt that a subscription of the kind needs, up to CATCHUP. -/
def beforeCatchup (kind : SyncKind) (lsn : UInt64) (snapshot : String) : List Action :=
  [Action.started, .slotCreated lsn snapshot, .originSet lsn] ++
    (if syncKindStructure kind then [Action.statusSet .struct, .dumped snapshot, .restored .preData] else []) ++
    (if syncKindData kind then [Action.statusSet .data, .copied snapshot, .tablesSet] else []) ++
    (if syncKindStructure kind then [Action.statusSet .constraints, .restored .postData] else [])

/-- One attempt, without a stop or another start in it, has done all that the kind demands. -/
def Attempted (kind : SyncKind) (lsn : UInt64) (trace : List Action) : Prop :=
  ∃ snapshot, beforeCatchup kind lsn snapshot ++ [Action.statusSet .catchup] <:+: trace

theorem Attempted.append {kind : SyncKind} {lsn : UInt64} {trace : List Action} (attempted : Attempted kind lsn trace)
    (more : List Action) : Attempted kind lsn (trace ++ more) := by
  obtain ⟨snapshot, inside⟩ := attempted
  exact ⟨snapshot, inside.trans (List.prefix_append trace more).isInfix⟩

/-- Whenever READY is committed, such an attempt has been made. -/
def ReadyJustified (kind : SyncKind) (trace : List Action) : Prop :=
  ∀ before after, trace = before ++ .statusSet .ready :: after → ∃ lsn, Attempted kind lsn before

theorem ReadyJustified.append {kind : SyncKind} {trace : List Action} {action : Action}
    (justified : ReadyJustified kind trace)
    (now : action = .statusSet .ready → ∃ lsn, Attempted kind lsn trace) : ReadyJustified kind (trace ++ [action]) := by
  intro before after split
  rcases List.eq_nil_or_concat after with rfl | ⟨middle, last, rfl⟩
  · obtain ⟨rfl, same⟩ := List.append_inj' split rfl
    exact now (by simpa using same)
  · rw [List.concat_eq_append, ← List.cons_append, ← List.append_assoc] at split
    exact justified before middle (List.append_inj' split rfl).1

/-! ## States that may be found -/

/-- The statuses that a later start refuses. -/
def nonrecoverable (status : SyncStatus) : Prop := status ≠ .init ∧ status ≠ .catchup ∧ status ≠ .ready

def Database.Initialised (database : Database Change) : Prop := database.status = .catchup ∨ database.status = .ready

/-- Nothing that a restart may find is initialised or has changes applied to it. -/
def Uninitialised (world : World Change) : Prop :=
  ∀ database ∈ world.written, ¬ database.Initialised ∧ database.applied = []

/-- The status row, the origin, the slot and what has been done fit together. -/
structure Sound (kind : SyncKind) (world : World Change) : Prop where
  initialised : ∀ database ∈ world.written, database.Initialised →
    ∃ lsn, Attempted kind lsn world.trace ∧ world.slot = some lsn ∧ (database.applied = [] → database.origin = some lsn)
  latest : ¬ world.database.Initialised → ∀ database ∈ world.written, ¬ database.Initialised
  unapplied : ∀ database ∈ world.written, database.status ≠ .ready → database.applied = []
  justified : ReadyJustified kind world.trace

theorem Sound.uninitialised {kind : SyncKind} {world : World Change} (sound : Sound kind world)
    (status : world.database.status = .init) : Uninitialised world := by
  have notYet : ¬ world.database.Initialised := by simp [Database.Initialised, status]
  intro database inside
  have before := sound.latest notYet database inside
  exact ⟨before, sound.unapplied database inside fun ready => before (.inr ready)⟩

theorem sound_of_uninitialised {kind : SyncKind} {world : World Change} (nothing : Uninitialised world)
    (justified : ReadyJustified kind world.trace) : Sound kind world where
  initialised database inside done := absurd done (nothing database inside).1
  latest _ database inside := (nothing database inside).1
  unapplied database inside _ := (nothing database inside).2
  justified := justified

/-! ## A moment between two steps -/

/-- Nothing is lost, and some of the log may reach the disk. -/
structure Passes (world after : World Change) : Prop where
  database : after.database = world.database
  written : after.written ⊆ world.written
  slot : after.slot = world.slot
  trace : after.trace = world.trace

/-- Something that the disk may hold is all that is left. -/
structure Crashes (world after : World Change) : Prop where
  written : after.written ⊆ world.written
  unflushed : after.unflushed = []
  slot : after.slot = world.slot
  trace : after.trace = world.trace ++ [Action.crashed]

theorem passes_pass (world : World Change) (moment : Moment) (later : List Moment) :
    Passes world (world.pass moment later) where
  database := rfl
  written := by
    simp only [World.written, World.pass]
    split
    · simp
    · simp
  slot := rfl
  trace := rfl

theorem crashes_crash (world : World Change) (lost : ℕ) : Crashes world (world.crash lost) where
  written := by
    simp only [World.written, World.crash, World.record, List.getD_eq_getElem?_getD, List.cons_subset,
      List.nil_subset, and_true]
    cases found : (world.database :: world.unflushed)[lost]? with
    | some database => exact List.mem_of_getElem? found
    | none =>
      rw [Option.getD_none, List.getLastD_eq_getLast?]
      cases last : world.unflushed.getLast? with
      | none => exact List.mem_cons_self ..
      | some database => exact List.mem_cons_of_mem _ (List.mem_of_getLast? last)
  unflushed := rfl
  slot := rfl
  trace := rfl

/-- A step begins in the states of `P`, which a passing moment keeps; a stop leads to `E`, which a crash keeps. -/
theorem step_contract {P E : World Change → Prop} (passes : ∀ {world after}, P world → Passes world after → P after)
    (stops : ∀ {world}, P world → E world) (crashes : ∀ {world after}, E world → Crashes world after → E after) :
    Contract P (step : SyncM Change Unit) (fun _ => P) E := by
  intro world holds
  unfold step
  cases world.moments with
  | nil => exact holds
  | cons moment later =>
    have kept := passes holds (passes_pass world moment later)
    cases what : moment.interruption with
    | none => simpa [what] using kept
    | some interruption =>
      cases interruption with
      | error message => simpa [what] using stops kept
      | crash lost => simpa [what] using crashes (stops kept) (crashes_crash _ lost)

theorem written_record (world : World Change) (action : Action) : (world.record action).written = world.written := rfl

theorem mem_written_commit {synchronousCommit : Bool} {write : Database Change → Database Change} {world : World Change}
    {database : Database Change} (inside : database ∈ (world.commit synchronousCommit write).written) :
    database = write world.database ∨ database ∈ world.written := by
  rcases List.mem_cons.mp inside with rfl | older
  · exact .inl rfl
  · cases synchronousCommit with
    | true => cases older
    | false => exact .inr older

/-! ## On the way to CATCHUP -/

/-- An attempt that has begun behind `earlier` and may stop here. -/
structure Failing (kind : SyncKind) (earlier : List Action) (world : World Change) : Prop where
  nothing : Uninitialised world
  justified : ReadyJustified kind world.trace
  began : earlier <+: world.trace

/-- An attempt that has done exactly the steps. -/
structure Building (kind : SyncKind) (earlier : List Action) (lsn : UInt64) (steps : List Action)
    (world : World Change) : Prop where
  nothing : Uninitialised world
  justified : ReadyJustified kind world.trace
  trace : world.trace = earlier ++ steps
  slot : world.slot = some lsn
  origin : .originSet lsn ∈ steps → world.database.origin = some lsn

section Attempt

variable {kind : SyncKind} {earlier steps : List Action} {lsn : UInt64} {world after : World Change}

theorem Failing.passes (failing : Failing kind earlier world) (passes : Passes world after) :
    Failing kind earlier after where
  nothing database inside := failing.nothing database (passes.written inside)
  justified := passes.trace ▸ failing.justified
  began := passes.trace ▸ failing.began

theorem Failing.record (failing : Failing kind earlier world) {action : Action} (notReady : action ≠ .statusSet .ready) :
    Failing kind earlier (world.record action) where
  nothing := failing.nothing
  justified := failing.justified.append fun ready => absurd ready notReady
  began := failing.began.trans (List.prefix_append _ _)

theorem Failing.crashes (failing : Failing kind earlier world) (crashes : Crashes world after) :
    Failing kind earlier after where
  nothing database inside := failing.nothing database (crashes.written inside)
  justified := crashes.trace ▸ failing.justified.append fun ready => by cases ready
  began := crashes.trace ▸ failing.began.trans (List.prefix_append _ _)

theorem Building.failing (building : Building kind earlier lsn steps world) : Failing kind earlier world where
  nothing := building.nothing
  justified := building.justified
  began := building.trace ▸ List.prefix_append earlier steps

theorem Building.passes (building : Building kind earlier lsn steps world) (passes : Passes world after) :
    Building kind earlier lsn steps after where
  nothing database inside := building.nothing database (passes.written inside)
  justified := passes.trace ▸ building.justified
  trace := passes.trace.trans building.trace
  slot := passes.slot.trans building.slot
  origin done := passes.database ▸ building.origin done

theorem Building.record (building : Building kind earlier lsn steps world) {action : Action}
    (notReady : action ≠ .statusSet .ready) (origin : action = .originSet lsn → world.database.origin = some lsn) :
    Building kind earlier lsn (steps ++ [action]) (world.record action) where
  nothing := building.nothing
  justified := building.justified.append fun ready => absurd ready notReady
  trace := by rw [World.record, building.trace, List.append_assoc]
  slot := building.slot
  origin done := by
    rcases List.mem_append.mp done with before | now
    · exact building.origin before
    · exact origin (List.mem_singleton.mp now).symm

theorem Building.commit (building : Building kind earlier lsn steps world) {synchronousCommit : Bool}
    {write : Database Change → Database Change}
    (status : ∀ database, ¬ database.Initialised → ¬ (write database).Initialised)
    (applied : ∀ database, (write database).applied = database.applied)
    (origin : ∀ database, (write database).origin = database.origin ∨ (write database).origin = some lsn) :
    Building kind earlier lsn steps (world.commit synchronousCommit write) where
  nothing database inside := by
    rcases mem_written_commit inside with rfl | older
    · have before := building.nothing world.database (List.mem_cons_self ..)
      exact ⟨status _ before.1, (applied _).trans before.2⟩
    · exact building.nothing database older
  justified := building.justified
  trace := building.trace
  slot := building.slot
  origin done := by
    rcases origin world.database with same | set
    · exact same.trans (building.origin done)
    · exact set

theorem failing_step : Contract (Failing kind earlier) (step : SyncM Change Unit) (fun _ => Failing kind earlier)
    (Failing kind earlier) :=
  step_contract Failing.passes id Failing.crashes

theorem building_step : Contract (Building kind earlier lsn steps) (step : SyncM Change Unit)
    (fun _ => Building kind earlier lsn steps) (Failing kind earlier) :=
  step_contract Building.passes Building.failing Failing.crashes

theorem building_perform {action : Action} (notReady : action ≠ .statusSet .ready) (notOrigin : action ≠ .originSet lsn) :
    Contract (Building kind earlier lsn steps) (perform action : SyncM Change Unit)
      (fun _ => Building kind earlier lsn (steps ++ [action])) (Failing kind earlier) := by
  unfold perform
  exact .bind building_step fun _ => .modify fun _ building =>
    building.record notReady fun origin => absurd origin notOrigin

theorem building_transaction {synchronousCommit : Bool} {action : Action} {write : Database Change → Database Change}
    (status : ∀ database, ¬ database.Initialised → ¬ (write database).Initialised)
    (applied : ∀ database, (write database).applied = database.applied)
    (origin : ∀ database, (write database).origin = some lsn ∨
      (write database).origin = database.origin ∧ action ≠ .originSet lsn)
    (notReady : action ≠ .statusSet .ready) :
    Contract (Building kind earlier lsn steps) (transaction synchronousCommit action write)
      (fun _ => Building kind earlier lsn (steps ++ [action])) (Failing kind earlier) := by
  unfold transaction
  refine .bind building_step fun _ => .modify fun world building => ?_
  refine (building.commit status applied fun database => ?_).record notReady fun set => ?_
  · exact (origin database).symm.imp_left And.left
  · exact (origin world.database).resolve_right fun other => other.2 set

theorem building_setStatus {synchronousCommit : Bool} {status : SyncStatus} (notCatchup : status ≠ .catchup)
    (notReady : status ≠ .ready) :
    Contract (Building kind earlier lsn steps) (setSubscriptionSyncStatus synchronousCommit status : SyncM Change Unit)
      (fun _ => Building kind earlier lsn (steps ++ [Action.statusSet status])) (Failing kind earlier) := by
  refine building_transaction (fun _ _ => ?_) (fun _ => rfl) (fun _ => .inr ⟨rfl, by simp⟩) (by simpa using notReady)
  simp [Database.Initialised, notCatchup, notReady]

theorem passes_tmpfile (world : World Change) (tmpfile : Bool) : Passes world { world with tmpfile := tmpfile } :=
  ⟨rfl, List.Subset.refl _, rfl, rfl⟩

/-- A group of steps that the kind may not demand. -/
theorem building_demanded {wanted : Bool} {actions : List Action} {m : SyncM Change Unit}
    (contract : Contract (Building kind earlier lsn steps) m (fun _ => Building kind earlier lsn (steps ++ actions))
      (Failing kind earlier)) :
    Contract (Building kind earlier lsn steps) (demanded wanted m)
      (fun _ => Building kind earlier lsn (steps ++ if wanted then actions else [])) (Failing kind earlier) := by
  cases wanted with
  | true => exact contract
  | false => exact .pure fun _ building => by simpa using building

variable {synchronousCommit : Bool} {start : Start Change}

theorem building_dumpStructure {snapshot : String} :
    Contract (Building kind earlier lsn steps) (dumpStructure snapshot : SyncM Change Unit)
      (fun _ => Building kind earlier lsn (steps ++ [Action.dumped snapshot])) (Failing kind earlier) := by
  unfold dumpStructure
  refine .bind (building_perform (by simp) (by simp)) fun _ => .modify fun world building => ?_
  exact building.passes (passes_tmpfile world true)

theorem building_synchronizeStructure :
    Contract (Building kind earlier lsn steps) (synchronizeStructure synchronousCommit start)
      (fun _ => Building kind earlier lsn
        (steps ++ [Action.statusSet .struct, .dumped start.snapshot, .restored .preData])) (Failing kind earlier) := by
  have inOrder : steps ++ [Action.statusSet .struct, .dumped start.snapshot, .restored .preData] =
      steps ++ [Action.statusSet .struct] ++ [Action.dumped start.snapshot] ++ [Action.restored .preData] := by simp
  rw [inOrder]
  unfold synchronizeStructure
  refine .bind (building_setStatus (by simp) (by simp)) fun _ => ?_
  refine .bind building_dumpStructure fun _ => ?_
  exact building_perform (by simp) (by simp)

theorem building_synchronizeData :
    Contract (Building kind earlier lsn steps) (synchronizeData synchronousCommit start)
      (fun _ => Building kind earlier lsn (steps ++ [Action.statusSet .data, .copied start.snapshot, .tablesSet]))
      (Failing kind earlier) := by
  have inOrder : steps ++ [Action.statusSet .data, .copied start.snapshot, .tablesSet] =
      steps ++ [Action.statusSet .data] ++ [Action.copied start.snapshot] ++ [Action.tablesSet] := by simp
  rw [inOrder]
  unfold synchronizeData copyReplicationSetsData
  refine .bind (building_setStatus (by simp) (by simp)) fun _ => ?_
  refine .bind (building_perform (by simp) (by simp)) fun _ => ?_
  exact building_transaction (fun _ before => before) (fun _ => rfl) (fun _ => .inr ⟨rfl, by simp⟩) (by simp)

theorem building_synchronizeConstraints :
    Contract (Building kind earlier lsn steps) (synchronizeConstraints synchronousCommit : SyncM Change Unit)
      (fun _ => Building kind earlier lsn (steps ++ [Action.statusSet .constraints, .restored .postData]))
      (Failing kind earlier) := by
  have inOrder : steps ++ [Action.statusSet .constraints, .restored .postData] =
      steps ++ [Action.statusSet .constraints] ++ [Action.restored .postData] := by simp
  rw [inOrder]
  unfold synchronizeConstraints restoreStructure
  refine .bind (building_setStatus (by simp) (by simp)) fun _ => ?_
  exact building_perform (by simp) (by simp)

theorem building_synchronize :
    Contract (Building kind earlier start.lsn [.started, .slotCreated start.lsn start.snapshot])
      (synchronize synchronousCommit kind start)
      (fun _ => Building kind earlier start.lsn (beforeCatchup kind start.lsn start.snapshot))
      (Failing kind earlier) := by
  have originSet : Contract (Building kind earlier start.lsn [.started, .slotCreated start.lsn start.snapshot])
      (ensureReplicationOrigin synchronousCommit start.lsn : SyncM Change Unit) (fun _ => Building kind earlier start.lsn
        ([Action.started, .slotCreated start.lsn start.snapshot] ++ [Action.originSet start.lsn])) (Failing kind earlier) :=
    building_transaction (fun _ before => before) (fun _ => rfl) (fun _ => .inl rfl) (by simp)
  unfold synchronize
  refine .bind originSet fun _ => ?_
  refine .bind (building_demanded building_synchronizeStructure) fun _ => ?_
  refine .bind (building_demanded building_synchronizeData) fun _ => ?_
  exact building_demanded building_synchronizeConstraints

theorem failing_cleanup :
    Contract (Failing kind earlier) (pglogicalSyncWorkerCleanup : SyncM Change Unit) (fun _ => Failing kind earlier)
      (Failing kind earlier) := by
  unfold pglogicalSyncWorkerCleanup
  refine .bind failing_step fun _ => .bind failing_step fun _ => .bind failing_step fun _ => .modify fun world failing => ?_
  have recorded : Failing kind earlier (world.record .slotDropped) := failing.record (by simp)
  exact ⟨recorded.nothing, recorded.justified, recorded.began⟩

theorem ensureErrorCleanup_contract {P Q E : World Change → Prop} {cleanup body : SyncM Change Unit}
    (ran : Contract P body (fun _ => Q) E) (cleaned : Contract E cleanup (fun _ => E) E) :
    Contract P (ensureErrorCleanup cleanup body) (fun _ => Q) E := by
  intro world holds
  have ended := ran world holds
  unfold ensureErrorCleanup
  cases answer : body world with
  | ok done after =>
    rw [answer] at ended
    exact ended
  | error stop after =>
    rw [answer] at ended
    cases stop with
    | crash => exact ended
    | error message =>
      have last := cleaned after ended
      cases finish : cleanup after with
      | ok done final =>
        rw [finish] at last
        simpa [finish] using last
      | error stop final =>
        rw [finish] at last
        simpa [finish] using last

/-- An attempt that has done nothing yet. -/
structure Beginning (kind : SyncKind) (earlier : List Action) (world : World Change) : Prop where
  nothing : Uninitialised world
  justified : ReadyJustified kind world.trace
  trace : world.trace = earlier ++ [Action.started]

theorem Beginning.failing (beginning : Beginning kind earlier world) : Failing kind earlier world where
  nothing := beginning.nothing
  justified := beginning.justified
  began := beginning.trace ▸ List.prefix_append earlier [.started]

theorem Beginning.passes (beginning : Beginning kind earlier world) (passes : Passes world after) :
    Beginning kind earlier after where
  nothing database inside := beginning.nothing database (passes.written inside)
  justified := passes.trace ▸ beginning.justified
  trace := passes.trace.trans beginning.trace

theorem beginning_step : Contract (Beginning kind earlier) (step : SyncM Change Unit) (fun _ => Beginning kind earlier)
    (Failing kind earlier) :=
  step_contract Beginning.passes Beginning.failing Failing.crashes

theorem Beginning.slotCreated (beginning : Beginning kind earlier world) (lsn : UInt64) (snapshot : String) :
    Building kind earlier lsn [.started, .slotCreated lsn snapshot]
      { world.record (.slotCreated lsn snapshot) with slot := some lsn } where
  nothing := beginning.nothing
  justified := beginning.justified.append fun ready => by cases ready
  trace := by simp [World.record, beginning.trace]
  slot := rfl
  origin done := by simp at done

theorem beginning_ensureReplicationSlotSnapshot :
    Contract (Beginning kind earlier) (ensureReplicationSlotSnapshot start)
      (fun _ => Building kind earlier start.lsn [.started, .slotCreated start.lsn start.snapshot])
      (Failing kind earlier) := by
  unfold ensureReplicationSlotSnapshot
  refine .bind beginning_step fun _ => .get_keep fun world => ?_
  exact .guard (fun _ => Beginning.failing) fun _ => .modify fun world beginning =>
    beginning.slotCreated start.lsn start.snapshot

end Attempt

/-! ## The outcome of an attempt -/

/-- If the attempt behind `earlier` has set a status that is not recoverable, it has also set CATCHUP. -/
def Completed (earlier : List Action) (world : World Change) : Prop :=
  ∃ part, world.trace = earlier ++ part ∧
    ((∃ status, nonrecoverable status ∧ .statusSet status ∈ part) → .statusSet .catchup ∈ part)

/-- Where an attempt may stop. -/
structure Stopped (kind : SyncKind) (earlier : List Action) (world : World Change) : Prop where
  sound : Sound kind world
  outcome : Completed earlier world ∨ earlier <+: world.trace ∧ Uninitialised world

structure Initialised (kind : SyncKind) (earlier : List Action) (world : World Change) : Prop where
  sound : Sound kind world
  completed : Completed earlier world

/-- The attempt has come to a status from which it goes on. -/
structure Reached (kind : SyncKind) (earlier : List Action) (status : SyncStatus) (world : World Change) : Prop
    extends Initialised kind earlier world where
  status : world.database.status = status

section Outcome

variable {kind : SyncKind} {earlier : List Action} {world after : World Change}

theorem Completed.append {action : Action} (completed : Completed earlier world)
    (recoverable : ∀ status, action = .statusSet status → ¬ nonrecoverable status)
    (trace : after.trace = world.trace ++ [action]) : Completed earlier after := by
  obtain ⟨part, split, set⟩ := completed
  refine ⟨part ++ [action], by rw [trace, split, List.append_assoc], ?_⟩
  rintro ⟨status, refused, inside⟩
  rcases List.mem_append.mp inside with before | now
  · exact List.mem_append_left _ (set ⟨status, refused, before⟩)
  · exact absurd refused (recoverable status (List.mem_singleton.mp now).symm)

theorem Sound.passes (sound : Sound kind world) (passes : Passes world after) : Sound kind after where
  initialised database inside done := by
    rw [passes.trace, passes.slot]
    exact sound.initialised database (passes.written inside) done
  latest notYet database inside := sound.latest (passes.database ▸ notYet) database (passes.written inside)
  unapplied database inside := sound.unapplied database (passes.written inside)
  justified := passes.trace ▸ sound.justified

theorem Sound.record (sound : Sound kind world) {action : Action}
    (now : action = .statusSet .ready → ∃ lsn, Attempted kind lsn world.trace) : Sound kind (world.record action) where
  initialised database inside done := by
    obtain ⟨lsn, attempted, slot, origin⟩ := sound.initialised database inside done
    exact ⟨lsn, attempted.append _, slot, origin⟩
  latest := sound.latest
  unapplied := sound.unapplied
  justified := sound.justified.append now

theorem Sound.crashes (sound : Sound kind world) (crashes : Crashes world after) : Sound kind after where
  initialised database inside done := by
    obtain ⟨lsn, attempted, slot, origin⟩ := sound.initialised database (crashes.written inside) done
    rw [crashes.trace, crashes.slot]
    exact ⟨lsn, attempted.append _, slot, origin⟩
  latest notYet database inside := by
    rw [World.written, crashes.unflushed] at inside
    rwa [List.mem_singleton.mp inside]
  unapplied database inside := sound.unapplied database (crashes.written inside)
  justified := crashes.trace ▸ sound.justified.append fun ready => by cases ready

theorem Stopped.crashes (stopped : Stopped kind earlier world) (crashes : Crashes world after) :
    Stopped kind earlier after where
  sound := stopped.sound.crashes crashes
  outcome := by
    rcases stopped.outcome with completed | ⟨began, nothing⟩
    · exact .inl (completed.append (by simp) crashes.trace)
    · refine .inr ⟨crashes.trace ▸ began.trans (List.prefix_append _ _), fun database inside => ?_⟩
      exact nothing database (crashes.written inside)

theorem Failing.stopped (failing : Failing kind earlier world) : Stopped kind earlier world where
  sound := sound_of_uninitialised failing.nothing failing.justified
  outcome := .inr ⟨failing.began, failing.nothing⟩

theorem Initialised.stopped (initialised : Initialised kind earlier world) : Stopped kind earlier world :=
  ⟨initialised.sound, .inl initialised.completed⟩

/-- A commit to an initialised database. -/
theorem Sound.commit (sound : Sound kind world) {synchronousCommit : Bool} {write : Database Change → Database Change}
    (done : world.database.Initialised) (ready : (write world.database).status = .ready)
    (kept : (write world.database).applied = [] →
      world.database.applied = [] ∧ (write world.database).origin = world.database.origin) :
    Sound kind (world.commit synchronousCommit write) where
  initialised database inside nowDone := by
    rcases mem_written_commit inside with rfl | older
    · obtain ⟨lsn, attempted, slot, origin⟩ := sound.initialised world.database (List.mem_cons_self ..) done
      refine ⟨lsn, attempted, slot, fun empty => ?_⟩
      obtain ⟨before, same⟩ := kept empty
      exact same.trans (origin before)
    · exact sound.initialised database older nowDone
  latest notYet := absurd (.inr ready) notYet
  unapplied database inside notReady := by
    rcases mem_written_commit inside with rfl | older
    · exact absurd ready notReady
    · exact sound.unapplied database older notReady
  justified := sound.justified

/-- CATCHUP ends an attempt that has done everything. -/
theorem Building.catchup {lsn : UInt64} {snapshot : String} {synchronousCommit : Bool}
    (building : Building kind earlier lsn (beforeCatchup kind lsn snapshot) world) :
    Initialised kind earlier ((world.commit synchronousCommit fun database =>
      { database with status := .catchup }).record (.statusSet .catchup)) := by
  have trace : world.trace ++ [Action.statusSet .catchup] =
      earlier ++ (beforeCatchup kind lsn snapshot ++ [Action.statusSet .catchup]) := by
    rw [building.trace, List.append_assoc]
  have attempted : Attempted kind lsn (world.trace ++ [Action.statusSet .catchup]) :=
    ⟨snapshot, trace ▸ (List.suffix_append earlier _).isInfix⟩
  have origin : world.database.origin = some lsn := building.origin (by simp [beforeCatchup])
  refine ⟨⟨?_, ?_, ?_, ?_⟩, _, trace, fun _ => List.mem_append_right _ (List.mem_singleton_self _)⟩
  · intro database inside done
    rw [written_record] at inside
    rcases mem_written_commit inside with rfl | older
    · exact ⟨lsn, attempted, building.slot, fun _ => origin⟩
    · exact absurd done (building.nothing database older).1
  · intro notYet
    exact absurd (.inl rfl) notYet
  · intro database inside _
    rw [written_record] at inside
    rcases mem_written_commit inside with rfl | older
    · exact (building.nothing world.database (List.mem_cons_self ..)).2
    · exact (building.nothing database older).2
  · exact building.justified.append fun ready => by cases ready

theorem Initialised.passes (initialised : Initialised kind earlier world) (passes : Passes world after) :
    Initialised kind earlier after := by
  obtain ⟨part, split, set⟩ := initialised.completed
  exact ⟨initialised.sound.passes passes, part, passes.trace.trans split, set⟩

variable {synchronousCommit : Bool} {start : Start Change}

theorem reached_step {status : SyncStatus} :
    Contract (Reached kind earlier status) (step : SyncM Change Unit) (fun _ => Reached kind earlier status)
      (Stopped kind earlier) :=
  step_contract (fun reached passes => ⟨reached.toInitialised.passes passes, passes.database ▸ reached.status⟩)
    (fun reached => reached.stopped) Stopped.crashes

theorem beginning_initializeSubscriber :
    Contract (Beginning kind earlier) (initializeSubscriber synchronousCommit kind start)
      (fun _ => Reached kind earlier .catchup) (Stopped kind earlier) := by
  have tmpfile : Contract (Failing kind earlier) (pglogicalSyncTmpfileCleanup : SyncM Change Unit)
      (fun _ => Failing kind earlier) (Failing kind earlier) :=
    .modify fun world failing => failing.passes (passes_tmpfile world false)
  have attempt : Contract (Beginning kind earlier) (initializeSubscriber synchronousCommit kind start)
      (fun _ => Reached kind earlier .catchup) (Failing kind earlier) := by
    unfold initializeSubscriber
    refine .bind beginning_step fun _ => .bind beginning_step fun _ => .bind beginning_step fun _ => ?_
    refine .bind beginning_ensureReplicationSlotSnapshot fun _ => ?_
    refine .bind (ensureErrorCleanup_contract
      (.bind (ensureErrorCleanup_contract building_synchronize tmpfile) fun _ => .modify fun world building =>
        building.passes (passes_tmpfile world false)) failing_cleanup) fun _ => ?_
    exact .bind building_step fun _ => .modify fun world building => ⟨building.catchup, rfl⟩
  exact attempt.weaken (fun _ => id) (fun _ _ => id) fun _ => Failing.stopped

theorem reached_setReady :
    Contract (Reached kind earlier .catchup) (setSubscriptionSyncStatus synchronousCommit .ready : SyncM Change Unit)
      (fun _ => Reached kind earlier .ready) (Stopped kind earlier) := by
  unfold setSubscriptionSyncStatus transaction
  refine .bind reached_step fun _ => .modify fun world reached => ⟨⟨?_, ?_⟩, rfl⟩
  · have done : world.database.Initialised := .inl reached.status
    refine (reached.sound.commit done rfl fun empty => ⟨empty, rfl⟩).record fun _ => ?_
    obtain ⟨lsn, attempted, -⟩ := reached.sound.initialised world.database (List.mem_cons_self ..) done
    exact ⟨lsn, attempted⟩
  · refine Completed.append reached.completed ?_ rfl
    rintro status ready ⟨-, -, notReady⟩
    exact notReady (Action.statusSet.inj ready).symm

/-- A start before it has looked at the status. -/
structure Reading (kind : SyncKind) (earlier : List Action) (world : World Change) : Prop where
  sound : Sound kind world
  trace : world.trace = earlier ++ [Action.started]

theorem Reading.initialised (reading : Reading kind earlier world) : Initialised kind earlier world where
  sound := reading.sound
  completed := by
    refine ⟨[.started], reading.trace, ?_⟩
    rintro ⟨status, -, inside⟩
    simp at inside

theorem reading_step : Contract (Reading kind earlier) (step : SyncM Change Unit) (fun _ => Reading kind earlier)
    (Stopped kind earlier) :=
  step_contract (fun reading passes => ⟨reading.sound.passes passes, passes.trace.trans reading.trace⟩)
    (fun reading => reading.initialised.stopped) Stopped.crashes

variable {name : String}

theorem reading_pglogicalSyncSubscription :
    Contract (Reading kind earlier) (pglogicalSyncSubscription synchronousCommit kind name start)
      (fun _ => Reached kind earlier .ready) (Stopped kind earlier) := by
  unfold pglogicalSyncSubscription
  refine .bind reading_step fun _ => .get_bind fun world reading => ?_
  split
  · next status => exact .pure fun _ same => same ▸ ⟨reading.initialised, status⟩
  · next status =>
    have beginning : Beginning kind earlier world :=
      ⟨reading.sound.uninitialised status, reading.sound.justified, reading.trace⟩
    refine .bind (beginning_initializeSubscriber.weaken ?_ (fun _ _ => id) fun _ => id) fun _ => reached_setReady
    exact fun _ same => same ▸ beginning
  · next status =>
    refine reached_setReady.weaken ?_ (fun _ _ => id) fun _ => id
    exact fun _ same => same ▸ ⟨reading.initialised, status⟩
  · exact .throw fun _ same => same ▸ reading.initialised.stopped

theorem reached_startReplication :
    Contract (Reached kind earlier .ready) (startReplication : SyncM Change Unit) (fun _ => Reached kind earlier .ready)
      (Stopped kind earlier) := by
  have stops : ∀ world : World Change, Reached kind earlier .ready world → Stopped kind earlier world :=
    fun _ reached => reached.stopped
  unfold startReplication
  refine .bind reached_step fun _ => .get_keep fun world => .guard stops fun _ => ?_
  refine .bind reached_step fun _ => .get_keep fun later => ?_
  exact .ite (fun _ => .throw stops) fun _ => .pure fun _ => id

theorem reached_applyWork (changes : List (UInt64 × Change)) :
    Contract (Reached kind earlier .ready) (applyWork synchronousCommit changes) (fun _ => Reached kind earlier .ready)
      (Stopped kind earlier) := by
  induction changes with
  | nil => exact .pure fun _ => id
  | cons change rest ih =>
    refine .bind reached_step fun _ => .get_keep fun world => .ite (fun _ => .pure fun _ => id) fun _ => ?_
    refine .bind (.modify fun world reached => ⟨⟨?_, reached.completed⟩, reached.status⟩) fun _ => ih
    exact reached.sound.commit (.inr reached.status) reached.status fun empty => by simp at empty

theorem reading_pglogicalApplyMain :
    Contract (Reading kind earlier) (pglogicalApplyMain synchronousCommit kind name start)
      (fun _ => Reached kind earlier .ready) (Stopped kind earlier) := by
  unfold pglogicalApplyMain
  refine .bind reading_pglogicalSyncSubscription fun _ => ?_
  exact .bind reached_startReplication fun _ => reached_applyWork start.changes

end Outcome

end PGLogical.SubscriptionSync
