import PGLogical.Machine.Fallible
import PGLogical.Soundness.SyncAttempt

/-! # Initialisation is all or nothing

READY is set only behind one attempt that has done everything, over every sequence of starts. A status
between INIT and CATCHUP that is on disk when an attempt stops is never left again: every later start
refuses it, and nothing is applied. With synchronous commit a status is on disk once it is committed;
without it a crash may take the subscription back to INIT.
-/

namespace PGLogical.SubscriptionSync

open Machine Nodes

variable {Change : Type}

/-! ## A status that is not left -/

/-- Whatever a restart finds, it refuses. -/
def Stuck (world : World Change) : Prop :=
  ∀ database ∈ world.written, nonrecoverable database.status ∧ database.applied = []

section Refusal

variable {synchronousCommit : Bool} {kind : SyncKind} {name : String} {start : Start Change} {world after : World Change}

theorem Stuck.subset (stuck : Stuck world) (fewer : after.written ⊆ world.written) : Stuck after :=
  fun database inside => stuck database (fewer inside)

theorem stuck_pglogicalSyncSubscription :
    Contract Stuck (pglogicalSyncSubscription synchronousCommit kind name start) (fun _ _ => False) Stuck := by
  have began : Contract Stuck (step : SyncM Change Unit) (fun _ => Stuck) Stuck :=
    step_contract (fun stuck passes => stuck.subset passes.written) id fun stuck crashes => stuck.subset crashes.written
  refine .bind began fun _ => .get_bind fun world stuck => ?_
  obtain ⟨⟨notInit, notCatchup, notReady⟩, -⟩ := stuck world.database (List.mem_cons_self ..)
  split
  · next status => exact absurd status notReady
  · next status => exact absurd status notInit
  · next status => exact absurd status notCatchup
  · exact .throw fun _ same => same ▸ stuck

theorem Stuck.startWorker (stuck : Stuck world) (synchronousCommit : Bool) (kind : SyncKind) (name : String)
    (start : Start Change) :
    ∃ stop last, startWorker synchronousCommit kind name start world = .error stop last ∧ Stuck last := by
  have refused : Contract Stuck (pglogicalApplyMain synchronousCommit kind name start) (fun _ _ => False) Stuck :=
    .bind stuck_pglogicalSyncSubscription fun _ _ impossible => impossible.elim
  have ended := refused (world.launch start) stuck
  unfold SubscriptionSync.startWorker
  cases answer : pglogicalApplyMain synchronousCommit kind name start (world.launch start) with
  | ok done last =>
    rw [answer] at ended
    exact ended.elim
  | error stop last =>
    rw [answer] at ended
    cases stop with
    | crash => exact ⟨_, _, rfl, ended⟩
    | error message => exact ⟨_, _, rfl, ended⟩

end Refusal

/-! ## Every sequence of starts -/

section Starts

variable (synchronousCommit : Bool) (kind : SyncKind) (name : String)

def afterStart (world : World Change) (start : Start Change) : World Change :=
  stateOf (startWorker synchronousCommit kind name start world)

def afterStarts (world : World Change) (starts : List (Start Change)) : World Change :=
  starts.foldl (afterStart synchronousCommit kind name) world

variable {synchronousCommit kind name} {world : World Change}

theorem Stopped.record {earlier : List Action} (stopped : Stopped kind earlier world) {action : Action}
    (noStatus : ∀ status, action ≠ .statusSet status) : Stopped kind earlier (world.record action) where
  sound := stopped.sound.record fun ready => absurd ready (noStatus .ready)
  outcome := by
    rcases stopped.outcome with completed | ⟨began, nothing⟩
    · exact .inl (completed.append (fun status set => absurd set (noStatus status)) rfl)
    · exact .inr ⟨began.trans (List.prefix_append _ _), nothing⟩

theorem Sound.launch (sound : Sound kind world) (start : Start Change) : Reading kind world.trace (world.launch start) := by
  have recorded : Sound kind (world.record .started) := sound.record fun ready => by cases ready
  exact ⟨⟨recorded.initialised, recorded.latest, recorded.unapplied, recorded.justified⟩, rfl⟩

theorem Sound.afterStart (sound : Sound kind world) (start : Start Change) :
    Stopped kind world.trace (afterStart synchronousCommit kind name world start) := by
  have main : Contract (Reading kind world.trace) (pglogicalApplyMain synchronousCommit kind name start) _ _ :=
    reading_pglogicalApplyMain
  have ended := main (world.launch start) (sound.launch start)
  unfold SubscriptionSync.afterStart SubscriptionSync.startWorker
  cases answer : pglogicalApplyMain synchronousCommit kind name start (world.launch start) with
  | ok done last =>
    rw [answer] at ended
    exact ended.stopped
  | error stop last =>
    rw [answer] at ended
    cases stop with
    | crash => exact ended
    | error message => exact ended.record (by simp)

theorem Sound.afterStarts (sound : Sound kind world) (starts : List (Start Change)) :
    Sound kind (afterStarts synchronousCommit kind name world starts) := by
  induction starts generalizing world with
  | nil => exact sound
  | cons start rest ih => exact ih (sound.afterStart start).sound

theorem Stuck.afterStarts (stuck : Stuck world) (synchronousCommit : Bool) (kind : SyncKind) (name : String)
    (starts : List (Start Change)) :
    Stuck (afterStarts synchronousCommit kind name world starts) := by
  induction starts generalizing world with
  | nil => exact stuck
  | cons start rest ih =>
    obtain ⟨stop, last, ran, stillStuck⟩ := stuck.startWorker synchronousCommit kind name start
    refine ih ?_
    unfold SubscriptionSync.afterStart
    rw [ran]
    exact stillStuck

/-- The row that `create_subscription` has written. -/
structure Created (world : World Change) : Prop where
  status : world.database.status = .init
  applied : world.database.applied = []
  unflushed : world.unflushed = []
  trace : world.trace = []

theorem Created.sound (created : Created world) : Sound kind world := by
  refine sound_of_uninitialised ?_ ?_
  · intro database inside
    rw [World.written, created.unflushed] at inside
    rw [List.mem_singleton.mp inside]
    exact ⟨by simp [Database.Initialised, created.status], created.applied⟩
  · intro before after split
    rw [created.trace] at split
    simp at split

/-- The attempt between two states has committed a status that is not recoverable, and has not come to CATCHUP. -/
def StoppedMidway (before after : World Change) : Prop :=
  ∃ part, after.trace = before.trace ++ part ∧ (∃ status, nonrecoverable status ∧ .statusSet status ∈ part) ∧
    .statusSet .catchup ∉ part

/-- The status row on disk is not the first one. -/
def OnDisk (world : World Change) : Prop := ∀ database ∈ world.written, database.status ≠ .init

theorem Stopped.stuck {before : World Change} (stopped : Stopped kind before.trace world)
    (midway : StoppedMidway before world) (onDisk : OnDisk world) : Stuck world := by
  obtain ⟨part, split, set, notCatchup⟩ := midway
  rcases stopped.outcome with ⟨same, split', completed⟩ | ⟨-, nothing⟩
  · have part_eq : part = same := List.append_cancel_left (split.symm.trans split')
    exact absurd (completed (part_eq ▸ set)) (part_eq ▸ notCatchup)
  · intro database inside
    obtain ⟨notYet, unapplied⟩ := nothing database inside
    exact ⟨⟨onDisk database inside, fun catchup => notYet (.inl catchup), fun ready => notYet (.inr ready)⟩, unapplied⟩

end Starts

/-! ## With synchronous commit -/

/-- Nothing waits for the disk, and a status that the attempt behind `earlier` has set is still there. -/
structure Durable (earlier : List Action) (world : World Change) : Prop where
  flushed : world.unflushed = []
  began : earlier <+: world.trace
  kept : ∀ part, world.trace = earlier ++ part → ∀ status, .statusSet status ∈ part → world.database.status ≠ .init

section Synchronous

variable {kind : SyncKind} {name : String} {start : Start Change} {earlier : List Action} {world : World Change}

theorem Durable.record (durable : Durable earlier world) {action : Action}
    (set : ∀ status, action = .statusSet status → world.database.status ≠ .init) :
    Durable earlier (world.record action) where
  flushed := durable.flushed
  began := durable.began.trans (List.prefix_append _ _)
  kept part split status inside := by
    obtain ⟨done, same⟩ := durable.began
    have whole : earlier ++ (done ++ [action]) = earlier ++ part := by
      rw [← List.append_assoc, same]
      exact split
    have part_eq : done ++ [action] = part := List.append_cancel_left whole
    rcases List.mem_append.mp (part_eq ▸ inside) with before | now
    · exact durable.kept done same.symm status before
    · exact set status (List.mem_singleton.mp now).symm

theorem Durable.crash (durable : Durable earlier world) (lost : ℕ) : Durable earlier (world.crash lost) := by
  have same : (world.crash lost).database = world.database := by
    cases lost with
    | zero => rfl
    | succ lost => simp [World.crash, World.written, durable.flushed]
  have recorded : Durable earlier (world.record .crashed) := durable.record fun _ set => by cases set
  refine ⟨rfl, recorded.began, fun part split status inside => ?_⟩
  rw [same]
  exact recorded.kept part split status inside

theorem durable_step : Preserves (Durable earlier) (step : SyncM Change Unit) := by
  intro world durable
  have passed : ∀ moment later, Durable earlier (world.pass moment later) := by
    intro moment later
    refine ⟨?_, durable.began, durable.kept⟩
    simp [World.pass, durable.flushed]
  unfold step
  cases world.moments with
  | nil => exact durable
  | cons moment later =>
    cases what : moment.interruption with
    | none => simpa [what, stateOf] using passed moment later
    | some interruption =>
      cases interruption with
      | error message => simpa [what, stateOf] using passed moment later
      | crash lost => simpa [what, stateOf] using (passed moment later).crash lost

theorem durable_perform {action : Action} (noStatus : ∀ status, action ≠ .statusSet status) :
    Preserves (Durable earlier) (perform action : SyncM Change Unit) :=
  .bind durable_step fun _ _ durable => durable.record fun status set => absurd set (noStatus status)

theorem durable_transaction {action : Action} {write : Database Change → Database Change}
    (set : ∀ status, action = .statusSet status → ∀ database, (write database).status ≠ .init)
    (kept : ∀ database, database.status ≠ .init → (write database).status ≠ .init) :
    Preserves (Durable earlier) (transaction true action write) := by
  refine .bind durable_step fun _ world durable => ?_
  have committed : Durable earlier (world.commit true write) :=
    ⟨rfl, durable.began, fun part split status inside => kept _ (durable.kept part split status inside)⟩
  exact committed.record fun status same => set status same world.database

theorem durable_setStatus {status : SyncStatus} (notInit : status ≠ .init) :
    Preserves (Durable earlier) (setSubscriptionSyncStatus true status : SyncM Change Unit) :=
  durable_transaction (fun _ _ _ => notInit) fun _ _ => notInit

theorem durable_demanded {wanted : Bool} {steps : SyncM Change Unit} (kept : Preserves (Durable earlier) steps) :
    Preserves (Durable earlier) (demanded wanted steps) := by
  cases wanted with
  | true => exact kept
  | false => exact .pure ()

theorem durable_tmpfile (tmpfile : Bool) :
    Preserves (Durable earlier) (modify fun world => { world with tmpfile := tmpfile } : SyncM Change Unit) :=
  fun _ durable => ⟨durable.flushed, durable.began, durable.kept⟩

theorem durable_synchronize : Preserves (Durable earlier) (synchronize true kind start) := by
  refine .bind (durable_transaction (by simp) fun _ => id) fun _ => ?_
  refine .bind (durable_demanded (.bind (durable_setStatus (by simp)) fun _ => ?_)) fun _ => ?_
  · exact .bind (.bind (durable_perform (by simp)) fun _ => durable_tmpfile true) fun _ => durable_perform (by simp)
  refine .bind (durable_demanded (.bind (durable_setStatus (by simp)) fun _ => ?_)) fun _ => ?_
  · exact .bind (durable_perform (by simp)) fun _ => durable_transaction (by simp) fun _ => id
  · exact durable_demanded (.bind (durable_setStatus (by simp)) fun _ => durable_perform (by simp))

theorem durable_ensureErrorCleanup {cleanup body : SyncM Change Unit} (ran : Preserves (Durable earlier) body)
    (cleaned : Preserves (Durable earlier) cleanup) : Preserves (Durable earlier) (ensureErrorCleanup cleanup body) := by
  intro world durable
  have ended := ran durable
  unfold ensureErrorCleanup
  cases answer : body world with
  | ok done after =>
    rw [answer] at ended
    exact ended
  | error stop after =>
    rw [answer] at ended
    cases stop with
    | crash => exact ended
    | error message =>
      have last := cleaned ended
      simp only [stateOf] at last
      cases finish : cleanup after with
      | ok done final => simpa [finish, stateOf] using last
      | error stop final => simpa [finish, stateOf] using last

theorem durable_initializeSubscriber : Preserves (Durable earlier) (initializeSubscriber true kind start) := by
  have slot : Preserves (Durable earlier) (ensureReplicationSlotSnapshot start) := by
    refine .bind durable_step fun _ => .bind (fun _ => id) fun _ => .guard fun world durable => ?_
    have recorded : Durable earlier (world.record (.slotCreated start.lsn start.snapshot)) :=
      durable.record fun _ set => by cases set
    exact ⟨recorded.flushed, recorded.began, recorded.kept⟩
  have dropped : Preserves (Durable earlier) (pglogicalSyncWorkerCleanup : SyncM Change Unit) := by
    refine .bind durable_step fun _ => .bind durable_step fun _ => .bind durable_step fun _ world durable => ?_
    have recorded : Durable earlier (world.record .slotDropped) := durable.record fun _ set => by cases set
    exact ⟨recorded.flushed, recorded.began, recorded.kept⟩
  refine .bind durable_step fun _ => .bind durable_step fun _ => .bind durable_step fun _ => .bind slot fun _ => ?_
  refine .bind (durable_ensureErrorCleanup (.bind ?_ fun _ => durable_tmpfile false) dropped) fun _ => ?_
  · exact durable_ensureErrorCleanup durable_synchronize (durable_tmpfile false)
  · exact durable_setStatus (by simp)

theorem durable_pglogicalApplyMain : Preserves (Durable earlier) (pglogicalApplyMain true kind name start) := by
  refine .bind (.bind durable_step fun _ => .bind (fun _ => id) fun world => ?_) fun _ => .bind ?_ fun _ => ?_
  · split
    · exact .pure ()
    · exact .bind durable_initializeSubscriber fun _ => durable_setStatus (by simp)
    · exact durable_setStatus (by simp)
    · exact .throw _
  · exact .bind durable_step fun _ => .bind (fun _ => id) fun _ => .guard
      (.bind durable_step fun _ => .bind (fun _ => id) fun _ => .check)
  · induction start.changes with
    | nil => exact .pure ()
    | cons change rest ih =>
      refine .bind durable_step fun _ => .bind (fun _ => id) fun now => ?_
      split
      · exact .pure ()
      · exact .bind (fun world durable => ⟨rfl, durable.began, durable.kept⟩) fun _ => ih

theorem durable_launch (world : World Change) (start : Start Change) (flushed : world.unflushed = []) :
    Durable world.trace (world.launch start) where
  flushed := flushed
  began := List.prefix_append world.trace [.started]
  kept part split status inside := by
    rw [← List.append_cancel_left split] at inside
    simp at inside

theorem durable_afterStart (kind : SyncKind) (name : String) (start : Start Change) (flushed : world.unflushed = []) :
    Durable world.trace (afterStart true kind name world start) := by
  have main : Preserves (Durable world.trace) (pglogicalApplyMain true kind name start) := durable_pglogicalApplyMain
  have ended := main (durable_launch world start flushed)
  unfold afterStart startWorker
  cases answer : pglogicalApplyMain true kind name start (world.launch start) with
  | ok done last =>
    rw [answer] at ended
    exact ended
  | error stop last =>
    rw [answer] at ended
    cases stop with
    | crash => exact ended
    | error message => exact Durable.record ended fun _ set => by cases set

theorem flushed_afterStarts (starts : List (Start Change)) (flushed : world.unflushed = []) :
    (afterStarts true kind name world starts).unflushed = [] := by
  induction starts generalizing world with
  | nil => exact flushed
  | cons start rest ih => exact ih (durable_afterStart kind name start flushed).flushed

/-- A status that has been committed synchronously is on disk. -/
theorem onDisk_of_synchronous (flushed : world.unflushed = [])
    (midway : StoppedMidway world (afterStart true kind name world start)) :
    OnDisk (afterStart true kind name world start) := by
  have durable := durable_afterStart kind name start flushed
  obtain ⟨part, split, ⟨status, -, inside⟩, -⟩ := midway
  intro database found
  rw [World.written, durable.flushed] at found
  rw [List.mem_singleton.mp found]
  exact durable.kept part split status inside

end Synchronous

/-- READY is committed only behind one attempt that has done everything, and while it stands the slot of that attempt
is there, and the origin at its position until changes are applied. An attempt that has committed a status that is
not recoverable and stops before CATCHUP leaves a subscription that every later start refuses, with nothing applied,
once that status is on disk. -/
theorem initialisation_all_or_nothing (synchronousCommit : Bool) (kind : SyncKind) (name : String)
    {world : World Change} (created : Created world) (starts : List (Start Change)) :
    let now := afterStarts synchronousCommit kind name world starts
    ReadyJustified kind now.trace ∧
      (now.database.status = .ready → ∃ lsn, Attempted kind lsn now.trace ∧ now.slot = some lsn ∧
        (now.database.applied = [] → now.database.origin = some lsn)) ∧
      ∀ attempt, let stopped := afterStart synchronousCommit kind name now attempt
        StoppedMidway now stopped → (synchronousCommit = true ∨ OnDisk stopped) →
          ∀ later, (afterStarts synchronousCommit kind name stopped later).database.applied = [] ∧
            ∀ next, ∃ stop last, startWorker synchronousCommit kind name next
              (afterStarts synchronousCommit kind name stopped later) = .error stop last := by
  intro now
  have sound : Sound kind now := created.sound.afterStarts starts
  refine ⟨sound.justified, fun ready => ?_, ?_⟩
  · exact sound.initialised now.database (List.mem_cons_self ..) (.inr ready)
  · intro attempt stopped midway durable later
    have onDisk : OnDisk stopped := by
      rcases durable with rfl | onDisk
      · exact onDisk_of_synchronous (flushed_afterStarts starts created.unflushed) midway
      · exact onDisk
    have stuck := ((sound.afterStart attempt).stuck midway onDisk).afterStarts synchronousCommit kind name later
    refine ⟨(stuck _ (List.mem_cons_self ..)).2, fun next => ?_⟩
    obtain ⟨stop, last, ran, -⟩ := stuck.startWorker synchronousCommit kind name next
    exact ⟨stop, last, ran⟩

/-- A subscription that has just been created. -/
def newWorld : World ℕ := ⟨⟨.init, ∅, none, []⟩, [], none, false, false, [], []⟩

/-- A start that is interrupted before the step of the index. -/
def interruptedStart (index : ℕ) (interruption : Interruption) : Start ℕ :=
  ⟨List.replicate index ⟨false, false, none⟩ ++ [⟨false, false, some interruption⟩], 10, "snapshot", [], []⟩

def undisturbedStart : Start ℕ := ⟨[], 20, "snapshot", [], [(21, 7)]⟩

/-- A crash between CATCHUP and READY; and, without synchronous commit, an error behind STRUCTURE and a crash that
loses that status. -/
theorem stopped_attempt_recovers :
    (let crashed := afterStart true .full "sub" newWorld (interruptedStart 15 (.crash 0))
     (∃ last, startWorker true .full "sub" (interruptedStart 15 (.crash 0)) newWorld = .error .crash last) ∧
       .statusSet .struct ∈ crashed.trace ∧ crashed.database.status = .catchup ∧
       (∃ last, startWorker true .full "sub" undisturbedStart crashed = .ok () last) ∧
       (afterStart true .full "sub" crashed undisturbedStart).database.applied = [7]) ∧
    (let failed := afterStart false .full "sub" newWorld (interruptedStart 7 (.error "could not execute command"))
     let crashed := afterStart false .full "sub" failed (interruptedStart 0 (.crash 1))
     .statusSet .struct ∈ failed.trace ∧ failed.database.status = .struct ∧ crashed.database.status = .init ∧
       (∃ last, startWorker false .full "sub" undisturbedStart crashed = .ok () last) ∧
       (afterStart false .full "sub" crashed undisturbedStart).database.applied = [7]) := by
  refine ⟨⟨⟨_, rfl⟩, ?_, rfl, ⟨_, rfl⟩, rfl⟩, ?_, rfl, rfl, ⟨_, rfl⟩, rfl⟩
  · decide
  · decide

theorem initialisation_fails_midway :
    let stopped := afterStart true .full "sub" newWorld (interruptedStart 10 (.error "could not execute command"))
    StoppedMidway newWorld stopped ∧ stopped.database.status = .data ∧ stopped.slot = none ∧
      ∀ later, (afterStarts true .full "sub" stopped later).database.applied = [] := by
  intro stopped
  have created : Created newWorld := ⟨rfl, rfl, rfl, rfl⟩
  have midway : StoppedMidway newWorld stopped :=
    ⟨stopped.trace, rfl, ⟨.struct, ⟨by simp, by simp, by simp⟩, by decide⟩, by decide⟩
  obtain ⟨-, -, stays⟩ := initialisation_all_or_nothing true .full "sub" created []
  exact ⟨midway, rfl, rfl, fun later => (stays _ midway (.inl rfl) later).1⟩

end PGLogical.SubscriptionSync
