import PGLogical.Model.SyncingTables

/-! # Tables under synchronisation and the apply worker

A table is safe from the apply worker while it is listed, and the flag stands for the tables that
are not listed yet. Two orders of steps break this: the catalog is reread while a transaction that
has set the flag is still open, so that the flag is used up before its tables are visible; and a
remote transaction begins while the flag is set. Without them the list covers, at every BEGIN, all
tables whose synchronisation was visible by then, and keeps them until the COMMIT. The list protects
the table a message names; what a queued command does beyond that is asked for separately. `Traced`
records the statuses at the last BEGIN and what the worker has touched.
-/

namespace PGLogical.SyncingTables

open Machine

structure Traced where
  state : State
  /-- The catalog when the last BEGIN was handled. -/
  atBegin : LocalSyncStatus
  /-- Every table changed by the apply worker, with its status at the BEGIN of that transaction. -/
  touched : List (RangeVar × Option SyncStatus)

def Traced.init (catalog : LocalSyncStatus) : Traced := ⟨SyncingTables.init catalog, catalog, []⟩

def Traced.touches (s : Traced) (event : Event) : List RangeVar :=
  match event, s.state.apply with
  | .apply event, some apply => applies apply event
  | _, _ => []

def Traced.step (s : Traced) (event : Event) : Option Traced :=
  (SyncingTables.step s.state event).map fun next =>
    ⟨next,
      match event with
      | .apply .begin => s.state.catalog
      | _ => s.atBegin,
      s.touched ++ (s.touches event).map fun rv => (rv, getTableSyncStatus s.atBegin rv)⟩

/-- The steps that lose no notification and in which no queued command reaches past the list. -/
structure Notified (s : Traced) (event : Event) : Prop where
  /-- The catalog is not reread while a transaction that changes statuses is open, unless the flag has
  been set again. -/
  reread : event = .apply .reread → ∀ apply, s.state.apply = some apply → apply.syncPending = false →
    ∀ id, (s.state.txns id).changes = []
  /-- No remote transaction begins while the flag stands for a table that is not listed. -/
  begin : event = .apply .begin → ∀ apply, s.state.apply = some apply → apply.syncPending = true →
    ∀ rv, Unsynced (getTableSyncStatus s.state.catalog rv) → rv ∈ apply.syncingTables
  /-- An applied TRUNCATE has no inheriting table that was under synchronisation at the BEGIN. -/
  truncate : ∀ rv children, event = .apply (.truncate rv children) → ∀ apply, s.state.apply = some apply →
    rv ∉ apply.syncingTables → ∀ child ∈ children, ¬ Unsynced (getTableSyncStatus s.atBegin child)
  /-- A queued SQL command changes no table that was under synchronisation at the BEGIN. -/
  sql : ∀ rvs, event = .apply (.sql rvs) → ∀ rv ∈ rvs, ¬ Unsynced (getTableSyncStatus s.atBegin rv)

/-- Every table under synchronisation is listed, or the flag is set. Between clearing the flag and
reading the catalog the list is being replaced. -/
def Covered (s : State) : Prop :=
  ∀ apply, s.apply = some apply → apply.phase ≠ .cleared →
    ∀ rv, Unsynced (getTableSyncStatus s.catalog rv) → rv ∈ apply.syncingTables ∨ apply.syncPending = true

/-- The invariant of a running worker. -/
structure Safe (s : State) (atBegin : LocalSyncStatus) (apply : ApplyWorker) : Prop where
  covered : apply.phase ≠ .cleared → ∀ rv, Unsynced (getTableSyncStatus s.catalog rv) →
    rv ∈ apply.syncingTables ∨ apply.syncPending = true
  /-- A transaction whose tables are not visible yet has its notification waiting. -/
  announced : apply.phase ≠ .cleared → ∀ id, (s.txns id).changes ≠ [] → apply.syncPending = true
  created : ∀ created, apply.phase = .inRemoteTransaction created → ∀ rv ∈ created, rv ∈ apply.syncingTables
  begun : ∀ created, apply.phase = .inRemoteTransaction created →
    ∀ rv, Unsynced (getTableSyncStatus atBegin rv) → rv ∈ apply.syncingTables

structure Inv (s : Traced) : Prop where
  safe : ∀ apply, s.state.apply = some apply → Safe s.state s.atBegin apply
  untouched : ∀ touch ∈ s.touched, ¬ Unsynced touch.2

/-! ## Catalog changes -/

theorem unsynced_commitStatuses {catalog : LocalSyncStatus} {changes : List RangeVar} {rv : RangeVar}
    (unsynced : Unsynced (getTableSyncStatus (commitStatuses catalog changes) rv)) :
    Unsynced (getTableSyncStatus catalog rv) ∨ rv ∈ changes := by
  induction changes generalizing catalog with
  | nil => exact .inl unsynced
  | cons changed rest ih =>
    rcases ih unsynced with before | later
    · by_cases same : rv = changed
      · exact .inr (List.mem_cons.mpr (.inl same))
      · rw [getTableSyncStatus_set_ne same] at before
        exact .inl before
    · exact .inr (List.mem_cons_of_mem _ later)

/-- A table that was under synchronisation may change its status. -/
theorem unsynced_set {catalog : LocalSyncStatus} {rv other : RangeVar} {status : SyncStatus}
    (before : Unsynced (getTableSyncStatus catalog rv))
    (unsynced : Unsynced (getTableSyncStatus (setTableSyncStatus catalog rv status) other)) :
    Unsynced (getTableSyncStatus catalog other) := by
  by_cases same : other = rv
  · rw [same]
    exact before
  · rwa [getTableSyncStatus_set_ne same] at unsynced

theorem unsynced_drop {catalog : LocalSyncStatus} {rv other : RangeVar}
    (unsynced : Unsynced (getTableSyncStatus (dropTableSyncStatus catalog rv) other)) :
    Unsynced (getTableSyncStatus catalog other) := by
  obtain ⟨st, found, unready⟩ := unsynced
  exact ⟨st, getTableSyncStatus_drop found, unready⟩

/-! ## One step -/

section Step

variable {s : State} {atBegin : LocalSyncStatus} {apply : ApplyWorker}

/-- The worker does nothing, and every table newly under synchronisation is covered. -/
theorem Safe.catalog (safe : Safe s atBegin apply) {catalog : LocalSyncStatus} {txns : ℕ → SqlTxn}
    (visible : apply.phase ≠ .cleared → ∀ rv, Unsynced (getTableSyncStatus catalog rv) →
      Unsynced (getTableSyncStatus s.catalog rv) ∨ rv ∈ apply.syncingTables ∨ apply.syncPending = true)
    (opened : ∀ id, (txns id).changes ≠ [] → (s.txns id).changes ≠ []) {running : Option ApplyWorker} :
    Safe ⟨catalog, txns, running⟩ atBegin apply := by
  refine ⟨fun outside rv unsynced => ?_, fun outside id changes => ?_, safe.created, safe.begun⟩
  · rcases visible outside rv unsynced with before | covered
    · exact safe.covered outside rv before
    · exact covered
  · exact safe.announced outside id (opened id changes)

/-- The worker moves on outside remote transactions, with its list and its flag unchanged. -/
theorem Safe.move (safe : Safe s atBegin apply) (phase : Phase) (running : Option ApplyWorker)
    (before : apply.phase ≠ .cleared) (after : ∀ created, phase ≠ .inRemoteTransaction created) :
    Safe { s with apply := running } atBegin { apply with phase := phase } := by
  refine ⟨fun _ => safe.covered before, fun _ => safe.announced before, ?_, ?_⟩
  · intro created inside
    exact absurd inside (after created)
  · intro created inside
    exact absurd inside (after created)

/-- A cell is removed whose table is not under synchronisation. -/
theorem Safe.remove (safe : Safe s atBegin apply) {rv : RangeVar} {rest : List RangeVar}
    {running : Option ApplyWorker} (before : apply.phase ≠ .cleared)
    (synced : ¬ Unsynced (getTableSyncStatus s.catalog rv)) :
    Safe { s with apply := running } atBegin
      { apply with syncingTables := apply.syncingTables.erase rv, phase := .scanning rest } := by
  refine ⟨fun _ other unsynced => ?_, fun _ => safe.announced before, ?_, ?_⟩
  · rcases safe.covered before other unsynced with listed | pending
    · refine .inl ((List.mem_erase_of_ne ?_).mpr listed)
      rintro rfl
      exact synced unsynced
    · exact .inr pending
  · intro created inside
    cases inside
  · intro created inside
    cases inside

theorem Safe.processCell (safe : Safe s atBegin apply) (rv : RangeVar) (rest : List RangeVar) (handover : Bool)
    (before : apply.phase ≠ .cleared) {next : ApplyWorker}
    (running : (processCell s apply rv rest handover).apply = some next) :
    Safe (processCell s apply rv rest handover) atBegin next := by
  unfold SyncingTables.processCell at running ⊢
  split at running
  · next missing =>
    cases running
    exact safe.remove before (by rw [missing]; exact not_unsynced_none)
  · next ready =>
    cases running
    exact safe.remove before (by rw [ready]; exact fun unready => absurd rfl ((unsynced_some _).mp unready))
  · next waits =>
    have unsynced : Unsynced (getTableSyncStatus s.catalog rv) := by
      rw [waits, unsynced_some]
      decide
    cases handover with
    | true =>
      cases running
      have moved := safe.move (.waiting rv rest) s.apply before (fun created => by simp)
      refine moved.catalog (fun _ other still => ?_) fun id changes => changes
      exact .inl (unsynced_set unsynced still)
    | false =>
      cases running
      exact safe.move _ _ before (fun created => by simp)
  · cases running
    exact safe.move _ _ before (fun created => by simp)

theorem Safe.waitForSyncStatusChange (safe : Safe s atBegin apply) (rv : RangeVar) (rest : List RangeVar)
    (alive : Bool) (before : apply.phase ≠ .cleared) (here : s.apply = some apply) {next : ApplyWorker}
    (running : (waitForSyncStatusChange s apply rv rest alive).apply = some next) :
    Safe (waitForSyncStatusChange s apply rv rest alive) atBegin next := by
  unfold SyncingTables.waitForSyncStatusChange at running ⊢
  split at running
  · next ready =>
    cases running
    rw [if_pos ready]
    exact safe.remove before (by rw [ready]; exact fun unready => absurd rfl ((unsynced_some _).mp unready))
  · next unready =>
    rw [if_neg unready]
    split at running
    · next left =>
      cases running
      rw [if_pos left]
      exact safe.move _ _ before (fun created => by simp)
    · next stays =>
      rw [if_neg stays]
      rw [here] at running
      cases running
      exact safe

theorem Safe.handleTableSync (safe : Safe s atBegin apply) {created : List RangeVar} (rv : RangeVar)
    (inside : apply.phase = .inRemoteTransaction created) {running : Option ApplyWorker} :
    Safe { s with apply := running } atBegin (handleTableSync s.catalog apply created rv) := by
  unfold SyncingTables.handleTableSync
  split
  · exact safe.catalog (fun _ other unsynced => .inl unsynced) fun id changes => changes
  have outside : apply.phase ≠ .cleared := by
    rw [inside]
    intro cleared
    cases cleared
  refine ⟨fun _ other unsynced => ?_, fun _ => safe.announced outside, ?_, ?_⟩
  · exact (safe.covered outside other unsynced).imp_left (List.mem_append_left _)
  · rintro _ same other new
    cases same
    rcases List.mem_append.mp new with old | last
    · exact List.mem_append_left _ (safe.created created inside other old)
    · exact List.mem_append_right _ last
  · intro _ _ other unsynced
    exact List.mem_append_left _ (safe.begun created inside other unsynced)

/-- Whatever the worker does, when no notification is lost, it stays safe. -/
theorem Safe.workerStep {t : Traced} {event : WorkerEvent} {next : State} {worker : ApplyWorker}
    (here : t.state.apply = some apply) (safe : Safe t.state t.atBegin apply) (notified : Notified t (.apply event))
    (stepped : workerStep t.state apply event = some next) (running : next.apply = some worker) :
    Safe next (match event with | .begin => t.state.catalog | _ => t.atBegin) worker := by
  cases event with
  | begin =>
    -- what is visible now has to be listed
    cases phase : apply.phase <;> simp only [SyncingTables.workerStep, phase, Option.some.injEq, reduceCtorEq] at stepped
    subst stepped
    cases running
    have outside : apply.phase ≠ .cleared := by simp [phase]
    refine ⟨fun _ => safe.covered outside, fun _ => safe.announced outside, ?_, ?_⟩
    · intro created same rv inside
      cases same
      cases inside
    · intro created same rv unsynced
      rcases safe.covered outside rv unsynced with listed | pending
      · exact listed
      · exact notified.begin rfl apply here pending rv unsynced
  | row rv =>
    cases phase : apply.phase <;> simp only [SyncingTables.workerStep, phase, Option.some.injEq, reduceCtorEq] at stepped
    subst stepped
    rw [here] at running
    cases running
    exact safe
  | truncate rv children =>
    cases phase : apply.phase <;> simp only [SyncingTables.workerStep, phase, Option.some.injEq, reduceCtorEq] at stepped
    subst stepped
    rw [here] at running
    cases running
    exact safe
  | sql rvs =>
    cases phase : apply.phase <;> simp only [SyncingTables.workerStep, phase, Option.some.injEq, reduceCtorEq] at stepped
    subst stepped
    rw [here] at running
    cases running
    exact safe
  | tableSync rv =>
    cases phase : apply.phase <;> simp only [SyncingTables.workerStep, phase, Option.some.injEq, reduceCtorEq] at stepped
    subst stepped
    cases running
    exact safe.handleTableSync rv phase
  | commit =>
    cases phase : apply.phase <;> simp only [SyncingTables.workerStep, phase, Option.some.injEq, reduceCtorEq] at stepped
    next created =>
    subst stepped
    cases running
    have moved := safe.move .check t.state.apply (by simp [phase]) (fun created => by simp)
    refine moved.catalog (fun _ rv unsynced => ?_) fun id changes => changes
    rcases unsynced_commitStatuses unsynced with before | new
    · exact .inl before
    · exact .inr (.inl (safe.created created phase rv new))
  | idle =>
    cases phase : apply.phase <;> simp only [SyncingTables.workerStep, phase, Option.some.injEq, reduceCtorEq] at stepped
    subst stepped
    cases running
    exact safe.move _ _ (by simp [phase]) (fun created => by simp)
  | readPending =>
    cases phase : apply.phase <;> simp only [SyncingTables.workerStep, phase, reduceCtorEq] at stepped
    split at stepped
    · cases stepped
      cases running
      refine ⟨fun outside => absurd rfl outside, fun outside => absurd rfl outside, ?_, ?_⟩
      · intro created inside
        cases inside
      · intro created inside
        cases inside
    · cases stepped
      cases running
      exact safe.move _ _ (by simp [phase]) (fun created => by simp)
  | reread =>
    cases phase : apply.phase <;> simp only [SyncingTables.workerStep, phase, Option.some.injEq, reduceCtorEq] at stepped
    subst stepped
    cases running
    refine ⟨fun _ rv unsynced => .inl (mem_getUnsyncedTables.mpr unsynced), fun _ id changes => ?_, ?_, ?_⟩
    · by_contra unset
      rw [Bool.not_eq_true] at unset
      exact changes (notified.reread rfl apply here unset id)
    · intro created inside
      cases inside
    · intro created inside
      cases inside
  | scan handover =>
    cases phase : apply.phase <;> simp only [SyncingTables.workerStep, phase, reduceCtorEq] at stepped
    next rest =>
    cases rest with
    | nil =>
      cases stepped
      cases running
      exact safe.move _ _ (by simp [phase]) (fun created => by simp)
    | cons rv rest =>
      cases stepped
      exact safe.processCell rv rest handover (by simp [phase]) running
  | wait alive =>
    cases phase : apply.phase <;> simp only [SyncingTables.workerStep, phase, Option.some.injEq, reduceCtorEq] at stepped
    next rv rest =>
    subst stepped
    exact safe.waitForSyncStatusChange rv rest alive (by simp [phase]) here running

/-- A listed table is skipped, so one that is named and changed was synchronised at BEGIN. -/
theorem Safe.synced_of_unlisted (safe : Safe s atBegin apply) {created : List RangeVar} {rv : RangeVar}
    (inside : apply.phase = .inRemoteTransaction created) (unlisted : rv ∉ apply.syncingTables) :
    ¬ Unsynced (getTableSyncStatus atBegin rv) := fun unsynced =>
  unlisted (safe.begun created inside rv unsynced)

/-- What is applied is applied to tables that were synchronised at BEGIN. -/
theorem Safe.synced_of_applies {t : Traced} (here : t.state.apply = some apply) (safe : Safe t.state t.atBegin apply)
    {event : WorkerEvent} (notified : Notified t (.apply event)) {rv : RangeVar} (applied : rv ∈ applies apply event) :
    ¬ Unsynced (getTableSyncStatus t.atBegin rv) := by
  unfold applies at applied
  split at applied
  · next named created inside =>
    split_ifs at applied with listed
    · cases applied
    · cases List.mem_singleton.mp applied
      exact safe.synced_of_unlisted inside (of_decide_eq_false (Bool.not_eq_true _ ▸ listed))
  · next named children created inside =>
    split_ifs at applied with listed
    · cases applied
    · have unlisted : named ∉ apply.syncingTables := of_decide_eq_false (Bool.not_eq_true _ ▸ listed)
      rcases List.mem_cons.mp applied with rfl | child
      · exact safe.synced_of_unlisted inside unlisted
      · exact notified.truncate named children rfl apply here unlisted rv child
  · exact notified.sql _ rfl rv applied
  · cases applied

end Step

/-- A SQL function announces its changes: the flag is set, or the worker will start with it set. -/
theorem Inv.tellApply {s : Traced} (inv : Inv s) (id : ℕ) (changes : List RangeVar) {worker : ApplyWorker}
    (running : (s.state.tellApply id changes).apply = some worker) :
    Safe (s.state.tellApply id changes) s.atBegin worker := by
  unfold State.tellApply at running ⊢
  cases here : s.state.apply with
  | none =>
    rw [here] at running
    cases running
  | some apply =>
    rw [here] at running
    cases running
    have safe := inv.safe apply here
    exact ⟨fun _ rv _ => .inr rfl, fun _ _ _ => rfl, safe.created, safe.begun⟩

theorem inv_step {s next : Traced} {event : Event} (inv : Inv s) (notified : Notified s event)
    (taken : Traced.step s event = some next) : Inv next := by
  obtain ⟨state, stepped, rfl⟩ := Option.map_eq_some_iff.mp taken
  have quiet : s.touches event = [] →
      ∀ touch ∈ s.touched ++ (s.touches event).map fun rv => (rv, getTableSyncStatus s.atBegin rv),
        ¬ Unsynced touch.2 := by
    intro nothing
    rw [nothing, List.map_nil, List.append_nil]
    exact inv.untouched
  cases event with
  | alterSubscriptionSynchronize id tables =>
    cases stepped
    exact ⟨fun worker running => inv.tellApply id _ running, quiet rfl⟩
  | alterSubscriptionResynchronizeTable id rv =>
    have told : state = s.state.tellApply id [rv] := by
      simp only [step, alterSubscriptionResynchronizeTable] at stepped
      split at stepped
      · exact (Option.some.inj (Option.ite_none_left_eq_some.mp stepped).2).symm
      · exact (Option.some.inj stepped).symm
    subst told
    exact ⟨fun worker running => inv.tellApply id _ running, quiet rfl⟩
  | sqlCommit id =>
    cases stepped
    refine ⟨fun worker running => ?_, quiet rfl⟩
    obtain ⟨apply, here, rfl⟩ := Option.map_eq_some_iff.mp running
    have safe := inv.safe apply here
    have moved : Safe (sqlCommit s.state id) s.atBegin apply := by
      refine safe.catalog (fun outside rv unsynced => ?_) fun other changes => ?_
      · rcases unsynced_commitStatuses unsynced with before | new
        · exact .inl before
        · exact .inr (.inr (safe.announced outside id (List.ne_nil_of_mem new)))
      · by_cases same : other = id
        · rw [same, Function.update_self] at changes
          exact absurd rfl changes
        · rwa [Function.update_of_ne same] at changes
    exact ⟨moved.covered, moved.announced, moved.created, moved.begun⟩
  | sqlAbort id =>
    cases stepped
    refine ⟨fun worker running => ?_, quiet rfl⟩
    refine (inv.safe worker running).catalog (fun _ rv unsynced => .inl unsynced) fun other changes => ?_
    by_cases same : other = id
    · rw [same, Function.update_self] at changes
      exact absurd rfl changes
    · rwa [Function.update_of_ne same] at changes
  | syncWorker rv status =>
    refine ⟨fun worker running => ?_, quiet rfl⟩
    simp only [step] at stepped
    split at stepped
    · next st found =>
      obtain ⟨unready, same⟩ := Option.ite_none_left_eq_some.mp stepped
      cases same
      have unsynced : Unsynced (getTableSyncStatus s.state.catalog rv) := ⟨st, found, unready⟩
      exact (inv.safe worker running).catalog (fun _ other still => .inl (unsynced_set unsynced still))
        fun id changes => changes
    · cases stepped
  | dropTable rv =>
    cases stepped
    refine ⟨fun worker running => ?_, quiet rfl⟩
    exact (inv.safe worker running).catalog (fun _ other still => .inl (unsynced_drop still)) fun id changes => changes
  | start =>
    simp only [step] at stepped
    split at stepped
    · cases stepped
    · cases stepped
      refine ⟨fun worker running => ?_, quiet rfl⟩
      cases running
      refine ⟨fun _ _ _ => .inr rfl, fun _ _ _ => rfl, ?_, ?_⟩
      · intro created inside
        cases inside
      · intro created inside
        cases inside
  | stop =>
    cases stepped
    refine ⟨fun worker running => ?_, quiet rfl⟩
    cases running
  | apply event =>
    obtain ⟨apply, here, stepped⟩ := Option.bind_eq_some_iff.mp stepped
    have safe := inv.safe apply here
    refine ⟨fun worker running => ?_, fun touch touched => ?_⟩
    · have after := safe.workerStep here notified stepped running
      cases event <;> exact after
    · rcases List.mem_append.mp touched with before | now
      · exact inv.untouched touch before
      · obtain ⟨rv, applied, rfl⟩ := List.mem_map.mp now
        have applied : rv ∈ applies apply event := by
          simpa only [Traced.touches, here] using applied
        exact safe.synced_of_applies here notified applied

theorem inv_init (catalog : LocalSyncStatus) : Inv (Traced.init catalog) := by
  constructor
  · intro apply running
    cases running
  · intro touch touched
    cases touched

/-- In every run that loses no notification and in which no queued command reaches past the list, the
apply worker changes no table that was visibly under synchronisation when the remote transaction
began, and every table under synchronisation is listed or covered by the flag. -/
theorem syncing_table_untouched (catalog : LocalSyncStatus) (events : List Event) (final : Traced)
    (notified : Permitted Traced.step Notified (Traced.init catalog) events)
    (success : run Traced.step (Traced.init catalog) events = some final) :
    (∀ touch ∈ final.touched, ¬ Unsynced touch.2) ∧ Covered final.state := by
  have inv := run_invariant inv_step (inv_init catalog) notified success
  exact ⟨inv.untouched, fun apply running => (inv.safe apply running).covered⟩

def sampleTable : RangeVar := ⟨.ofBytes [112], .ofBytes [116]⟩

def sampleParent : RangeVar := ⟨.ofBytes [112], .ofBytes [114]⟩

def sampleSibling : RangeVar := ⟨.ofBytes [112], .ofBytes [115]⟩

/-- A resynchronisation is committed, and a worker starts. -/
def startedRun : List Event :=
  [.alterSubscriptionResynchronizeTable 0 sampleTable, .sqlCommit 0, .start]

/-- It reads the list while it is idle and then gets a transaction. -/
def idleFirstRun (changes : List WorkerEvent) : List Event :=
  startedRun ++ [.apply .idle, .apply .readPending, .apply .reread, .apply (.scan false), .apply (.scan false),
    .apply .begin] ++ changes.map .apply ++ [.apply .commit]

/-- A transaction that comes first is applied before the list is read. Once it is read, the listed table
is still emptied with the table it inherits from, and changed by queued SQL. -/
theorem syncing_table_touched_after_start :
    (∃ final, run Traced.step (Traced.init ∅) (startedRun ++ [.apply .begin, .apply (.row sampleTable)]) = some final ∧
      ¬ ((∀ touch ∈ final.touched, ¬ Unsynced touch.2) ∧ Covered final.state)) ∧
    ∀ change ∈ [WorkerEvent.truncate sampleParent [sampleTable], .sql [sampleTable]],
      ∃ final, run Traced.step (Traced.init ∅) (idleFirstRun [change]) = some final ∧
        ¬ ((∀ touch ∈ final.touched, ¬ Unsynced touch.2) ∧ Covered final.state) := by
  have unsynced : Unsynced (some SyncStatus.init) := (unsynced_some _).mpr (by decide)
  refine ⟨⟨_, rfl, fun both => ?_⟩, fun change which => ?_⟩
  · exact both.1 (sampleTable, some .init) (List.mem_singleton.mpr rfl) unsynced
  rcases List.mem_cons.mp which with rfl | sql
  · refine ⟨_, rfl, fun both => ?_⟩
    exact both.1 (sampleTable, some .init) (List.mem_cons_of_mem _ (List.mem_singleton.mpr rfl)) unsynced
  · cases List.mem_singleton.mp sql
    refine ⟨_, rfl, fun both => ?_⟩
    exact both.1 (sampleTable, some .init) (List.mem_singleton.mpr rfl) unsynced

/-- The row of the listed table is skipped, and the queued commands keep to the other tables. -/
def sampleChanges : List WorkerEvent :=
  [.row sampleTable, .truncate sampleParent [sampleSibling], .sql [sampleParent]]

theorem Notified.of_sql {s : Traced} {event : Event} (sql : ∀ worker, event ≠ .apply worker) : Notified s event :=
  ⟨fun same => absurd same (sql _), fun same => absurd same (sql _), fun _ _ same => absurd same (sql _),
    fun _ same => absurd same (sql _)⟩

/-- A table that has no status at the BEGIN may be changed by anything. -/
theorem sampleChanges_notified {s : Traced} (begun : s.atBegin = commitStatuses ∅ [sampleTable]) :
    Permitted Traced.step Notified s (sampleChanges.map .apply ++ [.apply .commit]) := by
  have synced : ∀ rv, rv ≠ sampleTable → ¬ Unsynced (getTableSyncStatus s.atBegin rv) := by
    intro rv different unsynced
    rw [begun] at unsynced
    rcases unsynced_commitStatuses unsynced with before | new
    · exact not_unsynced_none before
    · exact different (List.mem_singleton.mp new)
  refine ⟨⟨by simp, by simp, by simp, by simp⟩, fun skipped taken => ?_⟩
  obtain ⟨state, stepped, rfl⟩ := Option.map_eq_some_iff.mp taken
  refine ⟨⟨by simp, by simp, fun rv children same _ _ _ child inside => ?_, by simp⟩, fun truncated taken => ?_⟩
  · cases same
    rw [List.mem_singleton.mp inside]
    exact synced sampleSibling (by decide)
  obtain ⟨state, stepped, rfl⟩ := Option.map_eq_some_iff.mp taken
  refine ⟨⟨by simp, by simp, by simp, fun rvs same rv inside => ?_⟩, fun executed taken => ?_⟩
  · cases same
    rw [List.mem_singleton.mp inside]
    exact synced sampleParent (by decide)
  exact ⟨⟨by simp, by simp, by simp, by simp⟩, fun committed taken => trivial⟩

theorem syncing_table_untouched_when_idle_first :
    ∃ final, run Traced.step (Traced.init ∅) (idleFirstRun sampleChanges) = some final ∧
      (∀ touch ∈ final.touched, ¬ Unsynced touch.2) ∧ Covered final.state := by
  refine ⟨_, rfl, syncing_table_untouched ∅ (idleFirstRun sampleChanges) _ ?_ rfl⟩
  refine ⟨.of_sql (by simp), fun called taken => ?_⟩
  cases taken
  refine ⟨.of_sql (by simp), fun committed taken => ?_⟩
  cases taken
  refine ⟨.of_sql (by simp), fun started taken => ?_⟩
  cases taken
  refine ⟨⟨by simp, by simp, by simp, by simp⟩, fun idle taken => ?_⟩
  cases taken
  refine ⟨⟨by simp, by simp, by simp, by simp⟩, fun cleared taken => ?_⟩
  cases taken
  refine ⟨⟨fun _ apply running unset id => ?_, by simp, by simp, by simp⟩, fun reread taken => ?_⟩
  · -- the only transaction has committed
    cases id <;> rfl
  cases taken
  refine ⟨⟨by simp, by simp, by simp, by simp⟩, fun scanned taken => ?_⟩
  cases taken
  refine ⟨⟨by simp, by simp, by simp, by simp⟩, fun scanned taken => ?_⟩
  cases taken
  refine ⟨⟨by simp, fun _ apply running pending => ?_, by simp, by simp⟩, fun begun taken => ?_⟩
  · cases running
    cases pending
  cases taken
  exact sampleChanges_notified rfl

end PGLogical.SyncingTables
