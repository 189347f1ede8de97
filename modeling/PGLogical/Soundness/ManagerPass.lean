import PGLogical.Model.ManagerPass
import PGLogical.Soundness.Manager
import PGLogical.Soundness.WorkerStartup

/-! # What a management pass kills

The list of a pass holds slots. As long as none of them is registered again, the records in it stay
records of apply workers of the database, or go out of use; and as long as no enabled subscription
has two records, checking it takes its record from the list. What the final loop then comes to
belongs to subscriptions that are disabled or gone.
-/

namespace PGLogical.ManagerPass

open Machine
open WorkerStartup (Acts Base Possessed MarksDead)

variable {n : ℕ}

/-! ## The final loop -/

theorem mem_killWorkers {workers : Workers n} {list : List (Fin n)} {i : Fin n}
    (killed : i ∈ (killWorkers workers list).1) : i ∈ list ∧ (workers i).proc ≠ none := by
  induction list generalizing workers with
  | nil => cases killed
  | cons worker rest ih =>
    have rest : i ∈ (killWorkers (Function.update workers worker (workers worker).cleaned) rest).1 →
        i ∈ worker :: rest ∧ (workers i).proc ≠ none := by
      intro later
      obtain ⟨inside, running⟩ := ih later
      refine ⟨List.mem_cons_of_mem _ inside, ?_⟩
      by_cases same : i = worker
      · subst same
        rw [Function.update_self] at running
        unfold PGLogicalWorker.cleaned at running
        split at running <;> exact running
      · rwa [Function.update_of_ne same] at running
    rw [killWorkers] at killed
    split at killed
    · next running =>
      rcases List.mem_cons.mp killed with rfl | later
      · exact ⟨List.mem_cons_self .., by simpa [pglogicalWorkerRunning, Option.isSome_iff_ne_none] using running⟩
      · exact rest later
    · exact rest killed

theorem killWorkers_cons_snd (workers : Workers n) (worker : Fin n) (rest : List (Fin n)) :
    (killWorkers workers (worker :: rest)).2 =
      (killWorkers (Function.update workers worker (workers worker).cleaned) rest).2 := by
  rw [killWorkers]
  split <;> rfl

theorem crashed_of_killWorkers {workers : Workers n} {list : List (Fin n)} {i : Fin n}
    (cleaned : (killWorkers workers list).2 i ≠ workers i) : i ∈ list ∧ (workers i).crashedAt ≠ 0 := by
  induction list generalizing workers with
  | nil => exact absurd rfl cleaned
  | cons worker rest ih =>
    rw [killWorkers_cons_snd] at cleaned
    by_cases changed : Function.update workers worker (workers worker).cleaned i = workers i
    · rw [← changed] at cleaned
      obtain ⟨inside, crashed⟩ := ih cleaned
      rw [changed] at crashed
      exact ⟨List.mem_cons_of_mem _ inside, crashed⟩
    · have same : i = worker := by
        by_contra other
        exact changed (Function.update_of_ne other ..)
      subst same
      refine ⟨List.mem_cons_self .., fun uncrashed => changed ?_⟩
      simp [PGLogicalWorker.cleaned, uncrashed]

/-- The final loop is a sequence of cleanups. -/
theorem killWorkers_invariant {Inv : WorkerStartup.State n → Prop}
    (preserved : ∀ s i, Inv s → Inv (s.setWorker i (s.workers i).cleaned)) (list : List (Fin n))
    (s : WorkerStartup.State n) (inv : Inv s) : Inv { s with workers := (killWorkers s.workers list).2 } := by
  induction list generalizing s with
  | nil => exact inv
  | cons worker rest ih =>
    have step := ih (s.setWorker worker (s.workers worker).cleaned) (preserved s worker inv)
    rw [killWorkers_cons_snd]
    exact step

/-! ## Records that go out of use -/

/-- `wait_for_worker_startup` sets `crashed_at` only in a record that is in use and has no live worker. -/
def MarksChecked (s : WorkerStartup.State n) : WorkerStartup.Event n → Prop
  | .call c (.setCrashedAt _) => ∀ call ∈ s.calls[c]?, call.pc = .sawCrashedAt →
      (s.workers call.slot).workerType ≠ .none ∧ ∀ d ∈ s.owner call.slot, ∀ other ∈ s.calls[d]?, other.live = false
  | _ => True

/-- Only records in use are marked as crashed. -/
def Unmarked (s : WorkerStartup.State n) : Prop := ∀ i, (s.workers i).workerType = .none → (s.workers i).crashedAt = 0

section Startup

variable {s next : WorkerStartup.State n} {event : WorkerStartup.Event n}

theorem MarksChecked.marksDead (checked : MarksChecked s event) : MarksDead s event := by
  unfold MarksDead
  split
  · exact fun call found saw => (checked call found saw).2
  · trivial

theorem unmarked_cleaned {i : Fin n} (unmarked : Unmarked s) : Unmarked (s.setWorker i (s.workers i).cleaned) := by
  intro j none
  by_cases same : j = i
  · subst same
    simp only [WorkerStartup.State.setWorker, Function.update_self, PGLogicalWorker.cleaned] at none ⊢
    split
    · rfl
    · next uncrashed => simpa using uncrashed
  · simp only [WorkerStartup.State.setWorker, Function.update_of_ne same] at none ⊢
    exact unmarked j none

/-- Who writes a record finds it in use. -/
theorem unmarked_acts {c : ℕ} {call : WorkerStartup.Call n} {w : PGLogicalWorker} {pc : WorkerStartup.CallPc}
    {process : WorkerStartup.Process} {holder : Option ℕ} (acts : Acts s c call event w pc process holder)
    (unmarked : Unmarked s) (possessed : Possessed s) (checked : MarksChecked s event)
    (found : s.calls[c]? = some call) (none : w.workerType = .none) : w.crashedAt = 0 := by
  have taken : call.live = true → (s.workers call.slot).workerType ≠ .none ∧ (s.workers call.slot).crashedAt = 0 := by
    intro live
    simpa [PGLogicalWorker.free] using (possessed _ _ found live).2
  cases acts with
  | setGeneration => rfl
  | refused at_ =>
    exact absurd none (taken (by simp [WorkerStartup.Call.live, at_, WorkerStartup.CallPc.asking])).1
  | setCrashedAt at_ => exact absurd none (checked call found at_).1
  | attach => exact unmarked _ none
  | @detach crash now attached =>
    have used := taken (by simp [WorkerStartup.Call.live, attached, WorkerStartup.Process.alive])
    cases crash with
    | true => exact absurd none used.1
    | false => exact used.2
  | _ => exact unmarked _ none

theorem unmarked_step (unmarked : Unmarked s) (possessed : Possessed s) (checked : MarksChecked s event)
    (stepped : WorkerStartup.step s event = some next) : Unmarked next := by
  rcases WorkerStartup.step_cases stepped with ⟨key, i, rfl, -, -, rfl⟩ | ⟨i, rfl, -, rfl⟩ |
    ⟨c, call, w, pc, process, holder, found, acts, rfl⟩
  · intro j none
    by_cases same : j = i
    · subst same
      simp only [WorkerStartup.State.registered, Function.update_self] at none
      exact absurd none key.workerType_worker
    · simp only [WorkerStartup.State.registered, Function.update_of_ne same] at none ⊢
      exact unmarked j none
  · exact unmarked_cleaned unmarked
  · intro j none
    by_cases same : j = call.slot
    · subst same
      simp only [WorkerStartup.State.act, Function.update_self] at none ⊢
      exact unmarked_acts acts unmarked possessed checked found none
    · simp only [WorkerStartup.State.act, Function.update_of_ne same] at none ⊢
      exact unmarked j none

/-- What a record is for changes only when the slot is registered, or when it goes out of use. -/
def Keeps (before after : PGLogicalWorker) : Prop :=
  after.subid = before.subid ∧
    (after.workerType ≠ .none → after.workerType = before.workerType ∧ after.dboid = before.dboid)

theorem keeps_cleaned (w : PGLogicalWorker) : Keeps w w.cleaned := by
  unfold PGLogicalWorker.cleaned
  split
  · exact ⟨rfl, fun used => absurd rfl used⟩
  · exact ⟨rfl, fun _ => ⟨rfl, rfl⟩⟩

theorem keeps_acts {c : ℕ} {call : WorkerStartup.Call n} {w : PGLogicalWorker} {pc : WorkerStartup.CallPc}
    {process : WorkerStartup.Process} {holder : Option ℕ} (acts : Acts s c call event w pc process holder) :
    Keeps (s.workers call.slot) w := by
  cases acts with
  | @detach crash =>
    cases crash with
    | true => exact ⟨rfl, fun _ => ⟨rfl, rfl⟩⟩
    | false => exact ⟨rfl, fun used => absurd rfl used⟩
  | _ => exact ⟨rfl, fun _ => ⟨rfl, rfl⟩⟩

theorem keeps_step (stepped : WorkerStartup.step s event = some next) {i : Fin n}
    (kept : ∀ key, event = .register key → findEmptyWorkerSlot s.workers ≠ some i) :
    Keeps (s.workers i) (next.workers i) := by
  have same : Keeps (s.workers i) (s.workers i) := ⟨rfl, fun _ => ⟨rfl, rfl⟩⟩
  rcases WorkerStartup.step_cases stepped with ⟨key, j, rfl, -, found, rfl⟩ | ⟨j, rfl, -, rfl⟩ |
    ⟨c, call, w, pc, process, holder, -, acts, rfl⟩
  · have other : i ≠ j := fun equal => kept key rfl (equal ▸ found)
    simpa only [WorkerStartup.State.registered, Function.update_of_ne other] using same
  · by_cases equal : i = j
    · subst equal
      simpa only [WorkerStartup.State.setWorker, Function.update_self] using keeps_cleaned _
    · simpa only [WorkerStartup.State.setWorker, Function.update_of_ne equal] using same
  · by_cases equal : i = call.slot
    · subst equal
      simpa only [WorkerStartup.State.act, Function.update_self] using keeps_acts acts
    · simpa only [WorkerStartup.State.act, Function.update_of_ne equal] using same

end Startup

/-! ## The list of the pass -/

def Progress.list : Progress n → List (Fin n)
  | .idle => []
  | .listed workers => workers
  | .checking _ _ pass => pass.workers

/-- No slot that is still in the list is registered again, no enabled subscription has two records in
it, and crashed workers are marked as they should be. -/
def Undisturbed (s : State n) : Event n → Prop
  | .startup event => MarksChecked s.startup event ∧
      ∀ key, event = .register key → ∀ i ∈ findEmptyWorkerSlot s.startup.workers, i ∉ s.progress.list
  | .getNodeSubscriptions subscriptions => ∀ sub ∈ subscriptions.rows, sub.enabled = true →
      ∀ i ∈ s.progress.list, ∀ j ∈ s.progress.list, (s.startup.workers i).subid = sub.id →
        (s.startup.workers j).subid = sub.id → i = j
  | _ => True

/-- A record in use that belongs to an apply worker of the database. -/
def Mine (dboid : Oid) (w : PGLogicalWorker) : Prop := w.workerType = .apply ∧ w.dboid = dboid

/-- The subscription of the record is disabled or gone. -/
def Unwanted (subscriptions : Subscriptions) (w : PGLogicalWorker) : Prop :=
  ∀ sub ∈ subscriptions.rows, sub.id = w.subid → sub.enabled = false

/-- What the final loop signals and cleans are apply workers of the database that should not run. -/
def KillsUnwanted (dboid : Oid) (s : State n) : Event n → Prop
  | .kill => ∀ subscriptions pass, s.progress = .checking subscriptions [] pass → ∀ i,
      i ∈ (killWorkers s.startup.workers pass.workers).1 ∨
        (killWorkers s.startup.workers pass.workers).2 i ≠ s.startup.workers i →
      Mine dboid (s.startup.workers i) ∧ Unwanted subscriptions (s.startup.workers i)
  | _ => True

/-- Every record in the list is the database's own; one that belongs to an enabled subscription is the
only one, and is still to be checked. -/
def Tracks (dboid : Oid) (s : State n) : Prop :=
  s.progress.list.Nodup ∧
  (∀ i ∈ s.progress.list, (s.startup.workers i).workerType ≠ .none → Mine dboid (s.startup.workers i)) ∧
  match s.progress with
  | .checking subscriptions unchecked pass =>
      (∀ sub ∈ subscriptions.rows, sub.enabled = true →
        sub ∈ unchecked ∨ ∀ i ∈ pass.workers, (s.startup.workers i).subid ≠ sub.id) ∧
      ∀ sub ∈ subscriptions.rows, sub.enabled = true → ∀ i ∈ pass.workers, ∀ j ∈ pass.workers,
        (s.startup.workers i).subid = sub.id → (s.startup.workers j).subid = sub.id → i = j
  | _ => True

structure Inv (dboid : Oid) (s : State n) : Prop where
  base : Base s.startup
  possessed : Possessed s.startup
  unmarked : Unmarked s.startup
  tracks : Tracks dboid s

theorem inv_init (dboid : Oid) : Inv dboid (init n) where
  base := .init
  possessed := WorkerStartup.init_possessed
  unmarked _ _ := rfl
  tracks := ⟨.nil, nofun, trivial⟩

section Step

variable {dboid : Oid} {s next : State n} {event : Event n}

/-- The pass does not notice what happens to records that keep what they are for. -/
theorem Tracks.keep (tracks : Tracks dboid s) {startup : WorkerStartup.State n}
    (keeps : ∀ i ∈ s.progress.list, Keeps (s.startup.workers i) (startup.workers i)) :
    Tracks dboid { s with startup := startup } := by
  obtain ⟨nodup, mine, checks⟩ := tracks
  refine ⟨nodup, fun i inside used => ?_, ?_⟩
  · obtain ⟨-, same⟩ := keeps i inside
    obtain ⟨type, database⟩ := same used
    have before := mine i inside (type ▸ used)
    exact ⟨type.trans before.1, database.trans before.2⟩
  · cases progress : s.progress with
    | idle => trivial
    | listed workers => trivial
    | checking subscriptions unchecked pass =>
      simp only [progress] at checks keeps ⊢
      have subid : ∀ i ∈ pass.workers, (startup.workers i).subid = (s.startup.workers i).subid := fun i inside =>
        (keeps i inside).1
      refine ⟨fun sub inside enabled => (checks.1 sub inside enabled).imp_right fun other i listed => ?_,
        fun sub inside enabled i one j two first second => ?_⟩
      · rw [subid i listed]
        exact other i listed
      · rw [subid i one] at first
        rw [subid j two] at second
        exact checks.2 sub inside enabled i one j two first second

/-- Checking a subscription takes its record from the list. -/
theorem checkSubscription_workers {workers : Workers n} {now : TimestampTz} {pass : Pass n}
    {sub : PGLogicalSubscription} :
    (checkSubscription workers now pass sub).workers =
      if sub.enabled = true then pass.workers.eraseP fun i => decide ((workers i).subid = sub.id)
      else pass.workers := by
  cases enabled : sub.enabled with
  | false => simp [checkSubscription, enabled]
  | true =>
    simp only [checkSubscription, enabled, not_true_eq_false, if_false, if_true]
    split <;> exact searchWorkers_snd ..

/-- The only record of a subscription is not in the list after the search. -/
theorem subid_of_mem_eraseP {workers : Workers n} {list : List (Fin n)} {id : Oid} (nodup : list.Nodup)
    (single : ∀ i ∈ list, ∀ j ∈ list, (workers i).subid = id → (workers j).subid = id → i = j) {i : Fin n}
    (inside : i ∈ list.eraseP fun i => decide ((workers i).subid = id)) : (workers i).subid ≠ id := by
  intro named
  rw [eraseP_eq_filter_find? nodup, List.mem_filter, decide_eq_true_iff] at inside
  obtain ⟨listed, kept⟩ := inside
  cases first : list.find? fun i => decide ((workers i).subid = id) with
  | none => exact List.find?_eq_none.mp first i listed (by simpa using named)
  | some j =>
    have other : (workers j).subid = id := by simpa using List.find?_some first
    exact kept (by rw [first, single j (List.mem_of_find?_eq_some first) i listed other named])

theorem Tracks.check {subscriptions : Subscriptions} {sub : PGLogicalSubscription}
    {rest : List PGLogicalSubscription} {pass : Pass n} (tracks : Tracks dboid s)
    (progress : s.progress = .checking subscriptions (sub :: rest) pass) (now : TimestampTz) :
    Tracks dboid ⟨s.startup, .checking subscriptions rest (checkSubscription s.startup.workers now pass sub)⟩ := by
  obtain ⟨nodup, mine, checks⟩ := tracks
  rw [progress] at nodup mine checks
  have within : (checkSubscription s.startup.workers now pass sub).workers.Sublist pass.workers := by
    rw [checkSubscription_workers]
    split
    · exact List.eraseP_sublist
    · exact List.Sublist.refl _
  refine ⟨nodup.sublist within, fun i inside => mine i (within.subset inside), fun other inside enabled => ?_,
    fun other inside enabled i one j two => checks.2 other inside enabled i (within.subset one) j (within.subset two)⟩
  rcases checks.1 other inside enabled with unchecked | gone
  · rcases List.mem_cons.mp unchecked with rfl | later
    · refine .inr fun i listed => ?_
      rw [checkSubscription_workers, if_pos enabled] at listed
      exact subid_of_mem_eraseP nodup (checks.2 other inside enabled) listed
    · exact .inl later
  · exact .inr fun i listed => gone i (within.subset listed)

theorem inv_step (inv : Inv dboid s) (undisturbed : Undisturbed s event) (stepped : step dboid s event = some next) :
    Inv dboid next := by
  cases event with
  | startup event =>
    obtain ⟨startup, taken, rfl⟩ := Option.map_eq_some_iff.mp stepped
    obtain ⟨checked, kept⟩ := undisturbed
    refine ⟨inv.base.step taken, inv.possessed.step inv.base checked.marksDead taken,
      unmarked_step inv.unmarked inv.possessed checked taken, inv.tracks.keep fun i inside => ?_⟩
    exact keeps_step taken fun key same found => kept key same i found inside
  | findAll =>
    simp only [step] at stepped
    split at stepped
    · split at stepped
      · cases stepped
      · cases stepped
        refine ⟨inv.base, inv.possessed, inv.unmarked, nodup_pglogicalApplyFindAll, fun i inside _ => ?_, trivial⟩
        have found := (List.mem_filter.mp inside).2
        rw [decide_eq_true_iff] at found
        exact ⟨found.1, found.2.symm⟩
    · cases stepped
  | getNodeSubscriptions subscriptions =>
    simp only [step] at stepped
    split at stepped
    · next workers progress =>
      cases stepped
      obtain ⟨nodup, mine, -⟩ := inv.tracks
      simp only [Undisturbed, progress] at undisturbed nodup mine
      exact ⟨inv.base, inv.possessed, inv.unmarked, nodup, mine, fun sub inside _ => .inl inside, undisturbed⟩
    · cases stepped
  | check now =>
    simp only [step] at stepped
    split at stepped
    · next subscriptions sub rest pass progress =>
      cases stepped
      exact ⟨inv.base, inv.possessed, inv.unmarked, inv.tracks.check progress now⟩
    · cases stepped
  | kill =>
    simp only [step] at stepped
    split at stepped
    · split at stepped
      · cases stepped
      · cases stepped
        exact ⟨killWorkers_invariant (fun _ _ base => base.setWorker_cleaned) _ _ inv.base,
          killWorkers_invariant (fun _ _ possessed => possessed.setWorker_cleaned) _ _ inv.possessed,
          killWorkers_invariant (fun _ _ unmarked => unmarked_cleaned unmarked) _ _ inv.unmarked,
          .nil, nofun, trivial⟩
    · cases stepped

theorem Inv.killsUnwanted (inv : Inv dboid s) : KillsUnwanted dboid s event := by
  cases event with
  | kill =>
    intro subscriptions pass progress i touched
    obtain ⟨-, mine, checks⟩ := inv.tracks
    rw [progress] at mine checks
    have inside : i ∈ pass.workers ∧ (s.startup.workers i).workerType ≠ .none := by
      rcases touched with killed | cleaned
      · obtain ⟨inside, running⟩ := mem_killWorkers killed
        obtain ⟨pid, set⟩ := Option.ne_none_iff_exists'.mp running
        exact ⟨inside, (inv.possessed.slotKept inv.base i pid set).1⟩
      · obtain ⟨inside, crashed⟩ := crashed_of_killWorkers cleaned
        exact ⟨inside, fun none => crashed (inv.unmarked i none)⟩
    refine ⟨mine i inside.1 inside.2, fun sub listed named => ?_⟩
    by_contra enabled
    rcases checks.1 sub listed (by simpa using enabled) with unchecked | gone
    · cases unchecked
    · exact gone i inside.1 named.symm
  | _ => trivial

end Step

/-- In every run in which no slot in the list of a pass is registered again, no enabled subscription
has two records and crashed workers are marked as they should be, the final loop signals and cleans
only what should not run. -/
theorem kills_only_unwanted (dboid : Oid) (events : List (Event n))
    (undisturbed : Permitted (step dboid) Undisturbed (init n) events) :
    Permitted (step dboid) (KillsUnwanted dboid) (init n) events :=
  undisturbed.of_invariant inv_step (fun inv _ => inv.killsUnwanted) (inv_init dboid)

instance MarksChecked.decidable (s : WorkerStartup.State n) : ∀ event, Decidable (MarksChecked s event)
  | .call c (.setCrashedAt _) => inferInstanceAs (Decidable (∀ call ∈ s.calls[c]?, call.pc = .sawCrashedAt →
      (s.workers call.slot).workerType ≠ .none ∧ ∀ d ∈ s.owner call.slot, ∀ other ∈ s.calls[d]?, other.live = false))
  | .call _ .setGeneration | .call _ (.registerDynamicBackgroundWorker _ _) | .call _ .readGenerationFirst
  | .call _ .interrupt | .call _ .getBackgroundWorkerPid | .call _ .readProc | .call _ .readWorkerType
  | .call _ .readGeneration | .call _ .readCrashedAt | .register _ | .process _ _ | .cleanup _ => isTrue trivial

instance Undisturbed.decidable (s : State n) : ∀ event, Decidable (Undisturbed s event)
  | .startup (.register key) => decidable_of_iff
      (∀ i ∈ findEmptyWorkerSlot s.startup.workers, i ∉ s.progress.list)
      ⟨fun kept => ⟨trivial, fun _ _ => kept⟩, fun both => both.2 key rfl⟩
  | .startup (.call c event) => decidable_of_iff (MarksChecked s.startup (.call c event))
      ⟨fun marks => ⟨marks, nofun⟩, And.left⟩
  | .startup (.process _ _) | .startup (.cleanup _) => isTrue ⟨trivial, nofun⟩
  | .getNodeSubscriptions subscriptions => inferInstanceAs (Decidable (∀ sub ∈ subscriptions.rows,
      sub.enabled = true → ∀ i ∈ s.progress.list, ∀ j ∈ s.progress.list,
        (s.startup.workers i).subid = sub.id → (s.startup.workers j).subid = sub.id → i = j))
  | .findAll | .check _ | .kill => isTrue trivial

/-- A worker is registered, its process attaches, and its registrant returns. -/
def startWorker (c : ℕ) (key : WorkerKey) : List (Event n) :=
  (WorkerStartup.launch c key ++ WorkerStartup.attachAndReturn c).map .startup

/-- The first subscription is enabled, the second one is not. -/
def oneDisabled : Subscriptions := ⟨[⟨7, true⟩, ⟨8, false⟩], by decide⟩

/-- A pass up to its final loop. -/
def checkAll (now : TimestampTz) : List (Event n) :=
  [.findAll, .getNodeSubscriptions oneDisabled, .check now, .check now]

/-- The worker of the disabled subscription has crashed. The pass starts the worker of the enabled one,
which gets the slot of the crash, and so is in the list of the same pass and killed at its end. -/
theorem kills_worker_of_enabled_subscription :
    ∃ s : State 1, run (step 5) (init 1) (startWorker 0 (.apply 5 8) ++ [.startup (.process 0 (.detach true 30)),
        .startup (.process 0 .exit)] ++ checkAll 6000000 ++ startWorker 1 (.apply 5 7)) = some s ∧
      (step 5 s .kill).isSome = true ∧ ¬ KillsUnwanted 5 s .kill := by
  refine ⟨_, rfl, rfl, fun unwanted => ?_⟩
  have disabled := (unwanted oneDisabled _ rfl 0 (.inl (by decide))).2 ⟨7, true⟩ (by decide) rfl
  cases disabled

/-- The worker of the disabled subscription is running. -/
def disabledRunning : List (Event 2) := startWorker 0 (.apply 5 8) ++ checkAll 40

theorem kills_only_disabled_worker :
    ∃ s : State 2, run (step 5) (init 2) disabledRunning = some s ∧
      0 ∈ (killWorkers s.startup.workers s.progress.list).1 ∧
      Permitted (step 5) (KillsUnwanted 5) (init 2) (disabledRunning ++ [.kill]) :=
  ⟨_, rfl, by decide, kills_only_unwanted 5 _ (by decide +kernel)⟩

end PGLogical.ManagerPass
