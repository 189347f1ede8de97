import PGLogical.Machine.Run
import PGLogical.Model.XactSignal

/-! # Which workers a commit signals

The callback of the first change in a transaction is the newest at its commit, runs first, and clears
the flag for all older ones. So it alone decides what is signalled, and it knows only the first of
the changed subscriptions. A transaction that aborts leaves the flag set for the next commit.
-/

namespace PGLogical.XactSignal

open Machine

variable {n : ℕ}

/-- The process of the apply worker of a subscription. -/
def applyPid (dboid : Oid) (workers : Workers n) (subid : Oid) : Option ℕ :=
  (pglogicalApplyFind workers dboid subid).bind fun i => (workers i).proc

/-- Exactly the apply workers of the changed subscriptions get a signal, the manager or the supervisor
is woken if and only if something was changed, and an abort signals nobody. -/
def SignalsChanged (dboid : Oid) (s : State) : Event n → Prop
  | .finish .commit shared =>
      (∀ pid, .kill pid ∈ signals dboid s .commit shared ↔
        ∃ subid ∈ s.changed, subid ≠ invalidOid ∧ applyPid dboid shared.workers subid = some pid) ∧
      ∀ pid, .setLatch pid ∈ signals dboid s .commit shared ↔ s.changed ≠ [] ∧ wakeTarget dboid shared = some pid
  | .finish .abort shared => signals dboid s .abort shared = []
  | .subscriptionChanged _ => True

/-- A transaction that changes something commits, and of the subscriptions it changes only the first
one has a running apply worker. -/
def FirstOnly (dboid : Oid) (s : State) : Event n → Prop
  | .finish .commit shared => ∀ subid ∈ s.changed, subid ≠ invalidOid →
      s.changed.head? = some subid ∨ applyPid dboid shared.workers subid = none
  | .finish .abort _ => s.changed = []
  | .subscriptionChanged _ => True

/-- The flag is set if and only if the transaction has changed something, and then the newest callback
is for its first change. -/
structure Inv (s : State) : Prop where
  flag : s.xacthookSignalWorkers = true ↔ s.changed ≠ []
  newest : ∀ subid, s.changed.head? = some subid →
    s.callbacks.head? = some (if subid ≠ invalidOid then some ⟨s.txn, subid⟩ else none)

theorem inv_init : Inv init := ⟨by simp [init], by simp [init]⟩

section Step

variable {dboid : Oid} {s next : State} {event : Event n} {shared : Shared n}

theorem callXactCallbacks_unset (event : XactEvent) (txn : ℕ) (callbacks : List (Option Arg)) :
    callXactCallbacks dboid event shared txn false callbacks = (false, []) := by
  induction callbacks with
  | nil => rfl
  | cons arg rest ih => cases event <;> simp [callXactCallbacks, signalWorkerXactCallback, ih]

theorem callXactCallbacks_abort (txn : ℕ) (flag : Bool) (callbacks : List (Option Arg)) :
    callXactCallbacks dboid .abort shared txn flag callbacks = (flag, []) := by
  induction callbacks with
  | nil => rfl
  | cons arg rest ih => simp [callXactCallbacks, signalWorkerXactCallback, ih]

/-- Only the newest callback signals. -/
theorem callXactCallbacks_commit (txn : ℕ) (arg : Option Arg) (rest : List (Option Arg)) :
    callXactCallbacks dboid .commit shared txn true (arg :: rest) =
      signalWorkerXactCallback dboid .commit shared txn true arg := by
  simp [callXactCallbacks, signalWorkerXactCallback, callXactCallbacks_unset]

theorem inv_changed (inv : Inv s) (subid : Oid) : Inv (pglogicalSubscriptionChanged s subid) := by
  unfold pglogicalSubscriptionChanged
  split
  · next set =>
    have before := inv.flag.mp set
    refine ⟨by simpa using set, fun first head => ?_⟩
    rw [List.head?_append_of_ne_nil _ before] at head
    exact inv.newest first head
  · next unset =>
    have none : s.changed = [] := by
      by_contra some
      exact unset (inv.flag.mpr some)
    refine ⟨by simp, fun first head => ?_⟩
    simp only [none, List.nil_append, List.head?_cons, Option.some.injEq] at head
    subst head
    rfl

/-- After the newest callback the flag is clear. -/
theorem commit_flag (inv : Inv s) :
    (callXactCallbacks dboid .commit shared s.txn s.xacthookSignalWorkers s.callbacks).1 = false := by
  cases flag : s.xacthookSignalWorkers with
  | false => rw [callXactCallbacks_unset]
  | true =>
    obtain ⟨first, head⟩ := Option.ne_none_iff_exists'.mp (mt List.head?_eq_none_iff.mp (inv.flag.mp flag))
    obtain ⟨rest, callbacks⟩ := List.head?_eq_some_iff.mp (inv.newest first head)
    rw [callbacks, callXactCallbacks_commit]
    rfl

theorem inv_step (inv : Inv s) (first : FirstOnly dboid s event) (stepped : step dboid s event = some next) :
    Inv next := by
  cases event with
  | subscriptionChanged subid =>
    cases stepped
    exact inv_changed inv subid
  | finish event shared =>
    cases stepped
    cases event with
    | commit => exact ⟨by simp [commit_flag inv], nofun⟩
    | abort =>
      have unset : s.xacthookSignalWorkers = false := by
        by_contra set
        exact inv.flag.mp (by simpa using set) first
      exact ⟨by simp [callXactCallbacks_abort, unset], nofun⟩

theorem kill_mem_callback {txn pid : ℕ} {arg : Option Arg} :
    .kill pid ∈ (signalWorkerXactCallback dboid .commit shared txn true arg).2 ↔
      ∃ cell ∈ arg, applyPid dboid shared.workers (cell.read shared txn) = some pid := by
  cases arg <;> simp [signalWorkerXactCallback, pglogicalWorkerKill, applyPid]

theorem setLatch_mem_callback {txn pid : ℕ} {arg : Option Arg} :
    .setLatch pid ∈ (signalWorkerXactCallback dboid .commit shared txn true arg).2 ↔
      wakeTarget dboid shared = some pid := by
  cases arg <;> simp [signalWorkerXactCallback, pglogicalWorkerKill]

/-- The commit of a transaction that has changed something signals for its first change. -/
theorem Inv.signals_commit (inv : Inv s) {first : Oid} (head : s.changed.head? = some first) :
    signals dboid s .commit shared = (signalWorkerXactCallback dboid .commit shared s.txn true
      (if first ≠ invalidOid then some ⟨s.txn, first⟩ else none)).2 := by
  obtain ⟨rest, callbacks⟩ := List.head?_eq_some_iff.mp (inv.newest first head)
  have set : s.xacthookSignalWorkers = true := by
    rw [inv.flag]
    rintro none
    rw [none] at head
    cases head
  rw [signals, set, callbacks, callXactCallbacks_commit]

theorem Inv.signalsChanged (inv : Inv s) (firstOnly : FirstOnly dboid s event) : SignalsChanged dboid s event := by
  cases event with
  | subscriptionChanged subid => trivial
  | finish event shared =>
    cases event with
    | abort => simp [SignalsChanged, signals, callXactCallbacks_abort]
    | commit =>
      cases head : s.changed.head? with
      | none =>
        have none := List.head?_eq_none_iff.mp head
        have unset : s.xacthookSignalWorkers = false := by
          by_contra set
          exact inv.flag.mp (by simpa using set) none
        simp [SignalsChanged, signals, unset, callXactCallbacks_unset, none]
      | some first =>
        have inside : first ∈ s.changed := List.mem_of_mem_head? head
        refine ⟨fun pid => ?_, fun pid => ?_⟩
        · rw [inv.signals_commit head, kill_mem_callback]
          constructor
          · rintro ⟨cell, found, same⟩
            by_cases valid : first ≠ invalidOid
            · rw [if_pos valid] at found
              cases found
              exact ⟨first, inside, valid, by simpa [Arg.read] using same⟩
            · rw [if_neg valid] at found
              cases found
          · rintro ⟨subid, changed, valid, same⟩
            rcases firstOnly subid changed valid with isFirst | idle
            · obtain rfl := Option.some.inj (head.symm.trans isFirst)
              exact ⟨⟨s.txn, first⟩, by rw [if_pos valid]; rfl, by simpa [Arg.read] using same⟩
            · rw [idle] at same
              cases same
        · rw [inv.signals_commit head, setLatch_mem_callback]
          exact (and_iff_right (List.ne_nil_of_mem inside)).symm

end Step

/-- In every sequence of transactions in which those that change something commit, and only the first
of the subscriptions that one changes has a running apply worker, exactly the right workers are
signalled. -/
theorem signals_changed_workers (dboid : Oid) (events : List (Event n))
    (first : Permitted (step dboid) (FirstOnly dboid) init events) :
    Permitted (step dboid) (SignalsChanged dboid) init events :=
  first.of_invariant inv_step Inv.signalsChanged inv_init

/-- Two apply workers are running, with the subscription ids 7 and 8. -/
def bothRunning : Shared 2 where
  workers
    | 0 => (WorkerKey.apply 5 7).worker.attached 1
    | 1 => (WorkerKey.apply 5 8).worker.attached 2
  supervisor := some 3
  freed := fun _ => 0

def twoChanges : List (Event 2) := [.subscriptionChanged 7, .subscriptionChanged 8]

/-- Both subscriptions are changed in one transaction; the second apply worker is not signalled. -/
theorem second_subscription_not_signalled :
    ∃ s, run (step 5) init twoChanges = some s ∧ ¬ SignalsChanged 5 s (.finish .commit bothRunning) := by
  refine ⟨_, rfl, fun exact_ => ?_⟩
  have signalled := (exact_.1 2).mpr ⟨8, by decide, by decide, by decide⟩
  revert signalled
  decide

instance FirstOnly.decidable (dboid : Oid) (s : State) : ∀ event : Event n, Decidable (FirstOnly dboid s event)
  | .finish .commit shared => List.decidableBAll (fun subid => subid ≠ invalidOid →
      s.changed.head? = some subid ∨ applyPid dboid shared.workers subid = none) s.changed
  | .finish .abort _ => inferInstanceAs (Decidable (s.changed = []))
  | .subscriptionChanged _ => isTrue trivial

/-- One subscription is changed twice, then a node, and later nothing. -/
def sampleTransactions : List (Event 2) :=
  [.subscriptionChanged 7, .subscriptionChanged 7, .finish .commit bothRunning, .subscriptionChanged 0,
    .finish .commit bothRunning, .finish .abort bothRunning, .finish .commit bothRunning]

theorem signals_changed_workers_sample :
    ∃ s, run (step 5) init (sampleTransactions.take 2) = some s ∧
      signals 5 s .commit bothRunning = [.kill 1, .subscriptionsChanged, .setLatch 3] ∧
      Permitted (step 5) (SignalsChanged 5) init sampleTransactions :=
  ⟨_, rfl, by decide, signals_changed_workers 5 _ (by decide)⟩

end PGLogical.XactSignal
