import PGLogical.Model.Manager
import PGLogical.Model.WorkerStartup

/-! # A management pass among other processes

The manager takes its list of records under the lock, checks the subscriptions without the lock,
reading the records as they then are, and goes through the rest of the list under the lock again.
In between, all that can happen to workers happens; the registrations of the pass itself are among
the registrations of the other machine.
-/

namespace PGLogical.ManagerPass

inductive Progress (n : ℕ) where
  | idle
  | listed (workers : List (Fin n))
  | checking (subscriptions : Subscriptions) (unchecked : List PGLogicalSubscription) (pass : Pass n)

structure State (n : ℕ) where
  startup : WorkerStartup.State n
  progress : Progress n

inductive Event (n : ℕ) where
  | startup (event : WorkerStartup.Event n)
  | findAll
  | getNodeSubscriptions (subscriptions : Subscriptions)
  | check (now : TimestampTz)
  /-- The final loop. -/
  | kill

variable {n : ℕ}

def step (dboid : Oid) (s : State n) : Event n → Option (State n)
  | .startup event => (WorkerStartup.step s.startup event).map fun next => { s with startup := next }
  | .findAll =>
      match s.progress with
      | .idle =>
        if s.startup.holder.isSome then none
        else some { s with progress := .listed (pglogicalApplyFindAll s.startup.workers dboid) }
      | _ => none
  | .getNodeSubscriptions subscriptions =>
      match s.progress with
      | .listed workers => some { s with progress := .checking subscriptions subscriptions.rows ⟨workers, [], true⟩ }
      | _ => none
  | .check now =>
      match s.progress with
      | .checking subscriptions (sub :: rest) pass =>
        some { s with progress := .checking subscriptions rest (checkSubscription s.startup.workers now pass sub) }
      | _ => none
  | .kill =>
      match s.progress with
      | .checking _ [] pass =>
        if s.startup.holder.isSome then none
        else some ⟨{ s.startup with workers := (killWorkers s.startup.workers pass.workers).2 }, .idle⟩
      | _ => none

def init (n : ℕ) : State n := ⟨WorkerStartup.init n, .idle⟩

end PGLogical.ManagerPass
