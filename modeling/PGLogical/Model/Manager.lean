import PGLogical.Model.Worker
import Mathlib.Logic.Function.Basic

/-! # Managing the apply workers of a database

`manage_apply_workers` takes a list of pointers to the records of the database's apply workers, goes
through the subscriptions and removes from the list the records that belong to enabled ones, registers
the workers that are missing, and kills what is still in the list. The variable that holds the
record found for a subscription is set in each iteration of the search, also in those that do not
find it. The exit without a local node is left out.
-/

namespace PGLogical

structure PGLogicalSubscription where
  id : Oid
  enabled : Bool
deriving DecidableEq

/-- The subscriptions of the local node; `sub_id` is the primary key of the table. -/
structure Subscriptions where
  rows : List PGLogicalSubscription
  unique : (rows.map (·.id)).Nodup

def minSleep : ℤ := 5000

def timestampTzPlusMilliseconds (timestamp : TimestampTz) (milliseconds : ℤ) : TimestampTz :=
  timestamp + milliseconds * 1000

variable {n : ℕ}

/-! ## Checking the subscriptions -/

/-- The state of a pass: the remaining list, the subscriptions to start and the return value. -/
structure Pass (n : ℕ) where
  workers : List (Fin n)
  subsToStart : List PGLogicalSubscription
  ret : Bool

/-- The search for the record of a subscription: the value of `apply` after it, and the list. -/
def searchWorkers (workers : Workers n) (id : Oid) : List (Fin n) → Option (Fin n) → Option (Fin n) × List (Fin n)
  | [], apply => (apply, [])
  | wlc :: next, _ =>
      if (workers wlc).subid = id then (some wlc, next)
      else ((searchWorkers workers id next (some wlc)).1, wlc :: (searchWorkers workers id next (some wlc)).2)

inductive SubscriptionCheck where
  | running
  /-- Starting, or crashed a short time ago. -/
  | later
  | start
deriving DecidableEq

def checkApply (workers : Workers n) (now : TimestampTz) (apply : Option (Fin n)) : SubscriptionCheck :=
  if pglogicalWorkerRunning workers apply then .running
  else match apply with
    | none => .start
    | some worker =>
      if (workers worker).crashedAt ≠ 0 then
        if timestampTzPlusMilliseconds (workers worker).crashedAt minSleep > now then .later else .start
      else .later

/-- One iteration of the loop over the subscriptions. -/
def checkSubscription (workers : Workers n) (now : TimestampTz) (pass : Pass n) (sub : PGLogicalSubscription) :
    Pass n :=
  if ¬ sub.enabled then pass
  else
    let search := searchWorkers workers sub.id pass.workers none
    match checkApply workers now search.1 with
    | .running => { pass with workers := search.2 }
    | .later => { pass with workers := search.2, ret := false }
    | .start => { pass with workers := search.2, subsToStart := pass.subsToStart ++ [sub] }

/-! ## Registering and killing -/

/-- What becomes of a worker between its registration and the end of `wait_for_worker_startup`. -/
inductive Launch where
  | refused
  | attached (pid : ℕ)
  | detached
  /-- Crashed, or exited before it attached. -/
  | crashed (now : TimestampTz)

/-- `pglogical_worker_register` without the steps that other processes can see. -/
def pglogicalWorkerRegister (workers : Workers n) (key : WorkerKey) (launch : Launch) : Except String (Workers n) :=
  match findEmptyWorkerSlot workers with
  | none => .error "could not register pglogical worker: all background worker slots are already used"
  | some slot =>
    let worker := key.worker.numbered (nextGeneration (workers slot).generation)
    match launch with
    | .refused =>
        .error "worker registration failed, you might want to increase max_worker_processes setting"
    | .attached pid => .ok (Function.update workers slot (worker.attached pid))
    | .detached => .ok (Function.update workers slot (worker.detached false 0))
    | .crashed now => .ok (Function.update workers slot (worker.detached true now))

/-- The loop that registers the workers. -/
def startWorkers (dboid : Oid) (launches : Oid → Launch) :
    Workers n → List PGLogicalSubscription → Except String (Workers n)
  | workers, [] => .ok workers
  | workers, sub :: rest =>
    match pglogicalWorkerRegister workers (.apply dboid sub.id) (launches sub.id) with
    | .error message => .error message
    | .ok registered => startWorkers dboid launches registered rest

/-- The final loop: the slots whose processes get SIGTERM, and the records that remain. -/
def killWorkers : Workers n → List (Fin n) → List (Fin n) × Workers n
  | workers, [] => ([], workers)
  | workers, worker :: rest =>
    let cleaned := Function.update workers worker (workers worker).cleaned
    if pglogicalWorkerRunning workers (some worker) then
      (worker :: (killWorkers cleaned rest).1, (killWorkers cleaned rest).2)
    else killWorkers cleaned rest

structure PassResult (n : ℕ) where
  ret : Bool
  registered : List Oid
  killed : List (Fin n)
  workers : Workers n

/-- One pass, with nobody else writing the records. -/
def manageApplyWorkers (workers : Workers n) (dboid : Oid) (subscriptions : Subscriptions) (now : TimestampTz)
    (launches : Oid → Launch) : Except String (PassResult n) :=
  let pass := subscriptions.rows.foldl (checkSubscription workers now)
    ⟨pglogicalApplyFindAll workers dboid, [], true⟩
  match startWorkers dboid launches workers pass.subsToStart with
  | .error message => .error message
  | .ok started =>
    let killed := killWorkers started pass.workers
    .ok ⟨pass.ret, pass.subsToStart.map (·.id), killed.1, killed.2⟩

end PGLogical
