import PGLogical.Model.Worker

/-! # Signalling workers at commit

A change of a subscription registers a callback for the end of the transaction, unless a flag says
that one is registered. Callbacks are never unregistered: each runs at the end of every later
transaction of the backend, the newest first. Its argument lies in the memory of the
transaction that registered it; after that transaction its content is whatever the memory is used for.
Subtransactions and prepared transactions are left out.
-/

namespace PGLogical.XactSignal

/-- A subscription id in the memory of a transaction. -/
structure Arg where
  txn : ℕ
  subid : Oid
deriving DecidableEq

structure State where
  xacthookSignalWorkers : Bool
  /-- The arguments of the registered callbacks, newest first. -/
  callbacks : List (Option Arg)
  /-- The number of the current transaction. -/
  txn : ℕ
  /-- The ids passed by the calls of the current transaction. -/
  changed : List Oid

inductive Signal where
  /-- SIGTERM to an apply worker. -/
  | kill (pid : ℕ)
  | subscriptionsChanged
  /-- Wakes the manager or the supervisor. -/
  | setLatch (pid : ℕ)
deriving DecidableEq

/-- Shared memory at the end of a transaction, and what freed memory contains. -/
structure Shared (n : ℕ) where
  workers : Workers n
  supervisor : Option ℕ
  freed : Arg → Oid

inductive XactEvent where
  | commit
  | abort
deriving DecidableEq

inductive Event (n : ℕ) where
  | subscriptionChanged (subid : Oid)
  | finish (event : XactEvent) (shared : Shared n)

variable {n : ℕ}

def Arg.read (arg : Arg) (shared : Shared n) (txn : ℕ) : Oid := if arg.txn = txn then arg.subid else shared.freed arg

def pglogicalWorkerKill (workers : Workers n) (worker : Option (Fin n)) : List Signal :=
  (worker.bind fun i => (workers i).proc).toList.map .kill

/-- Who is woken: the manager if it is running, else the supervisor. -/
def wakeTarget (dboid : Oid) (shared : Shared n) : Option ℕ :=
  ((pglogicalManagerFind shared.workers dboid).bind fun i => (shared.workers i).proc).or shared.supervisor

/-- The flag after the callback, and what it signals. -/
def signalWorkerXactCallback (dboid : Oid) (event : XactEvent) (shared : Shared n) (txn : ℕ)
    (xacthookSignalWorkers : Bool) (arg : Option Arg) : Bool × List Signal :=
  match event with
  | .commit =>
    if xacthookSignalWorkers then
      (false, (match arg with
        | some arg => pglogicalWorkerKill shared.workers
            (pglogicalApplyFind shared.workers dboid (arg.read shared txn))
        | none => []) ++ .subscriptionsChanged :: (wakeTarget dboid shared).toList.map .setLatch)
    else (false, [])
  | .abort => (xacthookSignalWorkers, [])

def callXactCallbacks (dboid : Oid) (event : XactEvent) (shared : Shared n) (txn : ℕ) :
    Bool → List (Option Arg) → Bool × List Signal
  | flag, [] => (flag, [])
  | flag, arg :: rest =>
    let first := signalWorkerXactCallback dboid event shared txn flag arg
    let others := callXactCallbacks dboid event shared txn first.1 rest
    (others.1, first.2 ++ others.2)

def pglogicalSubscriptionChanged (s : State) (subid : Oid) : State :=
  if s.xacthookSignalWorkers then { s with changed := s.changed ++ [subid] }
  else { s with
    callbacks := (if subid ≠ invalidOid then some ⟨s.txn, subid⟩ else none) :: s.callbacks
    xacthookSignalWorkers := true
    changed := s.changed ++ [subid] }

/-- What the end of the current transaction signals. -/
def signals (dboid : Oid) (s : State) (event : XactEvent) (shared : Shared n) : List Signal :=
  (callXactCallbacks dboid event shared s.txn s.xacthookSignalWorkers s.callbacks).2

def step (dboid : Oid) (s : State) : Event n → Option State
  | .subscriptionChanged subid => some (pglogicalSubscriptionChanged s subid)
  | .finish event shared => some
      { s with
        xacthookSignalWorkers := (callXactCallbacks dboid event shared s.txn s.xacthookSignalWorkers s.callbacks).1
        txn := s.txn + 1
        changed := [] }

def init : State := ⟨false, [], 0, []⟩

end PGLogical.XactSignal
