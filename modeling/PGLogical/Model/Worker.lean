import PGLogical.Model.Basic
import PGLogical.Model.Sync
import Mathlib.Data.Fin.Tuple.Basic

/-! # Worker slots in shared memory

Every worker has a record in an array of fixed size. A record says what the worker is for and
whether a process is attached; it outlives a worker that crashed until the slot is used again. The
loops over the array return the first record that fits. Fields that only the workers themselves
read (`sync_pending`, `replay_stop_lsn`) are left out.
-/

namespace PGLogical

open Wire (CString)

inductive PGLogicalWorkerType where
  /-- Unused slot. -/
  | none
  | manager
  | apply
  /-- Special type of apply that synchronizes one table. -/
  | sync
deriving DecidableEq

/-- Microseconds; zero means "never". -/
abbrev TimestampTz := ℤ

structure PGLogicalWorker where
  workerType : PGLogicalWorkerType
  /-- Incremented at each registration. -/
  generation : UInt16
  /-- The attached process. -/
  proc : Option ℕ
  /-- Time at which worker crashed (normally 0). -/
  crashedAt : TimestampTz
  dboid : Oid
  subid : Oid
  nspname : CString
  relname : CString
deriving DecidableEq

def emptyName : CString := ⟨[], by decide⟩

/-- An unused record, all zero. -/
def PGLogicalWorker.zero : PGLogicalWorker := ⟨.none, 0, Option.none, 0, invalidOid, invalidOid, emptyName, emptyName⟩

/-- `PGLogicalCtx->workers`. -/
abbrev Workers (n : ℕ) := Fin n → PGLogicalWorker

/-- What a worker is registered for: the three kinds of records that are passed to
`pglogical_worker_register`. -/
inductive WorkerKey where
  | manager (dboid : Oid)
  | apply (dboid subid : Oid)
  | sync (dboid subid : Oid) (nspname relname : CString)
deriving DecidableEq

def WorkerKey.worker : WorkerKey → PGLogicalWorker
  | .manager dboid => { PGLogicalWorker.zero with workerType := .manager, dboid := dboid }
  | .apply dboid subid => { PGLogicalWorker.zero with workerType := .apply, dboid := dboid, subid := subid }
  | .sync dboid subid nspname relname => { PGLogicalWorker.zero with
      workerType := .sync, dboid := dboid, subid := subid, nspname := nspname, relname := relname }

def WorkerKey.isSync : WorkerKey → Bool
  | .sync _ _ _ _ => true
  | _ => false

/-! ## Lookups -/

/-- A record that a registration may use. -/
def PGLogicalWorker.free (w : PGLogicalWorker) : Bool := decide (w.workerType = .none) || decide (w.crashedAt ≠ 0)

def findEmptyWorkerSlot {n : ℕ} (workers : Workers n) : Option (Fin n) := Fin.find? fun i => (workers i).free

/-- The comparison in the loop of the lookup for a key. -/
def PGLogicalWorker.isFor (w : PGLogicalWorker) : WorkerKey → Bool
  | .manager dboid => decide (w.workerType = .manager ∧ dboid = w.dboid)
  | .apply dboid subid => decide (w.workerType = .apply ∧ dboid = w.dboid ∧ subid = w.subid)
  | .sync dboid subid nspname relname => decide (w.workerType = .sync ∧ dboid = w.dboid ∧ subid = w.subid ∧
      w.nspname = nspname ∧ w.relname = relname)

def workerFind {n : ℕ} (workers : Workers n) (key : WorkerKey) : Option (Fin n) := Fin.find? fun i => (workers i).isFor key

def pglogicalManagerFind {n : ℕ} (workers : Workers n) (dboid : Oid) : Option (Fin n) :=
  workerFind workers (.manager dboid)

def pglogicalApplyFind {n : ℕ} (workers : Workers n) (dboid subscriberid : Oid) : Option (Fin n) :=
  workerFind workers (.apply dboid subscriberid)

def pglogicalSyncFind {n : ℕ} (workers : Workers n) (dboid subscriberid : Oid) (nspname relname : CString) :
    Option (Fin n) :=
  workerFind workers (.sync dboid subscriberid nspname relname)

/-- Find all apply workers for given database. -/
def pglogicalApplyFindAll {n : ℕ} (workers : Workers n) (dboid : Oid) : List (Fin n) :=
  (List.finRange n).filter fun i => decide ((workers i).workerType = .apply ∧ dboid = (workers i).dboid)

/-- Is the worker running? -/
def pglogicalWorkerRunning {n : ℕ} (workers : Workers n) (worker : Option (Fin n)) : Bool :=
  worker.any fun i => (workers i).proc.isSome

inductive WaitDecision where
  | returns (changed : Bool)
  /-- Sleeps on the latch, then iterates. -/
  | waits
deriving DecidableEq

/-- One iteration of the loop of `wait_for_sync_status_change`, with the status it has read. -/
def waitForSyncStatusChange {n : ℕ} (workers : Workers n) (gotSigterm : Bool) (sync : Option SyncStatus)
    (dboid subid : Oid) (nspname relname : CString) (desiredState : SyncStatus) : WaitDecision :=
  if gotSigterm then .returns false
  else match sync with
    | none => .returns false
    | some status =>
      if status = desiredState then .returns true
      else if (pglogicalSyncFind workers dboid subid nspname relname).isSome then .waits
      else .returns false

/-! ## Updates under the lock -/

def nextGeneration (generation : UInt16) : UInt16 := if generation = 65535 then 0 else generation + 1

/-- The record once a registration has numbered it. -/
def PGLogicalWorker.numbered (w : PGLogicalWorker) (generation : UInt16) : PGLogicalWorker :=
  { w with generation := generation, crashedAt := 0, proc := none }

def PGLogicalWorker.attached (w : PGLogicalWorker) (pid : ℕ) : PGLogicalWorker := { w with proc := some pid }

/-- `pglogical_worker_detach`. -/
def PGLogicalWorker.detached (w : PGLogicalWorker) (crash : Bool) (now : TimestampTz) : PGLogicalWorker :=
  if crash then { w with proc := none, crashedAt := now }
  else { w with proc := none, workerType := .none, dboid := invalidOid }

/-- The manager's cleanup of old info about crashed apply workers. -/
def PGLogicalWorker.cleaned (w : PGLogicalWorker) : PGLogicalWorker :=
  if w.crashedAt ≠ 0 then { w with workerType := .none, crashedAt := 0 } else w

/-! ## Facts about the lookups -/

@[simp] theorem PGLogicalWorker.free_attached (w : PGLogicalWorker) (pid : ℕ) : (w.attached pid).free = w.free := rfl

@[simp] theorem PGLogicalWorker.free_detached (w : PGLogicalWorker) {crash : Bool} {now : TimestampTz}
    (set : now ≠ 0) : (w.detached crash now).free = true := by
  cases crash <;> simp [detached, free, set]

theorem findEmptyWorkerSlot_eq_some_iff {n : ℕ} {workers : Workers n} {i : Fin n} :
    findEmptyWorkerSlot workers = some i ↔ (workers i).free = true ∧ ∀ j < i, (workers j).free = false :=
  Fin.find?_eq_some_iff

theorem workerFind_eq_some_iff {n : ℕ} {workers : Workers n} {key : WorkerKey} {i : Fin n} :
    workerFind workers key = some i ↔ (workers i).isFor key = true ∧ ∀ j < i, (workers j).isFor key = false :=
  Fin.find?_eq_some_iff

/-- The record made for a key is found by it, and by no other key. -/
theorem WorkerKey.isFor_worker {key other : WorkerKey} : key.worker.isFor other = true ↔ key = other := by
  cases key <;> cases other <;> simp only [worker, PGLogicalWorker.isFor] <;> grind

theorem PGLogicalWorker.workerType_of_isFor {w : PGLogicalWorker} {key : WorkerKey} (found : w.isFor key = true) :
    w.workerType ≠ .none := by
  cases key <;> simp_all [isFor]

theorem WorkerKey.workerType_worker (key : WorkerKey) : key.worker.workerType ≠ .none :=
  PGLogicalWorker.workerType_of_isFor (isFor_worker.mpr rfl)

end PGLogical
