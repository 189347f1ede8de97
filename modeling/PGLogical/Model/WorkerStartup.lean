import PGLogical.Model.Worker
import Mathlib.Logic.Function.Basic

/-! # Registering, starting and stopping workers

`pglogical_worker_register` fills a slot under the lock, asks the postmaster for a process and waits,
without the lock, until that process has attached to the slot or is gone. Any number of such calls
are under way at a time, in any processes; the processes they ask for start, attach, detach and exit on their
own, and the managers clean up records of crashed workers. Every step below is one thing that another
process can observe. Reading and writing a field of a slot without the lock is a step of its own.
-/

namespace PGLogical.WorkerStartup

/-- Where a call of `pglogical_worker_register` is. -/
inductive CallPc where
  /-- The lock is held; the record is copied, its generation is not yet set. -/
  | copied (generation : UInt16)
  /-- The lock is released, the postmaster not yet asked. -/
  | launching
  /-- At the top of `wait_for_worker_startup`. -/
  | entering
  /-- At the top of its loop, with the generation that was read. -/
  | polling (generation : UInt16)
  | sawStarted (generation : UInt16)
  | sawStopped (generation : UInt16)
  /-- `worker_type` is not NONE. -/
  | sawType (generation : UInt16)
  /-- The generation is still the same. -/
  | sawGeneration
  /-- `crashed_at` is zero. -/
  | sawCrashedAt
  | returned
  /-- Left by an error, or with the process. -/
  | left
deriving DecidableEq

/-- The process asked for by a call. -/
inductive Process where
  | unregistered
  /-- Registered with the postmaster, and not started yet. -/
  | pending
  | started
  | attached
  /-- Detached from shared memory, about to exit. -/
  | exiting
  | stopped
  /-- Stopped without having attached. -/
  | failed
deriving DecidableEq

/-- A call, and the process it has asked for. The number of the call stands for the process. -/
structure Call (n : ℕ) where
  key : WorkerKey
  slot : Fin n
  pc : CallPc
  process : Process
  /-- How often the slot had been registered, this time included. -/
  serial : ℕ
deriving DecidableEq

structure State (n : ℕ) where
  workers : Workers n
  calls : List (Call n)
  /-- The call that holds the lock. All other holders release it within the same step. -/
  holder : Option ℕ
  /-- The last call that has registered the slot, and how often that was done. -/
  owner : Fin n → Option ℕ
  serial : Fin n → ℕ

inductive CallEvent where
  | setGeneration
  | registerDynamicBackgroundWorker (accepted : Bool) (now : TimestampTz)
  | readGenerationFirst
  /-- SIGTERM, or an interrupt. -/
  | interrupt
  | getBackgroundWorkerPid
  | readProc
  | readWorkerType
  | readGeneration
  | readCrashedAt
  | setCrashedAt (now : TimestampTz)
deriving DecidableEq

inductive ProcessEvent where
  | start
  /-- Exits before it attaches. -/
  | fail
  | attach
  | detach (crash : Bool) (now : TimestampTz)
  | exit
deriving DecidableEq

inductive Event (n : ℕ) where
  | register (key : WorkerKey)
  | call (c : ℕ) (event : CallEvent)
  | process (c : ℕ) (event : ProcessEvent)
  /-- A manager cleans the record of a crashed worker. -/
  | cleanup (slot : Fin n)
deriving DecidableEq

variable {n : ℕ}

def State.setWorker (s : State n) (i : Fin n) (w : PGLogicalWorker) : State n :=
  { s with workers := Function.update s.workers i w }

def State.setCall (s : State n) (c : ℕ) (call : Call n) : State n := { s with calls := s.calls.set c call }

def State.goto (s : State n) (c : ℕ) (call : Call n) (pc : CallPc) : State n := s.setCall c { call with pc := pc }

/-- `GetBackgroundWorkerPid` reports the process as started. -/
def Process.isStarted (p : Process) : Bool :=
  decide (p = .started) || decide (p = .attached) || decide (p = .exiting)

def Process.isStopped (p : Process) : Bool := decide (p = .stopped) || decide (p = .failed)

def register (s : State n) (key : WorkerKey) : Option (State n) :=
  if s.holder.isSome then none
  else (findEmptyWorkerSlot s.workers).map fun i => { s with
    workers := Function.update s.workers i key.worker
    calls := s.calls ++ [⟨key, i, .copied (nextGeneration (s.workers i).generation), .unregistered, s.serial i + 1⟩]
    holder := some s.calls.length
    owner := Function.update s.owner i (some s.calls.length)
    serial := Function.update s.serial i (s.serial i + 1) }

def callStep (s : State n) (c : ℕ) (call : Call n) (event : CallEvent) : Option (State n) :=
  let w := s.workers call.slot
  match event, call.pc with
  | .setGeneration, .copied generation =>
      some ({ s.setWorker call.slot (w.numbered generation) with holder := none }.goto c call .launching)
  | .registerDynamicBackgroundWorker true _, .launching =>
      some (s.setCall c { call with pc := .entering, process := .pending })
  | .registerDynamicBackgroundWorker false now, .launching =>
      if now = 0 then none
      else some ((s.setWorker call.slot { w with crashedAt := now }).goto c call .left)
  | .readGenerationFirst, .entering => some (s.goto c call (.polling w.generation))
  | .interrupt, .polling _ => some (s.goto c call .left)
  | .getBackgroundWorkerPid, .polling generation =>
      if call.process.isStarted then some (s.goto c call (.sawStarted generation))
      else if call.process.isStopped then some (s.goto c call (.sawStopped generation))
      else some s
  | .readProc, .sawStarted generation =>
      some (s.goto c call (if w.proc.isSome then .returned else .polling generation))
  | .readWorkerType, .sawStopped generation =>
      some (s.goto c call (if w.workerType ≠ .none then .sawType generation else .returned))
  | .readGeneration, .sawType generation =>
      some (s.goto c call (if w.generation = generation then .sawGeneration else .returned))
  | .readCrashedAt, .sawGeneration =>
      some (s.goto c call (if w.crashedAt = 0 then .sawCrashedAt else .returned))
  | .setCrashedAt now, .sawCrashedAt =>
      if now = 0 then none else some ((s.setWorker call.slot { w with crashedAt := now }).goto c call .returned)
  | _, _ => none

def processStep (s : State n) (c : ℕ) (call : Call n) (event : ProcessEvent) : Option (State n) :=
  let w := s.workers call.slot
  match event, call.process with
  | .start, .pending => some (s.setCall c { call with process := .started })
  | .fail, .pending => some (s.setCall c { call with process := .failed })
  | .fail, .started => some (s.setCall c { call with process := .failed })
  | .attach, .started =>
      if s.holder.isSome then none
      else some ((s.setWorker call.slot (w.attached c)).setCall c { call with process := .attached })
  | .detach crash now, .attached =>
      if s.holder.isSome ∨ now = 0 then none
      else some ((s.setWorker call.slot (w.detached crash now)).setCall c { call with process := .exiting })
  | .exit, .exiting => some (s.setCall c { call with process := .stopped })
  | _, _ => none

def step (s : State n) : Event n → Option (State n)
  | .register key => register s key
  | .call c event => s.calls[c]?.bind fun call => callStep s c call event
  | .process c event => s.calls[c]?.bind fun call => processStep s c call event
  | .cleanup i => if s.holder.isSome then none else some (s.setWorker i (s.workers i).cleaned)

def init (n : ℕ) : State n where
  workers := fun _ => .zero
  calls := []
  holder := none
  owner := fun _ => none
  serial := fun _ => 0

end PGLogical.WorkerStartup
