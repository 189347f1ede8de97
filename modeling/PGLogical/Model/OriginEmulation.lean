import PGLogical.Model.Conflict

/-! # Replication origins before PostgreSQL 9.5

The emulation keeps the progress of every origin in a table of its own. A callback that runs before each
commit of the process writes `replorigin_session_origin_lsn` to the row of the session's origin, whatever
has been committed. That variable is set by BEGIN messages only and is zero in a new process.

A change made by `replorigin_advance` counts at once: the transaction it belongs to is not rolled back
here. Commits of remote transactions are told apart from others, which the code does not do.
-/

namespace PGLogical.OriginEmulation

def doNotReplicateId : RepOriginId := 65535

/-- `ReplicationState` of the session. -/
structure ReplicationState where
  roident : RepOriginId
  remoteLsn : ℕ
deriving DecidableEq

structure State where
  /-- `roremote_lsn` of the origins that have a row. -/
  origins : RepOriginId → Option ℕ
  sessionReplicationState : Option ReplicationState
  /-- `replorigin_session_origin` -/
  sessionOrigin : RepOriginId
  /-- `replorigin_session_origin_lsn` -/
  sessionOriginLsn : ℕ
  /-- Not in the code: the remote LSN of the last transaction of an origin that was committed locally, or
  the position that `replorigin_advance` has been told since. -/
  replayed : RepOriginId → ℕ

inductive Event where
  /-- `replorigin_session_setup`, and the assignment of `replorigin_session_origin` behind every call. -/
  | sessionSetup (node : RepOriginId)
  /-- `replorigin_session_reset`, and the assignment behind it. -/
  | sessionReset
  /-- A BEGIN message. -/
  | handleBegin (commitLsn : ℕ)
  /-- A local commit of the remote transaction that began last. -/
  | commitRemote
  /-- Any other commit of the process. -/
  | commitLocal
  | advance (node : RepOriginId) (remoteCommit : ℕ) (goBackward : Bool)
  /-- The process ends and is started again. -/
  | restart
deriving DecidableEq

/-- The row is overwritten, whatever `go_backward` says. -/
def reploriginAdvance (s : State) (node : RepOriginId) (remoteCommit : ℕ) : State :=
  if node = doNotReplicateId then s
  else { s with origins := Function.update s.origins node ((s.origins node).map fun _ => remoteCommit) }

def reploriginSessionAdvance (s : State) (session : ReplicationState) (remoteCommit : ℕ) : State :=
  let session := if session.remoteLsn < remoteCommit then { session with remoteLsn := remoteCommit } else session
  reploriginAdvance { s with sessionReplicationState := some session } session.roident remoteCommit

/-- What runs before every commit. -/
def sessionOriginXactCb (s : State) : State :=
  match s.sessionReplicationState with
  | none => s
  | some session =>
      if s.sessionOrigin ≠ invalidRepOriginId ∧ s.sessionOrigin ≠ doNotReplicateId then
        reploriginSessionAdvance s session s.sessionOriginLsn
      else s

def reploriginSessionSetup (s : State) (node : RepOriginId) : Option State :=
  match s.sessionReplicationState with
  | some _ => none
  | none => some { s with
      sessionReplicationState := some ⟨node, (s.origins node).getD 0⟩
      sessionOrigin := node }

def reploriginSessionGetProgress (s : State) : Option ℕ :=
  s.sessionReplicationState.map ReplicationState.remoteLsn

/-- The position an origin is told to be at. -/
def State.tell (s : State) (node : RepOriginId) (lsn : ℕ) : State :=
  { s with replayed := Function.update s.replayed node lsn }

def step (s : State) : Event → Option State
  | .sessionSetup node => reploriginSessionSetup s node
  | .sessionReset =>
      match s.sessionReplicationState with
      | none => none
      | some _ => some { s with sessionReplicationState := none, sessionOrigin := invalidRepOriginId }
  | .handleBegin commitLsn => some { s with sessionOriginLsn := commitLsn }
  | .commitRemote =>
      match s.sessionReplicationState with
      | none => none
      | some session => some (sessionOriginXactCb (s.tell session.roident s.sessionOriginLsn))
  | .commitLocal => some (sessionOriginXactCb s)
  | .advance node remoteCommit goBackward =>
      some (reploriginAdvance (s.tell node (if goBackward then remoteCommit else max (s.replayed node) remoteCommit))
        node remoteCommit)
  | .restart => some { s with sessionReplicationState := none, sessionOrigin := invalidRepOriginId, sessionOriginLsn := 0 }

/-- A process that has not done anything, with the progress that is stored. -/
def State.start (origins : RepOriginId → Option ℕ) : State :=
  ⟨origins, none, invalidRepOriginId, 0, fun node => (origins node).getD 0⟩

end PGLogical.OriginEmulation
