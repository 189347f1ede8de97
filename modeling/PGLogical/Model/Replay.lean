import PGLogical.Model.Feedback
import PGLogical.Machine.Run

/-! # Applying a stream of transactions across restarts

The apply worker commits every upstream transaction locally, with the commit LSN of its BEGIN message
as the progress of the replication origin, and confirms what it has received by feedback. When it is
started again it asks for the stream from its progress, and the provider sends every transaction
whose commit record does not lie before that position or before the confirmed one. A queued command
that cannot run inside a transaction, such as CREATE INDEX CONCURRENTLY, commits in the middle of the
remote transaction. What a change does to the local database is a parameter. The worker may exit at any
time, but what it has committed stays: a server that goes down and loses asynchronous commits that are
not on disk is left out here, and is part of `SyncSubscription`.
-/

namespace PGLogical.Replay

open Feedback (ApplyWork applyWorkStep)

variable {Effect : Type}

/-- What comes between BEGIN and COMMIT. -/
inductive Change (Effect : Type) where
  /-- ORIGIN starts a local transaction and changes nothing. -/
  | origin
  /-- A row change, or a queued message that runs inside the transaction. -/
  | row (effect : Effect)
  /-- A queued command that commits after each of its stages; its queue row comes first. -/
  | concurrently (queueRow : Effect) (stages : List Effect)

structure Txn (Effect : Type) where
  commitLsn : ℕ
  endLsn : ℕ
  changes : List (Change Effect)

def Change.effects : Change Effect → List Effect
  | .origin => []
  | .row effect => [effect]
  | .concurrently queueRow stages => queueRow :: stages

def Txn.effects (txn : Txn Effect) : List Effect := txn.changes.flatMap Change.effects

/-- The transactions to replicate, in commit order, and the position the slot was created at. -/
structure Upstream (Effect : Type) where
  txns : List (Txn Effect)
  start : ℕ
  ended : ∀ txn ∈ txns, txn.commitLsn < txn.endLsn
  ordered : txns.Pairwise fun a b => a.endLsn ≤ b.commitLsn
  after : ∀ txn ∈ txns, start ≤ txn.commitLsn

/-- A running apply worker. -/
structure Worker (Effect : Type) where
  /-- The remote transaction being applied, and its changes that are still to come. -/
  current : Option (Txn Effect × List (Change Effect))
  /-- The stages still to run of a queued command. -/
  stages : List Effect
  /-- `IsTransactionState()`. -/
  inTransaction : Bool
  uncommitted : List Effect
  /-- `replorigin_session_origin_lsn`. -/
  originLsn : ℕ
  work : ApplyWork

structure State (Effect : Type) where
  /-- The local effects of committed transactions, in order. -/
  committed : List Effect
  /-- The progress of the replication origin. -/
  progress : ℕ
  /-- The slot's confirmed flush LSN. -/
  confirmed : ℕ
  /-- Flush positions on their way to the provider. -/
  inFlight : List ℕ
  /-- The transactions the provider still has to send on this connection. -/
  pending : List (Txn Effect)
  worker : Option (Worker Effect)

inductive Event where
  /-- BEGIN, with the position in its header. -/
  | begin (pos : ℕ)
  | change (pos : ℕ)
  /-- One stage of a queued command, up to its commit. -/
  | stage
  /-- COMMIT, with the `XactLastCommitEnd` of a local commit. -/
  | commit (localEnd : ℕ)
  | keepalive (endpos : ℕ) (replyRequested : Bool) (now : ℤ)
  | idle (now : ℤ)
  /-- The server's flush pointer moves. -/
  | flush (upto : ℕ)
  /-- `process_syncing_tables` commits a transaction of its own. -/
  | syncStatus
  /-- The provider receives a status update. -/
  | deliver
  /-- The worker exits, by an error, SIGTERM or a crash; no local commit is lost with it. -/
  | crash
  | restart

/-- `replorigin_session_advance`, as part of every local commit. -/
def State.advance (s : State Effect) (originLsn : ℕ) : State Effect :=
  { s with progress := max s.progress originLsn }

/-- `CommitTransactionCommand` for what the worker has not committed. -/
def State.commitLocal (s : State Effect) (w : Worker Effect) : State Effect :=
  { s with committed := s.committed ++ w.uncommitted }.advance w.originLsn

/-- The bookkeeping of `apply_work`; a status update goes on its way. -/
def State.feedback (s : State Effect) (w : Worker Effect) (event : Feedback.Event) : State Effect :=
  let (work, update) := applyWorkStep w.work event
  { s with worker := some { w with work := work }, inFlight := s.inFlight ++ (update.map (·.flush)).toList }

/-- The positions a header may carry: nothing that is still to be sent lies before them. -/
def State.sentUpto (s : State Effect) (w : Worker Effect) (pos : ℕ) : Bool :=
  ((w.current.map Prod.fst).toList ++ s.pending).all fun txn => decide (pos ≤ txn.commitLsn)

/-- One change. A command that needs to be outside a transaction block is an error inside one. -/
def Worker.apply (w : Worker Effect) : Change Effect → Option (Worker Effect)
  | .origin => if w.inTransaction then none else some { w with inTransaction := true }
  | .row effect => some { w with inTransaction := true, uncommitted := w.uncommitted ++ [effect] }
  | .concurrently queueRow stages =>
      if w.inTransaction then none
      else some { w with inTransaction := true, uncommitted := [queueRow], stages := stages }

/-- The walsender sends exactly the transactions whose commit record does not lie before the position. -/
def resend (txns : List (Txn Effect)) (start : ℕ) : List (Txn Effect) :=
  txns.filter fun txn => decide (start ≤ txn.commitLsn)

def workerStep (s : State Effect) (w : Worker Effect) : Event → Option (State Effect)
  | .begin pos =>
      match w.current, s.pending with
      | none, txn :: rest =>
          if s.sentUpto w pos then
            some ({ s with pending := rest }.feedback
              { w with current := some (txn, txn.changes), originLsn := txn.commitLsn } (.data pos pos))
          else none
      | _, _ => none
  | .change pos =>
      match w.current, w.stages with
      | some (txn, change :: rest), [] =>
          if s.sentUpto w pos then
            ({ w with current := some (txn, rest) }.apply change).map fun w => s.feedback w (.data pos pos)
          else none
      | _, _ => none
  | .stage =>
      match w.stages with
      | effect :: rest =>
          let w := { w with uncommitted := w.uncommitted ++ [effect] }
          some { s.commitLocal w with worker := some { w with
            stages := rest, uncommitted := [], inTransaction := !rest.isEmpty } }
      | [] => none
  | .commit localEnd =>
      match w.current, w.stages with
      | some (txn, []), [] =>
          if w.inTransaction then
            some ((s.commitLocal w).feedback { w with current := none, inTransaction := false, uncommitted := [] }
              (.commit txn.endLsn txn.endLsn txn.endLsn (some localEnd)))
          else some (s.feedback { w with current := none } (.commit txn.endLsn txn.endLsn txn.endLsn none))
      | _, _ => none
  | .keepalive endpos replyRequested now =>
      if s.sentUpto w endpos then some (s.feedback w (.keepalive endpos replyRequested now)) else none
  | .idle now => some (s.feedback w (.idle now))
  | .flush upto => some (s.feedback w (.flush upto))
  | .syncStatus =>
      match w.current with
      | none => some (s.advance w.originLsn)
      | some _ => none
  | _ => none

def step (upstream : Upstream Effect) (s : State Effect) : Event → Option (State Effect)
  | .deliver =>
      match s.inFlight with
      | [] => none
      | flush :: rest => some { s with
          inFlight := rest, confirmed := if flush = invalidXLogRecPtr then s.confirmed else flush }
  | .crash => s.worker.map fun _ => { s with worker := none }
  | .restart =>
      match s.worker with
      | some _ => none
      | none => some { s with
          inFlight := []
          pending := resend upstream.txns (max s.progress s.confirmed)
          worker := some ⟨none, [], false, [], invalidXLogRecPtr, ApplyWork.init 0⟩ }
  | event => s.worker.bind fun w => workerStep s w event

/-- A subscription whose copy of the data is as of the start position. -/
def init (upstream : Upstream Effect) : State Effect :=
  ⟨[], upstream.start, upstream.start, [], [], none⟩

end PGLogical.Replay
