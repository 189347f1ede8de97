import PGLogical.Model.Basic

/-! # Flush tracking and the feedback sent to the provider

`apply_work` acknowledges received WAL with standby status updates. A position may be reported as
flushed only when the local commits of everything before it are on disk, so every commit is
remembered as a pair of a local and a remote position until the local flush pointer has passed it.
The three static variables of `send_feedback` and the loop variable of `apply_work` are explicit
state; the local flush pointer is part of the state because other backends advance it too.
-/

namespace PGLogical.Feedback

/-- One local commit that is waiting to be flushed. -/
structure PGLFlushPosition where
  localEnd : ℕ
  remoteEnd : ℕ
deriving DecidableEq, Repr

/-- The standby status update `send_feedback` writes, in the order of its fields. -/
structure StatusUpdate where
  write : ℕ
  flush : ℕ
  apply : ℕ
  sendTime : ℤ
  replyRequested : Bool
deriving DecidableEq, Repr

/-- What `get_flush_position` leaves behind: its two results and the shortened list. -/
structure FlushPosition where
  write : ℕ
  flush : ℕ
  mapping : List PGLFlushPosition
deriving DecidableEq, Repr

/-- The list walk: flushed commits are unlinked, and the first unflushed one ends the walk with
the write position of the last element. -/
def flushLoop (localFlush : ℕ) (write flush : ℕ) :
    List PGLFlushPosition → FlushPosition
  | [] => ⟨write, flush, []⟩
  | pos :: rest =>
      if pos.localEnd ≤ localFlush then flushLoop localFlush pos.remoteEnd pos.remoteEnd rest
      else ⟨((pos :: rest).getLast (List.cons_ne_nil pos rest)).remoteEnd, flush, pos :: rest⟩

/-- Its C counterpart returns whether the list became empty, that is `mapping = []`. -/
def getFlushPosition (localFlush : ℕ) (mapping : List PGLFlushPosition) : FlushPosition :=
  flushLoop localFlush invalidXLogRecPtr invalidXLogRecPtr mapping

/-- The variables of one worker process that decide what it reports. -/
structure ApplyWork where
  lsnMapping : List PGLFlushPosition
  lastRecvpos : ℕ
  lastWritepos : ℕ
  lastFlushpos : ℕ
  lastReceived : ℕ
  localFlush : ℕ
deriving DecidableEq, Repr

/-- A process that has just entered `apply_work`, with the flush pointer the server has by then. -/
def ApplyWork.init (localFlush : ℕ) : ApplyWork :=
  ⟨[], invalidXLogRecPtr, invalidXLogRecPtr, invalidXLogRecPtr, invalidXLogRecPtr, localFlush⟩

/-- The position to report: the received one when nothing is outstanding, the last flushed one
otherwise, and never less than what was reported before. -/
def ApplyWork.flushpos (s : ApplyWork) (recvpos : ℕ) : ℕ :=
  let found := getFlushPosition s.localFlush s.lsnMapping
  max (if found.mapping = [] then recvpos else found.flush) s.lastFlushpos

def ApplyWork.writepos (s : ApplyWork) (recvpos : ℕ) : ℕ :=
  let found := getFlushPosition s.localFlush s.lsnMapping
  max (if found.mapping = [] then recvpos else found.write) s.lastWritepos

/-- One call of `send_feedback`. A failed send raises an error and ends the process, so a run
contains only the calls that return. -/
def sendFeedback (s : ApplyWork) (recvpos : ℕ) (now : ℤ) (force : Bool) :
    ApplyWork × Option StatusUpdate :=
  let recvpos := max recvpos s.lastRecvpos
  let writepos := s.writepos recvpos
  let flushpos := s.flushpos recvpos
  let mapping := (getFlushPosition s.localFlush s.lsnMapping).mapping
  if force = false ∧ writepos = s.lastWritepos ∧ flushpos = s.lastFlushpos then
    ({ s with lsnMapping := mapping }, none)
  else
    ({ s with
        lsnMapping := mapping
        lastRecvpos := max recvpos s.lastRecvpos
        lastWritepos := max writepos s.lastWritepos
        lastFlushpos := max flushpos s.lastFlushpos },
      some ⟨recvpos, flushpos, writepos, now, false⟩)

/-- What reaches the worker, and what happens around it, between two calls of `send_feedback`. -/
inductive Event where
  /-- A `w` message whose payload is anything but COMMIT. -/
  | data (startLsn endLsn : ℕ)
  /-- A `w` message with COMMIT: its end LSN and, when a local transaction is open, the
  `XactLastCommitEnd` left by the local commit. -/
  | commit (startLsn endLsn : ℕ) (remoteEnd : ℕ) (localEnd : Option ℕ)
  | keepalive (endpos : ℕ) (replyRequested : Bool) (now : ℤ)
  /-- No more input for now: the end of one iteration of the outer loop. -/
  | idle (now : ℤ)
  /-- The server's flush pointer moves. -/
  | flush (upto : ℕ)
deriving DecidableEq, Repr

/-- The two comparisons `apply_work` makes on the header of a `w` message. -/
def ApplyWork.receive (s : ApplyWork) (startLsn endLsn : ℕ) : ApplyWork :=
  { s with lastReceived := max (max s.lastReceived startLsn) endLsn }

/-- `handle_commit` appends to the list only when it committed a local transaction. -/
def ApplyWork.handleCommit (s : ApplyWork) (remoteEnd : ℕ) (localEnd : Option ℕ) :
    ApplyWork :=
  match localEnd with
  | none => s
  | some localEnd => { s with lsnMapping := s.lsnMapping ++ [⟨localEnd, remoteEnd⟩] }

def applyWorkStep (s : ApplyWork) : Event → ApplyWork × Option StatusUpdate
  | .data startLsn endLsn => (s.receive startLsn endLsn, none)
  | .commit startLsn endLsn remoteEnd localEnd =>
      ((s.receive startLsn endLsn).handleCommit remoteEnd localEnd, none)
  | .keepalive endpos replyRequested now => sendFeedback s endpos now replyRequested
  | .idle now => sendFeedback s s.lastReceived now false
  | .flush upto => ({ s with localFlush := max s.localFlush upto }, none)

/-- The state after a tape of events. -/
def applyWork : ApplyWork → List Event → ApplyWork
  | s, [] => s
  | s, event :: rest => applyWork (applyWorkStep s event).1 rest

/-- The status updates a tape of events makes the worker send, in order. -/
def statusUpdates : ApplyWork → List Event → List StatusUpdate
  | _, [] => []
  | s, event :: rest => (applyWorkStep s event).2.toList ++ statusUpdates (applyWorkStep s event).1 rest

@[simp] theorem applyWork_nil (s : ApplyWork) : applyWork s [] = s := rfl

@[simp] theorem applyWork_cons (s : ApplyWork) (event : Event) (rest : List Event) :
    applyWork s (event :: rest) = applyWork (applyWorkStep s event).1 rest := rfl

end PGLogical.Feedback
