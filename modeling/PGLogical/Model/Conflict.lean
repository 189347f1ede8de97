import PGLogical.Model.Worker
import Mathlib.Logic.Function.Basic

/-! # Conflicting updates

An UPDATE that arrives for a row which a transaction of another origin has written is a conflict, and
is resolved by comparing commit timestamps, or as the setting says. A version that came from the
same origin is overwritten without a comparison. Two nodes that subscribe to each other, each
forwarding its own transactions only, exchange their updates of a row in commit order. The row exists
on both nodes and its key does not change; triggers are left out.
-/

namespace PGLogical

abbrev RepOriginId := UInt16

def invalidRepOriginId : RepOriginId := 0

inductive ConflictResolver where
  | error
  | applyRemote
  | keepLocal
  | lastUpdateWins
  | firstUpdateWins
deriving DecidableEq

inductive ConflictResolution where
  | applyRemote
  | keepLocal
deriving DecidableEq

/-- A stored version of a row, with the commit timestamp data of the transaction that wrote it. -/
structure HeapVersion (C V : Type) where
  values : C → V
  xmin : ℕ
  commitTs : TimestampTz
  origin : RepOriginId

/-- What `replorigin_session_origin` and its timestamp are while a transaction is applied, and the id of
the local transaction. -/
structure ApplySession where
  origin : RepOriginId
  timestamp : TimestampTz
  topTransactionId : ℕ

variable {C V : Type}

def conflictResolveByTimestamp (localTs remoteTs : TimestampTz) (lastUpdateWins : Bool) : ConflictResolution :=
  let cmp := compare remoteTs localTs
  match if lastUpdateWins then cmp else cmp.swap with
  | .gt => .applyRemote
  | .lt => .keepLocal
  | .eq => .applyRemote

/-- The origin and timestamp of the local tuple. -/
def getTupleOrigin (trackCommitTimestamp : Bool) (session : ApplySession) (localTuple : HeapVersion C V) :
    RepOriginId × TimestampTz :=
  if trackCommitTimestamp then (localTuple.origin, localTuple.commitTs) else (session.origin, session.timestamp)

/-- The resolution, or the error the setting asks for. -/
def tryResolveConflict (resolver : ConflictResolver) (trackCommitTimestamp : Bool) (session : ApplySession)
    (localTuple : HeapVersion C V) : Option ConflictResolution :=
  let localTs := (getTupleOrigin trackCommitTimestamp session localTuple).2
  match resolver with
  | .error => none
  | .applyRemote => some .applyRemote
  | .keepLocal => some .keepLocal
  | .lastUpdateWins => some (conflictResolveByTimestamp localTs session.timestamp true)
  | .firstUpdateWins => some (conflictResolveByTimestamp localTs session.timestamp false)

def heapModifyTuple (tuple values : C → V) (changed : C → Bool) : C → V :=
  fun column => if changed column then values column else tuple column

/-- The version that is stored after an UPDATE of a row that was found. -/
def handleUpdate (resolver : ConflictResolver) (trackCommitTimestamp : Bool) (session : ApplySession)
    (localTuple : HeapVersion C V) (newtup : C → V) (changed : C → Bool) : Option (HeapVersion C V) :=
  let remotetuple := heapModifyTuple localTuple.values newtup changed
  let applied : HeapVersion C V := ⟨remotetuple, session.topTransactionId, session.timestamp, session.origin⟩
  if localTuple.xmin ≠ session.topTransactionId ∧
      (getTupleOrigin trackCommitTimestamp session localTuple).1 ≠ session.origin then
    match tryResolveConflict resolver trackCommitTimestamp session localTuple with
    | none => none
    | some .applyRemote => some applied
    | some .keepLocal => some localTuple
  else some applied

/-- Is a transaction of the origin forwarded? -/
def pglogicalTxnFilterHook (originId : RepOriginId) (forwardOrigins : List String) : Bool :=
  if originId = invalidRepOriginId then true else decide (0 < forwardOrigins.length)

/-! ## Two nodes -/

namespace Bidirectional

inductive Node where
  | a
  | b
deriving DecidableEq

def Node.peer : Node → Node
  | .a => .b
  | .b => .a

/-- An UPDATE of the row that was committed on a node; it sends all columns. -/
structure Update (C V : Type) where
  node : Node
  values : C → V
  commitTs : TimestampTz

structure NodeState (C V : Type) where
  version : HeapVersion C V
  /-- The next transaction id. -/
  nextXid : ℕ

structure State (C V : Type) where
  nodes : Node → NodeState C V
  /-- What each node has sent and the other one has not received. -/
  sent : Node → List (Update C V)
  /-- All updates committed so far. -/
  updates : List (Update C V)

/-- The replication origin under which each node applies the other one's transactions. -/
structure Origins where
  origin : Node → RepOriginId
  valid : ∀ node, origin node ≠ invalidRepOriginId

inductive Event (C V : Type) where
  | update (node : Node) (values : C → V) (commitTs : TimestampTz)
  | deliver (node : Node)

/-- The queue after a commit: nodes have no `forward_origins`. -/
def forward (originId : RepOriginId) (update : Update C V) (sent : List (Update C V)) : List (Update C V) :=
  if pglogicalTxnFilterHook originId [] then sent ++ [update] else sent

def updateRow (s : State C V) (node : Node) (update : Update C V) : State C V where
  nodes := Function.update s.nodes node ⟨⟨update.values, (s.nodes node).nextXid, update.commitTs, invalidRepOriginId⟩,
    (s.nodes node).nextXid + 1⟩
  sent := Function.update s.sent node (forward invalidRepOriginId update (s.sent node))
  updates := s.updates ++ [update]

def deliver (origins : Origins) (s : State C V) (node : Node) (update : Update C V) (rest : List (Update C V)) :
    Option (State C V) :=
  let session : ApplySession := ⟨origins.origin node, update.commitTs, (s.nodes node).nextXid⟩
  (handleUpdate .lastUpdateWins true session (s.nodes node).version update.values fun _ => true).map fun version =>
    { s with
      nodes := Function.update s.nodes node ⟨version, (s.nodes node).nextXid + 1⟩
      sent := Function.update (Function.update s.sent node.peer rest) node
        (forward (origins.origin node) update (s.sent node)) }

def step (origins : Origins) (s : State C V) : Event C V → Option (State C V)
  | .update node values commitTs => some (updateRow s node ⟨node, values, commitTs⟩)
  | .deliver node =>
      match s.sent node.peer with
      | [] => none
      | update :: rest => deliver origins s node update rest

/-- Nothing is sent yet. -/
def init (nodes : Node → NodeState C V) : State C V := ⟨nodes, fun _ => [], []⟩

end Bidirectional

end PGLogical
