import PGLogical.Model.Conflict

/-! # Any number of nodes

Every node subscribes to every other one, without `forward_origins`. A transaction updates rows that exist on all
nodes and is written to the log of its node; a walsender for each subscriber goes through that log, and what
it sends is applied there in one transaction and written to the log of the subscriber, with the origin of the
subscription. Conflicts are resolved by `last_update_wins`; triggers are left out, and so are restarts of the
apply workers, after which a walsender may send once more what has been applied.
-/

namespace PGLogical.Mesh

variable {ι κ C V : Type} [DecidableEq ι] [DecidableEq κ]

/-- Updates of whole rows, keys unchanged. -/
structure Transaction (κ C V : Type) where
  changes : List (κ × (C → V))
  commitTs : TimestampTz

/-- The rows of a node, the next transaction id, and the committed transactions with their origins. -/
structure NodeState (κ C V : Type) where
  rows : κ → HeapVersion C V
  nextXid : ℕ
  wal : List (RepOriginId × Transaction κ C V)

structure State (ι κ C V : Type) where
  nodes : ι → NodeState κ C V
  /-- How far the walsender of the first node has come for the second one. -/
  position : ι → ι → ℕ

/-- On each node, an origin for every node that it subscribes to. -/
structure Origins (ι : Type) where
  origin : ι → ι → RepOriginId
  valid : ∀ node provider, origin node provider ≠ invalidRepOriginId
  distinct : ∀ node provider other, origin node provider = origin node other → provider = other

inductive Event (ι κ C V : Type) where
  /-- A transaction commits on a node. -/
  | commit (node : ι) (txn : Transaction κ C V)
  /-- The next transaction of the provider's log, at the subscriber. -/
  | stream (provider subscriber : ι)

/-- The rows behind a local transaction. -/
def writeRows (xid : ℕ) (txn : Transaction κ C V) (rows : κ → HeapVersion C V) : κ → HeapVersion C V :=
  txn.changes.foldl (fun rows change =>
    Function.update rows change.1 ⟨change.2, xid, txn.commitTs, invalidRepOriginId⟩) rows

/-- The rows behind a remote transaction, one change after the other. -/
def applyRows (session : ApplySession) (changes : List (κ × (C → V))) (rows : κ → HeapVersion C V) :
    Option (κ → HeapVersion C V) :=
  changes.foldlM (fun rows change =>
    (handleUpdate .lastUpdateWins true session (rows change.1) change.2 fun _ => true).map
      (Function.update rows change.1)) rows

def NodeState.write (node : NodeState κ C V) (txn : Transaction κ C V) : NodeState κ C V where
  rows := writeRows node.nextXid txn node.rows
  nextXid := node.nextXid + 1
  wal := node.wal ++ [(invalidRepOriginId, txn)]

/-- The local transaction in which a remote one is applied has its time stamp. -/
def NodeState.apply (node : NodeState κ C V) (origin : RepOriginId) (txn : Transaction κ C V) :
    Option (NodeState κ C V) :=
  (applyRows ⟨origin, txn.commitTs, node.nextXid⟩ txn.changes node.rows).map fun rows =>
    ⟨rows, node.nextXid + 1, node.wal ++ [(origin, txn)]⟩

def State.advance (s : State ι κ C V) (provider subscriber : ι) : ι → ι → ℕ :=
  Function.update s.position provider
    (Function.update (s.position provider) subscriber (s.position provider subscriber + 1))

/-- A walsender skips what the hook does not let through. -/
def stream (origins : Origins ι) (s : State ι κ C V) (provider subscriber : ι) : Option (State ι κ C V) :=
  if provider = subscriber then none
  else match (s.nodes provider).wal[s.position provider subscriber]? with
    | none => none
    | some (originId, txn) =>
        if pglogicalTxnFilterHook originId [] then
          ((s.nodes subscriber).apply (origins.origin subscriber provider) txn).map fun node =>
            ⟨Function.update s.nodes subscriber node, s.advance provider subscriber⟩
        else some { s with position := s.advance provider subscriber }

def step (origins : Origins ι) (s : State ι κ C V) : Event ι κ C V → Option (State ι κ C V)
  | .commit node txn => some { s with nodes := Function.update s.nodes node ((s.nodes node).write txn) }
  | .stream provider subscriber => stream origins s provider subscriber

/-- Nothing has been logged yet. -/
def init (start : ι → κ → HeapVersion C V) (nextXid : ι → ℕ) : State ι κ C V :=
  ⟨fun node => ⟨start node, nextXid node, []⟩, fun _ _ => 0⟩

end PGLogical.Mesh
