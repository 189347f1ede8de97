import PGLogical.Machine.Run
import PGLogical.Model.Conflict

/-! # Last update wins

Each node holds the latest of the updates it has seen: its own, and those of the other node that were
delivered. An update from the origin of the stored version is applied without looking at timestamps;
this is right because that version is itself an update of the other node, whose later updates
have later timestamps. Once everything is delivered both nodes have seen the same updates. The versions
that the nodes start with must not get in the way: one that was copied without an origin, and so is
stamped with the time of the copy, wins over updates from before that time.
-/

namespace PGLogical.Bidirectional

open Machine

variable {C V : Type}

@[simp] theorem Node.peer_peer (node : Node) : node.peer.peer = node := by cases node <;> rfl

theorem Node.peer_ne (node : Node) : node.peer ≠ node := by cases node <;> exact nofun

theorem Node.eq_or_eq_peer (node other : Node) : other = node ∨ other = node.peer := by
  cases node <;> cases other <;> simp [Node.peer]

/-- Both nodes start with the row. The version of each came from the other node, or is not stamped
later than anything that is later than the other node's version. -/
structure SameRow (origins : Origins) (nodes : Node → NodeState C V) : Prop where
  values : ∀ node, (nodes node).version.values = (nodes node.peer).version.values
  stamped : ∀ node, (nodes node).version.origin = origins.origin node ∨
    ∀ commitTs, (nodes node.peer).version.commitTs < commitTs → (nodes node).version.commitTs ≤ commitTs
  fresh : ∀ node, (nodes node).version.xmin < (nodes node).nextXid

/-- Commit timestamps are distinct, and later than the version that is overwritten. -/
def Stamped (s : State C V) : Event C V → Prop
  | .update node _ commitTs => (s.nodes node).version.commitTs < commitTs ∧ ∀ u ∈ s.updates, u.commitTs ≠ commitTs
  | .deliver _ => True

/-- The version of a node: the row it has started with, or an update it has seen. -/
def Stored (origins : Origins) (nodes : Node → NodeState C V) (s : State C V) (node : Node) : Prop :=
  ((s.nodes node).version = (nodes node).version ∧ ∀ u ∈ s.updates, u ∈ s.sent node.peer) ∨
  ∃ u ∈ s.updates, u ∉ s.sent node.peer ∧ (s.nodes node).version.values = u.values ∧
    (s.nodes node).version.commitTs = u.commitTs ∧
    ((s.nodes node).version.origin = origins.origin node → u.node = node.peer)

structure Inv (origins : Origins) (nodes : Node → NodeState C V) (s : State C V) : Prop where
  stamps : ∀ u ∈ s.updates, ∀ v ∈ s.updates, u.commitTs = v.commitTs → u = v
  sent : ∀ node, ∀ u ∈ s.sent node, u ∈ s.updates ∧ u.node = node
  order : ∀ node, (s.sent node).Pairwise fun u v => u.commitTs < v.commitTs
  fresh : ∀ node, (s.nodes node).version.xmin < (s.nodes node).nextXid
  /-- What a node has seen is not later than what it stores. -/
  current : ∀ node, ∀ u ∈ s.updates, u ∉ s.sent node.peer → u.commitTs ≤ (s.nodes node).version.commitTs
  stored : ∀ node, Stored origins nodes s node
  /-- What a node has received is earlier than what is still under way. -/
  later : ∀ node, ∀ u ∈ s.updates, u ∉ s.sent node → u.node = node → ∀ v ∈ s.sent node, u.commitTs < v.commitTs
  /-- As long as only one node has updated the row, its updates are later than the row it started with. -/
  first : ∀ node, (∀ u ∈ s.updates, u.node = node) → ∀ u ∈ s.updates, (nodes node).version.commitTs < u.commitTs

theorem inv_init {origins : Origins} {nodes : Node → NodeState C V} (same : SameRow origins nodes) :
    Inv origins nodes (init nodes) where
  stamps := nofun
  sent _ := nofun
  order _ := .nil
  fresh := same.fresh
  current _ := nofun
  stored _ := .inl ⟨rfl, nofun⟩
  later _ := nofun
  first _ _ := nofun

section Step

variable {origins : Origins} {nodes : Node → NodeState C V} {s next : State C V}

/-- What a node has sent it has seen itself. -/
theorem Inv.not_sent_by_peer (inv : Inv origins nodes s) {node : Node} {u : Update C V} (mine : u.node = node) :
    u ∉ s.sent node.peer := by
  intro inside
  have theirs := (inv.sent _ u inside).2
  rw [mine] at theirs
  exact node.peer_ne theirs.symm

theorem forward_local (u : Update C V) (sent : List (Update C V)) : forward invalidRepOriginId u sent = sent ++ [u] := by
  simp [forward, pglogicalTxnFilterHook]

theorem forward_remote (node : Node) (u : Update C V) (sent : List (Update C V)) :
    forward (origins.origin node) u sent = sent := by
  simp [forward, pglogicalTxnFilterHook, origins.valid node]

section Update

variable {node : Node} {u : Update C V}

theorem updateRow_nodes : (updateRow s node u).nodes node =
    ⟨⟨u.values, (s.nodes node).nextXid, u.commitTs, invalidRepOriginId⟩, (s.nodes node).nextXid + 1⟩ :=
  Function.update_self ..

theorem updateRow_nodes_peer : (updateRow s node u).nodes node.peer = s.nodes node.peer :=
  Function.update_of_ne node.peer_ne ..

theorem updateRow_sent : (updateRow s node u).sent node = s.sent node ++ [u] := by
  simp [updateRow, forward_local]

theorem updateRow_sent_peer : (updateRow s node u).sent node.peer = s.sent node.peer :=
  Function.update_of_ne node.peer_ne ..

theorem mem_updateRow_updates {v : Update C V} : v ∈ (updateRow s node u).updates ↔ v ∈ s.updates ∨ v = u := by
  simp [updateRow]

/-- A local update is later than all that the node has seen, and no other node has seen it. -/
theorem inv_updateRow (inv : Inv origins nodes s) (mine : u.node = node)
    (later : (s.nodes node).version.commitTs < u.commitTs) (fresh : ∀ v ∈ s.updates, v.commitTs ≠ u.commitTs) :
    Inv origins nodes (updateRow s node u) := by
  have new : u ∉ s.updates := fun inside => fresh u inside rfl
  have own : ∀ v ∈ s.updates, v.node = node → v.commitTs < u.commitTs := fun v inside same =>
    lt_of_le_of_lt (inv.current node v inside (inv.not_sent_by_peer same)) later
  constructor
  case stamps =>
    intro v one w two same
    rcases mem_updateRow_updates.mp one with old | rfl <;> rcases mem_updateRow_updates.mp two with old' | rfl
    · exact inv.stamps v old w old' same
    · exact absurd same (fresh v old)
    · exact absurd same.symm (fresh w old')
    · rfl
  case sent =>
    intro other v inside
    rcases node.eq_or_eq_peer other with rfl | rfl
    · rw [updateRow_sent] at inside
      rcases List.mem_append.mp inside with old | isNew
      · exact ⟨mem_updateRow_updates.mpr (.inl (inv.sent _ v old).1), (inv.sent _ v old).2⟩
      · obtain rfl := List.mem_singleton.mp isNew
        exact ⟨mem_updateRow_updates.mpr (.inr rfl), mine⟩
    · rw [updateRow_sent_peer] at inside
      exact ⟨mem_updateRow_updates.mpr (.inl (inv.sent _ v inside).1), (inv.sent _ v inside).2⟩
  case order =>
    intro other
    rcases node.eq_or_eq_peer other with rfl | rfl
    · rw [updateRow_sent, List.pairwise_append]
      refine ⟨inv.order _, List.pairwise_singleton .., fun v inside w isNew => ?_⟩
      obtain rfl := List.mem_singleton.mp isNew
      exact own v (inv.sent _ v inside).1 (inv.sent _ v inside).2
    · rw [updateRow_sent_peer]
      exact inv.order _
  case fresh =>
    intro other
    rcases node.eq_or_eq_peer other with rfl | rfl
    · rw [updateRow_nodes]
      exact Nat.lt_succ_self _
    · rw [updateRow_nodes_peer]
      exact inv.fresh _
  case current =>
    intro other v inside unsent
    rcases node.eq_or_eq_peer other with rfl | rfl
    · rw [updateRow_sent_peer] at unsent
      rw [updateRow_nodes]
      rcases mem_updateRow_updates.mp inside with old | rfl
      · exact le_of_lt (lt_of_le_of_lt (inv.current _ v old unsent) later)
      · exact le_refl _
    · rw [Node.peer_peer, updateRow_sent, List.mem_append, List.mem_singleton, not_or] at unsent
      rw [updateRow_nodes_peer]
      have old := (mem_updateRow_updates.mp inside).resolve_right unsent.2
      exact inv.current _ v old (by rw [Node.peer_peer]; exact unsent.1)
  case stored =>
    intro other
    rcases node.eq_or_eq_peer other with rfl | rfl
    · refine .inr ⟨u, mem_updateRow_updates.mpr (.inr rfl), ?_, ?_⟩
      · rw [updateRow_sent_peer]
        exact inv.not_sent_by_peer mine
      · rw [updateRow_nodes]
        exact ⟨rfl, rfl, fun origin => absurd origin.symm (origins.valid _)⟩
    · rcases inv.stored node.peer with ⟨row, unseen⟩ | ⟨v, old, seen, stored⟩
      · refine .inl ⟨by rw [updateRow_nodes_peer]; exact row, fun v inside => ?_⟩
        rw [Node.peer_peer, updateRow_sent, List.mem_append, List.mem_singleton]
        rcases mem_updateRow_updates.mp inside with old | rfl
        · have before := unseen v old
          rw [Node.peer_peer] at before
          exact .inl before
        · exact .inr rfl
      · refine .inr ⟨v, mem_updateRow_updates.mpr (.inl old), ?_, by rw [updateRow_nodes_peer]; exact stored⟩
        rw [Node.peer_peer] at seen
        rw [Node.peer_peer, updateRow_sent, List.mem_append, List.mem_singleton, not_or]
        exact ⟨seen, fun same => new (same ▸ old)⟩
  case later =>
    intro other v inside unsent same w under
    rcases node.eq_or_eq_peer other with rfl | rfl
    · rw [updateRow_sent, List.mem_append, List.mem_singleton, not_or] at unsent
      have old := (mem_updateRow_updates.mp inside).resolve_right unsent.2
      rw [updateRow_sent] at under
      rcases List.mem_append.mp under with before | isNew
      · exact inv.later _ v old unsent.1 same w before
      · obtain rfl := List.mem_singleton.mp isNew
        exact own v old same
    · rw [updateRow_sent_peer] at unsent under
      refine inv.later _ v ((mem_updateRow_updates.mp inside).resolve_right ?_) unsent same w under
      rintro rfl
      exact node.peer_ne (same.symm.trans mine)
  case first =>
    intro other all v inside
    rcases node.eq_or_eq_peer other with rfl | rfl
    · have before := inv.first other fun w old => all w (mem_updateRow_updates.mpr (.inl old))
      rcases mem_updateRow_updates.mp inside with old | rfl
      · exact before v old
      · rcases inv.stored other with ⟨row, -⟩ | ⟨w, old, -, -, stamp, -⟩
        · rwa [row] at later
        · rw [stamp] at later
          exact lt_trans (before w old) later
    · exact absurd ((all u (mem_updateRow_updates.mpr (.inr rfl))).symm.trans mine) node.peer_ne

end Update

section Deliver

variable {node : Node} {u : Update C V} {rest : List (Update C V)}

/-- An update of a row that another transaction has written is applied if the version came from the same
origin, or is not stamped later. -/
theorem handleUpdate_lastUpdateWins {session : ApplySession} {row : HeapVersion C V} (values : C → V)
    (other : row.xmin ≠ session.topTransactionId) :
    handleUpdate .lastUpdateWins true session row values (fun _ => true) =
      some (if row.origin = session.origin ∨ row.commitTs ≤ session.timestamp
        then ⟨values, session.topTransactionId, session.timestamp, session.origin⟩ else row) := by
  have all : heapModifyTuple row.values values (fun _ => true) = values := rfl
  by_cases same : row.origin = session.origin
  · simp [handleUpdate, getTupleOrigin, same, all]
  · simp only [handleUpdate, getTupleOrigin, tryResolveConflict, conflictResolveByTimestamp, same, other, all, ne_eq,
      not_false_eq_true, and_self, if_true, false_or]
    rcases lt_trichotomy session.timestamp row.commitTs with less | equal | greater
    · simp [compare_lt_iff_lt.mpr less, not_le_of_gt less]
    · simp [equal]
    · simp [compare_gt_iff_gt.mpr greater, le_of_lt greater]

/-- The state once an update has been taken from the other node's queue. -/
def State.delivered (s : State C V) (node : Node) (version : HeapVersion C V) (rest : List (Update C V)) :
    State C V where
  nodes := Function.update s.nodes node ⟨version, (s.nodes node).nextXid + 1⟩
  sent := Function.update s.sent node.peer rest
  updates := s.updates

theorem deliver_eq (fresh : (s.nodes node).version.xmin < (s.nodes node).nextXid)
    (delivered : deliver origins s node u rest = some next) :
    next = s.delivered node (if (s.nodes node).version.origin = origins.origin node ∨
        (s.nodes node).version.commitTs ≤ u.commitTs
      then ⟨u.values, (s.nodes node).nextXid, u.commitTs, origins.origin node⟩ else (s.nodes node).version) rest := by
  rw [deliver, handleUpdate_lastUpdateWins _ (Nat.ne_of_lt fresh), forward_remote] at delivered
  cases delivered
  have kept : Function.update (Function.update s.sent node.peer rest) node (s.sent node) =
      Function.update s.sent node.peer rest := by
    rw [Function.update_eq_self_iff, Function.update_of_ne node.peer_ne.symm]
  simp only [State.delivered, kept]

section Delivered

variable {version : HeapVersion C V}

theorem delivered_nodes : (s.delivered node version rest).nodes node = ⟨version, (s.nodes node).nextXid + 1⟩ :=
  Function.update_self ..

theorem delivered_nodes_peer : (s.delivered node version rest).nodes node.peer = s.nodes node.peer :=
  Function.update_of_ne node.peer_ne ..

theorem delivered_sent : (s.delivered node version rest).sent node = s.sent node :=
  Function.update_of_ne node.peer_ne.symm ..

theorem delivered_sent_peer : (s.delivered node version rest).sent node.peer = rest := Function.update_self ..

/-- A node that takes an update stores the latest of what it has seen then. -/
theorem inv_delivered (inv : Inv origins nodes s) (queue : s.sent node.peer = u :: rest)
    (fresh : version.xmin ≤ (s.nodes node).nextXid)
    (current : u.commitTs ≤ version.commitTs ∧ ∀ v ∈ s.updates, v ∉ s.sent node.peer → v.commitTs ≤ version.commitTs)
    (stored : ∃ v ∈ s.updates, v ∉ rest ∧ version.values = v.values ∧ version.commitTs = v.commitTs ∧
      (version.origin = origins.origin node → v.node = node.peer)) :
    Inv origins nodes (s.delivered node version rest) := by
  have order := inv.order node.peer
  rw [queue] at order
  have head := (List.pairwise_cons.mp order).1
  have sent : ∀ v ∈ rest, v ∈ s.sent node.peer := fun v inside => queue ▸ List.mem_cons_of_mem _ inside
  have unsent : ∀ v, v ∉ rest → v ≠ u → v ∉ s.sent node.peer := fun v outside other inside => by
    rw [queue] at inside
    exact (List.mem_cons.mp inside).elim other outside
  constructor
  case stamps => exact inv.stamps
  case sent =>
    intro other v inside
    rcases node.eq_or_eq_peer other with rfl | rfl
    · rw [delivered_sent] at inside
      exact inv.sent _ v inside
    · rw [delivered_sent_peer] at inside
      exact inv.sent _ v (sent v inside)
  case order =>
    intro other
    rcases node.eq_or_eq_peer other with rfl | rfl
    · rw [delivered_sent]
      exact inv.order _
    · rw [delivered_sent_peer]
      exact (List.pairwise_cons.mp order).2
  case fresh =>
    intro other
    rcases node.eq_or_eq_peer other with rfl | rfl
    · rw [delivered_nodes]
      exact Nat.lt_succ_of_le fresh
    · rw [delivered_nodes_peer]
      exact inv.fresh _
  case current =>
    intro other v inside outside
    rcases node.eq_or_eq_peer other with rfl | rfl
    · rw [delivered_sent_peer] at outside
      rw [delivered_nodes]
      by_cases same : v = u
      · rw [same]
        exact current.1
      · exact current.2 v inside (unsent v outside same)
    · rw [Node.peer_peer, delivered_sent] at outside
      rw [delivered_nodes_peer]
      exact inv.current _ v inside (by rw [Node.peer_peer]; exact outside)
  case stored =>
    intro other
    rcases node.eq_or_eq_peer other with rfl | rfl
    · refine .inr ?_
      rw [delivered_sent_peer, delivered_nodes]
      exact stored
    · have before := inv.stored node.peer
      unfold Stored at before ⊢
      rw [Node.peer_peer] at before ⊢
      rw [delivered_sent, delivered_nodes_peer]
      exact before
  case later =>
    intro other v inside outside same w under
    rcases node.eq_or_eq_peer other with rfl | rfl
    · rw [delivered_sent] at outside under
      exact inv.later _ v inside outside same w under
    · rw [delivered_sent_peer] at outside under
      by_cases isHead : v = u
      · rw [isHead]
        exact head w under
      · exact inv.later _ v inside (unsent v outside isHead) same w (sent w under)
  case first => exact inv.first

end Delivered

theorem inv_deliver (same : SameRow origins nodes) (inv : Inv origins nodes s)
    (queue : s.sent node.peer = u :: rest) (delivered : deliver origins s node u rest = some next) :
    Inv origins nodes next := by
  obtain rfl := deliver_eq (inv.fresh node) delivered
  have order := inv.order node.peer
  rw [queue] at order
  obtain ⟨inside, theirs⟩ := inv.sent node.peer u (by rw [queue]; exact List.mem_cons_self ..)
  have outside : u ∉ rest := fun again => lt_irrefl _ ((List.pairwise_cons.mp order).1 u again)
  split
  · next wins =>
    refine inv_delivered inv queue (le_refl _) ⟨le_refl _, fun v old seen => ?_⟩
      ⟨u, inside, outside, rfl, rfl, fun _ => theirs⟩
    rcases wins with origin | notLater
    · -- No timestamp was compared: the version is an earlier update of the same node, or the row at the start.
      rcases inv.stored node with ⟨-, unseen⟩ | ⟨w, stored, received, -, stamp, sameOrigin⟩
      · exact absurd (unseen v old) seen
      · have before := inv.later node.peer w stored received (sameOrigin origin) u
          (by rw [queue]; exact List.mem_cons_self ..)
        have bound := inv.current node v old seen
        rw [stamp] at bound
        exact le_of_lt (lt_of_le_of_lt bound before)
    · exact le_trans (inv.current node v old seen) notLater
  · next loses =>
    rw [not_or, not_le] at loses
    refine inv_delivered inv queue (le_of_lt (inv.fresh node))
      ⟨le_of_lt loses.2, fun v old seen => inv.current node v old seen⟩ ?_
    rcases inv.stored node with ⟨row, unseen⟩ | ⟨w, stored, received, values, stamp, sameOrigin⟩
    · -- The row at the start does not win over an update.
      have theirFirst := inv.first node.peer (fun v old => (inv.sent _ v (unseen v old)).2) u inside
      rw [row] at loses
      rcases same.stamped node with origin | notLater
      · exact absurd origin loses.1
      · exact absurd loses.2 (not_lt_of_ge (notLater u.commitTs theirFirst))
    · refine ⟨w, stored, fun again => received ?_, values, stamp, sameOrigin⟩
      rw [queue]
      exact List.mem_cons_of_mem _ again

end Deliver

theorem inv_step (same : SameRow origins nodes) {event : Event C V} (inv : Inv origins nodes s)
    (stamped : Stamped s event) (stepped : step origins s event = some next) : Inv origins nodes next := by
  cases event with
  | update node values commitTs =>
    cases stepped
    exact inv_updateRow inv rfl stamped.1 stamped.2
  | deliver node =>
    simp only [step] at stepped
    split at stepped
    · cases stepped
    · next u rest queue => exact inv_deliver same inv queue stepped

end Step

/-- A node to which everything is delivered holds the latest of all updates. -/
theorem Inv.latest {origins : Origins} {nodes : Node → NodeState C V} {s : State C V} (inv : Inv origins nodes s)
    {node : Node} (delivered : s.sent node.peer = []) :
    (s.updates = [] ∧ (s.nodes node).version = (nodes node).version) ∨
      ∃ u ∈ s.updates, (s.nodes node).version.values = u.values ∧ ∀ v ∈ s.updates, v.commitTs ≤ u.commitTs := by
  have seen : ∀ v ∈ s.updates, v.commitTs ≤ (s.nodes node).version.commitTs := fun v inside =>
    inv.current node v inside (by rw [delivered]; exact List.not_mem_nil)
  rcases inv.stored node with ⟨row, unseen⟩ | ⟨u, inside, -, values, stamp, -⟩
  · refine .inl ⟨List.eq_nil_iff_forall_not_mem.mpr fun v old => ?_, row⟩
    have under := unseen v old
    rw [delivered] at under
    cases under
  · exact .inr ⟨u, inside, values, fun v old => stamp ▸ seen v old⟩

/-- In every run of two nodes that start with the same row, once all updates are delivered both nodes
hold the values of the update with the greatest timestamp, and in any case the same values. -/
theorem last_update_wins_converges (origins : Origins) (nodes : Node → NodeState C V) (events : List (Event C V))
    (final : State C V) (same : SameRow origins nodes) (stamped : Permitted (step origins) Stamped (init nodes) events)
    (success : run (step origins) (init nodes) events = some final) (delivered : ∀ node, final.sent node = []) :
    (∀ u ∈ final.updates, (∀ v ∈ final.updates, v.commitTs ≤ u.commitTs) →
      ∀ node, (final.nodes node).version.values = u.values) ∧
    (final.nodes .a).version.values = (final.nodes .b).version.values := by
  have inv := run_invariant (inv_step same) (inv_init same) stamped success
  have holds : ∀ u ∈ final.updates, (∀ v ∈ final.updates, v.commitTs ≤ u.commitTs) →
      ∀ node, (final.nodes node).version.values = u.values := by
    intro u inside greatest node
    rcases inv.latest (delivered node.peer) with ⟨none, -⟩ | ⟨w, stored, values, latest⟩
    · rw [none] at inside
      cases inside
    · have stamp := le_antisymm (greatest w stored) (latest u inside)
      rw [values, inv.stamps w stored u inside stamp]
  refine ⟨holds, ?_⟩
  rcases inv.latest (delivered Node.a.peer) with ⟨none, rowA⟩ | ⟨u, inside, values, latest⟩
  · rcases inv.latest (delivered Node.b.peer) with ⟨-, rowB⟩ | ⟨w, stored, -⟩
    · rw [rowA, rowB]
      exact same.values .a
    · rw [none] at stored
      cases stored
  · rw [values, holds u inside latest .b]

instance Stamped.decidable (s : State C V) : ∀ event, Decidable (Stamped s event)
  | .update node _ commitTs => inferInstanceAs (Decidable ((s.nodes node).version.commitTs < commitTs ∧
      ∀ u ∈ s.updates, u.commitTs ≠ commitTs))
  | .deliver _ => isTrue trivial

def sampleOrigins : Origins := ⟨fun _ => 1, fun _ => by decide⟩

/-- One column; the row was written locally on the first node and replicated to the second. -/
def sampleRow : Node → NodeState Unit ℕ
  | .a => ⟨⟨fun _ => 0, 3, 1, invalidRepOriginId⟩, 4⟩
  | .b => ⟨⟨fun _ => 0, 8, 1, 1⟩, 9⟩

/-- Both nodes update the row before they receive anything, and the second one once more. -/
def sampleUpdates : List (Event Unit ℕ) :=
  [.update .a (fun _ => 5) 10, .update .b (fun _ => 6) 20, .deliver .b, .deliver .a, .update .b (fun _ => 7) 30,
    .deliver .a]

theorem last_update_wins_sample :
    ∃ final, run (step sampleOrigins) (init sampleRow) sampleUpdates = some final ∧
      ∀ node, (final.nodes node).version.values = fun _ => 7 := by
  have same : SameRow sampleOrigins sampleRow :=
    ⟨fun node => by cases node <;> rfl, fun node => .inr fun commitTs later => by cases node <;> exact le_of_lt later,
      fun node => by cases node <;> decide⟩
  refine ⟨_, rfl, fun node => ?_⟩
  refine (last_update_wins_converges sampleOrigins sampleRow sampleUpdates _ same (by decide) rfl
    (fun node => by cases node <;> rfl)).1 ⟨.b, fun _ => 7, 30⟩ ?_ ?_ node
  · exact List.mem_cons_of_mem _ (List.mem_cons_of_mem _ (List.mem_cons_self ..))
  · intro v inside
    rcases inside with _ | ⟨_, _ | ⟨_, _ | ⟨_, ⟨⟩⟩⟩⟩ <;> decide

/-! ## A copied row -/

/-- A single update gets lost where the other node's version is stamped later and has another origin. -/
theorem update_is_not_applied (origins : Origins) (nodes : Node → NodeState C V) (u : Update C V)
    (fresh : (nodes u.node.peer).version.xmin < (nodes u.node.peer).nextXid)
    (origin : (nodes u.node.peer).version.origin ≠ origins.origin u.node.peer)
    (earlier : u.commitTs < (nodes u.node.peer).version.commitTs) :
    run (step origins) (init nodes) [.update u.node u.values u.commitTs, .deliver u.node.peer] =
      some ((updateRow (init nodes) u.node u).delivered u.node.peer (nodes u.node.peer).version []) := by
  have before : (updateRow (init nodes) u.node u).nodes u.node.peer = nodes u.node.peer := updateRow_nodes_peer
  have queue : (updateRow (init nodes) u.node u).sent u.node.peer.peer = [u] := by
    rw [Node.peer_peer]
    exact updateRow_sent
  obtain ⟨final, delivered⟩ : ∃ final, deliver origins (updateRow (init nodes) u.node u) u.node.peer u [] = some final := by
    rw [deliver, handleUpdate_lastUpdateWins _ (by rw [before]; exact Nat.ne_of_lt fresh)]
    exact ⟨_, rfl⟩
  have kept := deliver_eq (by rw [before]; exact fresh) delivered
  rw [before, if_neg (not_or.mpr ⟨origin, not_le_of_gt earlier⟩)] at kept
  have second : step origins (updateRow (init nodes) u.node u) (.deliver u.node.peer) = some final := by
    rw [step, queue]
    exact delivered
  rw [kept] at second
  exact run_cons_eq_some_iff.mpr ⟨_, rfl, run_cons_eq_some_iff.mpr ⟨_, second, rfl⟩⟩

/-- The second node has got the row by COPY, which sets no origin and is stamped with its own time. -/
def copiedRow : Node → NodeState Unit ℕ
  | .a => ⟨⟨fun _ => 0, 3, 1, invalidRepOriginId⟩, 4⟩
  | .b => ⟨⟨fun _ => 0, 8, 10, invalidRepOriginId⟩, 9⟩

/-- An update that the first node has committed before the end of the copy. -/
def earlyUpdate : Update Unit ℕ := ⟨.a, fun _ => 5, 5⟩

/-- Both nodes start with the same values, and still the second one keeps the copied row when everything is
delivered. -/
theorem copied_row_diverges :
    (∀ node, (copiedRow node).version.values = (copiedRow node.peer).version.values) ∧
    Permitted (step sampleOrigins) Stamped (init copiedRow)
      [.update .a earlyUpdate.values earlyUpdate.commitTs, .deliver .b] ∧
    ∃ final, run (step sampleOrigins) (init copiedRow)
        [.update .a earlyUpdate.values earlyUpdate.commitTs, .deliver .b] = some final ∧
      (∀ node, final.sent node = []) ∧ final.updates = [earlyUpdate] ∧
      (final.nodes .b).version.values ≠ earlyUpdate.values := by
  refine ⟨fun node => by cases node <;> rfl, by decide, _, update_is_not_applied sampleOrigins copiedRow
    earlyUpdate (by decide) (by decide) (by decide), fun node => by cases node <;> rfl, rfl, fun same => ?_⟩
  exact absurd (congrFun same ()) (by decide)

end PGLogical.Bidirectional
