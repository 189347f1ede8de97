import PGLogical.Model.Mesh
import PGLogical.Soundness.Conflict

/-! # Convergence of any number of nodes

A subscriber's log holds the provider's own transactions once each and in their order, as far as the walsender has
come, and nothing that the provider has received itself. Every node stores the latest of the versions of a row that
its log names: a transaction from the origin of the stored version is applied without looking at time stamps, and
is later than that version because both come from the log of one provider. Once every log has been sent to everyone,
all logs name the same versions.
-/

namespace PGLogical.Mesh

open Machine

variable {ι κ C V : Type}

/-! ## Logs -/

/-- The transactions of an origin in a log. -/
def fromOrigin (originId : RepOriginId) (wal : List (RepOriginId × Transaction κ C V)) : List (Transaction κ C V) :=
  (wal.filter fun entry => entry.1 = originId).map Prod.snd

@[simp] theorem fromOrigin_nil (originId : RepOriginId) :
    fromOrigin originId ([] : List (RepOriginId × Transaction κ C V)) = [] := rfl

@[simp] theorem fromOrigin_append (originId : RepOriginId) (wal rest : List (RepOriginId × Transaction κ C V)) :
    fromOrigin originId (wal ++ rest) = fromOrigin originId wal ++ fromOrigin originId rest := by
  simp [fromOrigin]

@[simp] theorem fromOrigin_singleton_self (originId : RepOriginId) (txn : Transaction κ C V) :
    fromOrigin originId [(originId, txn)] = [txn] := by
  simp [fromOrigin]

theorem fromOrigin_singleton_of_ne {originId other : RepOriginId} (differ : other ≠ originId)
    (txn : Transaction κ C V) : fromOrigin originId [(other, txn)] = [] := by
  simp [fromOrigin, differ]

theorem mem_fromOrigin {originId : RepOriginId} {wal : List (RepOriginId × Transaction κ C V)}
    {txn : Transaction κ C V} : txn ∈ fromOrigin originId wal ↔ (originId, txn) ∈ wal := by
  simp [fromOrigin]

/-- What a subscriber has received is what its provider has sent. -/
structure Once (origins : Origins ι) (s : State ι κ C V) : Prop where
  position : ∀ provider subscriber, s.position provider subscriber ≤ (s.nodes provider).wal.length
  same : ∀ provider subscriber, provider ≠ subscriber →
    fromOrigin (origins.origin subscriber provider) (s.nodes subscriber).wal =
      fromOrigin invalidRepOriginId ((s.nodes provider).wal.take (s.position provider subscriber))
  known : ∀ node, ∀ entry ∈ (s.nodes node).wal, entry.1 = invalidRepOriginId ∨
    ∃ provider, provider ≠ node ∧ entry.1 = origins.origin node provider

theorem once_init (origins : Origins ι) (start : ι → κ → HeapVersion C V) (nextXid : ι → ℕ) :
    Once origins (init start nextXid) where
  position _ _ := le_rfl
  same _ _ _ := rfl
  known _ := nofun

/-- An entry at the end of a provider's log is not yet sent. -/
theorem take_append_of_le {wal : List (RepOriginId × Transaction κ C V)} {position : ℕ} (entry)
    (sent : position ≤ wal.length) : (wal ++ [entry]).take position = wal.take position :=
  List.take_append_of_le_length sent

section Advance

variable [DecidableEq ι] {s : State ι κ C V}

theorem advance_self (provider subscriber : ι) :
    s.advance provider subscriber provider subscriber = s.position provider subscriber + 1 := by
  simp [State.advance]

theorem advance_of_ne {provider subscriber other another : ι} (differ : (other, another) ≠ (provider, subscriber)) :
    s.advance provider subscriber other another = s.position other another := by
  unfold State.advance
  by_cases same : other = provider
  · subst same
    rw [Function.update_self, Function.update_of_ne]
    rintro rfl
    exact differ rfl
  · rw [Function.update_of_ne same]

end Advance

/-! ## Rows behind a transaction -/

section Rows

variable [DecidableEq κ]

/-- The last values that a transaction gives to a row. -/
def Transaction.last (txn : Transaction κ C V) (k : κ) : Option (C → V) := txn.changes.reverse.lookup k

theorem lookup_reverse_concat (changes : List (κ × (C → V))) (change : κ × (C → V)) (k : κ) :
    (changes ++ [change]).reverse.lookup k = if k = change.1 then some change.2 else changes.reverse.lookup k := by
  obtain ⟨row, values⟩ := change
  rw [List.reverse_concat, List.lookup_cons]
  by_cases same : k = row
  · simp [same]
  · rw [beq_false_of_ne same, if_neg same]

theorem writeRows_apply (xid : ℕ) (txn : Transaction κ C V) (rows : κ → HeapVersion C V) (k : κ) :
    writeRows xid txn rows k =
      (txn.last k).elim (rows k) fun values => ⟨values, xid, txn.commitTs, invalidRepOriginId⟩ := by
  obtain ⟨changes, ts⟩ := txn
  induction changes using List.reverseRecOn with
  | nil => rfl
  | append_singleton changes change ih =>
    simp only [writeRows, Transaction.last] at ih
    simp only [writeRows, Transaction.last, List.foldl_concat, lookup_reverse_concat]
    by_cases same : k = change.1
    · simp [same]
    · rw [Function.update_of_ne same, ih, if_neg same]

/-- Is a row overwritten that another transaction has written? -/
def Overwrites (session : ApplySession) (row : HeapVersion C V) : Prop :=
  row.origin = session.origin ∨ row.commitTs ≤ session.timestamp

instance (session : ApplySession) (row : HeapVersion C V) : Decidable (Overwrites session row) :=
  inferInstanceAs (Decidable (_ ∨ _))

/-- What a remote transaction leaves of a row. -/
def appliedRow (session : ApplySession) (row : HeapVersion C V) (last : Option (C → V)) : HeapVersion C V :=
  last.elim row fun values =>
    if Overwrites session row then ⟨values, session.topTransactionId, session.timestamp, session.origin⟩ else row

/-- A second change of a row finds what the first one has left: its own version, or the row that has won. -/
theorem handleUpdate_appliedRow {session : ApplySession} {row : HeapVersion C V} (last : Option (C → V))
    (values : C → V) (other : row.xmin ≠ session.topTransactionId) :
    handleUpdate .lastUpdateWins true session (appliedRow session row last) values (fun _ => true) =
      some (appliedRow session row (some values)) := by
  have first : handleUpdate .lastUpdateWins true session row values (fun _ => true) =
      some (appliedRow session row (some values)) := Bidirectional.handleUpdate_lastUpdateWins values other
  cases last with
  | none => exact first
  | some before =>
    by_cases wins : Overwrites session row
    · simp only [appliedRow, Option.elim, wins, if_true, handleUpdate, ne_eq, not_true_eq_false, false_and, if_false]
      rfl
    · simpa [appliedRow, wins] using first

theorem applyRows_apply {session : ApplySession} {changes : List (κ × (C → V))} {rows after : κ → HeapVersion C V}
    (other : ∀ k, (rows k).xmin ≠ session.topTransactionId) (applied : applyRows session changes rows = some after)
    (k : κ) : after k = appliedRow session (rows k) (changes.reverse.lookup k) := by
  induction changes using List.reverseRecOn generalizing after k with
  | nil =>
    cases applied
    rfl
  | append_singleton changes change ih =>
    rw [applyRows, List.foldlM_append, Option.bind_eq_bind, Option.bind_eq_some_iff] at applied
    obtain ⟨mid, before, applied⟩ := applied
    rw [List.foldlM_cons, ih before, handleUpdate_appliedRow _ _ (other _)] at applied
    cases applied
    rw [lookup_reverse_concat]
    by_cases same : k = change.1
    · subst same
      rw [Function.update_self, if_pos rfl]
    · rw [Function.update_of_ne same, if_neg same, ih before]

theorem appliedRow_fresh {session : ApplySession} {row : HeapVersion C V} (last : Option (C → V))
    (fresh : row.xmin < session.topTransactionId) :
    (appliedRow session row last).xmin < session.topTransactionId + 1 := by
  cases last with
  | none => exact fresh.trans (Nat.lt_succ_self _)
  | some values =>
    rw [appliedRow, Option.elim]
    split
    · exact Nat.lt_succ_self _
    · exact fresh.trans (Nat.lt_succ_self _)

end Rows

variable [DecidableEq ι] [DecidableEq κ]

/-! ## Steps -/

section Step

variable {origins : Origins ι} {s next : State ι κ C V}

/-- What a walsender's step can do: a local transaction is applied by the subscriber, another one skipped. -/
theorem stream_cases {provider subscriber : ι} (streamed : stream origins s provider subscriber = some next) :
    provider ≠ subscriber ∧ ∃ originId txn,
      (s.nodes provider).wal[s.position provider subscriber]? = some (originId, txn) ∧
      ((originId = invalidRepOriginId ∧ ∃ node, (s.nodes subscriber).apply (origins.origin subscriber provider) txn =
          some node ∧ next = ⟨Function.update s.nodes subscriber node, s.advance provider subscriber⟩) ∨
        (originId ≠ invalidRepOriginId ∧ next = ⟨s.nodes, s.advance provider subscriber⟩)) := by
  unfold stream at streamed
  split at streamed
  · cases streamed
  rename_i apart
  refine ⟨apart, ?_⟩
  split at streamed
  · cases streamed
  rename_i originId txn here
  refine ⟨originId, txn, here, ?_⟩
  by_cases isLocal : originId = invalidRepOriginId
  · left
    rw [if_pos (by simp [pglogicalTxnFilterHook, isLocal]), Option.map_eq_some_iff] at streamed
    obtain ⟨node, applied, rfl⟩ := streamed
    exact ⟨isLocal, node, applied, rfl⟩
  · right
    rw [if_neg (by simp [pglogicalTxnFilterHook, isLocal])] at streamed
    cases streamed
    exact ⟨isLocal, rfl⟩

theorem apply_wal {node after : NodeState κ C V} {originId : RepOriginId} {txn : Transaction κ C V}
    (applied : node.apply originId txn = some after) : after.wal = node.wal ++ [(originId, txn)] := by
  obtain ⟨rows, -, rfl⟩ := Option.map_eq_some_iff.mp applied
  rfl

theorem once_commit (once : Once origins s) (node : ι) (txn : Transaction κ C V) :
    Once origins { s with nodes := Function.update s.nodes node ((s.nodes node).write txn) } := by
  constructor
  case position =>
    intro provider subscriber
    have before := once.position provider subscriber
    by_cases here : provider = node
    · subst here
      simp only [Function.update_self, NodeState.write, List.length_append]
      omega
    · simpa only [Function.update_of_ne here] using before
  case same =>
    intro provider subscriber apart
    have received : fromOrigin (origins.origin subscriber provider)
        (Function.update s.nodes node ((s.nodes node).write txn) subscriber).wal =
          fromOrigin (origins.origin subscriber provider) (s.nodes subscriber).wal := by
      by_cases here : subscriber = node
      · subst here
        rw [Function.update_self, NodeState.write, fromOrigin_append,
          fromOrigin_singleton_of_ne (origins.valid subscriber provider).symm, List.append_nil]
      · rw [Function.update_of_ne here]
    have sent : (Function.update s.nodes node ((s.nodes node).write txn) provider).wal.take
        (s.position provider subscriber) = (s.nodes provider).wal.take (s.position provider subscriber) := by
      by_cases here : provider = node
      · subst here
        rw [Function.update_self]
        exact take_append_of_le _ (once.position provider subscriber)
      · rw [Function.update_of_ne here]
    rw [received, sent]
    exact once.same provider subscriber apart
  case known =>
    intro other entry inside
    dsimp only at inside
    by_cases here : other = node
    · subst here
      rw [Function.update_self] at inside
      rcases List.mem_append.mp inside with old | isNew
      · exact once.known other entry old
      · rw [List.mem_singleton.mp isNew]
        exact .inl rfl
    · rw [Function.update_of_ne here] at inside
      exact once.known other entry inside

theorem once_stream (once : Once origins s) {provider subscriber : ι}
    (streamed : stream origins s provider subscriber = some next) : Once origins next := by
  obtain ⟨apart, originId, txn, here, step⟩ := stream_cases streamed
  have inside : s.position provider subscriber < (s.nodes provider).wal.length :=
    (List.getElem?_eq_some_iff.mp here).1
  have taken : (s.nodes provider).wal.take (s.position provider subscriber + 1) =
      (s.nodes provider).wal.take (s.position provider subscriber) ++ [(originId, txn)] := by
    rw [List.take_add_one, here]
    rfl
  have come : ∀ other another, s.advance provider subscriber other another ≤ (s.nodes other).wal.length := by
    intro other another
    by_cases same : (other, another) = (provider, subscriber)
    · cases same
      rw [advance_self]
      omega
    · rw [advance_of_ne same]
      exact once.position other another
  rcases step with ⟨rfl, node, applied, rfl⟩ | ⟨remote, rfl⟩
  · have wal := apply_wal applied
    constructor
    case position =>
      intro other another
      have before := come other another
      dsimp only
      by_cases it : other = subscriber
      · subst it
        rw [Function.update_self, wal, List.length_append]
        omega
      · rwa [Function.update_of_ne it]
    case same =>
      intro other another differ
      have sent : (Function.update s.nodes subscriber node other).wal.take (s.position other another) =
          (s.nodes other).wal.take (s.position other another) := by
        by_cases it : other = subscriber
        · subst it
          rw [Function.update_self, wal]
          exact take_append_of_le _ (once.position other another)
        · rw [Function.update_of_ne it]
      dsimp only
      by_cases same : (other, another) = (provider, subscriber)
      · cases same
        rw [advance_self, Function.update_self, Function.update_of_ne apart, wal, taken, fromOrigin_append,
          fromOrigin_append, fromOrigin_singleton_self, fromOrigin_singleton_self,
          once.same provider subscriber apart]
      · rw [advance_of_ne same, sent, ← once.same other another differ]
        by_cases it : another = subscriber
        · subst it
          have foreign : origins.origin another provider ≠ origins.origin another other := fun equal =>
            same (by rw [origins.distinct another provider other equal])
          rw [Function.update_self, wal, fromOrigin_append, fromOrigin_singleton_of_ne foreign, List.append_nil]
        · rw [Function.update_of_ne it]
    case known =>
      intro other entry inside
      dsimp only at inside
      by_cases it : other = subscriber
      · subst it
        rw [Function.update_self, wal] at inside
        rcases List.mem_append.mp inside with old | isNew
        · exact once.known other entry old
        · rw [List.mem_singleton.mp isNew]
          exact .inr ⟨provider, apart, rfl⟩
      · rw [Function.update_of_ne it] at inside
        exact once.known other entry inside
  · refine ⟨come, fun other another differ => ?_, once.known⟩
    dsimp only
    by_cases same : (other, another) = (provider, subscriber)
    · cases same
      rw [advance_self, taken, fromOrigin_append, fromOrigin_singleton_of_ne remote, List.append_nil]
      exact once.same provider subscriber apart
    · rw [advance_of_ne same]
      exact once.same other another differ

theorem once_step (once : Once origins s) {event : Event ι κ C V} (stepped : step origins s event = some next) :
    Once origins next := by
  cases event with
  | commit node txn =>
    cases stepped
    exact once_commit once node txn
  | stream provider subscriber => exact once_stream once stepped

end Step

/-- In every run (without restarts of apply workers), a subscriber's log holds from each provider exactly the
provider's own transactions that the walsender has come past, once each and in their order, and nothing else is ever
received: no transaction comes back to its node or by way of a third one. -/
theorem mesh_exactly_once (origins : Origins ι) (start : ι → κ → HeapVersion C V) (nextXid : ι → ℕ)
    (events : List (Event ι κ C V)) {s : State ι κ C V}
    (success : run (step origins) (init start nextXid) events = some s) :
    (∀ provider subscriber, provider ≠ subscriber →
      fromOrigin (origins.origin subscriber provider) (s.nodes subscriber).wal =
        fromOrigin invalidRepOriginId ((s.nodes provider).wal.take (s.position provider subscriber))) ∧
    ∀ node, ∀ entry ∈ (s.nodes node).wal, entry.1 = invalidRepOriginId ∨
      ∃ provider, provider ≠ node ∧ entry.1 = origins.origin node provider := by
  have always : Permitted (step origins) (fun _ _ => True) (init start nextXid) events :=
    .of_forall (fun _ _ => trivial) _ _
  have once := run_invariant (fun inv _ stepped => once_step inv stepped) (once_init origins start nextXid) always success
  exact ⟨once.same, once.known⟩

/-! ## The latest version of a row -/

/-- The stored row is the latest version that the log names, or still the first one. -/
def Held (start row : HeapVersion C V) (wal : List (RepOriginId × Transaction κ C V)) (k : κ) : Prop :=
  ((∀ entry ∈ wal, entry.2.last k = none) ∧ row = start) ∨
  ∃ entry ∈ wal, entry.2.last k = some row.values ∧ row.commitTs = entry.2.commitTs ∧ row.origin = entry.1 ∧
    ∀ other ∈ wal, other.2.last k ≠ none → other.2.commitTs ≤ row.commitTs

section Held

variable {start row : HeapVersion C V} {wal : List (RepOriginId × Transaction κ C V)} {k : κ}
  {entry : RepOriginId × Transaction κ C V}

theorem Held.le (held : Held start row wal k) {ts : TimestampTz} (later : row.commitTs ≤ ts) :
    ∀ other ∈ wal, other.2.last k ≠ none → other.2.commitTs ≤ ts := by
  intro other inside changes
  rcases held with ⟨unchanged, -⟩ | ⟨-, -, -, -, -, latest⟩
  · exact absurd (unchanged other inside) changes
  · exact (latest other inside changes).trans later

theorem Held.unchanged (held : Held start row wal k) (keeps : entry.2.last k = none) :
    Held start row (wal ++ [entry]) k := by
  rcases held with ⟨unchanged, rfl⟩ | ⟨first, inside, values, stamp, origin, latest⟩
  · refine .inl ⟨fun other there => ?_, rfl⟩
    rcases List.mem_append.mp there with old | isNew
    · exact unchanged other old
    · rwa [List.mem_singleton.mp isNew]
  · refine .inr ⟨first, List.mem_append_left _ inside, values, stamp, origin, fun other there changes => ?_⟩
    rcases List.mem_append.mp there with old | isNew
    · exact latest other old changes
    · rw [List.mem_singleton.mp isNew] at changes
      exact absurd keeps changes

theorem held_overwritten {values : C → V} (changes : entry.2.last k = some values) (xmin : ℕ)
    (latest : ∀ other ∈ wal, other.2.last k ≠ none → other.2.commitTs ≤ entry.2.commitTs) :
    Held start ⟨values, xmin, entry.2.commitTs, entry.1⟩ (wal ++ [entry]) k := by
  refine .inr ⟨entry, List.mem_append_right _ (List.mem_singleton_self _), changes, rfl, rfl, fun other there also => ?_⟩
  rcases List.mem_append.mp there with old | isNew
  · exact latest other old also
  · rw [List.mem_singleton.mp isNew]

theorem Held.kept (held : Held start row wal k) (touched : ¬ ∀ other ∈ wal, other.2.last k = none)
    (later : entry.2.commitTs ≤ row.commitTs) : Held start row (wal ++ [entry]) k := by
  rcases held with ⟨unchanged, -⟩ | ⟨first, inside, values, stamp, origin, latest⟩
  · exact absurd unchanged touched
  · refine .inr ⟨first, List.mem_append_left _ inside, values, stamp, origin, fun other there changes => ?_⟩
    rcases List.mem_append.mp there with old | isNew
    · exact latest other old changes
    · rwa [List.mem_singleton.mp isNew]

/-- A version that is not overwritten is later, and none that the log has named before. -/
theorem held_applied {xid : ℕ} (entry : RepOriginId × Transaction κ C V)
    (held : Held start row wal k) (first : entry.2.last k ≠ none → start.commitTs ≤ entry.2.commitTs)
    (older : ∀ other ∈ wal, other.2.last k ≠ none → other.1 = entry.1 → entry.2.last k ≠ none →
      other.2.commitTs ≤ entry.2.commitTs) :
    Held start (appliedRow ⟨entry.1, entry.2.commitTs, xid⟩ row (entry.2.last k)) (wal ++ [entry]) k := by
  cases last : entry.2.last k with
  | none => exact held.unchanged last
  | some values =>
    have changes : entry.2.last k ≠ none := by simp [last]
    have overwritten (later : row.commitTs ≤ entry.2.commitTs) :
        Held start (appliedRow ⟨entry.1, entry.2.commitTs, xid⟩ row (some values)) (wal ++ [entry]) k := by
      rw [appliedRow, Option.elim, if_pos (.inr later)]
      exact held_overwritten last xid (held.le later)
    rcases le_or_gt row.commitTs entry.2.commitTs with later | earlier
    · exact overwritten later
    · rcases held with ⟨unchanged, rfl⟩ | ⟨stored, inside, current, stamp, origin, latest⟩
      · exact absurd (first changes) (not_le_of_gt earlier)
      · have foreign : row.origin ≠ entry.1 := fun equal =>
          absurd (stamp ▸ older stored inside (by simp [current]) (origin.symm.trans equal) changes)
            (not_le_of_gt earlier)
        rw [appliedRow, Option.elim, if_neg (by simp [Overwrites, foreign, earlier])]
        exact Held.kept (.inr ⟨stored, inside, current, stamp, origin, latest⟩)
          (fun unchanged => by simp [unchanged stored inside] at current) (le_of_lt earlier)

end Held

/-- Every node starts with the same rows, with the same time stamps. -/
structure SameRows (start : ι → κ → HeapVersion C V) (nextXid : ι → ℕ) : Prop where
  values : ∀ node other k, (start node k).values = (start other k).values
  stamped : ∀ node other k, (start node k).commitTs = (start other k).commitTs
  fresh : ∀ node k, (start node k).xmin < nextXid node

/-- Commit time stamps are distinct, and later than the versions that are overwritten. -/
def Stamped (s : State ι κ C V) : Event ι κ C V → Prop
  | .commit node txn => (∀ change ∈ txn.changes, ((s.nodes node).rows change.1).commitTs < txn.commitTs) ∧
      ∀ other, ∀ entry ∈ (s.nodes other).wal, entry.2.commitTs ≠ txn.commitTs
  | .stream _ _ => True

structure Inv (origins : Origins ι) (start : ι → κ → HeapVersion C V) (s : State ι κ C V) : Prop where
  once : Once origins s
  fresh : ∀ node k, ((s.nodes node).rows k).xmin < (s.nodes node).nextXid
  held : ∀ node k, Held (start node k) ((s.nodes node).rows k) (s.nodes node).wal k
  later : ∀ node, ∀ entry ∈ (s.nodes node).wal, ∀ k, entry.2.last k ≠ none →
    (start node k).commitTs < entry.2.commitTs
  /-- A node's own transactions are later than what its log has named before. -/
  order : ∀ node, (s.nodes node).wal.Pairwise fun entry own => own.1 = invalidRepOriginId →
    ∀ k, entry.2.last k ≠ none → own.2.last k ≠ none → entry.2.commitTs < own.2.commitTs
  stamps : ∀ node other txn also, (invalidRepOriginId, txn) ∈ (s.nodes node).wal →
    (invalidRepOriginId, also) ∈ (s.nodes other).wal → txn.commitTs = also.commitTs → txn = also

omit [DecidableEq ι] in
theorem inv_init {start : ι → κ → HeapVersion C V} {nextXid : ι → ℕ} (origins : Origins ι)
    (same : SameRows start nextXid) : Inv origins start (init start nextXid) where
  once := once_init origins start nextXid
  fresh := same.fresh
  held _ _ := .inl ⟨nofun, rfl⟩
  later _ := nofun
  order _ := .nil
  stamps _ _ _ _ := nofun

section Preservation

variable {origins : Origins ι} {start : ι → κ → HeapVersion C V} {nextXid : ι → ℕ} {s next : State ι κ C V}

omit [DecidableEq ι] in
theorem Inv.start_le (inv : Inv origins start s) (node : ι) (k : κ) :
    (start node k).commitTs ≤ ((s.nodes node).rows k).commitTs := by
  rcases inv.held node k with ⟨-, row⟩ | ⟨entry, inside, values, stamp, -⟩
  · rw [row]
  · rw [stamp]
    exact le_of_lt (inv.later node entry inside k (by simp [values]))

theorem mem_changes_of_last {txn : Transaction κ C V} {k : κ} {values : C → V} (last : txn.last k = some values) :
    (k, values) ∈ txn.changes := by
  obtain ⟨before, behind, split, -⟩ := List.lookup_eq_some_iff.mp last
  rw [← List.mem_reverse, split]
  simp

theorem write_rows (node : NodeState κ C V) (txn : Transaction κ C V) (k : κ) :
    (node.write txn).rows k = (txn.last k).elim (node.rows k) fun values =>
      ⟨values, node.nextXid, txn.commitTs, invalidRepOriginId⟩ :=
  writeRows_apply node.nextXid txn node.rows k

theorem inv_commit (inv : Inv origins start s) {node : ι} {txn : Transaction κ C V}
    (stamped : Stamped s (.commit node txn)) :
    Inv origins start { s with nodes := Function.update s.nodes node ((s.nodes node).write txn) } := by
  have overwrites : ∀ k, txn.last k ≠ none → ((s.nodes node).rows k).commitTs < txn.commitTs := by
    intro k changes
    obtain ⟨values, last⟩ := Option.ne_none_iff_exists'.mp changes
    exact stamped.1 (k, values) (mem_changes_of_last last)
  have seen : ∀ k, txn.last k ≠ none → ∀ entry ∈ (s.nodes node).wal, entry.2.last k ≠ none →
      entry.2.commitTs < txn.commitTs := by
    intro k changes entry inside also
    exact lt_of_le_of_lt ((inv.held node k).le le_rfl entry inside also) (overwrites k changes)
  constructor
  case once => exact once_commit inv.once node txn
  case fresh =>
    intro other k
    dsimp only
    by_cases here : other = node
    · subst here
      have before := inv.fresh other k
      rw [Function.update_self, write_rows, NodeState.write]
      cases txn.last k
      · exact before.trans (Nat.lt_succ_self _)
      · exact Nat.lt_succ_self _
    · rw [Function.update_of_ne here]
      exact inv.fresh other k
  case held =>
    intro other k
    dsimp only
    by_cases here : other = node
    · subst here
      rw [Function.update_self, write_rows]
      cases last : txn.last k with
      | none => exact (inv.held other k).unchanged last
      | some values =>
        have changes : (invalidRepOriginId, txn).2.last k = some values := last
        exact held_overwritten changes _ fun entry inside also => le_of_lt (seen k (by simp [last]) entry inside also)
    · rw [Function.update_of_ne here]
      exact inv.held other k
  case later =>
    intro other entry inside k changes
    dsimp only at inside
    by_cases here : other = node
    · subst here
      rw [Function.update_self] at inside
      rcases List.mem_append.mp inside with old | isNew
      · exact inv.later other entry old k changes
      · rw [List.mem_singleton.mp isNew] at changes ⊢
        exact lt_of_le_of_lt (inv.start_le other k) (overwrites k changes)
    · rw [Function.update_of_ne here] at inside
      exact inv.later other entry inside k changes
  case order =>
    intro other
    dsimp only
    by_cases here : other = node
    · subst here
      rw [Function.update_self]
      refine List.pairwise_append.mpr ⟨inv.order other, List.pairwise_singleton .., fun entry old own isNew => ?_⟩
      rw [List.mem_singleton.mp isNew]
      exact fun _ k changes also => seen k also entry old changes
    · rw [Function.update_of_ne here]
      exact inv.order other
  case stamps =>
    have cases : ∀ other own, (invalidRepOriginId, own) ∈
        (Function.update s.nodes node ((s.nodes node).write txn) other).wal →
        (invalidRepOriginId, own) ∈ (s.nodes other).wal ∨ own = txn := by
      intro other own inside
      by_cases here : other = node
      · subst here
        rw [Function.update_self] at inside
        rcases List.mem_append.mp inside with old | isNew
        · exact .inl old
        · exact .inr (Prod.mk.inj (List.mem_singleton.mp isNew)).2
      · rw [Function.update_of_ne here] at inside
        exact .inl inside
    intro one other own also inside there equal
    rcases cases one own inside with old | rfl <;> rcases cases other also there with old' | rfl
    · exact inv.stamps one other own also old old' equal
    · exact absurd equal (stamped.2 one _ old)
    · exact absurd equal.symm (stamped.2 other _ old')
    · rfl

omit [DecidableEq ι] in
/-- A subscriber's version from the origin of a transaction is older: both are in the provider's log. -/
theorem Inv.older (inv : Inv origins start s) {provider subscriber : ι} (apart : provider ≠ subscriber)
    {txn : Transaction κ C V} {k : κ} (changes : txn.last k ≠ none)
    (here : (s.nodes provider).wal[s.position provider subscriber]? = some (invalidRepOriginId, txn))
    {entry : RepOriginId × Transaction κ C V} (inside : entry ∈ (s.nodes subscriber).wal)
    (also : entry.2.last k ≠ none) (same : entry.1 = origins.origin subscriber provider) :
    entry.2.commitTs ≤ txn.commitTs := by
  have sent : (invalidRepOriginId, entry.2) ∈
      (s.nodes provider).wal.take (s.position provider subscriber) := by
    rw [← mem_fromOrigin, ← inv.once.same provider subscriber apart, mem_fromOrigin, ← same]
    exact inside
  have split := List.take_append_drop (s.position provider subscriber) (s.nodes provider).wal
  have order := inv.order provider
  rw [← split] at order
  have behind : (invalidRepOriginId, txn) ∈ (s.nodes provider).wal.drop (s.position provider subscriber) := by
    have first : ((s.nodes provider).wal.drop (s.position provider subscriber))[0]? =
        some (invalidRepOriginId, txn) := by
      rw [List.getElem?_drop, Nat.add_zero]
      exact here
    exact List.mem_of_getElem? first
  exact le_of_lt ((List.pairwise_append.mp order).2.2 _ sent _ behind rfl k also changes)

theorem inv_stream (same : SameRows start nextXid) (inv : Inv origins start s) {provider subscriber : ι}
    (streamed : stream origins s provider subscriber = some next) : Inv origins start next := by
  have once := once_stream inv.once streamed
  obtain ⟨apart, originId, txn, here, step⟩ := stream_cases streamed
  rcases step with ⟨rfl, node, applied, rfl⟩ | ⟨-, rfl⟩
  swap
  · exact ⟨once, inv.fresh, inv.held, inv.later, inv.order, inv.stamps⟩
  have wal := apply_wal applied
  obtain ⟨rows, ran, rfl⟩ := Option.map_eq_some_iff.mp applied
  have left := applyRows_apply (fun k => Nat.ne_of_lt (inv.fresh subscriber k)) ran
  have logged : (invalidRepOriginId, txn) ∈ (s.nodes provider).wal := List.mem_of_getElem? here
  constructor
  case once => exact once
  case fresh =>
    intro other k
    dsimp only
    by_cases it : other = subscriber
    · subst it
      rw [Function.update_self]
      dsimp only
      rw [left k]
      exact appliedRow_fresh _ (inv.fresh other k)
    · rw [Function.update_of_ne it]
      exact inv.fresh other k
  case held =>
    intro other k
    dsimp only
    by_cases it : other = subscriber
    · subst it
      rw [Function.update_self]
      dsimp only
      rw [left k]
      refine held_applied ⟨_, txn⟩ (inv.held other k) (fun changes => ?_) fun entry inside also origin changes =>
        inv.older apart changes here inside also origin
      rw [same.stamped other provider k]
      exact le_of_lt (inv.later provider _ logged k changes)
    · rw [Function.update_of_ne it]
      exact inv.held other k
  case later =>
    intro other entry inside k changes
    dsimp only at inside
    by_cases it : other = subscriber
    · subst it
      rw [Function.update_self, wal] at inside
      rcases List.mem_append.mp inside with old | isNew
      · exact inv.later other entry old k changes
      · rw [List.mem_singleton.mp isNew] at changes ⊢
        rw [same.stamped other provider k]
        exact inv.later provider _ logged k changes
    · rw [Function.update_of_ne it] at inside
      exact inv.later other entry inside k changes
  case order =>
    intro other
    dsimp only
    by_cases it : other = subscriber
    · subst it
      rw [Function.update_self, wal]
      refine List.pairwise_append.mpr ⟨inv.order other, List.pairwise_singleton .., fun entry _ own isNew => ?_⟩
      rw [List.mem_singleton.mp isNew]
      exact fun isLocal => absurd isLocal (origins.valid other provider)
    · rw [Function.update_of_ne it]
      exact inv.order other
  case stamps =>
    have own : ∀ other own, (invalidRepOriginId, own) ∈
        (Function.update s.nodes subscriber ⟨rows, (s.nodes subscriber).nextXid + 1,
          (s.nodes subscriber).wal ++ [(origins.origin subscriber provider, txn)]⟩ other).wal →
        (invalidRepOriginId, own) ∈ (s.nodes other).wal := by
      intro other own inside
      by_cases it : other = subscriber
      · subst it
        rw [Function.update_self] at inside
        rcases List.mem_append.mp inside with old | isNew
        · exact old
        · exact absurd (Prod.mk.inj (List.mem_singleton.mp isNew)).1 (origins.valid other provider).symm
      · rwa [Function.update_of_ne it] at inside
    exact fun one other txn also inside there => inv.stamps one other txn also (own one txn inside) (own other also there)

theorem inv_step (same : SameRows start nextXid) {event : Event ι κ C V} (inv : Inv origins start s)
    (stamped : Stamped s event) (stepped : step origins s event = some next) : Inv origins start next := by
  cases event with
  | commit node txn =>
    cases stepped
    exact inv_commit inv stamped
  | stream provider subscriber => exact inv_stream same inv stepped

end Preservation

/-! ## Everything sent -/

/-- The walsenders have come to the ends of the logs. -/
def Delivered (s : State ι κ C V) : Prop :=
  ∀ provider subscriber, provider ≠ subscriber → s.position provider subscriber = (s.nodes provider).wal.length

/-- Of the transactions that change a row, the one with the greatest time stamp. -/
structure Latest (s : State ι κ C V) (k : κ) (txn : Transaction κ C V) : Prop where
  committed : ∃ node, (invalidRepOriginId, txn) ∈ (s.nodes node).wal
  changes : txn.last k ≠ none
  greatest : ∀ node other, (invalidRepOriginId, other) ∈ (s.nodes node).wal → other.last k ≠ none →
    other.commitTs ≤ txn.commitTs

section Delivered

variable {origins : Origins ι} {start : ι → κ → HeapVersion C V} {s : State ι κ C V}

omit [DecidableEq ι] [DecidableEq κ] in
/-- What a log names has been committed somewhere. -/
theorem Once.committed (once : Once origins s) {node : ι} {entry : RepOriginId × Transaction κ C V}
    (inside : entry ∈ (s.nodes node).wal) : ∃ writer, (invalidRepOriginId, entry.2) ∈ (s.nodes writer).wal := by
  rcases once.known node entry inside with isLocal | ⟨provider, apart, origin⟩
  · exact ⟨node, isLocal ▸ inside⟩
  · have sent : entry.2 ∈ fromOrigin invalidRepOriginId
        ((s.nodes provider).wal.take (s.position provider node)) := by
      rw [← once.same provider node apart, mem_fromOrigin, ← origin]
      exact inside
    exact ⟨provider, List.mem_of_mem_take (mem_fromOrigin.mp sent)⟩

omit [DecidableEq κ] in
/-- What has been committed anywhere is named by every log. -/
theorem Once.logged (once : Once origins s) (delivered : Delivered s) {writer : ι} {txn : Transaction κ C V}
    (committed : (invalidRepOriginId, txn) ∈ (s.nodes writer).wal) (node : ι) :
    ∃ entry ∈ (s.nodes node).wal, entry.2 = txn := by
  by_cases own : writer = node
  · exact ⟨_, own ▸ committed, rfl⟩
  · have same := once.same writer node own
    rw [delivered writer node own, List.take_length] at same
    exact ⟨_, mem_fromOrigin.mp (same ▸ mem_fromOrigin.mpr committed), rfl⟩

/-- A node stores the latest of all transactions that change the row. -/
theorem Inv.latest (inv : Inv origins start s) (delivered : Delivered s) {k : κ} {txn : Transaction κ C V}
    (latest : Latest s k txn) (node : ι) : txn.last k = some ((s.nodes node).rows k).values := by
  obtain ⟨writer, committed⟩ := latest.committed
  obtain ⟨entry, inside, rfl⟩ := inv.once.logged delivered committed node
  rcases inv.held node k with ⟨unchanged, -⟩ | ⟨stored, there, values, stamp, -, greatest⟩
  · exact absurd (unchanged entry inside) latest.changes
  · obtain ⟨other, also⟩ := inv.once.committed there
    have equal : entry.2 = stored.2 := inv.stamps writer other _ _ committed also
      (le_antisymm (stamp ▸ greatest entry inside latest.changes) (latest.greatest other _ also (by simp [values])))
    rw [equal, values]

/-- Any node shows which transaction is the latest. -/
theorem Inv.exists_latest (inv : Inv origins start s) (delivered : Delivered s) (node : ι) (k : κ) :
    (∃ txn, Latest s k txn) ∨ ((∀ other txn, (invalidRepOriginId, txn) ∈ (s.nodes other).wal → txn.last k = none) ∧
      (s.nodes node).rows k = start node k) := by
  rcases inv.held node k with ⟨unchanged, row⟩ | ⟨stored, there, values, stamp, -, greatest⟩
  · refine .inr ⟨fun other txn committed => ?_, row⟩
    obtain ⟨entry, inside, rfl⟩ := inv.once.logged delivered committed node
    exact unchanged entry inside
  · refine .inl ⟨stored.2, inv.once.committed there, by simp [values], fun other txn committed changes => ?_⟩
    obtain ⟨entry, inside, rfl⟩ := inv.once.logged delivered committed node
    exact stamp ▸ greatest entry inside changes

end Delivered

/-- In every run of nodes that start with the same rows, stamped alike, once all logs have been sent to everyone,
each row has on every node the last values that the transaction with the greatest time stamp gives to it, or on
every node still its first values when no transaction has changed it. -/
theorem mesh_converges (origins : Origins ι) (start : ι → κ → HeapVersion C V) (nextXid : ι → ℕ)
    (events : List (Event ι κ C V)) {s : State ι κ C V} (same : SameRows start nextXid)
    (stamped : Permitted (step origins) Stamped (init start nextXid) events)
    (success : run (step origins) (init start nextXid) events = some s) (delivered : Delivered s) (k : κ) :
    (∃ txn, Latest s k txn ∧ ∀ node, txn.last k = some ((s.nodes node).rows k).values) ∨
    ((∀ node txn, (invalidRepOriginId, txn) ∈ (s.nodes node).wal → txn.last k = none) ∧
      ∀ node other, ((s.nodes node).rows k).values = (start other k).values) := by
  have inv := run_invariant (inv_step same) (inv_init origins same) stamped success
  by_cases changed : ∃ txn, Latest s k txn
  · obtain ⟨txn, latest⟩ := changed
    exact .inl ⟨txn, latest, inv.latest delivered latest⟩
  · right
    have untouched node := (inv.exists_latest delivered node k).resolve_left changed
    refine ⟨fun node => (untouched node).1 node, fun node other => ?_⟩
    rw [(untouched node).2]
    exact same.values node other k

instance Stamped.decidable [Fintype ι] (s : State ι κ C V) : ∀ event, Decidable (Stamped s event)
  | .commit node txn => inferInstanceAs (Decidable ((∀ change ∈ txn.changes,
      ((s.nodes node).rows change.1).commitTs < txn.commitTs) ∧
      ∀ other, ∀ entry ∈ (s.nodes other).wal, entry.2.commitTs ≠ txn.commitTs))
  | .stream _ _ => isTrue trivial

/-- Every node numbers its providers from one. -/
def sampleOrigins : Origins (Fin 3) where
  origin _ provider := UInt16.ofNat (provider + 1)
  valid _ provider := by revert provider; decide
  distinct _ provider other := by revert provider other; decide

/-- Two rows of one column. -/
def sampleRows : Fin 3 → Bool → HeapVersion Unit ℕ := fun _ _ => ⟨fun _ => 0, 3, 1, invalidRepOriginId⟩

def sampleCommits : List (Event (Fin 3) Bool Unit ℕ) :=
  [.commit 0 ⟨[(true, fun _ => 5), (false, fun _ => 6)], 20⟩, .commit 1 ⟨[(true, fun _ => 7), (true, fun _ => 8)], 10⟩]

/-- Two transactions of every log to every node. -/
def sampleStreams : List (Event (Fin 3) Bool Unit ℕ) :=
  (List.replicate 2 [(0, 1), (1, 0), (0, 2), (1, 2), (2, 0), (2, 1)]).flatten.map fun pair => .stream pair.1 pair.2

theorem mesh_exactly_once_sample : ∃ s, run (step sampleOrigins) (init sampleRows fun _ => 4)
    (sampleCommits ++ sampleStreams) = some s ∧
    fromOrigin (sampleOrigins.origin 2 1) (s.nodes 2).wal =
      fromOrigin invalidRepOriginId ((s.nodes 1).wal.take (s.position 1 2)) := by
  obtain ⟨s, success⟩ : ∃ s, run (step sampleOrigins) (init sampleRows fun _ => 4) (sampleCommits ++ sampleStreams) =
      some s := ⟨_, rfl⟩
  exact ⟨s, success, (mesh_exactly_once sampleOrigins sampleRows _ _ success).1 1 2 (by decide)⟩

theorem mesh_converges_sample : ∃ s, run (step sampleOrigins) (init sampleRows fun _ => 4)
    (sampleCommits ++ sampleStreams) = some s ∧
    ((∃ txn, Latest s true txn ∧ ∀ node, txn.last true = some ((s.nodes node).rows true).values) ∨
      ((∀ node txn, (invalidRepOriginId, txn) ∈ (s.nodes node).wal → txn.last true = none) ∧
        ∀ node other, ((s.nodes node).rows true).values = (sampleRows other true).values)) := by
  have same : SameRows sampleRows fun _ => 4 := ⟨fun _ _ _ => rfl, fun _ _ _ => rfl, fun _ _ => Nat.lt_succ_self 3⟩
  refine ⟨_, rfl, mesh_converges sampleOrigins sampleRows (fun _ => 4) (sampleCommits ++ sampleStreams) same
    (by decide) rfl ?_ true⟩
  unfold Delivered
  decide

end PGLogical.Mesh
