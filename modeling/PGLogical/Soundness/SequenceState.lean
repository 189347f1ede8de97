import PGLogical.Model.DependencyCheck
import PGLogical.Soundness.RepsetIdentity

/-! # Sequence records and memberships

Records of `sequence_state` are made when a sequence enters its first replication set and removed when
it leaves its last one; the invariant says that the two catalogs agree. It is shared by the run of
statements on sequences and by the event trigger, which takes dropped objects out of all their sets at
once. A relation that is given to `replication_set_add_sequence` has to be a sequence, which the
function does not check.
-/

namespace PGLogical.Sequences

open Wire (CString)
open Nodes (Environment)
open Repsets (Server TargetRel)
open Machine (run Permitted bind_eq_ok map_eq_ok guard_eq_ok)

variable {Node : Type} {env : Environment} {server : Server Node} {contents : Contents}
  {catalog next : Catalog Node}

/-! ## Lists of rows -/

section Rows

variable {α β : Type} [DecidableEq β]

/-- One row at most has the key. -/
theorem eraseP_eq_filter {key : α → β} {rows : List α} (once : (rows.map key).Nodup) (k : β) :
    rows.eraseP (fun row => decide (key row = k)) = rows.filter fun row => decide (key row ≠ k) := by
  induction rows with
  | nil => rfl
  | cons row rows ih =>
    obtain ⟨fresh, once⟩ := List.nodup_cons.mp once
    by_cases here : key row = k
    · have absent : ∀ other ∈ rows, key other ≠ k := fun other inside same =>
        fresh (List.mem_map.mpr ⟨other, inside, same.trans here.symm⟩)
      rw [List.eraseP_cons_of_pos (by simpa using here), List.filter_cons_of_neg (by simpa using here)]
      exact (List.filter_eq_self.mpr fun other inside => by simpa using absent other inside).symm
    · rw [List.eraseP_cons_of_neg (by simpa using here), List.filter_cons_of_pos (by simpa using here), ih once]

/-- Taking out, one after the other, the rows that a scan has found. -/
theorem foldl_eraseP_filter (key : α → β) (p : α → Bool) (respects : ∀ a b, key a = key b → p a = p b)
    (rows : List α) :
    (rows.filter p).foldl (fun left t => left.eraseP fun row => decide (key row = key t)) rows =
      rows.filter fun row => !p row := by
  induction rows with
  | nil => rfl
  | cons row rows ih =>
    cases hit : p row with
    | true => simp [hit, ih]
    | false =>
      have stays : ∀ (found left : List α), (∀ t ∈ found, p t = true) →
          found.foldl (fun left t => left.eraseP fun row => decide (key row = key t)) (row :: left) =
            row :: found.foldl (fun left t => left.eraseP fun row => decide (key row = key t)) left := by
        intro found
        induction found with
        | nil => exact fun _ _ => rfl
        | cons t found again =>
          intro left hits
          have other : key row ≠ key t := fun same => by
            rw [respects row t same, hits t (.head _)] at hit
            cases hit
          rw [List.foldl_cons, List.eraseP_cons_of_neg (by simpa using other), List.foldl_cons]
          exact again _ fun u inside => hits u (.tail _ inside)
      rw [List.filter_cons_of_neg (by simp [hit]), stays _ _ fun t inside => (List.mem_filter.mp inside).2, ih,
        List.filter_cons_of_pos (by simp [hit])]

end Rows

/-! ## The invariant -/

/-- The catalogs of nodes, sets, memberships and sequence records agree. -/
structure Consistent (catalog : Catalog Node) : Prop where
  nodes : Nodes.Inv catalog.nodes
  synced : ∀ sync ∈ catalog.nodes.localSyncStatus, ∃ sub ∈ catalog.nodes.subscription, sub.subId = sync.subid
  tableInSet : ∀ t ∈ catalog.repsetTable, ∃ repset ∈ catalog.nodes.replicationSet, repset.id = t.setid
  seqInSet : ∀ t ∈ catalog.repsetSeq, ∃ repset ∈ catalog.nodes.replicationSet, repset.id = t.1
  state : ∀ oid, oid ∈ catalog.sequenceState.map SeqStateTuple.seqoid ↔ ∃ setid, (setid, oid) ∈ catalog.repsetSeq
  once : (catalog.sequenceState.map SeqStateTuple.seqoid).Nodup

/-- In addition, what is in a set as a sequence is one, and every queued message names a set. -/
structure Inv (server : Server Node) (catalog : Catalog Node) : Prop extends Consistent catalog where
  oids : (catalog.relations.map fun target => target.rel.relid).Nodup
  sequence : ∀ t ∈ catalog.repsetSeq, ∃ target, catalog.heapOpen server t.2 = .ok target ∧ target.relkind = .sequence
  queued : ∀ message ∈ catalog.sequenceQueue, message.replicationSets ≠ []

theorem heapOpen_eq_ok_iff {oid : Oid} {target : TargetRel} : catalog.heapOpen server oid = .ok target ↔
    catalog.relations.find? (fun other => decide (other.rel.relid = oid)) = some target ∧
      target.relkind ≠ .index ∧ target.relkind ≠ .compositeType := by
  simp only [Catalog.heapOpen, Repsets.Server.heapOpen]
  cases catalog.relations.find? fun other => decide (other.rel.relid = oid) with
  | none => simp
  | some found =>
    by_cases index : found.relkind = .index
    · simp only [index, if_pos, Option.some.injEq, reduceCtorEq, false_iff]
      rintro ⟨rfl, other, -⟩
      exact other index
    · by_cases composite : found.relkind = .compositeType
      · simp only [composite, if_pos, Option.some.injEq, reduceCtorEq, if_false, false_iff]
        rintro ⟨rfl, -, other⟩
        exact other composite
      · simp only [index, composite, if_false, Except.ok.injEq, Option.some.injEq]
        exact ⟨fun same => by rw [← same]; exact ⟨rfl, index, composite⟩, And.left⟩

/-- A sequence that is there is opened. -/
theorem Inv.heapOpen_sequence (inv : Inv server catalog) {target : TargetRel} (inside : target ∈ catalog.relations)
    (sequence : target.relkind = .sequence) : catalog.heapOpen server target.rel.relid = .ok target := by
  refine heapOpen_eq_ok_iff.mpr ⟨?_, by simp [sequence], by simp [sequence]⟩
  cases first : catalog.relations.find? fun other => decide (other.rel.relid = target.rel.relid) with
  | none => simpa using List.find?_eq_none.mp first target inside
  | some other =>
    have same : other.rel.relid = target.rel.relid := by simpa using List.find?_some first
    rw [List.inj_on_of_nodup_map inv.oids (List.mem_of_find?_eq_some first) inside same]

/-- Fewer memberships, with the records that belong to them. -/
theorem Consistent.withMembers (inv : Consistent catalog) {members : List (Oid × Oid)} {states : List SeqStateTuple}
    (fewer : ∀ t ∈ members, t ∈ catalog.repsetSeq)
    (state : ∀ oid, oid ∈ states.map SeqStateTuple.seqoid ↔ ∃ setid, (setid, oid) ∈ members)
    (once : (states.map SeqStateTuple.seqoid).Nodup) :
    Consistent { catalog with repsetSeq := members, sequenceState := states } :=
  ⟨inv.nodes, inv.synced, inv.tableInSet, fun t inside => inv.seqInSet t (fewer t inside), state, once⟩

theorem Inv.withMembers (inv : Inv server catalog) {members : List (Oid × Oid)} {states : List SeqStateTuple}
    (fewer : ∀ t ∈ members, t ∈ catalog.repsetSeq)
    (state : ∀ oid, oid ∈ states.map SeqStateTuple.seqoid ↔ ∃ setid, (setid, oid) ∈ members)
    (once : (states.map SeqStateTuple.seqoid).Nodup) :
    Inv server { catalog with repsetSeq := members, sequenceState := states } :=
  ⟨inv.toConsistent.withMembers fewer state once, inv.oids, fun t inside => inv.sequence t (fewer t inside), inv.queued⟩

/-! ## Adding sequences -/

theorem createSequenceStateRecord_eq_ok {seqoid : Oid}
    (done : catalog.createSequenceStateRecord server contents seqoid = .ok next) :
    ∃ states, next = { catalog with sequenceState := states } ∧
      (∀ oid, oid ∈ states.map SeqStateTuple.seqoid ↔
        oid ∈ catalog.sequenceState.map SeqStateTuple.seqoid ∨ oid = seqoid) ∧
      ((catalog.sequenceState.map SeqStateTuple.seqoid).Nodup → (states.map SeqStateTuple.seqoid).Nodup) := by
  unfold Catalog.createSequenceStateRecord at done
  split at done
  · next present =>
    cases done
    have inside : seqoid ∈ catalog.sequenceState.map SeqStateTuple.seqoid := by simpa using present
    refine ⟨catalog.sequenceState, rfl, fun oid => ⟨.inl, ?_⟩, id⟩
    rintro (known | rfl)
    · exact known
    · exact inside
  · next absent =>
    obtain ⟨lastValue, -, done⟩ := bind_eq_ok.mp done
    cases done
    refine ⟨_, rfl, fun oid => by simp, fun once => ?_⟩
    have fresh : seqoid ∉ catalog.sequenceState.map SeqStateTuple.seqoid := by simpa using absent
    rw [List.map_append, List.map_singleton]
    refine List.nodup_append.mpr ⟨once, List.nodup_singleton _, fun a known b new same => ?_⟩
    obtain rfl : b = seqoid := by simpa using new
    exact fresh (same ▸ known)

theorem replicationSetAddSeq_eq_ok {setid seqoid : Oid}
    (done : catalog.replicationSetAddSeq server contents setid seqoid = .ok next) :
    (∃ repset ∈ catalog.nodes.replicationSet, repset.id = setid) ∧
      ∃ states, next = { catalog with
          repsetSeq := catalog.repsetSeq ++ [(setid, seqoid)], sequenceState := states } ∧
        (∀ oid, oid ∈ states.map SeqStateTuple.seqoid ↔
          oid ∈ catalog.sequenceState.map SeqStateTuple.seqoid ∨ oid = seqoid) ∧
        ((catalog.sequenceState.map SeqStateTuple.seqoid).Nodup → (states.map SeqStateTuple.seqoid).Nodup) := by
  unfold Catalog.replicationSetAddSeq at done
  obtain ⟨repset, found, done⟩ := bind_eq_ok.mp done
  obtain ⟨target, -, done⟩ := bind_eq_ok.mp done
  obtain ⟨-, done⟩ := guard_eq_ok.mp done
  obtain ⟨tracked, made, done⟩ := bind_eq_ok.mp done
  obtain ⟨rows, inserted, done⟩ := bind_eq_ok.mp done
  obtain ⟨states, rfl, state, once⟩ := createSequenceStateRecord_eq_ok made
  obtain ⟨-, rfl⟩ := Nodes.Catalog.insertUnique_eq_ok.mp inserted
  cases done
  obtain ⟨inside, rfl⟩ := Repsets.getReplicationSet_eq_ok found
  exact ⟨⟨repset, inside, rfl⟩, states, rfl, state, once⟩

/-- A permanent relation that is added has to be a sequence. -/
def IsSequence (server : Server Node) (catalog : Catalog Node) (seqoid : Oid) : Prop :=
  ∀ target, catalog.heapOpen server seqoid = .ok target → target.relpersistence = .permanent →
    target.relkind = .sequence

theorem Inv.replicationSetAddSeq (inv : Inv server catalog) {setid seqoid : Oid}
    (isSequence : IsSequence server catalog seqoid)
    (done : catalog.replicationSetAddSeq server contents setid seqoid = .ok next) :
    Inv server next ∧ next.relations = catalog.relations := by
  obtain ⟨target, opened, permanent⟩ : ∃ target, catalog.heapOpen server seqoid = .ok target ∧
      target.relpersistence = .permanent := by
    obtain ⟨repset, -, rest⟩ := bind_eq_ok.mp done
    obtain ⟨target, opened, rest⟩ := bind_eq_ok.mp rest
    exact ⟨target, opened, not_not.mp (guard_eq_ok.mp rest).1⟩
  obtain ⟨inSet, states, rfl, state, once⟩ := replicationSetAddSeq_eq_ok done
  refine ⟨⟨⟨inv.nodes, inv.synced, inv.tableInSet, fun t inside => ?_, fun oid => ?_, once inv.once⟩, inv.oids,
    fun t inside => ?_, inv.queued⟩, rfl⟩
  · rcases List.mem_append.mp inside with old | new
    · exact inv.seqInSet t old
    · rw [List.mem_singleton.mp new]
      exact inSet
  · rw [state, inv.state]
    simp only [List.mem_append, List.mem_singleton, Prod.mk.injEq]
    constructor
    · rintro (⟨other, old⟩ | rfl)
      · exact ⟨other, .inl old⟩
      · exact ⟨setid, .inr ⟨rfl, rfl⟩⟩
    · rintro ⟨other, old | ⟨-, same⟩⟩
      · exact .inl ⟨other, old⟩
      · exact .inr same
  · rcases List.mem_append.mp inside with old | new
    · exact inv.sequence t old
    · rw [List.mem_singleton.mp new]
      exact ⟨target, opened, isSequence target opened permanent⟩

theorem Inv.queueSequence (inv : Inv server catalog) {names : List CString} (named : names ≠ []) {nspname : CString}
    {rel : TargetRel} {lastValue : Int64} : Inv server (catalog.queueSequence names nspname rel lastValue) := by
  refine ⟨⟨inv.nodes, inv.synced, inv.tableInSet, inv.seqInSet, inv.state, inv.once⟩, inv.oids, inv.sequence,
    fun message inside => ?_⟩
  rcases List.mem_append.mp inside with old | new
  · exact inv.queued message old
  · rw [List.mem_singleton.mp new]
    exact named

theorem Inv.replicationSetAddSequence (inv : Inv server catalog) {repsetName : NameData} {reloid : Oid}
    {synchronize : Bool} (isSequence : IsSequence server catalog reloid)
    (done : pglogicalReplicationSetAddSequence server contents catalog repsetName reloid synchronize = .ok next) :
    Inv server next := by
  unfold pglogicalReplicationSetAddSequence at done
  obtain ⟨node, -, done⟩ := bind_eq_ok.mp done
  obtain ⟨repset, -, done⟩ := bind_eq_ok.mp done
  obtain ⟨rel, -, done⟩ := bind_eq_ok.mp done
  obtain ⟨added, adding, done⟩ := bind_eq_ok.mp done
  have after := (inv.replicationSetAddSeq isSequence adding).1
  split at done
  · obtain ⟨lastValue, -, done⟩ := bind_eq_ok.mp done
    cases done
    exact after.queueSequence (List.cons_ne_nil _ _)
  · cases done
    exact after

theorem Inv.addOneSequence (inv : Inv server catalog) {repset : PGLogicalRepSet} {nspname : CString}
    {synchronize : Bool} {existing : List Oid} {target : TargetRel} (inside : target ∈ catalog.relations)
    (done : addOneSequence server contents repset nspname synchronize existing catalog target = .ok next) :
    Inv server next ∧ next.relations = catalog.relations := by
  unfold Sequences.addOneSequence at done
  split at done
  · cases done
    exact ⟨inv, rfl⟩
  · next passed =>
    simp only [not_or, not_not] at passed
    obtain ⟨added, adding, done⟩ := bind_eq_ok.mp done
    have opened := inv.heapOpen_sequence inside passed.1
    obtain ⟨after, same⟩ := inv.replicationSetAddSeq
      (fun other found _ => by rw [Except.ok.inj (found.symm.trans opened)]; exact passed.1) adding
    split at done
    · obtain ⟨lastValue, -, done⟩ := bind_eq_ok.mp done
      cases done
      exact ⟨after.queueSequence (List.cons_ne_nil _ _), same⟩
    · cases done
      exact ⟨after, same⟩

theorem Inv.replicationSetAddAllSequences (inv : Inv server catalog) {repsetName : NameData}
    {nspNames : List CString} {synchronize : Bool}
    (done : pglogicalReplicationSetAddAllSequences server contents catalog repsetName nspNames synchronize = .ok next) :
    Inv server next := by
  unfold pglogicalReplicationSetAddAllSequences at done
  obtain ⟨node, -, done⟩ := bind_eq_ok.mp done
  obtain ⟨repset, -, done⟩ := bind_eq_ok.mp done
  refine @Machine.foldlM_invariant _ _ _ (Inv server) _ _ ?_ _ _ inv done
  intro state after nspname _ held round
  obtain ⟨nspoid, -, round⟩ := bind_eq_ok.mp round
  -- the scan goes on over the relations it began with
  refine (@Machine.foldlM_invariant _ _ _ (fun other => Inv server other ∧ other.relations = state.relations) _ _
    ?_ _ _ ⟨held, rfl⟩ round).1
  intro middle last target listed invariant added
  have inside : target ∈ middle.relations := by
    rw [invariant.2]
    exact (List.mem_filter.mp listed).1
  obtain ⟨again, same⟩ := invariant.1.addOneSequence inside added
  exact ⟨again, same.trans invariant.2⟩

/-! ## Removing sequences -/

theorem mem_map_filter_seqoid {states : List SeqStateTuple} {oid gone : Oid} :
    oid ∈ (states.filter fun seq => decide (seq.seqoid ≠ gone)).map SeqStateTuple.seqoid ↔
      oid ∈ states.map SeqStateTuple.seqoid ∧ oid ≠ gone := by
  simp only [List.mem_map, List.mem_filter, decide_eq_true_eq]
  constructor
  · rintro ⟨seq, ⟨old, apart⟩, rfl⟩
    exact ⟨⟨seq, old, rfl⟩, apart⟩
  · rintro ⟨⟨seq, old, rfl⟩, apart⟩
    exact ⟨seq, ⟨old, apart⟩, rfl⟩

/-- The record stays as long as there is a membership. -/
theorem removeSeqTuple_eq (once : (catalog.sequenceState.map SeqStateTuple.seqoid).Nodup) (t : Oid × Oid) :
    catalog.removeSeqTuple t = { catalog with
      repsetSeq := catalog.repsetSeq.erase t
      sequenceState := if (catalog.repsetSeq.erase t).any fun other => decide (other.2 = t.2) then
          catalog.sequenceState
        else catalog.sequenceState.filter fun seq => decide (seq.seqoid ≠ t.2) } := by
  unfold Catalog.removeSeqTuple Catalog.dropSequenceStateUnlessMember Catalog.dropSequenceStateRecord
    Catalog.sequenceHasReplicationSets
  cases (catalog.repsetSeq.erase t).any fun other => decide (other.2 = t.2) with
  | true => rfl
  | false => simp [eraseP_eq_filter once]

theorem Inv.removeSeqTuple (inv : Inv server catalog) (t : Oid × Oid) : Inv server (catalog.removeSeqTuple t) := by
  rw [removeSeqTuple_eq inv.once]
  have kept : ∀ other ∈ catalog.repsetSeq, other.2 ≠ t.2 → other ∈ catalog.repsetSeq.erase t := fun other old apart =>
    (List.mem_erase_of_ne fun same => apart (by rw [same])).mpr old
  refine inv.withMembers (fun other left => List.mem_of_mem_erase left) (fun oid => ?_) ?_
  · split
    · next member =>
      rw [inv.state]
      constructor
      · rintro ⟨setid, old⟩
        by_cases own : oid = t.2
        · obtain ⟨other, left, same⟩ : ∃ other ∈ catalog.repsetSeq.erase t, other.2 = t.2 := by
            simpa using member
          exact ⟨other.1, by rw [own, ← same]; exact left⟩
        · exact ⟨setid, kept _ old own⟩
      · rintro ⟨setid, left⟩
        exact ⟨setid, List.mem_of_mem_erase left⟩
    · next gone =>
      have alone : ∀ other ∈ catalog.repsetSeq.erase t, other.2 ≠ t.2 := fun other left same =>
        gone (List.any_eq_true.mpr ⟨other, left, decide_eq_true same⟩)
      rw [mem_map_filter_seqoid, inv.state]
      constructor
      · rintro ⟨⟨setid, old⟩, apart⟩
        exact ⟨setid, kept _ old apart⟩
      · rintro ⟨setid, left⟩
        exact ⟨⟨setid, List.mem_of_mem_erase left⟩, alone _ left⟩
  · split
    · exact inv.once
    · exact (inv.once.sublist (List.filter_sublist.map _))

theorem Inv.replicationSetRemoveSequence (inv : Inv server catalog) {repsetName : NameData} {seqoid : Oid}
    (done : pglogicalReplicationSetRemoveSequence catalog repsetName seqoid = .ok next) : Inv server next := by
  unfold pglogicalReplicationSetRemoveSequence at done
  obtain ⟨node, -, done⟩ := bind_eq_ok.mp done
  obtain ⟨repset, -, done⟩ := bind_eq_ok.mp done
  unfold Catalog.replicationSetRemoveSeq at done
  obtain ⟨found, -, done⟩ := bind_eq_ok.mp done
  obtain ⟨-, done⟩ := guard_eq_ok.mp done
  cases done
  exact inv.removeSeqTuple (repset.id, seqoid)

/-! ## Removing sets -/

/-- What is left when all memberships of some sets are gone. -/
structure Emptied (setids : List Oid) (before after : Catalog Node) : Prop where
  nodes : after.nodes = before.nodes
  repsetTable : after.repsetTable = before.repsetTable.filter fun t => decide (t.setid ∉ setids)
  repsetSeq : after.repsetSeq = before.repsetSeq.filter fun t => decide (t.1 ∉ setids)

theorem foldl_removeSeqTuple (rows : List (Oid × Oid)) (catalog : Catalog Node) :
    ∃ states, rows.foldl Catalog.removeSeqTuple catalog =
      { catalog with repsetSeq := rows.foldl List.erase catalog.repsetSeq, sequenceState := states } := by
  induction rows generalizing catalog with
  | nil => exact ⟨catalog.sequenceState, rfl⟩
  | cons t rows ih =>
    have first : ∃ states, catalog.removeSeqTuple t =
        { catalog with repsetSeq := catalog.repsetSeq.erase t, sequenceState := states } := by
      unfold Catalog.removeSeqTuple Catalog.dropSequenceStateUnlessMember Catalog.dropSequenceStateRecord
      split
      · exact ⟨_, rfl⟩
      · exact ⟨catalog.sequenceState, rfl⟩
    obtain ⟨states, same⟩ := first
    obtain ⟨last, rest⟩ := ih (catalog.removeSeqTuple t)
    refine ⟨last, ?_⟩
    rw [List.foldl_cons, rest, same]
    rfl

theorem foldl_erase_filter (rows : List (Oid × Oid)) (p : Oid × Oid → Bool) :
    (rows.filter p).foldl List.erase rows = rows.filter fun row => !p row := by
  rw [← foldl_eraseP_filter id p (fun a b same => congrArg p same) rows]
  congr
  funext left t
  rw [List.erase_eq_eraseP]
  congr
  funext row
  rw [beq_eq_decide, decide_eq_decide]
  exact eq_comm

theorem replicationSetRemoveAll_emptied (catalog : Catalog Node) (setid : Oid) :
    Emptied [setid] catalog (catalog.replicationSetRemoveAll setid) := by
  unfold Catalog.replicationSetRemoveAll Catalog.replicationSetRemoveSeqs
  obtain ⟨states, same⟩ := foldl_removeSeqTuple
    ((catalog.replicationSetRemoveTables setid).repsetSeq.filter fun t => decide (t.1 = setid))
    (catalog.replicationSetRemoveTables setid)
  rw [same, foldl_erase_filter]
  exact ⟨rfl, by simp [Catalog.replicationSetRemoveTables], by simp [Catalog.replicationSetRemoveTables]⟩

theorem Inv.foldl_removeSeqTuple (inv : Inv server catalog) (rows : List (Oid × Oid)) :
    Inv server (rows.foldl Catalog.removeSeqTuple catalog) := by
  induction rows generalizing catalog with
  | nil => exact inv
  | cons t rows ih => exact ih (inv.removeSeqTuple t)

theorem Inv.replicationSetRemoveAll (inv : Inv server catalog) (setid : Oid) :
    Inv server (catalog.replicationSetRemoveAll setid) := by
  have tables : Inv server (catalog.replicationSetRemoveTables setid) :=
    ⟨⟨inv.nodes, inv.synced, fun t inside => inv.tableInSet t (List.mem_filter.mp inside).1, inv.seqInSet, inv.state,
      inv.once⟩, inv.oids, inv.sequence, inv.queued⟩
  exact tables.foldl_removeSeqTuple _

theorem Emptied.trans {setids others : List Oid} {middle : Catalog Node} (first : Emptied setids catalog middle)
    (second : Emptied others middle next) : Emptied (setids ++ others) catalog next where
  nodes := second.nodes.trans first.nodes
  repsetTable := by
    rw [second.repsetTable, first.repsetTable, List.filter_filter]
    exact List.filter_congr fun t _ => by simp [Bool.and_comm]
  repsetSeq := by
    rw [second.repsetSeq, first.repsetSeq, List.filter_filter]
    exact List.filter_congr fun t _ => by simp [Bool.and_comm]

/-- One set after the other loses its tables and sequences. -/
theorem Inv.foldl_replicationSetRemoveAll (inv : Inv server catalog) (repsets : List PGLogicalRepSet) :
    Inv server (repsets.foldl (fun catalog repset => catalog.replicationSetRemoveAll repset.id) catalog) ∧
      Emptied (repsets.map PGLogicalRepSet.id) catalog
        (repsets.foldl (fun catalog repset => catalog.replicationSetRemoveAll repset.id) catalog) := by
  induction repsets generalizing catalog with
  | nil => exact ⟨inv, rfl, by simp, by simp⟩
  | cons repset repsets ih =>
    obtain ⟨last, emptied⟩ := ih (inv.replicationSetRemoveAll repset.id)
    exact ⟨last, (replicationSetRemoveAll_emptied catalog repset.id).trans emptied⟩

/-- The catalogs of nodes may change as long as the sets of the memberships stay. -/
theorem Inv.withNodes (inv : Inv server catalog) {nodes : Nodes.Catalog} (after : Nodes.Inv nodes)
    (synced : ∀ sync ∈ nodes.localSyncStatus, ∃ sub ∈ nodes.subscription, sub.subId = sync.subid)
    (tableInSet : ∀ t ∈ catalog.repsetTable, ∃ repset ∈ nodes.replicationSet, repset.id = t.setid)
    (seqInSet : ∀ t ∈ catalog.repsetSeq, ∃ repset ∈ nodes.replicationSet, repset.id = t.1) :
    Inv server (catalog.withNodes nodes) :=
  ⟨⟨after, synced, tableInSet, seqInSet, inv.state, inv.once⟩, inv.oids, inv.sequence, inv.queued⟩

/-- The sets can go once their memberships have. -/
theorem Inv.dropSets (inv : Inv server catalog) {setids : List Oid} {before : Catalog Node} {nodes : Nodes.Catalog}
    (consistent : Consistent before) (emptied : Emptied setids before catalog) (after : Nodes.Inv nodes)
    (synced : ∀ sync ∈ nodes.localSyncStatus, ∃ sub ∈ nodes.subscription, sub.subId = sync.subid)
    (kept : ∀ repset ∈ before.nodes.replicationSet, repset.id ∉ setids → repset ∈ nodes.replicationSet) :
    Inv server (catalog.withNodes nodes) := by
  refine inv.withNodes after synced (fun t inside => ?_) fun t inside => ?_
  · rw [emptied.repsetTable, List.mem_filter, decide_eq_true_eq] at inside
    obtain ⟨repset, present, same⟩ := consistent.tableInSet t inside.1
    exact ⟨repset, kept repset present (same ▸ inside.2), same⟩
  · rw [emptied.repsetSeq, List.mem_filter, decide_eq_true_eq] at inside
    obtain ⟨repset, present, same⟩ := consistent.seqInSet t inside.1
    exact ⟨repset, kept repset present (same ▸ inside.2), same⟩

/-- Fewer sets are still those of the local node. -/
theorem nodesInv_withSets {nodes : Nodes.Catalog} (inv : Nodes.Inv nodes) {sets : List PGLogicalRepSet}
    (owned : ∀ repset ∈ sets, ∃ row ∈ nodes.localNode, row.nodeLocalId = repset.nodeid) :
    Nodes.Inv { nodes with replicationSet := sets } :=
  ⟨inv.localNode, inv.interfaceKey, inv.subscriptionKey, inv.nodeInterface, inv.localIf, inv.originIf, inv.targetIf,
    inv.target, owned⟩

theorem Inv.dropReplicationSet (inv : Inv server catalog) {setName : NameData} {ifexists : Bool}
    (done : pglogicalDropReplicationSet catalog setName ifexists = .ok next) : Inv server next := by
  unfold pglogicalDropReplicationSet at done
  obtain ⟨node, -, done⟩ := bind_eq_ok.mp done
  split at done
  · next repset _ =>
    unfold Catalog.dropReplicationSet at done
    obtain ⟨known, -, done⟩ := bind_eq_ok.mp done
    cases done
    refine (inv.replicationSetRemoveAll repset.id).dropSets inv.toConsistent
      (replicationSetRemoveAll_emptied catalog repset.id) (nodesInv_withSets inv.nodes fun other inside => ?_)
      inv.synced fun other inside apart => ?_
    · exact inv.nodes.replicationSet other (List.mem_filter.mp inside).1
    · exact List.mem_filter.mpr ⟨inside, by simpa using apart⟩
  · split at done
    · cases done
      exact inv
    · cases done

/-- The sets that go with a node are its own. -/
theorem pglogicalDropNode_replicationSet {nodes after : Nodes.Catalog} {nodeName : NameData} {ifexists existed : Bool}
    {slots : List Nodes.ReplicationSlot} {node : Nodes.PGLogicalNode} (found : nodes.findNodeByName nodeName = some node)
    (done : Nodes.pglogicalDropNode env nodes nodeName ifexists slots = .ok (existed, after)) :
    after = { nodes with
      node := after.node
      nodeInterface := after.nodeInterface
      localNode := after.localNode
      replicationSet := nodes.replicationSet.filter fun repset => decide (repset.nodeid ≠ node.id) } := by
  unfold Nodes.pglogicalDropNode at done
  rw [found] at done
  obtain ⟨osubs, -, done⟩ := bind_eq_ok.mp done
  obtain ⟨tsubs, -, done⟩ := bind_eq_ok.mp done
  obtain ⟨-, done⟩ := guard_eq_ok.mp done
  obtain ⟨cut, localCut, done⟩ := bind_eq_ok.mp done
  obtain ⟨rows, -, rfl⟩ := Nodes.dropLocalRecord_eq_ok localCut
  obtain ⟨last, dropped, done⟩ := bind_eq_ok.mp done
  cases done
  obtain rfl := Nodes.Catalog.dropNode_eq_ok dropped
  rfl

theorem Inv.dropNode (inv : Inv server catalog) {nodeName : NameData} {ifexists : Bool}
    {slots : List Nodes.ReplicationSlot} (done : pglogicalDropNode env catalog nodeName ifexists slots = .ok next) :
    Inv server next := by
  unfold pglogicalDropNode at done
  obtain ⟨⟨existed, nodes⟩, dropped, done⟩ := bind_eq_ok.mp done
  have after := inv.nodes.dropNode dropped
  simp only at done
  split at done
  · next missing =>
    cases done
    have same : nodes = catalog.nodes := by
      unfold Nodes.pglogicalDropNode at dropped
      rw [missing] at dropped
      simp only at dropped
      split at dropped <;> cases dropped
      rfl
    rw [same] at after ⊢
    exact inv.withNodes after inv.synced inv.tableInSet inv.seqInSet
  · next node found =>
    cases done
    have same := pglogicalDropNode_replicationSet found dropped
    obtain ⟨removed, emptied⟩ := inv.foldl_replicationSetRemoveAll
      (catalog.nodes.replicationSet.filter fun repset => decide (repset.nodeid = node.id))
    refine removed.dropSets inv.toConsistent emptied after ?_ fun repset inside apart => ?_
    · rw [same]
      exact inv.synced
    · rw [same]
      refine List.mem_filter.mpr ⟨inside, ?_⟩
      simp only [ne_eq, decide_eq_true_eq]
      intro own
      exact apart (List.mem_map.mpr ⟨repset, List.mem_filter.mpr ⟨inside, decide_eq_true own⟩, rfl⟩)

/-! ## The other statements -/

theorem Inv.createNode (inv : Inv server catalog) {nodeName : NameData} {nodeDsn : CString} {id : Oid}
    {nodes : Nodes.Catalog} (done : Nodes.pglogicalCreateNode env catalog.nodes nodeName nodeDsn = .ok (id, nodes)) :
    Inv server (catalog.withNodes nodes) := by
  have after := inv.nodes.createNode done
  obtain ⟨node, nodeif, repsets, -, -, -, -, -, rfl⟩ := Nodes.pglogicalCreateNode_eq_ok done
  refine inv.withNodes after inv.synced (fun t inside => ?_) fun t inside => ?_
  · obtain ⟨repset, present, same⟩ := inv.tableInSet t inside
    exact ⟨repset, List.mem_append_left _ present, same⟩
  · obtain ⟨repset, present, same⟩ := inv.seqInSet t inside
    exact ⟨repset, List.mem_append_left _ present, same⟩

theorem checkLocalNode_eq_ok {localnode : Nodes.PGLogicalLocalNode} (found : catalog.checkLocalNode = .ok localnode) :
    ∃ row ∈ catalog.nodes.localNode, row.nodeLocalId = localnode.node.id := by
  unfold Repsets.Catalog.checkLocalNode at found
  obtain ⟨stored, search, found⟩ := bind_eq_ok.mp found
  obtain _ | stored := stored
  · cases found
  · cases found
    have got : catalog.nodes.getLocalNode = .ok localnode := by
      rw [Nodes.Catalog.getLocalNode, search]
      rfl
    obtain ⟨row, inside, same, -⟩ := Nodes.Catalog.getLocalNode_eq_ok got
    exact ⟨row, inside, same.symm⟩

theorem Inv.createReplicationSet (inv : Inv server catalog) {setName : NameData} {ri ru rd rt : Bool} {id : Oid}
    {made : Repsets.Catalog Node}
    (done : Repsets.pglogicalCreateReplicationSet env catalog.toCatalog setName ri ru rd rt = .ok (id, made)) :
    Inv server (catalog.withNodes made.nodes) := by
  unfold Repsets.pglogicalCreateReplicationSet at done
  obtain ⟨node, localNode, done⟩ := bind_eq_ok.mp done
  obtain ⟨⟨repset, nodes⟩, created, done⟩ := bind_eq_ok.mp done
  cases done
  obtain ⟨-, owner, rfl⟩ := Nodes.Catalog.createReplicationSet_eq_ok created
  refine inv.withNodes (nodesInv_withSets inv.nodes fun other inside => ?_) inv.synced (fun t inside => ?_)
    fun t inside => ?_
  · rcases List.mem_append.mp inside with old | new
    · exact inv.nodes.replicationSet other old
    · obtain ⟨row, present, same⟩ := checkLocalNode_eq_ok localNode
      rw [List.mem_singleton.mp new, owner]
      exact ⟨row, present, same⟩
  · obtain ⟨known, present, same⟩ := inv.tableInSet t inside
    exact ⟨known, List.mem_append_left _ present, same⟩
  · obtain ⟨known, present, same⟩ := inv.seqInSet t inside
    exact ⟨known, List.mem_append_left _ present, same⟩

theorem Inv.replicationSetAddTable (inv : Inv server catalog) {repsetName : Option NameData} {reloid : Option Oid}
    {synchronize : Option Bool} {attNames : Option (List CString)} {rowFilter : Option CString} {result : Bool}
    {tables : Server Node} {added : Repsets.Catalog Node}
    (done : Repsets.pglogicalReplicationSetAddTable tables catalog.toCatalog repsetName reloid synchronize attNames
      rowFilter = .ok (result, added)) : Inv server { catalog with toCatalog := added } := by
  unfold Repsets.pglogicalReplicationSetAddTable at done
  split at done
  · cases done
  · cases done
  · cases done
  · next name oid sync =>
    obtain ⟨node, -, done⟩ := bind_eq_ok.mp done
    obtain ⟨repset, -, done⟩ := bind_eq_ok.mp done
    obtain ⟨rel, -, done⟩ := bind_eq_ok.mp done
    obtain ⟨attList, -, done⟩ := bind_eq_ok.mp done
    obtain ⟨filter, -, done⟩ := bind_eq_ok.mp done
    obtain ⟨after, adding, done⟩ := bind_eq_ok.mp done
    obtain ⟨known, present, -, same, -, -, -, rfl⟩ := Repsets.replicationSetAddTable_eq_ok adding
    have listed : ∀ t ∈ catalog.repsetTable ++ [Repsets.Catalog.repSetTableTuple repset.id oid filter attList],
        ∃ other ∈ catalog.nodes.replicationSet, other.id = t.setid := by
      intro t inside
      rcases List.mem_append.mp inside with old | new
      · exact inv.tableInSet t old
      · rw [List.mem_singleton.mp new]
        exact ⟨known, present, by rw [same]; cases attList <;> rfl⟩
    cases done
    split <;> exact ⟨⟨inv.nodes, inv.synced, listed, inv.seqInSet, inv.state, inv.once⟩, inv.oids, inv.sequence, inv.queued⟩

/-- A relation that was found is found behind others. -/
theorem heapOpen_concat {oid : Oid} {target new : TargetRel} (opened : catalog.heapOpen server oid = .ok target) :
    Catalog.heapOpen server { catalog with relations := catalog.relations ++ [new] } oid = .ok target := by
  obtain ⟨found, kind⟩ := heapOpen_eq_ok_iff.mp opened
  exact heapOpen_eq_ok_iff.mpr ⟨by rw [List.find?_append, found, Option.some_or], kind⟩

theorem Inv.createRelation (inv : Inv server catalog) {target : TargetRel}
    (done : createRelation catalog target = .ok next) : Inv server next := by
  unfold Sequences.createRelation at done
  obtain ⟨rows, inserted, done⟩ := bind_eq_ok.mp done
  obtain ⟨fresh, rfl⟩ := Nodes.Catalog.insertUnique_eq_ok.mp inserted
  cases done
  refine ⟨⟨inv.nodes, inv.synced, inv.tableInSet, inv.seqInSet, inv.state, inv.once⟩, ?_, fun t inside => ?_, inv.queued⟩
  · rw [List.map_append, List.map_singleton]
    refine List.nodup_append.mpr ⟨inv.oids, List.nodup_singleton _, fun a old b new same => ?_⟩
    obtain ⟨other, inside, rfl⟩ := List.mem_map.mp old
    rw [List.mem_singleton] at new
    exact of_decide_eq_false (fresh other inside) (same.trans new)
  · obtain ⟨opened, found, sequence⟩ := inv.sequence t inside
    exact ⟨opened, heapOpen_concat found, sequence⟩

/-! ## The manager's pass -/

/-- The sets a pass finds for a recorded sequence, all of them the local node's. -/
theorem Consistent.owner_eq (consistent : Consistent catalog) {localnode : Nodes.PGLogicalLocalNode}
    (found : catalog.nodes.findLocalNode = .ok (some localnode)) {repset : PGLogicalRepSet}
    (inside : repset ∈ catalog.nodes.replicationSet) : repset.nodeid = localnode.node.id := by
  have got : catalog.nodes.getLocalNode = .ok localnode := by
    rw [Nodes.Catalog.getLocalNode, found]
    rfl
  obtain ⟨row, present, same, -⟩ := Nodes.Catalog.getLocalNode_eq_ok got
  obtain ⟨other, otherPresent, owned⟩ := consistent.nodes.replicationSet repset inside
  rw [consistent.nodes.localNode_eq present, List.mem_singleton] at otherPresent
  rw [same, ← owned, otherPresent]

theorem exists_getReplicationSet {setid : Oid}
    (listed : ∃ repset ∈ catalog.nodes.replicationSet, repset.id = setid) :
    ∃ repset, catalog.getReplicationSet setid = .ok repset := by
  obtain ⟨repset, present, same⟩ := listed
  unfold Repsets.Catalog.getReplicationSet
  split
  · exact ⟨_, rfl⟩
  · next missing => exact absurd (decide_eq_true same) (List.find?_eq_none.mp missing repset present)

/-- The sets of some memberships, looked up one by one. -/
theorem exists_repsets {α : Type} (key : α → Oid) (rows : List α)
    (listed : ∀ t ∈ rows, ∃ repset ∈ catalog.nodes.replicationSet, repset.id = key t) :
    ∃ repsets, (rows.mapM fun t => catalog.getReplicationSet (key t)) = .ok repsets ∧
      repsets.map PGLogicalRepSet.id = rows.map key ∧ ∀ repset ∈ repsets, repset ∈ catalog.nodes.replicationSet := by
  induction rows with
  | nil => exact ⟨[], rfl, rfl, fun _ inside => (List.not_mem_nil inside).elim⟩
  | cons t rows ih =>
    obtain ⟨first, found⟩ := exists_getReplicationSet (listed t (.head _))
    obtain ⟨repsets, rest, ids, inside⟩ := ih fun u member => listed u (.tail _ member)
    obtain ⟨firstInside, firstId⟩ := Repsets.getReplicationSet_eq_ok found
    refine ⟨first :: repsets, by rw [List.mapM_cons, found, rest]; rfl, by simp [ids, firstId], ?_⟩
    exact List.forall_mem_cons.mpr ⟨firstInside, inside⟩

theorem Consistent.getSeqReplicationSets (consistent : Consistent catalog) {localnode : Nodes.PGLogicalLocalNode}
    (found : catalog.nodes.findLocalNode = .ok (some localnode)) (seqoid : Oid) :
    ∃ repsets, catalog.getSeqReplicationSets localnode.node.id seqoid = .ok repsets ∧
      repsets.map PGLogicalRepSet.id = (catalog.repsetSeq.filter fun t => decide (t.2 = seqoid)).map Prod.fst ∧
      ∀ repset ∈ repsets, repset ∈ catalog.nodes.replicationSet := by
  obtain ⟨repsets, read, ids, inside⟩ := exists_repsets Prod.fst
    (catalog.repsetSeq.filter fun t => decide (t.2 = seqoid))
    fun t member => consistent.seqInSet t (List.mem_filter.mp member).1
  refine ⟨repsets, ?_, ids, inside⟩
  have all : repsets.filter (fun repset => decide (repset.nodeid = localnode.node.id)) = repsets :=
    List.filter_eq_self.mpr fun repset member => decide_eq_true (consistent.owner_eq found (inside repset member))
  rw [Catalog.getSeqReplicationSets, read]
  exact congrArg Except.ok all

/-- A message about a member has somewhere to go. -/
theorem Consistent.names_ne_nil (consistent : Consistent catalog) {localnode : Nodes.PGLogicalLocalNode}
    (found : catalog.nodes.findLocalNode = .ok (some localnode)) {setid seqoid : Oid}
    (member : (setid, seqoid) ∈ catalog.repsetSeq) {repsets : List PGLogicalRepSet}
    (read : catalog.getSeqReplicationSets localnode.node.id seqoid = .ok repsets) :
    repsets.map PGLogicalRepSet.name ≠ [] := by
  obtain ⟨all, readAll, ids, -⟩ := consistent.getSeqReplicationSets found seqoid
  obtain rfl := Except.ok.inj (read.symm.trans readAll)
  intro empty
  rw [List.map_eq_nil_iff] at empty
  rw [empty, List.map_nil, eq_comm, List.map_eq_nil_iff] at ids
  exact List.filter_eq_nil_iff.mp ids _ member (decide_eq_true rfl)

theorem Inv.updateSequenceState (inv : Inv server catalog) (seq : SeqStateTuple) :
    Inv server (catalog.updateSequenceState seq) := by
  have keys : (catalog.updateSequenceState seq).sequenceState.map SeqStateTuple.seqoid =
      catalog.sequenceState.map SeqStateTuple.seqoid := by
    simp only [Catalog.updateSequenceState, List.map_map]
    refine List.map_congr_left fun other _ => ?_
    simp only [Function.comp_apply]
    split
    · next same => exact same.symm
    · rfl
  refine ⟨⟨inv.nodes, inv.synced, inv.tableInSet, inv.seqInSet, fun oid => ?_, ?_⟩, inv.oids, inv.sequence, inv.queued⟩
  · rw [keys]
    exact inv.state oid
  · rw [keys]
    exact inv.once

theorem Inv.synchronizeSequences (inv : Inv server catalog) {ret : Bool}
    (done : synchronizeSequences server contents catalog = .ok (ret, next)) : Inv server next := by
  unfold Sequences.synchronizeSequences at done
  obtain ⟨stored, found, done⟩ := bind_eq_ok.mp done
  obtain _ | localnode := stored
  · cases done
    exact inv
  · have kept := @Machine.foldlM_invariant _ _ _ (fun state : Bool × Catalog Node => Inv server state.2 ∧
      state.2.nodes = catalog.nodes ∧ state.2.repsetSeq = catalog.repsetSeq)
      (synchronizeOne server contents localnode.node.id) catalog.sequenceState ?_ (true, catalog) (ret, next)
      ⟨inv, rfl, rfl⟩ done
    · exact kept.1
    · intro state after seq listed held round
      obtain ⟨held, sameNodes, sameSeqs⟩ := held
      unfold synchronizeOne at round
      obtain ⟨rel, -, round⟩ := bind_eq_ok.mp round
      obtain ⟨lastValue, -, round⟩ := bind_eq_ok.mp round
      split at round
      · cases round
        exact ⟨held, sameNodes, sameSeqs⟩
      · obtain ⟨repsets, read, round⟩ := bind_eq_ok.mp round
        cases round
        refine ⟨(held.updateSequenceState _).queueSequence ?_, sameNodes, sameSeqs⟩
        obtain ⟨setid, member⟩ := (inv.state seq.seqoid).mp (List.mem_map.mpr ⟨seq, listed, rfl⟩)
        rw [← sameNodes] at found
        exact (held.updateSequenceState _).names_ne_nil found (by rw [← sameSeqs] at member; exact member) read

end PGLogical.Sequences
