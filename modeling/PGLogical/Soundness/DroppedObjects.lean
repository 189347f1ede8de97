import PGLogical.Soundness.SequenceState

/-! # The effect of the event trigger

Where the catalogs agree, the event trigger either raises an error or takes every dropped table and
every dropped sequence out of all sets that hold it as what it is: the scan for the sets of an object
finds all of them, and removing them one by one empties the scan.
-/

namespace PGLogical.Sequences

open Wire (CString)
open Repsets (Server TargetRel)
open Machine (bind_eq_ok)

variable {Node : Type} {server : Server Node} {catalog next : Catalog Node} {stmt : ParseTree} {replica : Bool}
  {dropped : List DroppedObject} {object : DroppedObject} {localnode : Nodes.PGLogicalLocalNode}

/-! ## Members among dropped objects -/

namespace Catalog

/-- The object is in a replication set, as a table or as a sequence. -/
def InSet (catalog : Catalog Node) (object : DroppedObject) : Prop :=
  (∃ t ∈ catalog.repsetTable, t.reloid = object.objid) ∨ ∃ t ∈ catalog.repsetSeq, t.2 = object.objid

/-- It is in a set as what it is. -/
def InOwnSet (catalog : Catalog Node) (object : DroppedObject) : Prop :=
  match object.objectType with
  | .table => ∃ t ∈ catalog.repsetTable, t.reloid = object.objid
  | .sequence => ∃ t ∈ catalog.repsetSeq, t.2 = object.objid

/-- A table in a set as a sequence, or a sequence as a table. -/
def InOtherSet (catalog : Catalog Node) (object : DroppedObject) : Prop :=
  match object.objectType with
  | .table => ∃ t ∈ catalog.repsetSeq, t.2 = object.objid
  | .sequence => ∃ t ∈ catalog.repsetTable, t.reloid = object.objid

theorem inSet_iff : catalog.InSet object ↔ catalog.InOwnSet object ∨ catalog.InOtherSet object := by
  unfold InSet InOwnSet InOtherSet
  cases object.objectType with
  | table => exact Iff.rfl
  | sequence => exact or_comm

end Catalog

def DroppedObject.rangeVar (object : DroppedObject) : RangeVar := ⟨object.schemaName, object.objectName⟩

/-! ## One dropped object -/

namespace Catalog

/-- The sets the trigger looks at. -/
def ownSets (catalog : Catalog Node) (object : DroppedObject) : List Oid :=
  match object.objectType with
  | .table => (catalog.repsetTable.filter fun t => decide (t.reloid = object.objid)).map RepSetTableTuple.setid
  | .sequence => (catalog.repsetSeq.filter fun t => decide (t.2 = object.objid)).map Prod.fst

/-- The object is in none of them any more. -/
def leaveSets (catalog : Catalog Node) (object : DroppedObject) : Catalog Node :=
  match object.objectType with
  | .table => { catalog with repsetTable := catalog.repsetTable.filter fun t => decide (t.reloid ≠ object.objid) }
  | .sequence => { catalog with
      repsetSeq := catalog.repsetSeq.filter fun t => decide (t.2 ≠ object.objid)
      sequenceState := catalog.sequenceState.filter fun seq => decide (seq.seqoid ≠ object.objid) }

/-- The catalogs behind one object. -/
def passObject (remove : Bool) (catalog : Catalog Node) (object : DroppedObject) : Catalog Node :=
  (if remove then catalog.leaveSets object else catalog).dropTableSyncStatus object.schemaName object.objectName

theorem ownSets_eq_nil_iff : catalog.ownSets object = [] ↔ ¬catalog.InOwnSet object := by
  unfold ownSets InOwnSet
  cases object.objectType <;>
    simp only [List.map_eq_nil_iff, List.filter_eq_nil_iff, decide_eq_true_eq, not_exists, not_and]

instance decidableInOwnSet : Decidable (catalog.InOwnSet object) :=
  decidable_of_iff (catalog.ownSets object ≠ []) (by rw [ne_eq, ownSets_eq_nil_iff, not_not])

end Catalog

theorem Consistent.getReplicationSets (consistent : Consistent catalog)
    (found : catalog.nodes.findLocalNode = .ok (some localnode)) (object : DroppedObject) :
    ∃ repsets, catalog.getReplicationSets localnode.node.id object = .ok repsets ∧
      repsets.map PGLogicalRepSet.id = catalog.ownSets object ∧
      ∀ repset ∈ repsets, repset ∈ catalog.nodes.replicationSet := by
  unfold Catalog.getReplicationSets Catalog.ownSets
  cases object.objectType with
  | sequence => exact consistent.getSeqReplicationSets found object.objid
  | table =>
    obtain ⟨repsets, read, ids, inside⟩ := exists_repsets RepSetTableTuple.setid
      (catalog.repsetTable.filter fun t => decide (t.reloid = object.objid)) fun t member =>
        consistent.tableInSet t (List.mem_filter.mp member).1
    refine ⟨repsets, ?_, ids, inside⟩
    have all : repsets.filter (fun repset => decide (repset.nodeid = localnode.node.id)) = repsets :=
      List.filter_eq_self.mpr fun repset member => decide_eq_true (consistent.owner_eq found (inside repset member))
    simp only [Catalog.getTableReplicationSets]
    rw [read]
    exact congrArg Except.ok all

/-- The loop over the sets of a table. -/
theorem foldlM_removeTable (table : object.objectType = .table) (repsets : List PGLogicalRepSet) (catalog : Catalog Node) :
    repsets.foldlM (fun catalog repset => catalog.removeFromSet object repset) catalog =
      .ok { catalog with
        repsetTable := (repsets.map PGLogicalRepSet.id).foldl
          (fun left setid => left.eraseP fun t => decide (t.setid = setid ∧ t.reloid = object.objid))
          catalog.repsetTable } := by
  induction repsets generalizing catalog with
  | nil => rfl
  | cons repset repsets ih =>
    rw [List.foldlM_cons, Catalog.removeFromSet, table]
    exact ih _

/-- The loop over the sets of a sequence. -/
theorem foldlM_removeSeq (sequence : object.objectType = .sequence) (repsets : List PGLogicalRepSet)
    (catalog : Catalog Node) (inside : ∀ repset ∈ repsets, repset ∈ catalog.nodes.replicationSet) :
    repsets.foldlM (fun catalog repset => catalog.removeFromSet object repset) catalog =
      .ok { catalog with
        repsetSeq := (repsets.map PGLogicalRepSet.id).foldl (fun left setid => left.erase (setid, object.objid))
          catalog.repsetSeq
        sequenceState := repsets.foldl
          (fun left _ => left.eraseP fun seq => decide (seq.seqoid = object.objid)) catalog.sequenceState } := by
  induction repsets generalizing catalog with
  | nil => rfl
  | cons repset repsets ih =>
    obtain ⟨found, search⟩ := exists_getReplicationSet ⟨repset, inside repset (.head _), rfl⟩
    have removed : catalog.removeFromSet object repset = .ok { catalog with
        repsetSeq := catalog.repsetSeq.erase (repset.id, object.objid)
        sequenceState := catalog.sequenceState.eraseP fun seq => decide (seq.seqoid = object.objid) } := by
      simp only [Catalog.removeFromSet, sequence, Catalog.replicationSetRemoveSeq]
      rw [search]
      simp [bind, Except.bind, pure, Except.pure, Catalog.dropSequenceStateUnlessMember, Catalog.dropSequenceStateRecord]
    rw [List.foldlM_cons, removed]
    exact ih _ fun other member => inside other (.tail _ member)

/-- The same record is looked for once for each set. -/
theorem foldl_eraseP_state {states : List SeqStateTuple} (once : (states.map SeqStateTuple.seqoid).Nodup) (oid : Oid)
    {repsets : List PGLogicalRepSet} (nonempty : repsets ≠ []) :
    repsets.foldl (fun left _ => left.eraseP fun seq => decide (seq.seqoid = oid)) states =
      states.filter fun seq => decide (seq.seqoid ≠ oid) := by
  have again : ∀ repsets : List PGLogicalRepSet,
      repsets.foldl (fun left _ => left.eraseP fun seq => decide (seq.seqoid = oid))
        (states.filter fun seq => decide (seq.seqoid ≠ oid)) =
      states.filter fun seq => decide (seq.seqoid ≠ oid) := by
    intro repsets
    induction repsets with
    | nil => rfl
    | cons repset repsets ih =>
      rw [List.foldl_cons, List.eraseP_of_forall_not, ih]
      intro seq inside
      simpa using (List.mem_filter.mp inside).2
  obtain _ | ⟨repset, repsets⟩ := repsets
  · exact absurd rfl nonempty
  · rw [List.foldl_cons, eraseP_eq_filter once, again]

/-- The loop over the sets takes the object out of all of them. -/
theorem Consistent.foldlM_removeFromSet (consistent : Consistent catalog) {repsets : List PGLogicalRepSet}
    (ids : repsets.map PGLogicalRepSet.id = catalog.ownSets object)
    (inside : ∀ repset ∈ repsets, repset ∈ catalog.nodes.replicationSet) :
    repsets.foldlM (fun catalog repset => catalog.removeFromSet object repset) catalog =
      .ok (catalog.leaveSets object) := by
  cases kind : object.objectType with
  | table =>
    have rows : (repsets.map PGLogicalRepSet.id).foldl
        (fun left setid => left.eraseP fun t => decide (t.setid = setid ∧ t.reloid = object.objid))
        catalog.repsetTable = catalog.repsetTable.filter fun t => decide (t.reloid ≠ object.objid) := by
      have scanned := foldl_eraseP_filter (fun t : RepSetTableTuple Node => (t.setid, t.reloid))
        (fun t => decide (t.reloid = object.objid)) (fun a b same => by simp [(Prod.mk.inj same).2]) catalog.repsetTable
      rw [ids, Catalog.ownSets, kind, List.foldl_map]
      simp only [ne_eq, decide_not]
      rw [← scanned]
      refine List.foldl_ext _ _ _ fun left t member => ?_
      have own : t.reloid = object.objid := by simpa using (List.mem_filter.mp member).2
      simp [own]
    rw [foldlM_removeTable kind, rows, Catalog.leaveSets, kind]
  | sequence =>
    have rows : (repsets.map PGLogicalRepSet.id).foldl (fun left setid => left.erase (setid, object.objid))
        catalog.repsetSeq = catalog.repsetSeq.filter fun t => decide (t.2 ≠ object.objid) := by
      have scanned := foldl_erase_filter catalog.repsetSeq fun t => decide (t.2 = object.objid)
      rw [ids, Catalog.ownSets, kind, List.foldl_map]
      simp only [ne_eq, decide_not]
      rw [← scanned]
      refine List.foldl_ext _ _ _ fun left t member => ?_
      have own : t.2 = object.objid := by simpa using (List.mem_filter.mp member).2
      rw [← own]
    have states : repsets.foldl (fun left _ => left.eraseP fun seq => decide (seq.seqoid = object.objid))
        catalog.sequenceState = catalog.sequenceState.filter fun seq => decide (seq.seqoid ≠ object.objid) := by
      by_cases empty : repsets = []
      · -- without a membership there is no record
        rw [empty, List.map_nil, eq_comm, Catalog.ownSets_eq_nil_iff] at ids
        rw [empty, List.foldl_nil]
        refine (List.filter_eq_self.mpr fun seq member => ?_).symm
        simp only [ne_eq, decide_eq_true_eq]
        intro own
        obtain ⟨setid, listed⟩ := (consistent.state seq.seqoid).mp (List.mem_map.mpr ⟨seq, member, rfl⟩)
        simp only [Catalog.InOwnSet, kind] at ids
        exact ids ⟨_, listed, own⟩
      · exact foldl_eraseP_state consistent.once object.objid empty
    rw [foldlM_removeSeq kind repsets catalog inside, rows, states, Catalog.leaveSets, kind]

theorem Consistent.dropTableSyncStatus (consistent : Consistent catalog) (nspname relname : CString) :
    Consistent (catalog.dropTableSyncStatus nspname relname) :=
  have nodes := consistent.nodes
  ⟨⟨nodes.localNode, nodes.interfaceKey, nodes.subscriptionKey, nodes.nodeInterface, nodes.localIf, nodes.originIf,
    nodes.targetIf, nodes.target, nodes.replicationSet⟩,
    fun sync inside => consistent.synced sync (List.mem_filter.mp inside).1, consistent.tableInSet, consistent.seqInSet,
    consistent.state, consistent.once⟩

theorem Consistent.leaveSets (consistent : Consistent catalog) (object : DroppedObject) :
    Consistent (catalog.leaveSets object) := by
  unfold Catalog.leaveSets
  cases object.objectType with
  | table =>
    exact ⟨consistent.nodes, consistent.synced, fun t inside => consistent.tableInSet t (List.mem_filter.mp inside).1,
      consistent.seqInSet, consistent.state, consistent.once⟩
  | sequence =>
    refine consistent.withMembers (fun t inside => (List.mem_filter.mp inside).1) (fun oid => ?_)
      (consistent.once.sublist (List.filter_sublist.map _))
    rw [mem_map_filter_seqoid, consistent.state]
    simp [List.mem_filter]

theorem Consistent.passObject (consistent : Consistent catalog) (remove : Bool) (object : DroppedObject) :
    Consistent (catalog.passObject remove object) := by
  unfold Catalog.passObject
  split
  · exact (consistent.leaveSets object).dropTableSyncStatus _ _
  · exact consistent.dropTableSyncStatus _ _

/-- An object in no set has nothing to be taken out of. -/
theorem Consistent.leaveSets_eq (consistent : Consistent catalog) (outside : ¬catalog.InOwnSet object) :
    catalog.leaveSets object = catalog := by
  unfold Catalog.InOwnSet at outside
  unfold Catalog.leaveSets
  cases kind : object.objectType with
  | table =>
    rw [kind] at outside
    have rows : catalog.repsetTable.filter (fun t => decide (t.reloid ≠ object.objid)) = catalog.repsetTable :=
      List.filter_eq_self.mpr fun t inside => decide_eq_true fun own => outside ⟨t, inside, own⟩
    simp only [rows]
  | sequence =>
    rw [kind] at outside
    have rows : catalog.repsetSeq.filter (fun t => decide (t.2 ≠ object.objid)) = catalog.repsetSeq :=
      List.filter_eq_self.mpr fun t inside => decide_eq_true fun own => outside ⟨t, inside, own⟩
    have states : catalog.sequenceState.filter (fun seq => decide (seq.seqoid ≠ object.objid)) =
        catalog.sequenceState := by
      refine List.filter_eq_self.mpr fun seq inside => decide_eq_true fun own => ?_
      obtain ⟨setid, listed⟩ := (consistent.state seq.seqoid).mp (List.mem_map.mpr ⟨seq, inside, rfl⟩)
      exact outside ⟨_, listed, own⟩
    simp only [rows, states]

/-! ## All dropped objects -/

/-- The memberships found, and the catalogs after them. -/
theorem Consistent.checkDroppedObject (consistent : Consistent catalog)
    (found : catalog.nodes.findLocalNode = .ok (some localnode)) (remove : Bool)
    (logdetail : List (DroppedObject × PGLogicalRepSet)) (object : DroppedObject) :
    ∃ lines, checkDroppedObject localnode.node.id remove (logdetail, catalog) object =
      .ok (logdetail ++ lines, catalog.passObject remove object) ∧ (lines = [] ↔ ¬catalog.InOwnSet object) := by
  obtain ⟨repsets, read, ids, inside⟩ := consistent.getReplicationSets found object
  refine ⟨repsets.map fun repset => (object, repset), ?_, ?_⟩
  · unfold Sequences.checkDroppedObject
    cases remove with
    | true => simp [read, bind, Except.bind, pure, Except.pure, consistent.foldlM_removeFromSet ids inside,
        Catalog.passObject]
    | false => simp [read, bind, Except.bind, pure, Except.pure, Catalog.passObject]
  · rw [← Catalog.ownSets_eq_nil_iff, ← ids]
    simp

/-- Forgetting a synchronisation status changes no membership. -/
theorem Catalog.inOwnSet_passObject {remove : Bool} {other : DroppedObject} (consistent : Consistent catalog)
    (outside : ¬catalog.InOwnSet object) :
    (catalog.passObject remove object).InOwnSet other ↔ catalog.InOwnSet other := by
  unfold Catalog.passObject
  rw [consistent.leaveSets_eq outside, ite_self]
  exact Iff.rfl

theorem Consistent.foldlM_checkDroppedObject (consistent : Consistent catalog)
    (found : catalog.nodes.findLocalNode = .ok (some localnode)) (remove : Bool) (dropped : List DroppedObject)
    (logdetail : List (DroppedObject × PGLogicalRepSet)) :
    ∃ lines, dropped.foldlM (Sequences.checkDroppedObject localnode.node.id remove) (logdetail, catalog) =
      .ok (logdetail ++ lines, dropped.foldl (Catalog.passObject remove) catalog) ∧
      (lines = [] ↔ ∀ object ∈ dropped, ¬catalog.InOwnSet object) := by
  induction dropped generalizing catalog logdetail with
  | nil => exact ⟨[], by rw [List.append_nil]; rfl, by simp⟩
  | cons object dropped ih =>
    obtain ⟨first, checked, firstNone⟩ := consistent.checkDroppedObject found remove logdetail object
    have found' : (catalog.passObject remove object).nodes.findLocalNode = .ok (some localnode) := by
      rw [← found]
      unfold Catalog.passObject Catalog.leaveSets
      cases remove <;> cases object.objectType <;> rfl
    obtain ⟨rest, passed, restNone⟩ := ih (consistent.passObject remove object) found' (logdetail ++ first)
    refine ⟨first ++ rest, ?_, ?_⟩
    · rw [List.foldlM_cons, checked, ← List.append_assoc]
      exact passed
    · rw [List.append_eq_nil_iff, firstNone, restNone, List.forall_mem_cons]
      refine and_congr_right fun outside => forall₂_congr fun other _ => not_congr ?_
      exact Catalog.inOwnSet_passObject consistent outside

/-- With nothing to take out, it does not matter whether it would be. -/
theorem Consistent.foldl_passObject (consistent : Consistent catalog)
    (outside : ∀ object ∈ dropped, ¬catalog.InOwnSet object) (remove : Bool) :
    dropped.foldl (Catalog.passObject remove) catalog = dropped.foldl (Catalog.passObject true) catalog := by
  induction dropped generalizing catalog with
  | nil => rfl
  | cons object dropped ih =>
    obtain ⟨first, rest⟩ := List.forall_mem_cons.mp outside
    have same : catalog.passObject remove object = catalog.passObject true object := by
      unfold Catalog.passObject
      rw [consistent.leaveSets_eq first, ite_self, ite_self]
    rw [List.foldl_cons, List.foldl_cons, same]
    refine ih (consistent.passObject true object) fun other member => ?_
    rw [Catalog.inOwnSet_passObject consistent first]
    exact rest other member

/-- Without a local node there is nothing that could be left. -/
theorem Consistent.passObject_of_no_node (consistent : Consistent catalog) (absent : catalog.nodes.localNode = []) :
    (∀ object, ¬catalog.InSet object) ∧ ∀ object, catalog.passObject true object = catalog := by
  have sets : catalog.nodes.replicationSet = [] := List.eq_nil_iff_forall_not_mem.mpr fun repset inside => by
    obtain ⟨row, present, -⟩ := consistent.nodes.replicationSet repset inside
    rw [absent] at present
    cases present
  have tables : catalog.repsetTable = [] := List.eq_nil_iff_forall_not_mem.mpr fun t inside => by
    obtain ⟨repset, present, -⟩ := consistent.tableInSet t inside
    rw [sets] at present
    cases present
  have seqs : catalog.repsetSeq = [] := List.eq_nil_iff_forall_not_mem.mpr fun t inside => by
    obtain ⟨repset, present, -⟩ := consistent.seqInSet t inside
    rw [sets] at present
    cases present
  have statuses : catalog.nodes.localSyncStatus = [] := List.eq_nil_iff_forall_not_mem.mpr fun sync inside => by
    obtain ⟨sub, present, -⟩ := consistent.synced sync inside
    obtain ⟨row, local', -⟩ := consistent.nodes.target sub present
    rw [absent] at local'
    cases local'
  have outside : ∀ object, ¬catalog.InSet object := by
    rintro object (⟨t, inside, -⟩ | ⟨t, inside, -⟩)
    · rw [tables] at inside
      cases inside
    · rw [seqs] at inside
      cases inside
  refine ⟨outside, fun object => ?_⟩
  unfold Catalog.passObject
  rw [consistent.leaveSets_eq fun own => outside object (Catalog.inSet_iff.mpr (.inl own)), ite_self]
  unfold Catalog.dropTableSyncStatus Catalog.withNodes
  rw [statuses, List.filter_nil, ← statuses]

theorem Consistent.findLocalNode (consistent : Consistent catalog) (present : catalog.nodes.localNode ≠ []) :
    ∃ localnode, catalog.nodes.findLocalNode = .ok (some localnode) := by
  obtain ⟨localnode, got⟩ := consistent.nodes.referentiallySound.getLocalNode present
  obtain ⟨stored, found, same⟩ := bind_eq_ok.mp got
  obtain _ | stored := stored
  · cases same
  · exact ⟨stored, found⟩

/-- The trigger fails on what it finds and does not remove; otherwise every dropped object has left
the sets it was in as what it is. -/
theorem Consistent.trigger_eq (consistent : Consistent catalog) (stmt : ParseTree) (replica : Bool)
    (dropped : List DroppedObject) :
    pglogicalDependencyCheckTrigger stmt replica dropped catalog =
      if (∃ object ∈ dropped, catalog.InOwnSet object) ∧ stmt.readsCascade = false ∧ replica = false then
        .error "cannot drop desired object(s) because other objects depend on them"
      else .ok (dropped.foldl (Catalog.passObject true) catalog) := by
  by_cases absent : catalog.nodes.localNode = []
  · obtain ⟨outside, same⟩ := consistent.passObject_of_no_node absent
    have unlisted : ¬∃ object ∈ dropped, catalog.InOwnSet object := by
      rintro ⟨object, -, own⟩
      exact outside object (Catalog.inSet_iff.mpr (.inl own))
    rw [if_neg fun raised => unlisted raised.1, List.foldl_fixed' same, pglogicalDependencyCheckTrigger,
      Nodes.Catalog.findLocalNode, absent]
    rfl
  · obtain ⟨localnode, found⟩ := consistent.findLocalNode absent
    obtain ⟨lines, passed, noLines⟩ := consistent.foldlM_checkDroppedObject found (stmt.readsCascade || replica) dropped []
    have reached : pglogicalDependencyCheckTrigger stmt replica dropped catalog =
        if lines ≠ [] ∧ stmt.readsCascade = false ∧ replica = false then
          .error "cannot drop desired object(s) because other objects depend on them"
        else .ok (dropped.foldl (Catalog.passObject (stmt.readsCascade || replica)) catalog) := by
      unfold pglogicalDependencyCheckTrigger
      simp only [found, passed, bind, Except.bind, List.nil_append]
      split <;> rfl
    rw [reached]
    by_cases listed : ∃ object ∈ dropped, catalog.InOwnSet object
    · have reported : lines ≠ [] := fun empty => by
        obtain ⟨object, inside, own⟩ := listed
        exact noLines.mp empty object inside own
      by_cases kept : stmt.readsCascade = false ∧ replica = false
      · rw [if_pos ⟨reported, kept⟩, if_pos ⟨listed, kept⟩]
      · have remove : (stmt.readsCascade || replica) = true := by
          cases reads : stmt.readsCascade <;> cases session : replica <;> simp_all
        rw [if_neg fun raised => kept raised.2, if_neg fun raised => kept raised.2, remove]
    · have outside : ∀ object ∈ dropped, ¬catalog.InOwnSet object := fun object inside own => listed ⟨object, inside, own⟩
      rw [if_neg fun raised => raised.1 (noLines.mpr outside), if_neg fun raised => listed raised.1,
        consistent.foldl_passObject outside]

/-! ## What is left -/

/-- The objects of one kind, by identifier. -/
def objidsOf (objectType : ObjectType) (dropped : List DroppedObject) : List Oid :=
  (dropped.filter fun object => decide (object.objectType = objectType)).map DroppedObject.objid

theorem objidsOf_cons_self (object : DroppedObject) (dropped : List DroppedObject) :
    objidsOf object.objectType (object :: dropped) = object.objid :: objidsOf object.objectType dropped := by
  simp [objidsOf]

theorem objidsOf_cons_of_ne {objectType : ObjectType} (other : object.objectType ≠ objectType)
    (dropped : List DroppedObject) : objidsOf objectType (object :: dropped) = objidsOf objectType dropped := by
  simp [objidsOf, other]

theorem filter_objid {α : Type} (key : α → Oid) (rows : List α) (oid : Oid) (oids : List Oid) :
    (rows.filter fun row => decide (key row ≠ oid)).filter (fun row => decide (key row ∉ oids)) =
      rows.filter fun row => decide (key row ∉ oid :: oids) := by
  rw [List.filter_filter]
  exact List.filter_congr fun row _ => by rw [Bool.eq_iff_iff]; simp [and_comm]

theorem foldl_passObject_eq (dropped : List DroppedObject) (catalog : Catalog Node) :
    dropped.foldl (Catalog.passObject true) catalog = { catalog with
      nodes := { catalog.nodes with
        localSyncStatus := catalog.nodes.localSyncStatus.filter fun sync =>
          decide (∀ object ∈ dropped, sync.table ≠ some object.rangeVar) }
      repsetTable := catalog.repsetTable.filter fun t => decide (t.reloid ∉ objidsOf .table dropped)
      repsetSeq := catalog.repsetSeq.filter fun t => decide (t.2 ∉ objidsOf .sequence dropped)
      sequenceState := catalog.sequenceState.filter fun seq => decide (seq.seqoid ∉ objidsOf .sequence dropped) } := by
  induction dropped generalizing catalog with
  | nil => simp [objidsOf]
  | cons object dropped ih =>
    have statuses : (catalog.nodes.localSyncStatus.filter fun sync => decide (sync.table ≠ some object.rangeVar)).filter
        (fun sync => decide (∀ other ∈ dropped, sync.table ≠ some other.rangeVar)) =
        catalog.nodes.localSyncStatus.filter fun sync =>
          decide (∀ other ∈ object :: dropped, sync.table ≠ some other.rangeVar) := by
      rw [List.filter_filter]
      exact List.filter_congr fun sync _ => by rw [Bool.eq_iff_iff]; simp [and_comm]
    rw [List.foldl_cons, ih, ← statuses]
    unfold Catalog.passObject Catalog.leaveSets
    cases kind : object.objectType with
    | table =>
      have ids := objidsOf_cons_self object dropped
      rw [kind] at ids
      rw [ids, objidsOf_cons_of_ne (by simp [kind] : object.objectType ≠ .sequence), ← filter_objid]
      rfl
    | sequence =>
      have ids := objidsOf_cons_self object dropped
      rw [kind] at ids
      rw [ids, objidsOf_cons_of_ne (by simp [kind] : object.objectType ≠ .table),
        ← filter_objid Prod.snd catalog.repsetSeq, ← filter_objid SeqStateTuple.seqoid]
      rfl

theorem mem_objidsOf_iff {objectType : ObjectType} {oid : Oid} : oid ∈ objidsOf objectType dropped ↔
    ∃ object ∈ dropped, object.objid = oid ∧ object.objectType = objectType := by
  simp [objidsOf, and_assoc, and_comm]

/-- An identifier that stands for objects of one kind only. -/
theorem notMem_objidsOf_iff {objectType : ObjectType} {oid : Oid}
    (kind : ∀ object ∈ dropped, oid = object.objid → object.objectType = objectType) :
    oid ∉ objidsOf objectType dropped ↔ ∀ object ∈ dropped, oid ≠ object.objid := by
  rw [mem_objidsOf_iff]
  constructor
  · intro unlisted object inside own
    exact unlisted ⟨object, inside, own.symm, kind object inside own⟩
  · rintro apart ⟨object, inside, own, -⟩
    exact apart object inside own.symm

end PGLogical.Sequences
