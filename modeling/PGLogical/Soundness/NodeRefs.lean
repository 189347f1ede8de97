import PGLogical.Soundness.Node

/-! # References between the node catalogs

Rows refer to other rows by identifier, and nothing in the heap keeps these references valid. An
interface is looked up by the identifier in the row, so that the invariant also says that
identifiers of interfaces are unique and who owns the interfaces that rows refer to.
-/

namespace PGLogical.Nodes

open Wire (Bytes CString)
open Machine (run Permitted bind_eq_ok map_eq_ok guard_eq_ok)
open Catalog

/-- Every reference stored in the catalogs finds its row. -/
structure ReferentiallySound (catalog : Catalog) : Prop where
  localNode : ∀ row ∈ catalog.localNode, ∃ node ∈ catalog.node, node.id = row.nodeLocalId
  localIf : ∀ row ∈ catalog.localNode, ∃ nodeif ∈ catalog.nodeInterface, nodeif.id = row.nodeLocalNodeIf
  origin : ∀ sub ∈ catalog.subscription, ∃ node ∈ catalog.node, node.id = sub.subOrigin
  target : ∀ sub ∈ catalog.subscription, ∃ node ∈ catalog.node, node.id = sub.subTarget
  originIf : ∀ sub ∈ catalog.subscription, ∃ nodeif ∈ catalog.nodeInterface,
    nodeif.id = sub.subOriginIf ∧ nodeif.nodeid = sub.subOrigin
  targetIf : ∀ sub ∈ catalog.subscription, ∃ nodeif ∈ catalog.nodeInterface,
    nodeif.id = sub.subTargetIf ∧ nodeif.nodeid = sub.subTarget
  nodeInterface : ∀ nodeif ∈ catalog.nodeInterface, ∃ node ∈ catalog.node, node.id = nodeif.nodeid
  replicationSet : ∀ repset ∈ catalog.replicationSet, ∃ node ∈ catalog.node, node.id = repset.nodeid

/-- What the calls preserve: every subscription and every replication set is the local node's. -/
structure Inv (catalog : Catalog) : Prop where
  localNode : catalog.localNode.length ≤ 1
  interfaceKey : ∀ a ∈ catalog.nodeInterface, ∀ b ∈ catalog.nodeInterface, a.id = b.id → a = b
  subscriptionKey : ∀ a ∈ catalog.subscription, ∀ b ∈ catalog.subscription, a.subId = b.subId → a = b
  nodeInterface : ∀ nodeif ∈ catalog.nodeInterface, ∃ node ∈ catalog.node, node.id = nodeif.nodeid
  localIf : ∀ row ∈ catalog.localNode, ∃ nodeif ∈ catalog.nodeInterface,
    nodeif.id = row.nodeLocalNodeIf ∧ nodeif.nodeid = row.nodeLocalId
  originIf : ∀ sub ∈ catalog.subscription, ∃ nodeif ∈ catalog.nodeInterface,
    nodeif.id = sub.subOriginIf ∧ nodeif.nodeid = sub.subOrigin
  targetIf : ∀ sub ∈ catalog.subscription, ∃ nodeif ∈ catalog.nodeInterface,
    nodeif.id = sub.subTargetIf ∧ nodeif.nodeid = sub.subTarget
  target : ∀ sub ∈ catalog.subscription, ∃ row ∈ catalog.localNode, row.nodeLocalId = sub.subTarget
  replicationSet : ∀ repset ∈ catalog.replicationSet, ∃ row ∈ catalog.localNode, row.nodeLocalId = repset.nodeid

variable {env : Environment} {catalog next : Catalog}

theorem Inv.referentiallySound (inv : Inv catalog) : ReferentiallySound catalog := by
  have owned : ∀ row ∈ catalog.localNode, ∃ node ∈ catalog.node, node.id = row.nodeLocalId := by
    intro row inside
    obtain ⟨nodeif, ifInside, -, owner⟩ := inv.localIf row inside
    rw [← owner]
    exact inv.nodeInterface nodeif ifInside
  refine ⟨owned, fun row inside => ?_, fun sub inside => ?_, fun sub inside => ?_, inv.originIf, inv.targetIf,
    inv.nodeInterface, fun repset inside => ?_⟩
  · obtain ⟨nodeif, ifInside, same, -⟩ := inv.localIf row inside
    exact ⟨nodeif, ifInside, same⟩
  · obtain ⟨nodeif, ifInside, -, owner⟩ := inv.originIf sub inside
    rw [← owner]
    exact inv.nodeInterface nodeif ifInside
  · obtain ⟨row, rowInside, same⟩ := inv.target sub inside
    rw [← same]
    exact owned row rowInside
  · obtain ⟨row, rowInside, same⟩ := inv.replicationSet repset inside
    rw [← same]
    exact owned row rowInside

theorem ReferentiallySound.getLocalNode (sound : ReferentiallySound catalog) (present : catalog.localNode ≠ []) :
    ∃ localnode, catalog.getLocalNode = .ok localnode := by
  obtain ⟨row, rest, rows⟩ := List.exists_cons_of_ne_nil present
  have inside : row ∈ catalog.localNode := by rw [rows]; exact List.mem_cons_self ..
  obtain ⟨node, foundNode⟩ := exists_getNode (sound.localNode row inside)
  obtain ⟨nodeIf, foundIf⟩ := exists_getNodeInterface (sound.localIf row inside)
  refine ⟨⟨node, nodeIf⟩, ?_⟩
  simp only [Catalog.getLocalNode, findLocalNode, rows, foundNode, foundIf]
  rfl

theorem ReferentiallySound.getSubscription (sound : ReferentiallySound catalog) {subtup : SubscriptionTuple}
    (inside : subtup ∈ catalog.subscription) : ∃ sub, catalog.getSubscription subtup.subId = .ok sub := by
  have readable : ∀ other ∈ catalog.subscription, ∃ sub, catalog.subscriptionFromtuple other = .ok sub := by
    intro other otherInside
    obtain ⟨originIf, originIfInside, originIfId, -⟩ := sound.originIf other otherInside
    obtain ⟨targetIf, targetIfInside, targetIfId, -⟩ := sound.targetIf other otherInside
    obtain ⟨origin, foundOrigin⟩ := exists_getNode (sound.origin other otherInside)
    obtain ⟨target, foundTarget⟩ := exists_getNode (sound.target other otherInside)
    obtain ⟨_, foundOriginIf⟩ := exists_getNodeInterface ⟨originIf, originIfInside, originIfId⟩
    obtain ⟨_, foundTargetIf⟩ := exists_getNodeInterface ⟨targetIf, targetIfInside, targetIfId⟩
    simp only [subscriptionFromtuple, foundOrigin, foundTarget, foundOriginIf, foundTargetIf]
    exact ⟨_, rfl⟩
  unfold Catalog.getSubscription
  split
  · next first => exact readable _ (List.mem_of_find?_eq_some first)
  · next missing => exact absurd (decide_eq_true rfl) (List.find?_eq_none.mp missing subtup inside)

theorem Inv.localNode_eq (inv : Inv catalog) {row : LocalNodeTuple} (inside : row ∈ catalog.localNode) :
    catalog.localNode = [row] := by
  have bound := inv.localNode
  cases rows : catalog.localNode with
  | nil =>
    rw [rows] at inside
    cases inside
  | cons head tail =>
    rw [rows, List.length_cons] at bound
    obtain rfl := List.length_eq_zero_iff.mp (show tail.length = 0 by omega)
    rw [rows, List.mem_singleton] at inside
    rw [inside]

theorem inv_empty : Inv Catalog.empty := by
  constructor <;> intros <;> first | contradiction | decide

/-! ## Each call -/

theorem step_cases {statement : Call} (taken : step env catalog statement = some next) :
    next = catalog ∨ call env catalog statement = .ok next := by
  unfold step at taken
  split at taken
  · next after done => exact .inr (by rw [done, Option.some.inj taken])
  · exact .inl (Option.some.inj taken).symm

/-- An interface of a fresh identifier keeps identifiers unique. -/
theorem interfaceKey_concat {rows : List PGlogicalInterface} {nodeif : PGlogicalInterface}
    (key : ∀ a ∈ rows, ∀ b ∈ rows, a.id = b.id → a = b) (free : ∀ other ∈ rows, other.id ≠ nodeif.id) :
    ∀ a ∈ rows ++ [nodeif], ∀ b ∈ rows ++ [nodeif], a.id = b.id → a = b := by
  intro a aInside b bInside same
  simp only [List.mem_append, List.mem_singleton] at aInside bInside
  rcases aInside with aInside | rfl <;> rcases bInside with bInside | rfl
  · exact key a aInside b bInside same
  · exact absurd same (free a aInside)
  · exact absurd same.symm (free b bInside)
  · rfl

/-- A new interface of a node that is there. -/
theorem Inv.addInterface (inv : Inv catalog) {nodes : List PGLogicalNode} {nodeif : PGlogicalInterface}
    (more : ∀ node ∈ catalog.node, node ∈ nodes) (present : ∃ node ∈ nodes, node.id = nodeif.nodeid)
    (free : ∀ other ∈ catalog.nodeInterface, other.id ≠ nodeif.id) :
    Inv { catalog with node := nodes, nodeInterface := catalog.nodeInterface ++ [nodeif] } where
  localNode := inv.localNode
  interfaceKey := interfaceKey_concat inv.interfaceKey free
  subscriptionKey := inv.subscriptionKey
  nodeInterface other inside := by
    rcases List.mem_append.mp inside with earlier | last
    · obtain ⟨node, nodeInside, same⟩ := inv.nodeInterface other earlier
      exact ⟨node, more node nodeInside, same⟩
    · rw [List.mem_singleton.mp last]
      exact present
  localIf row inside := by
    obtain ⟨other, otherInside, same⟩ := inv.localIf row inside
    exact ⟨other, List.mem_append_left _ otherInside, same⟩
  originIf sub inside := by
    obtain ⟨other, otherInside, same⟩ := inv.originIf sub inside
    exact ⟨other, List.mem_append_left _ otherInside, same⟩
  targetIf sub inside := by
    obtain ⟨other, otherInside, same⟩ := inv.targetIf sub inside
    exact ⟨other, List.mem_append_left _ otherInside, same⟩
  target := inv.target
  replicationSet := inv.replicationSet

/-- A node that is not the local one and provides for no subscription goes with its interfaces. -/
theorem Inv.removeNode (inv : Inv catalog) {nodeid : Oid} {repsets : List PGLogicalRepSet}
    (unused : ∀ sub ∈ catalog.subscription, sub.subOrigin ≠ nodeid)
    (remote : ∀ row ∈ catalog.localNode, row.nodeLocalId ≠ nodeid)
    (fewer : ∀ repset ∈ repsets, repset ∈ catalog.replicationSet) :
    Inv { catalog with
      node := catalog.node.eraseP fun node => decide (node.id = nodeid)
      nodeInterface := catalog.nodeInterface.filter fun nodeif => decide (nodeif.nodeid ≠ nodeid)
      replicationSet := repsets } where
  localNode := inv.localNode
  interfaceKey a aInside b bInside :=
    inv.interfaceKey a (List.mem_filter.mp aInside).1 b (List.mem_filter.mp bInside).1
  subscriptionKey := inv.subscriptionKey
  nodeInterface nodeif inside := by
    obtain ⟨earlier, other⟩ := List.mem_filter.mp inside
    obtain ⟨node, nodeInside, same⟩ := inv.nodeInterface nodeif earlier
    refine ⟨node, (List.mem_eraseP_of_neg ?_).mpr nodeInside, same⟩
    rw [same]
    simpa using other
  localIf row inside := by
    obtain ⟨nodeif, ifInside, same, owner⟩ := inv.localIf row inside
    exact ⟨nodeif, List.mem_filter.mpr ⟨ifInside, by simpa [owner] using remote row inside⟩, same, owner⟩
  originIf sub inside := by
    obtain ⟨nodeif, ifInside, same, owner⟩ := inv.originIf sub inside
    exact ⟨nodeif, List.mem_filter.mpr ⟨ifInside, by simpa [owner] using unused sub inside⟩, same, owner⟩
  targetIf sub inside := by
    obtain ⟨nodeif, ifInside, same, owner⟩ := inv.targetIf sub inside
    obtain ⟨row, rowInside, localId⟩ := inv.target sub inside
    have other : nodeif.nodeid ≠ nodeid := by
      rw [owner, ← localId]
      exact remote row rowInside
    exact ⟨nodeif, List.mem_filter.mpr ⟨ifInside, decide_eq_true other⟩, same, owner⟩
  target := inv.target
  replicationSet repset inside := inv.replicationSet repset (fewer repset inside)

/-- Other rows of `subscription` that refer to the same catalogs. -/
theorem Inv.withSubscriptions (inv : Inv catalog) {subs : List SubscriptionTuple} {status : List PGLogicalSyncStatus}
    (key : ∀ a ∈ subs, ∀ b ∈ subs, a.subId = b.subId → a = b)
    (refers : ∀ sub ∈ subs, (∃ nodeif ∈ catalog.nodeInterface,
        nodeif.id = sub.subOriginIf ∧ nodeif.nodeid = sub.subOrigin) ∧
      (∃ nodeif ∈ catalog.nodeInterface, nodeif.id = sub.subTargetIf ∧ nodeif.nodeid = sub.subTarget) ∧
      ∃ row ∈ catalog.localNode, row.nodeLocalId = sub.subTarget) :
    Inv { catalog with subscription := subs, localSyncStatus := status } :=
  ⟨inv.localNode, inv.interfaceKey, key, inv.nodeInterface, inv.localIf, fun sub inside => (refers sub inside).1,
    fun sub inside => (refers sub inside).2.1, fun sub inside => (refers sub inside).2.2, inv.replicationSet⟩

theorem Inv.refers (inv : Inv catalog) {sub : SubscriptionTuple} (inside : sub ∈ catalog.subscription) :
    (∃ nodeif ∈ catalog.nodeInterface, nodeif.id = sub.subOriginIf ∧ nodeif.nodeid = sub.subOrigin) ∧
      (∃ nodeif ∈ catalog.nodeInterface, nodeif.id = sub.subTargetIf ∧ nodeif.nodeid = sub.subTarget) ∧
      ∃ row ∈ catalog.localNode, row.nodeLocalId = sub.subTarget :=
  ⟨inv.originIf sub inside, inv.targetIf sub inside, inv.target sub inside⟩

/-- The interfaces of a subscription that has been read belong to its nodes. -/
theorem Inv.read (inv : Inv catalog) {subtup : SubscriptionTuple} {sub : PGLogicalSubscription}
    (inside : subtup ∈ catalog.subscription) (fromtuple : catalog.subscriptionFromtuple subtup = .ok sub) :
    sub.originIf.nodeid = subtup.subOrigin ∧ sub.targetIf.nodeid = subtup.subTarget := by
  obtain ⟨originIfInside, targetIfInside, -, -, originIfId, targetIfId, -⟩ := subscriptionFromtuple_eq_ok fromtuple
  obtain ⟨originIf, originInside, originSame, originOwner⟩ := inv.originIf subtup inside
  obtain ⟨targetIf, targetInside, targetSame, targetOwner⟩ := inv.targetIf subtup inside
  refine ⟨?_, ?_⟩
  · rw [inv.interfaceKey _ originIfInside _ originInside (originIfId.trans originSame.symm), originOwner]
  · rw [inv.interfaceKey _ targetIfInside _ targetInside (targetIfId.trans targetSame.symm), targetOwner]

/-- The row of the altered subscription; all other rows stay. -/
theorem Inv.writtenBack_cases (inv : Inv catalog) {subName : NameData}
    {altered : PGLogicalSubscription → PGLogicalSubscription} (written : WrittenBack catalog subName altered next)
    (sameId : ∀ sub, (altered sub).id = sub.id) :
    ∃ subtup ∈ catalog.subscription, ∃ sub, subtup.subName = subName ∧
      catalog.subscriptionFromtuple subtup = .ok sub ∧
      next = { catalog with subscription := next.subscription } ∧
      (∀ row ∈ next.subscription, (row ∈ catalog.subscription ∧ row.subId ≠ subtup.subId) ∨
        row = SubscriptionTuple.modify subtup (altered sub)) ∧
      SubscriptionTuple.modify subtup (altered sub) ∈ next.subscription := by
  obtain ⟨subtup, inside, sub, named, fromtuple, rfl⟩ := written
  obtain ⟨-, -, -, -, -, -, id, -⟩ := subscriptionFromtuple_eq_ok fromtuple
  have same : (altered sub).id = subtup.subId := (sameId sub).trans id
  refine ⟨subtup, inside, sub, named, fromtuple, rfl, fun row listed => ?_, ?_⟩
  · obtain ⟨other, otherInside, rfl⟩ := List.mem_map.mp listed
    split
    · next equal =>
      rw [inv.subscriptionKey other otherInside subtup inside (equal.trans same)]
      exact .inr rfl
    · next different => exact .inl ⟨otherInside, fun equal => different (equal.trans same.symm)⟩
  · exact List.mem_map.mpr ⟨subtup, inside, if_pos same.symm⟩

/-- Writing a subscription back keeps the references if the interfaces are those of its nodes. -/
theorem Inv.writtenBack (inv : Inv catalog) {subName : NameData}
    {altered : PGLogicalSubscription → PGLogicalSubscription} (written : WrittenBack catalog subName altered next)
    (sameId : ∀ sub, (altered sub).id = sub.id) (sameTarget : ∀ sub, (altered sub).targetIf = sub.targetIf)
    (originIf : ∀ sub, (altered sub).originIf = sub.originIf ∨ (altered sub).originIf ∈ catalog.nodeInterface) :
    Inv next := by
  obtain ⟨subtup, inside, sub, -, fromtuple, same, rows, -⟩ := inv.writtenBack_cases written sameId
  obtain ⟨originIfInside, targetIfInside, -, -, -, targetIfId, -⟩ := subscriptionFromtuple_eq_ok fromtuple
  obtain ⟨-, targetOwner⟩ := inv.read inside fromtuple
  rw [same]
  refine inv.withSubscriptions (fun a aInside b bInside equal => ?_) fun row listed => ?_
  · rcases rows a aInside with ⟨aOld, aOther⟩ | rfl <;> rcases rows b bInside with ⟨bOld, bOther⟩ | rfl
    · exact inv.subscriptionKey a aOld b bOld equal
    · exact absurd equal aOther
    · exact absurd equal.symm bOther
    · rfl
  · rcases rows row listed with ⟨old, -⟩ | rfl
    · exact inv.refers old
    · obtain ⟨-, -, rowInside⟩ := inv.refers inside
      refine ⟨⟨(altered sub).originIf, ?_, rfl, rfl⟩, ⟨(altered sub).targetIf, ?_, rfl, rfl⟩, ?_⟩
      · rcases originIf sub with kept | known
        · rw [kept]
          exact originIfInside
        · exact known
      · rw [sameTarget sub]
        exact targetIfInside
      · simp only [SubscriptionTuple.modify, sameTarget sub, targetOwner]
        exact rowInside

theorem Inv.createNode (inv : Inv catalog) {nodeName : NameData} {nodeDsn : CString} {id : Oid}
    (done : pglogicalCreateNode env catalog nodeName nodeDsn = .ok (id, next)) : Inv next := by
  obtain ⟨node, nodeif, repsets, -, freeIf, owner, owned, unset, rfl⟩ := pglogicalCreateNode_eq_ok done
  have noSubs : ∀ sub, sub ∉ catalog.subscription := fun sub inside => by
    obtain ⟨row, rowInside, -⟩ := inv.target sub inside
    rw [unset] at rowInside
    cases rowInside
  have noSets : ∀ repset, repset ∉ catalog.replicationSet := fun repset inside => by
    obtain ⟨row, rowInside, -⟩ := inv.replicationSet repset inside
    rw [unset] at rowInside
    cases rowInside
  refine ⟨Nat.le_refl 1, interfaceKey_concat inv.interfaceKey freeIf, inv.subscriptionKey, ?_, ?_,
    fun sub inside => absurd inside (noSubs sub), fun sub inside => absurd inside (noSubs sub),
    fun sub inside => absurd inside (noSubs sub), ?_⟩
  · intro other inside
    rcases List.mem_append.mp inside with earlier | last
    · obtain ⟨known, knownInside, same⟩ := inv.nodeInterface other earlier
      exact ⟨known, List.mem_append_left _ knownInside, same⟩
    · obtain rfl := List.mem_singleton.mp last
      exact ⟨node, List.mem_append_right _ (List.mem_singleton.mpr rfl), owner.symm⟩
  · intro row inside
    obtain rfl := List.mem_singleton.mp inside
    exact ⟨nodeif, List.mem_append_right _ (List.mem_singleton.mpr rfl), rfl, owner⟩
  · intro repset inside
    rcases List.mem_append.mp inside with earlier | last
    · exact absurd earlier (noSets repset)
    · exact ⟨_, List.mem_singleton.mpr rfl, (owned repset last).symm⟩

theorem Inv.dropNode (inv : Inv catalog) {nodeName : NameData} {ifexists existed : Bool}
    {slots : List ReplicationSlot} (done : pglogicalDropNode env catalog nodeName ifexists slots = .ok (existed, next)) :
    Inv next := by
  rcases pglogicalDropNode_eq_ok done with rfl | ⟨node, rows, unused, record, rfl⟩
  · exact inv
  · rcases record with ⟨row, isLocal, same⟩ | ⟨rfl, first⟩
    · -- the local node: every subscription and every set is its own
      have only : rows = [] := by
        have inside : row ∈ catalog.localNode := by rw [isLocal]; exact List.mem_cons_self ..
        have alone := inv.localNode_eq inside
        rw [isLocal] at alone
        exact (List.cons.inj alone).2
      have noSubs : ∀ sub, sub ∉ catalog.subscription := fun sub inside => by
        obtain ⟨other, otherInside, target⟩ := inv.target sub inside
        rw [isLocal, only, List.mem_singleton] at otherInside
        rw [otherInside, same] at target
        exact (unused sub inside).2 target.symm
      refine ⟨by simp [only], fun a aInside b bInside => inv.interfaceKey a (List.mem_filter.mp aInside).1 b
        (List.mem_filter.mp bInside).1, inv.subscriptionKey, fun nodeif inside => ?_, by simp [only],
        fun sub inside => absurd inside (noSubs sub), fun sub inside => absurd inside (noSubs sub),
        fun sub inside => absurd inside (noSubs sub), fun repset inside => ?_⟩
      · obtain ⟨earlier, other⟩ := List.mem_filter.mp inside
        obtain ⟨owner, ownerInside, owns⟩ := inv.nodeInterface nodeif earlier
        exact ⟨owner, (List.mem_eraseP_of_neg (by simpa [owns] using other)).mpr ownerInside, owns⟩
      · obtain ⟨earlier, other⟩ := List.mem_filter.mp inside
        obtain ⟨own, ownInside, owned⟩ := inv.replicationSet repset earlier
        rw [isLocal, only, List.mem_singleton] at ownInside
        rw [ownInside, same] at owned
        exact absurd owned.symm (of_decide_eq_true other)
    · refine inv.removeNode (fun sub inside => (unused sub inside).1) (fun row inside => ?_)
        fun repset inside => (List.mem_filter.mp inside).1
      exact first row (by rw [inv.localNode_eq inside, List.head?_cons])

theorem Inv.alterNodeAddInterface (inv : Inv catalog) {nodeName ifName : NameData} {ifDsn : CString} {id : Oid}
    (done : pglogicalAlterNodeAddInterface env catalog nodeName ifName ifDsn = .ok (id, next)) : Inv next := by
  obtain ⟨node, nodeif, inside, owner, free, rfl⟩ := pglogicalAlterNodeAddInterface_eq_ok done
  exact inv.addInterface (fun _ present => present) ⟨node, inside, owner.symm⟩ free

/-- No row refers to the interface. -/
def InterfaceUnused (catalog : Catalog) (ifid : Oid) : Prop :=
  (∀ row ∈ catalog.localNode, row.nodeLocalNodeIf ≠ ifid) ∧
    ∀ sub ∈ catalog.subscription, sub.subOriginIf ≠ ifid ∧ sub.subTargetIf ≠ ifid

theorem Inv.alterNodeDropInterface (inv : Inv catalog) {nodeName ifName : NameData} {existed : Bool}
    (done : pglogicalAlterNodeDropInterface catalog nodeName ifName = .ok (existed, next))
    (unused : ∀ node ∈ catalog.node, node.name = nodeName → ∀ nodeif ∈ catalog.nodeInterface,
      nodeif.nodeid = node.id → nodeif.name = ifName → InterfaceUnused catalog nodeif.id) : Inv next := by
  obtain ⟨node, inside, named, oldif, ifInside, owner, ifNamed, rfl⟩ := pglogicalAlterNodeDropInterface_eq_ok done
  obtain ⟨noLocal, noSub⟩ := unused node inside named oldif ifInside owner ifNamed
  have kept : ∀ {nodeif : PGlogicalInterface}, nodeif ∈ catalog.nodeInterface → nodeif.id ≠ oldif.id →
      nodeif ∈ catalog.nodeInterface.eraseP fun nodeif => decide (nodeif.id = oldif.id) :=
    fun present other => (List.mem_eraseP_of_neg (by simpa using other)).mpr present
  refine ⟨inv.localNode, fun a aInside b bInside => inv.interfaceKey a (List.mem_of_mem_eraseP aInside) b
    (List.mem_of_mem_eraseP bInside), inv.subscriptionKey,
    fun nodeif remaining => inv.nodeInterface nodeif (List.mem_of_mem_eraseP remaining), fun row rowInside => ?_,
    fun sub subInside => ?_, fun sub subInside => ?_, inv.target, inv.replicationSet⟩
  · obtain ⟨nodeif, present, same, owns⟩ := inv.localIf row rowInside
    exact ⟨nodeif, kept present (same ▸ noLocal row rowInside), same, owns⟩
  · obtain ⟨nodeif, present, same, owns⟩ := inv.originIf sub subInside
    exact ⟨nodeif, kept present (same ▸ (noSub sub subInside).1), same, owns⟩
  · obtain ⟨nodeif, present, same, owns⟩ := inv.targetIf sub subInside
    exact ⟨nodeif, kept present (same ▸ (noSub sub subInside).2), same, owns⟩

/-- The provider's records are there after they have been looked up or created. -/
theorem Inv.originInterface (inv : Inv catalog) {origin : PGLogicalNode} {providerDsn : CString}
    {originif : PGlogicalInterface}
    (done : originInterface env catalog origin providerDsn = .ok (originif, next)) :
    Inv next ∧ originif ∈ next.nodeInterface ∧ next = { catalog with
      node := next.node, nodeInterface := next.nodeInterface } ∧
      ∀ nodeif ∈ catalog.nodeInterface, nodeif ∈ next.nodeInterface := by
  rcases originInterface_eq_ok done with ⟨-, inside, -, rfl⟩ | ⟨node, -, -, owner, free, rfl⟩
  · exact ⟨inv, inside, rfl, fun _ => id⟩
  · refine ⟨inv.addInterface (fun node => List.mem_append_left _)
      ⟨node, List.mem_append_right _ (List.mem_singleton.mpr rfl), owner.symm⟩ free,
      List.mem_append_right _ (List.mem_singleton.mpr rfl), rfl, fun nodeif => List.mem_append_left _⟩

theorem Inv.createSubscription (inv : Inv catalog) {args : CreateSubscription} {id : Oid}
    (done : pglogicalCreateSubscription env catalog args = .ok (id, next)) : Inv next := by
  obtain ⟨localnode, origin, originif, middle, sub, foundLocal, -, madeOrigin, -, free, -, row, rfl⟩ :=
    pglogicalCreateSubscription_eq_ok done
  obtain ⟨middleInv, originInside, same, kept⟩ := inv.originInterface madeOrigin
  obtain ⟨localRow, localInside, localId, localIfInside, localIfId⟩ := getLocalNode_eq_ok foundLocal
  obtain ⟨localIf, ownInside, ownId, owner⟩ := inv.localIf localRow localInside
  have ownIf : localnode.nodeIf.nodeid = localnode.node.id := by
    rw [inv.interfaceKey _ localIfInside _ ownInside (localIfId.trans ownId.symm), owner, localId]
  refine middleInv.withSubscriptions (fun a aInside b bInside equal => ?_) fun listed inside => ?_
  · simp only [List.mem_append, List.mem_singleton] at aInside bInside
    rcases aInside with aOld | rfl <;> rcases bInside with bOld | rfl
    · exact middleInv.subscriptionKey a aOld b bOld equal
    · exact absurd equal (free a aOld).1
    · exact absurd equal.symm (free b bOld).1
    · rfl
  · rcases List.mem_append.mp inside with old | new
    · exact middleInv.refers old
    · rw [List.mem_singleton.mp new, row]
      refine ⟨⟨originif, originInside, rfl, rfl⟩, ⟨localnode.nodeIf, kept _ localIfInside, rfl, ownIf⟩, localRow, ?_, ?_⟩
      · rw [same]
        exact localInside
      · exact localId.symm

theorem Inv.dropSubscription (inv : Inv catalog) {subName : NameData} {ifexists : Bool}
    {finish : Except String Unit} {result : Bool × Option PGLogicalSubscription}
    (done : pglogicalDropSubscription catalog subName ifexists finish = .ok (result, next)) : Inv next := by
  rcases pglogicalDropSubscription_eq_ok done with ⟨rfl, -⟩ | ⟨subtup, inside, sub, kept, -, fromtuple, same, -, dropped⟩
  · exact inv
  · have keptInv : Inv kept := by
      rw [same]
      refine inv.withSubscriptions (fun a aInside b bInside => ?_) fun row listed => ?_
      · exact inv.subscriptionKey a (List.mem_filter.mp aInside).1 b (List.mem_filter.mp bInside).1
      · exact inv.refers (List.mem_filter.mp listed).1
    rcases dropped with rfl | ⟨unused, ⟨row, rowInside, remote⟩, rfl⟩
    · exact keptInv
    · refine keptInv.removeNode unused (fun other otherInside => ?_) fun repset => id
      rw [same, inv.localNode_eq rowInside, List.mem_singleton] at otherInside
      rw [otherInside]
      exact remote.symm

/-! ## Every run -/

/-- An interface is dropped only when no row refers to it. -/
def DropsUnused (catalog : Catalog) : Call → Prop
  | .alterNodeDropInterface nodeName ifName => ∀ node ∈ catalog.node, node.name = nodeName →
      ∀ nodeif ∈ catalog.nodeInterface, nodeif.nodeid = node.id → nodeif.name = ifName →
        InterfaceUnused catalog nodeif.id
  | _ => True

instance InterfaceUnused.decidable (catalog : Catalog) (ifid : Oid) : Decidable (InterfaceUnused catalog ifid) :=
  have := List.decidableBAll (fun row : LocalNodeTuple => row.nodeLocalNodeIf ≠ ifid) catalog.localNode
  have := List.decidableBAll (fun sub : SubscriptionTuple => sub.subOriginIf ≠ ifid ∧ sub.subTargetIf ≠ ifid)
    catalog.subscription
  inferInstanceAs (Decidable (_ ∧ _))

instance DropsUnused.decidable (catalog : Catalog) : ∀ statement, Decidable (DropsUnused catalog statement)
  | .alterNodeDropInterface nodeName ifName =>
      have (node : PGLogicalNode) := List.decidableBAll (fun nodeif : PGlogicalInterface => nodeif.nodeid = node.id →
        nodeif.name = ifName → InterfaceUnused catalog nodeif.id) catalog.nodeInterface
      List.decidableBAll (fun node : PGLogicalNode => node.name = nodeName → ∀ nodeif ∈ catalog.nodeInterface,
        nodeif.nodeid = node.id → nodeif.name = ifName → InterfaceUnused catalog nodeif.id) catalog.node
  | .createNode .. | .dropNode .. | .alterNodeAddInterface .. | .createSubscription _ | .dropSubscription ..
  | .alterSubscriptionDisable .. | .alterSubscriptionEnable .. | .alterSubscriptionInterface ..
  | .alterSubscriptionAddReplicationSet .. | .alterSubscriptionRemoveReplicationSet .. => isTrue trivial

theorem Inv.step (inv : Inv catalog) {statement : Call} (unused : DropsUnused catalog statement)
    (taken : step env catalog statement = some next) : Inv next := by
  rcases step_cases taken with rfl | committed
  · exact inv
  · cases statement with
    | createNode nodeName nodeDsn =>
      obtain ⟨result, done, rfl⟩ := map_eq_ok.mp committed
      exact inv.createNode done
    | dropNode nodeName ifexists slots =>
      obtain ⟨result, done, rfl⟩ := map_eq_ok.mp committed
      exact inv.dropNode done
    | alterNodeAddInterface nodeName ifName ifDsn =>
      obtain ⟨result, done, rfl⟩ := map_eq_ok.mp committed
      exact inv.alterNodeAddInterface done
    | alterNodeDropInterface nodeName ifName =>
      obtain ⟨result, done, rfl⟩ := map_eq_ok.mp committed
      exact inv.alterNodeDropInterface done unused
    | createSubscription args =>
      obtain ⟨result, done, rfl⟩ := map_eq_ok.mp committed
      exact inv.createSubscription done
    | dropSubscription subName ifexists finish =>
      obtain ⟨result, done, rfl⟩ := map_eq_ok.mp committed
      exact inv.dropSubscription done
    | alterSubscriptionDisable subName immediate inTransactionBlock =>
      obtain ⟨result, done, rfl⟩ := map_eq_ok.mp committed
      exact inv.writtenBack (alterSubscriptionEnabled_eq_ok done) (fun _ => rfl) (fun _ => rfl) fun _ => .inl rfl
    | alterSubscriptionEnable subName immediate inTransactionBlock =>
      obtain ⟨result, done, rfl⟩ := map_eq_ok.mp committed
      exact inv.writtenBack (alterSubscriptionEnabled_eq_ok done) (fun _ => rfl) (fun _ => rfl) fun _ => .inl rfl
    | alterSubscriptionInterface subName ifName =>
      obtain ⟨result, done, rfl⟩ := map_eq_ok.mp committed
      rcases pglogicalAlterSubscriptionInterface_eq_ok done with same | ⟨newIf, inside, written⟩
      · rw [same]
        exact inv
      · refine inv.writtenBack written (fun sub => ?_) (fun sub => ?_) fun sub => ?_
        · split <;> rfl
        · split <;> rfl
        · split
          · exact .inr inside
          · exact .inl rfl
    | alterSubscriptionAddReplicationSet subName repsetName =>
      obtain ⟨result, done, rfl⟩ := map_eq_ok.mp committed
      rcases pglogicalAlterSubscriptionAddReplicationSet_eq_ok done with same | written
      · rw [same]
        exact inv
      · exact inv.writtenBack written (fun _ => rfl) (fun _ => rfl) fun _ => .inl rfl
    | alterSubscriptionRemoveReplicationSet subName repsetName =>
      obtain ⟨result, done, rfl⟩ := map_eq_ok.mp committed
      rcases pglogicalAlterSubscriptionRemoveReplicationSet_eq_ok done with same | written
      · rw [same]
        exact inv
      · exact inv.writtenBack written (fun _ => rfl) (fun _ => rfl) fun _ => .inl rfl

/-- In every run that drops only unused interfaces, every stored reference finds its row, so that the
local node and every stored subscription can be loaded. -/
theorem catalogs_referentially_sound (env : Environment) (statements : List Call) (catalog : Catalog)
    (allowed : Permitted (step env) DropsUnused .empty statements)
    (done : run (step env) .empty statements = some catalog) :
    ReferentiallySound catalog ∧
      (catalog.localNode ≠ [] → ∃ localnode, catalog.getLocalNode = .ok localnode) ∧
      ∀ subtup ∈ catalog.subscription, ∃ sub, catalog.getSubscription subtup.subId = .ok sub := by
  have inv : Inv catalog :=
    Machine.run_invariant (fun inv unused taken => inv.step unused taken) inv_empty allowed done
  have sound := inv.referentiallySound
  exact ⟨sound, sound.getLocalNode, fun subtup inside => sound.getSubscription inside⟩

/-! ## A node that loses its interface -/

def nameOf (s : String) (short : (CString.ofString s).strlen < namedatalen) : NameData := ⟨CString.ofString s, short⟩

def subscriberName : NameData := nameOf "subscriber" (by decide)
def providerName : NameData := nameOf "provider" (by decide)

/-- The values of `hash_any` for the names of the sample. -/
def sampleHashes : List (Bytes × UInt32) :=
  [((CString.ofString "subscriber").val, 2941155235), ((CString.ofString "provider").val, 3171898924),
    ((CString.ofString "second").val, 2494656185), ((CString.ofString "sub").val, 185748271),
    ((CString.ofString "sub2").val, 2166115544),
    ((CString.ofString "default").val, 822708183), ((CString.ofString "default_insert_only").val, 3984194936),
    ((CString.ofString "ddl_sql").val, 597667261), (wordBytes 2941155235 ++ wordBytes 2941155235, 2467722369),
    (wordBytes 2941155235 ++ wordBytes 822708183, 3048336061), (wordBytes 2941155235 ++ wordBytes 3984194936, 2431191812),
    (wordBytes 2941155235 ++ wordBytes 597667261, 929844751), (wordBytes 3171898924 ++ wordBytes 3171898924, 202885847),
    (wordBytes 3171898924 ++ wordBytes 2494656185, 1038593493)]

def sampleEnv : Environment := ⟨fun bytes => (sampleHashes.lookup bytes).getD 0, 16384, nameOf "postgres" (by decide)⟩

/-- The interface that was created with the node is dropped. -/
def losesInterface : List Call :=
  [.createNode subscriberName (CString.ofString "dbname=postgres"),
    .alterNodeDropInterface subscriberName subscriberName]

/-- The local node can no longer be loaded. -/
theorem local_interface_dropped :
    ∃ catalog, run (step sampleEnv) .empty losesInterface = some catalog ∧ catalog.localNode ≠ [] ∧
      ¬ ReferentiallySound catalog ∧ catalog.getLocalNode = .error "node interface 2467722369 not found" := by
  refine ⟨((run (step sampleEnv) .empty losesInterface).getD .empty), by decide, by decide,
    fun sound => ?_, by decide⟩
  have broken : ¬ ∃ nodeif ∈ ((run (step sampleEnv) .empty losesInterface).getD .empty).nodeInterface,
      nodeif.id = 2467722369 := by decide
  exact broken (sound.localIf ⟨2941155235, 2467722369⟩ (by decide))

def sampleSubscription : CreateSubscription where
  subName := nameOf "sub" (by decide)
  providerDsn := CString.ofString "host=provider"
  repSetNames := [CString.ofString "default"]
  syncStructure := false
  syncData := true
  forwardOriginNames := [CString.ofString "all"]
  applyDelay := ⟨0, 0, 0⟩
  remoteNode := .ok ⟨3171898924, providerName⟩
  connections := .ok ()

/-- A subscription moves to a second interface before the first one is dropped. -/
def movesInterface : List Call :=
  [.createNode subscriberName (CString.ofString "dbname=postgres"), .createSubscription sampleSubscription,
    .alterNodeAddInterface providerName (nameOf "second" (by decide)) (CString.ofString "host=second"),
    .alterSubscriptionInterface (nameOf "sub" (by decide)) (nameOf "second" (by decide)),
    .alterNodeDropInterface providerName providerName]

def movedCatalog : Catalog := (run (step sampleEnv) .empty movesInterface).getD .empty

theorem referentially_sound_after_move :
    ReferentiallySound movedCatalog ∧
      (movedCatalog.localNode ≠ [] → ∃ localnode, movedCatalog.getLocalNode = .ok localnode) ∧
      ∀ subtup ∈ movedCatalog.subscription, ∃ sub, movedCatalog.getSubscription subtup.subId = .ok sub :=
  catalogs_referentially_sound sampleEnv movesInterface movedCatalog (by decide) (by decide)

end PGLogical.Nodes
