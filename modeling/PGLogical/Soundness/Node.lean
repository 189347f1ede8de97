import PGLogical.Model.NodeFunctions
import PGLogical.Machine.Fallible

/-! # What the functions on nodes and subscriptions commit

One lemma per function: which rows a successful call has found and how the catalogs differ
afterwards. The invariants of the catalogs are derived from these lemmas alone.
-/

namespace PGLogical.Nodes

open Wire (Bytes CString)
open Machine (bind_eq_ok map_eq_ok guard_eq_ok)

variable {env : Environment} {catalog next : Catalog}

namespace Catalog

/-! ## Reading -/

theorem insertUnique_eq_ok {α : Type} {conflict : α → Bool} {rows result : List α} {row : α} :
    insertUnique conflict rows row = .ok result ↔ (∀ other ∈ rows, conflict other = false) ∧ rows ++ [row] = result := by
  unfold insertUnique
  split
  · next found =>
    obtain ⟨other, inside, clash⟩ := List.any_eq_true.mp found
    simp only [reduceCtorEq, false_iff, not_and]
    intro free
    rw [free other inside] at clash
    cases clash
  · next absent =>
    have free : ∀ other ∈ rows, conflict other = false := by simpa using absent
    exact ⟨fun same => ⟨free, Except.ok.inj same⟩, fun both => congrArg _ both.2⟩

theorem getNode_eq_ok {nodeid : Oid} {node : PGLogicalNode} (found : catalog.getNode nodeid = .ok node) :
    node ∈ catalog.node ∧ node.id = nodeid := by
  unfold getNode at found
  split at found
  · next first =>
    cases found
    exact ⟨List.mem_of_find?_eq_some first, by simpa using List.find?_some first⟩
  · cases found

theorem exists_getNode {nodeid : Oid} (present : ∃ node ∈ catalog.node, node.id = nodeid) :
    ∃ node, catalog.getNode nodeid = .ok node := by
  obtain ⟨node, inside, same⟩ := present
  unfold getNode
  split
  · next first => exact ⟨_, rfl⟩
  · next missing => exact absurd same (by simpa using List.find?_eq_none.mp missing node inside)

theorem getNodeByName_eq_ok {name : NameData} {node : PGLogicalNode}
    (found : catalog.getNodeByName name = .ok node) : node ∈ catalog.node ∧ node.name = name := by
  unfold getNodeByName findNodeByName at found
  split at found
  · next first =>
    cases found
    exact ⟨List.mem_of_find?_eq_some first, by simpa using List.find?_some first⟩
  · cases found

theorem getNodeInterface_eq_ok {ifid : Oid} {nodeif : PGlogicalInterface}
    (found : catalog.getNodeInterface ifid = .ok nodeif) : nodeif ∈ catalog.nodeInterface ∧ nodeif.id = ifid := by
  unfold getNodeInterface at found
  split at found
  · next first =>
    cases found
    exact ⟨List.mem_of_find?_eq_some first, by simpa using List.find?_some first⟩
  · cases found

theorem exists_getNodeInterface {ifid : Oid} (present : ∃ nodeif ∈ catalog.nodeInterface, nodeif.id = ifid) :
    ∃ nodeif, catalog.getNodeInterface ifid = .ok nodeif := by
  obtain ⟨nodeif, inside, same⟩ := present
  unfold getNodeInterface
  split
  · next first => exact ⟨_, rfl⟩
  · next missing => exact absurd same (by simpa using List.find?_eq_none.mp missing nodeif inside)

theorem findNodeInterfaceByName_eq_some {nodeid : Oid} {name : NameData} {nodeif : PGlogicalInterface}
    (found : catalog.findNodeInterfaceByName nodeid name = some nodeif) :
    nodeif ∈ catalog.nodeInterface ∧ nodeif.nodeid = nodeid ∧ nodeif.name = name :=
  ⟨List.mem_of_find?_eq_some found, by simpa using List.find?_some found⟩

theorem getNodeInterfaceByName_eq_ok {nodeid : Oid} {name : NameData} {nodeif : PGlogicalInterface}
    (found : catalog.getNodeInterfaceByName nodeid name = .ok nodeif) :
    nodeif ∈ catalog.nodeInterface ∧ nodeif.nodeid = nodeid ∧ nodeif.name = name := by
  unfold getNodeInterfaceByName at found
  split at found
  · next first =>
    cases found
    exact findNodeInterfaceByName_eq_some first
  · cases found

theorem getLocalNode_eq_ok {localnode : PGLogicalLocalNode} (found : catalog.getLocalNode = .ok localnode) :
    ∃ row ∈ catalog.localNode, localnode.node.id = row.nodeLocalId ∧
      localnode.nodeIf ∈ catalog.nodeInterface ∧ localnode.nodeIf.id = row.nodeLocalNodeIf := by
  obtain ⟨stored, found, returned⟩ := bind_eq_ok.mp found
  unfold findLocalNode at found
  split at found
  · cases found
    cases returned
  · next row rest rows =>
    obtain ⟨node, foundNode, found⟩ := bind_eq_ok.mp found
    obtain ⟨nodeIf, foundIf, found⟩ := bind_eq_ok.mp found
    cases found
    cases returned
    refine ⟨row, by rw [rows]; exact List.mem_cons_self .., (getNode_eq_ok foundNode).2, ?_⟩
    exact getNodeInterface_eq_ok foundIf

/-- A subscription read from a row carries the records the row refers to. -/
theorem subscriptionFromtuple_eq_ok {subtup : SubscriptionTuple} {sub : PGLogicalSubscription}
    (found : catalog.subscriptionFromtuple subtup = .ok sub) :
    sub.originIf ∈ catalog.nodeInterface ∧ sub.targetIf ∈ catalog.nodeInterface ∧
      sub.origin.id = subtup.subOrigin ∧ sub.target.id = subtup.subTarget ∧
      sub.originIf.id = subtup.subOriginIf ∧ sub.targetIf.id = subtup.subTargetIf ∧
      sub.id = subtup.subId ∧ sub.name = subtup.subName ∧ sub.slotName = subtup.subSlotName ∧
      sub.replicationSets = subtup.subReplicationSets := by
  obtain ⟨origin, foundOrigin, found⟩ := bind_eq_ok.mp found
  obtain ⟨target, foundTarget, found⟩ := bind_eq_ok.mp found
  obtain ⟨originIf, foundOriginIf, found⟩ := bind_eq_ok.mp found
  obtain ⟨targetIf, foundTargetIf, found⟩ := bind_eq_ok.mp found
  cases found
  obtain ⟨originIfInside, originIfId⟩ := getNodeInterface_eq_ok foundOriginIf
  obtain ⟨targetIfInside, targetIfId⟩ := getNodeInterface_eq_ok foundTargetIf
  exact ⟨originIfInside, targetIfInside, (getNode_eq_ok foundOrigin).2, (getNode_eq_ok foundTarget).2,
    originIfId, targetIfId, rfl, rfl, rfl, rfl⟩

theorem findSubscriptionByName_eq_ok {name : NameData} {sub : PGLogicalSubscription}
    (found : catalog.findSubscriptionByName name = .ok (some sub)) :
    ∃ subtup ∈ catalog.subscription, subtup.subName = name ∧ catalog.subscriptionFromtuple subtup = .ok sub := by
  unfold findSubscriptionByName at found
  split at found
  · next subtup first =>
    obtain ⟨read, fromtuple, same⟩ := map_eq_ok.mp found
    cases same
    exact ⟨subtup, List.mem_of_find?_eq_some first, by simpa using List.find?_some first, fromtuple⟩
  · cases found

theorem getSubscriptionByName_eq_ok {name : NameData} {sub : PGLogicalSubscription}
    (found : catalog.getSubscriptionByName name = .ok sub) :
    ∃ subtup ∈ catalog.subscription, subtup.subName = name ∧ catalog.subscriptionFromtuple subtup = .ok sub := by
  obtain ⟨answer, found, returned⟩ := bind_eq_ok.mp found
  split at returned
  · cases returned
    exact findSubscriptionByName_eq_ok found
  · cases returned

/-- No subscription is returned only if no row has the node on that side. -/
theorem getNodeSubscriptions_eq_ok {nodeid : Oid} {origin : Bool} {subs : List PGLogicalSubscription}
    (found : catalog.getNodeSubscriptions nodeid origin = .ok subs) {subtup : SubscriptionTuple}
    (inside : subtup ∈ catalog.subscription)
    (same : (if origin then subtup.subOrigin else subtup.subTarget) = nodeid) :
    ∃ sub ∈ subs, catalog.subscriptionFromtuple subtup = .ok sub := by
  have matching : subtup ∈ catalog.subscription.filter fun subtup =>
      decide ((if origin then subtup.subOrigin else subtup.subTarget) = nodeid) :=
    List.mem_filter.mpr ⟨inside, decide_eq_true same⟩
  exact Machine.exists_of_mapM_eq_ok found matching

/-! ## Writing -/

theorem createNode_eq_ok {hashAny : Bytes → UInt32} {node made : PGLogicalNode}
    (done : catalog.createNode hashAny node = .ok (made, next)) :
    (∀ other ∈ catalog.node, other.id ≠ made.id ∧ other.name ≠ made.name) ∧ made.name = node.name ∧
      (node.id ≠ invalidOid → made.id = node.id) ∧ next = { catalog with node := catalog.node ++ [made] } := by
  unfold createNode at done
  obtain ⟨-, done⟩ := guard_eq_ok.mp done
  obtain ⟨rows, inserted, done⟩ := bind_eq_ok.mp done
  obtain ⟨free, rfl⟩ := insertUnique_eq_ok.mp inserted
  cases done
  refine ⟨fun other inside => by simpa using free other inside, ?_, fun valid => by rw [if_neg valid], rfl⟩
  split <;> rfl

theorem dropNode_eq_ok {nodeid : Oid} (done : catalog.dropNode nodeid = .ok next) :
    next = { catalog with node := catalog.node.eraseP fun node => decide (node.id = nodeid) } := by
  obtain ⟨node, -, done⟩ := bind_eq_ok.mp done
  cases done
  rfl

theorem createNodeInterface_eq_ok {hashAny : Bytes → UInt32} {nodeif made : PGlogicalInterface}
    (done : catalog.createNodeInterface hashAny nodeif = .ok (made, next)) :
    (∀ other ∈ catalog.nodeInterface, other.id ≠ made.id) ∧ made.nodeid = nodeif.nodeid ∧
      made.name = nodeif.name ∧ next = { catalog with nodeInterface := catalog.nodeInterface ++ [made] } := by
  unfold createNodeInterface at done
  obtain ⟨rows, inserted, done⟩ := bind_eq_ok.mp done
  obtain ⟨free, rfl⟩ := insertUnique_eq_ok.mp inserted
  cases done
  refine ⟨fun other inside => ?_, ?_, ?_, rfl⟩
  · have apart := free other inside
    simp only [decide_eq_false_iff_not, not_or] at apart
    exact apart.1
  · split <;> rfl
  · split <;> rfl

theorem dropNodeInterface_eq_ok {ifid : Oid} (done : catalog.dropNodeInterface ifid = .ok next) :
    next = { catalog with
      nodeInterface := catalog.nodeInterface.eraseP fun nodeif => decide (nodeif.id = ifid) } := by
  obtain ⟨nodeif, -, done⟩ := bind_eq_ok.mp done
  cases done
  rfl

theorem createReplicationSet_eq_ok {hashAny : Bytes → UInt32} {repset made : PGLogicalRepSet}
    (done : catalog.createReplicationSet hashAny repset = .ok (made, next)) :
    (∀ other ∈ catalog.replicationSet, other.id ≠ made.id) ∧ made.nodeid = repset.nodeid ∧
      next = { catalog with replicationSet := catalog.replicationSet ++ [made] } := by
  unfold createReplicationSet at done
  obtain ⟨-, done⟩ := guard_eq_ok.mp done
  obtain ⟨-, done⟩ := guard_eq_ok.mp done
  obtain ⟨rows, inserted, done⟩ := bind_eq_ok.mp done
  obtain ⟨free, rfl⟩ := insertUnique_eq_ok.mp inserted
  cases done
  refine ⟨fun other inside => ?_, ?_, rfl⟩
  · have apart := free other inside
    simp only [decide_eq_false_iff_not, not_or] at apart
    exact apart.1
  · split <;> rfl

theorem createLocalNode_eq_ok {nodeid ifid : Oid} (done : catalog.createLocalNode nodeid ifid = .ok next) :
    catalog.localNode = [] ∧ next = { catalog with localNode := [⟨nodeid, ifid⟩] } := by
  obtain ⟨stored, found, done⟩ := bind_eq_ok.mp done
  obtain ⟨absent, done⟩ := guard_eq_ok.mp done
  obtain ⟨rows, inserted, done⟩ := bind_eq_ok.mp done
  obtain ⟨-, rfl⟩ := insertUnique_eq_ok.mp inserted
  cases done
  unfold findLocalNode at found
  split at found
  · next none => exact ⟨none, by rw [none, List.nil_append]⟩
  · obtain ⟨node, -, found⟩ := bind_eq_ok.mp found
    obtain ⟨nodeIf, -, found⟩ := bind_eq_ok.mp found
    cases found
    exact absurd rfl absent

theorem validateSubscriptionName_eq_ok {name : NameData} {u : Unit}
    (valid : validateSubscriptionName name = .ok u) : name.str.val.all validNameChar = true := by
  unfold validateSubscriptionName at valid
  obtain ⟨-, valid⟩ := guard_eq_ok.mp valid
  split at valid
  · cases valid
  · next allowed => simpa using allowed

theorem createSubscription_eq_ok {hashAny : Bytes → UInt32} {sub made : SubscriptionTuple}
    (done : catalog.createSubscription hashAny sub = .ok (made, next)) :
    (∀ other ∈ catalog.subscription, other.subId ≠ made.subId ∧ other.subName ≠ made.subName) ∧
      made.subName.str.val.all validNameChar = true ∧ made = { sub with subId := made.subId } ∧
      next = { catalog with subscription := catalog.subscription ++ [made] } := by
  unfold createSubscription at done
  obtain ⟨_, valid, done⟩ := bind_eq_ok.mp done
  obtain ⟨stored, -, done⟩ := bind_eq_ok.mp done
  obtain ⟨-, done⟩ := guard_eq_ok.mp done
  obtain ⟨rows, inserted, done⟩ := bind_eq_ok.mp done
  obtain ⟨free, rfl⟩ := insertUnique_eq_ok.mp inserted
  cases done
  refine ⟨fun other inside => by simpa using free other inside, ?_, by split <;> rfl, rfl⟩
  have name : (if sub.subId = invalidOid then { sub with subId := hashAny sub.subName.str.val } else sub).subName =
      sub.subName := by split <;> rfl
  rw [name]
  exact validateSubscriptionName_eq_ok valid

theorem alterSubscription_eq_ok {sub : PGLogicalSubscription} (done : catalog.alterSubscription sub = .ok next) :
    next = { catalog with subscription := catalog.subscription.map fun subtup =>
      if subtup.subId = sub.id then SubscriptionTuple.modify subtup sub else subtup } := by
  unfold alterSubscription at done
  split at done
  · cases done
    rfl
  · cases done

theorem dropSubscription_eq_ok {subid : Oid} (done : catalog.dropSubscription subid = .ok next) :
    next = { catalog with
      subscription := catalog.subscription.filter fun subtup => decide (subtup.subId ≠ subid) } := by
  unfold dropSubscription at done
  split at done
  · cases done
    rfl
  · cases done

theorem createLocalSyncStatus_eq_ok {sync : PGLogicalSyncStatus}
    (done : catalog.createLocalSyncStatus sync = .ok next) :
    next = { catalog with localSyncStatus := catalog.localSyncStatus ++ [sync] } := by
  obtain ⟨rows, inserted, done⟩ := bind_eq_ok.mp done
  obtain ⟨-, rfl⟩ := insertUnique_eq_ok.mp inserted
  cases done
  rfl

end Catalog

open Catalog

/-! ## The SQL functions -/

theorem createRepsets_eq_ok {nodeid : Oid}
    (done : (predefinedRepsets nodeid).foldlM
      (fun catalog repset => Prod.snd <$> Catalog.createReplicationSet env.hashAny catalog repset) catalog = .ok next) :
    ∃ repsets : List PGLogicalRepSet, (∀ repset ∈ repsets, repset.nodeid = nodeid) ∧
      next = { catalog with replicationSet := catalog.replicationSet ++ repsets } := by
  refine @Machine.foldlM_invariant _ _ _ (fun state => ∃ repsets : List PGLogicalRepSet,
    (∀ repset ∈ repsets, repset.nodeid = nodeid) ∧
      state = { catalog with replicationSet := catalog.replicationSet ++ repsets }) _ _ ?_ _ _ ?_ done
  · rintro state after repset listed ⟨repsets, owned, rfl⟩ round
    obtain ⟨⟨made, result⟩, created, rfl⟩ := map_eq_ok.mp round
    obtain ⟨-, owner, rfl⟩ := createReplicationSet_eq_ok created
    have asked : repset.nodeid = nodeid := by
      simp only [predefinedRepsets, List.mem_cons, List.not_mem_nil, or_false] at listed
      rcases listed with rfl | rfl | rfl <;> rfl
    refine ⟨repsets ++ [made], fun other inside => ?_, by simp⟩
    rcases List.mem_append.mp inside with earlier | last
    · exact owned other earlier
    · rw [List.mem_singleton.mp last, owner, asked]
  · exact ⟨[], fun repset inside => (List.not_mem_nil inside).elim, by simp⟩

theorem pglogicalCreateNode_eq_ok {nodeName : NameData} {nodeDsn : CString} {id : Oid}
    (done : pglogicalCreateNode env catalog nodeName nodeDsn = .ok (id, next)) :
    ∃ (node : PGLogicalNode) (nodeif : PGlogicalInterface) (repsets : List PGLogicalRepSet),
      (∀ other ∈ catalog.node, other.id ≠ node.id) ∧ (∀ other ∈ catalog.nodeInterface, other.id ≠ nodeif.id) ∧
      nodeif.nodeid = node.id ∧ (∀ repset ∈ repsets, repset.nodeid = node.id) ∧ catalog.localNode = [] ∧
      next = { catalog with
        node := catalog.node ++ [node]
        nodeInterface := catalog.nodeInterface ++ [nodeif]
        localNode := [⟨node.id, nodeif.id⟩]
        replicationSet := catalog.replicationSet ++ repsets } := by
  unfold pglogicalCreateNode at done
  obtain ⟨⟨node, first⟩, madeNode, done⟩ := bind_eq_ok.mp done
  obtain ⟨⟨nodeif, second⟩, madeIf, done⟩ := bind_eq_ok.mp done
  obtain ⟨third, madeSets, done⟩ := bind_eq_ok.mp done
  obtain ⟨fourth, madeLocal, done⟩ := bind_eq_ok.mp done
  cases done
  obtain ⟨freeNode, -, -, rfl⟩ := createNode_eq_ok madeNode
  obtain ⟨freeIf, owner, -, rfl⟩ := createNodeInterface_eq_ok madeIf
  obtain ⟨repsets, owned, rfl⟩ := createRepsets_eq_ok madeSets
  obtain ⟨unset, rfl⟩ := createLocalNode_eq_ok madeLocal
  exact ⟨node, nodeif, repsets, fun other inside => (freeNode other inside).1, freeIf, owner, owned, unset, rfl⟩

/-- The local record goes with its node; the record of another node stays. -/
theorem dropLocalRecord_eq_ok {node : PGLogicalNode} {slots : List ReplicationSlot}
    (done : dropLocalRecord env catalog node slots = .ok next) :
    ∃ rows, ((∃ row, catalog.localNode = row :: rows ∧ row.nodeLocalId = node.id) ∨
        (rows = catalog.localNode ∧ ∀ row, catalog.localNode.head? = some row → row.nodeLocalId ≠ node.id)) ∧
      next = { catalog with localNode := rows } := by
  unfold dropLocalRecord at done
  obtain ⟨stored, found, done⟩ := bind_eq_ok.mp done
  unfold findLocalNode at found
  split at found
  · next unset =>
    cases found
    cases done
    exact ⟨catalog.localNode, .inr ⟨rfl, fun row first => by simp [unset] at first⟩, rfl⟩
  · next row rest rows =>
    obtain ⟨own, foundNode, found⟩ := bind_eq_ok.mp found
    obtain ⟨nodeIf, -, found⟩ := bind_eq_ok.mp found
    cases found
    have same := (getNode_eq_ok foundNode).2
    simp only at done
    split at done
    · next other =>
      cases done
      refine ⟨catalog.localNode, .inr ⟨rfl, fun first isFirst => ?_⟩, rfl⟩
      rw [rows, List.head?_cons, Option.some.injEq] at isFirst
      rw [← isFirst, ← same]
      exact other
    · next equal =>
      split at done
      · cases done
      · unfold dropLocalNode at done
        rw [rows] at done
        cases done
        exact ⟨rest, .inl ⟨row, rows, by rw [← same]; simpa using equal⟩, rfl⟩

theorem pglogicalDropNode_eq_ok {nodeName : NameData} {ifexists existed : Bool} {slots : List ReplicationSlot}
    (done : pglogicalDropNode env catalog nodeName ifexists slots = .ok (existed, next)) :
    next = catalog ∨ ∃ (node : PGLogicalNode) (rows : List LocalNodeTuple),
      (∀ sub ∈ catalog.subscription, sub.subOrigin ≠ node.id ∧ sub.subTarget ≠ node.id) ∧
      ((∃ row, catalog.localNode = row :: rows ∧ row.nodeLocalId = node.id) ∨
        (rows = catalog.localNode ∧ ∀ row, catalog.localNode.head? = some row → row.nodeLocalId ≠ node.id)) ∧
      next = { catalog with
        node := catalog.node.eraseP fun other => decide (other.id = node.id)
        nodeInterface := catalog.nodeInterface.filter fun nodeif => decide (nodeif.nodeid ≠ node.id)
        localNode := rows
        replicationSet := catalog.replicationSet.filter fun repset => decide (repset.nodeid ≠ node.id) } := by
  unfold pglogicalDropNode at done
  split at done
  · split at done
    · cases done
      exact .inl rfl
    · cases done
  · next node found =>
    right
    obtain ⟨osubs, asOrigin, done⟩ := bind_eq_ok.mp done
    obtain ⟨tsubs, asTarget, done⟩ := bind_eq_ok.mp done
    obtain ⟨none, done⟩ := guard_eq_ok.mp done
    obtain ⟨cut, localCut, done⟩ := bind_eq_ok.mp done
    obtain ⟨rows, record, rfl⟩ := dropLocalRecord_eq_ok localCut
    obtain ⟨last, dropped, done⟩ := bind_eq_ok.mp done
    cases done
    obtain rfl := dropNode_eq_ok dropped
    refine ⟨node, rows, ?_, record, rfl⟩
    simp only [ne_eq, not_or, not_not, List.length_eq_zero_iff] at none
    obtain ⟨rfl, rfl⟩ := none
    refine fun sub inside => ⟨fun same => ?_, fun same => ?_⟩
    · obtain ⟨read, listed, -⟩ := getNodeSubscriptions_eq_ok asOrigin inside same
      cases listed
    · obtain ⟨read, listed, -⟩ := getNodeSubscriptions_eq_ok asTarget inside same
      cases listed

theorem pglogicalAlterNodeAddInterface_eq_ok {nodeName ifName : NameData} {ifDsn : CString} {id : Oid}
    (done : pglogicalAlterNodeAddInterface env catalog nodeName ifName ifDsn = .ok (id, next)) :
    ∃ (node : PGLogicalNode) (nodeif : PGlogicalInterface), node ∈ catalog.node ∧ nodeif.nodeid = node.id ∧
      (∀ other ∈ catalog.nodeInterface, other.id ≠ nodeif.id) ∧
      next = { catalog with nodeInterface := catalog.nodeInterface ++ [nodeif] } := by
  unfold pglogicalAlterNodeAddInterface at done
  obtain ⟨node, found, done⟩ := bind_eq_ok.mp done
  obtain ⟨-, done⟩ := guard_eq_ok.mp done
  obtain ⟨⟨newif, after⟩, made, done⟩ := bind_eq_ok.mp done
  cases done
  obtain ⟨free, owner, -, rfl⟩ := createNodeInterface_eq_ok made
  exact ⟨node, newif, (getNodeByName_eq_ok found).1, owner, free, rfl⟩

theorem pglogicalAlterNodeDropInterface_eq_ok {nodeName ifName : NameData} {existed : Bool}
    (done : pglogicalAlterNodeDropInterface catalog nodeName ifName = .ok (existed, next)) :
    ∃ node ∈ catalog.node, node.name = nodeName ∧ ∃ oldif ∈ catalog.nodeInterface, oldif.nodeid = node.id ∧
      oldif.name = ifName ∧
      next = { catalog with
        nodeInterface := catalog.nodeInterface.eraseP fun nodeif => decide (nodeif.id = oldif.id) } := by
  unfold pglogicalAlterNodeDropInterface at done
  obtain ⟨node, found, done⟩ := bind_eq_ok.mp done
  obtain ⟨inside, named⟩ := getNodeByName_eq_ok found
  split at done
  · cases done
  · next oldif foundIf =>
    obtain ⟨ifInside, owner, ifNamed⟩ := findNodeInterfaceByName_eq_some foundIf
    obtain ⟨after, dropped, done⟩ := bind_eq_ok.mp done
    cases done
    exact ⟨node, inside, named, oldif, ifInside, owner, ifNamed, dropNodeInterface_eq_ok dropped⟩

/-- The provider is known under its name, or a node and an interface are created for it. -/
theorem originInterface_eq_ok {origin : PGLogicalNode} {providerDsn : CString} {originif : PGlogicalInterface}
    (done : originInterface env catalog origin providerDsn = .ok (originif, next)) :
    ((∃ node ∈ catalog.node, node.name = origin.name) ∧ originif ∈ catalog.nodeInterface ∧
      originif.nodeid = origin.id ∧ next = catalog) ∨
    ∃ node : PGLogicalNode, (∀ other ∈ catalog.node, other.id ≠ node.id) ∧ node.name = origin.name ∧
      originif.nodeid = node.id ∧ (∀ other ∈ catalog.nodeInterface, other.id ≠ originif.id) ∧
      next = { catalog with
        node := catalog.node ++ [node], nodeInterface := catalog.nodeInterface ++ [originif] } := by
  unfold originInterface at done
  split at done
  · obtain ⟨⟨node, middle⟩, madeNode, madeIf⟩ := bind_eq_ok.mp done
    obtain ⟨freeNode, named, -, rfl⟩ := createNode_eq_ok madeNode
    obtain ⟨freeIf, owner, -, rfl⟩ := createNodeInterface_eq_ok madeIf
    exact .inr ⟨node, fun other inside => (freeNode other inside).1, named, owner, freeIf, rfl⟩
  · next node found =>
    obtain ⟨existingif, foundIf, done⟩ := bind_eq_ok.mp done
    obtain ⟨-, done⟩ := guard_eq_ok.mp done
    cases done
    obtain ⟨inside, owner, -⟩ := getNodeInterfaceByName_eq_ok foundIf
    exact .inl ⟨⟨node, List.mem_of_find?_eq_some found, by simpa using List.find?_some found⟩, inside, owner, rfl⟩

theorem overlappingSet_eq_none {otherSubs : List PGLogicalSubscription} {replicationSets : List CString}
    (none : overlappingSet otherSubs replicationSets = none) {sub : PGLogicalSubscription} (listed : sub ∈ otherSubs)
    {set : CString} (subscribed : set ∈ sub.replicationSets) : set ∉ replicationSets := by
  have unmatched := List.findSome?_eq_none_iff.mp none sub listed
  simp only [Option.map_eq_none_iff, List.find?_eq_none, decide_eq_true_eq] at unmatched
  exact unmatched set subscribed

/-- The row of the new subscription; it overlaps no other one of its origin. -/
theorem pglogicalCreateSubscription_eq_ok {args : CreateSubscription} {id : Oid}
    (done : pglogicalCreateSubscription env catalog args = .ok (id, next)) :
    ∃ (localnode : PGLogicalLocalNode) (origin : PGLogicalNode) (originif : PGlogicalInterface) (middle : Catalog)
      (sub : SubscriptionTuple), catalog.getLocalNode = .ok localnode ∧ args.remoteNode = .ok origin ∧
      originInterface env catalog origin args.providerDsn = .ok (originif, middle) ∧
      (∀ other ∈ middle.subscription, other.subOrigin = originif.nodeid →
        ∀ set ∈ other.subReplicationSets, set ∉ args.repSetNames) ∧
      (∀ other ∈ middle.subscription, other.subId ≠ sub.subId ∧ other.subName ≠ sub.subName) ∧
      sub.subName.str.val.all validNameChar = true ∧
      sub = ⟨sub.subId, args.subName, originif.nodeid, localnode.node.id, originif.id, localnode.nodeIf.id, true,
        genSlotName env.hashAny env.databaseName origin.name args.subName, args.repSetNames,
        args.forwardOriginNames, args.applyDelay⟩ ∧
      next = { middle with
        subscription := middle.subscription ++ [sub]
        localSyncStatus := middle.localSyncStatus ++
          [⟨syncKind args.syncStructure args.syncData, sub.subId, none, .init⟩] } := by
  unfold pglogicalCreateSubscription at done
  obtain ⟨localnode, foundLocal, done⟩ := bind_eq_ok.mp done
  obtain ⟨origin, answered, done⟩ := bind_eq_ok.mp done
  obtain ⟨_, -, done⟩ := bind_eq_ok.mp done
  obtain ⟨⟨originif, middle⟩, madeOrigin, done⟩ := bind_eq_ok.mp done
  obtain ⟨otherSubs, others, done⟩ := bind_eq_ok.mp done
  simp only at done
  split at done
  · cases done
  · next unmatched =>
    obtain ⟨⟨sub, after⟩, made, done⟩ := bind_eq_ok.mp done
    obtain ⟨last, status, done⟩ := bind_eq_ok.mp done
    cases done
    obtain ⟨free, valid, row, rfl⟩ := createSubscription_eq_ok made
    obtain rfl := createLocalSyncStatus_eq_ok status
    refine ⟨localnode, origin, originif, middle, sub, foundLocal, answered, madeOrigin, ?_, free, valid, row, rfl⟩
    intro other inside same set subscribed
    obtain ⟨read, listed, fromtuple⟩ := getNodeSubscriptions_eq_ok others inside same
    obtain ⟨-, -, -, -, -, -, -, -, -, sets⟩ := subscriptionFromtuple_eq_ok fromtuple
    refine overlappingSet_eq_none ?_ listed (sets ▸ subscribed)
    cases overlap : overlappingSet otherSubs args.repSetNames with
    | none => rfl
    | some found => exact absurd overlap (unmatched found.1 found.2)

/-- The provider's records go with its last subscription, unless the provider is this node. -/
theorem pglogicalDropSubscription_eq_ok {subName : NameData} {ifexists : Bool} {finish : Except String Unit}
    {result : Bool × Option PGLogicalSubscription}
    (done : pglogicalDropSubscription catalog subName ifexists finish = .ok (result, next)) :
    (next = catalog ∧ result.2 = none) ∨ ∃ subtup ∈ catalog.subscription, ∃ (sub : PGLogicalSubscription) (kept : Catalog),
      subtup.subName = subName ∧ catalog.subscriptionFromtuple subtup = .ok sub ∧
      kept = { catalog with
        localSyncStatus := catalog.localSyncStatus.filter fun sync => decide (sync.subid ≠ sub.id)
        subscription := catalog.subscription.filter fun subtup => decide (subtup.subId ≠ sub.id) } ∧
      (result.2 = none ∨ result.2 = some sub) ∧
      (next = kept ∨ ((∀ other ∈ kept.subscription, other.subOrigin ≠ sub.origin.id) ∧
        (∃ row ∈ catalog.localNode, sub.origin.id ≠ row.nodeLocalId) ∧
        next = { kept with
          nodeInterface := kept.nodeInterface.filter fun nodeif => decide (nodeif.nodeid ≠ sub.origin.id)
          node := kept.node.eraseP fun node => decide (node.id = sub.origin.id) })) := by
  unfold pglogicalDropSubscription at done
  obtain ⟨found, lookup, done⟩ := bind_eq_ok.mp done
  split at done
  · split at done
    · cases done
      exact .inl ⟨rfl, rfl⟩
    · cases done
  · next sub =>
    obtain ⟨subtup, inside, named, fromtuple⟩ := findSubscriptionByName_eq_ok lookup
    obtain ⟨localnode, foundLocal, done⟩ := bind_eq_ok.mp done
    obtain ⟨kept, dropped, done⟩ := bind_eq_ok.mp done
    have cut := dropSubscription_eq_ok dropped
    obtain ⟨row, rowInside, localId, -⟩ := getLocalNode_eq_ok foundLocal
    refine .inr ⟨subtup, inside, sub, kept, named, fromtuple, cut, ?_⟩
    split at done
    · cases done
      exact ⟨.inl rfl, .inl rfl⟩
    · next remote =>
      obtain ⟨otherSubs, others, done⟩ := bind_eq_ok.mp done
      split at done
      · next last =>
        obtain ⟨after, droppedNode, done⟩ := bind_eq_ok.mp done
        obtain ⟨_, -, done⟩ := bind_eq_ok.mp done
        cases done
        refine ⟨.inr rfl, .inr ⟨fun other otherInside same => ?_, ⟨row, rowInside, localId ▸ remote⟩, ?_⟩⟩
        · obtain ⟨read, listed, -⟩ := getNodeSubscriptions_eq_ok others otherInside same
          rw [List.length_eq_zero_iff.mp last] at listed
          cases listed
        · exact dropNode_eq_ok droppedNode
      · obtain ⟨after, same, done⟩ := bind_eq_ok.mp done
        obtain ⟨_, -, done⟩ := bind_eq_ok.mp done
        cases done
        cases same
        exact ⟨.inr rfl, .inl rfl⟩

/-- The row of the subscription is written back with the changes of `altered`. -/
def WrittenBack (catalog : Catalog) (subName : NameData) (altered : PGLogicalSubscription → PGLogicalSubscription)
    (next : Catalog) : Prop :=
  ∃ subtup ∈ catalog.subscription, ∃ sub, subtup.subName = subName ∧
    catalog.subscriptionFromtuple subtup = .ok sub ∧
    next = { catalog with subscription := catalog.subscription.map fun other =>
      if other.subId = (altered sub).id then SubscriptionTuple.modify other (altered sub) else other }

theorem writtenBack_of_alter {subName : NameData} {sub : PGLogicalSubscription}
    {altered : PGLogicalSubscription → PGLogicalSubscription}
    (found : catalog.getSubscriptionByName subName = .ok sub)
    (written : catalog.alterSubscription (altered sub) = .ok next) : WrittenBack catalog subName altered next := by
  obtain ⟨subtup, inside, named, fromtuple⟩ := getSubscriptionByName_eq_ok found
  exact ⟨subtup, inside, sub, named, fromtuple, alterSubscription_eq_ok written⟩

theorem alterSubscriptionEnabled_eq_ok {enabled : Bool} {message : String} {subName : NameData}
    {immediate inTransactionBlock result : Bool}
    (done : alterSubscriptionEnabled enabled message catalog subName immediate inTransactionBlock = .ok (result, next)) :
    WrittenBack catalog subName (fun sub => { sub with enabled := enabled }) next := by
  unfold alterSubscriptionEnabled at done
  obtain ⟨sub, found, done⟩ := bind_eq_ok.mp done
  obtain ⟨localnode, -, done⟩ := bind_eq_ok.mp done
  obtain ⟨after, written, done⟩ := bind_eq_ok.mp done
  obtain ⟨-, done⟩ := guard_eq_ok.mp done
  cases done
  exact writtenBack_of_alter found written

theorem pglogicalAlterSubscriptionInterface_eq_ok {subName ifName : NameData} {result : Bool}
    (done : pglogicalAlterSubscriptionInterface catalog subName ifName = .ok (result, next)) :
    next = catalog ∨ ∃ newIf ∈ catalog.nodeInterface,
      WrittenBack catalog subName (fun sub => if newIf.nodeid = sub.origin.id then { sub with originIf := newIf } else sub)
        next := by
  unfold pglogicalAlterSubscriptionInterface at done
  obtain ⟨sub, found, done⟩ := bind_eq_ok.mp done
  obtain ⟨localnode, -, done⟩ := bind_eq_ok.mp done
  obtain ⟨newIf, foundIf, done⟩ := bind_eq_ok.mp done
  obtain ⟨inside, owner, -⟩ := getNodeInterfaceByName_eq_ok foundIf
  split at done
  · cases done
    exact .inl rfl
  · obtain ⟨after, written, done⟩ := bind_eq_ok.mp done
    cases done
    refine .inr ⟨newIf, inside, writtenBack_of_alter found ?_⟩
    rw [if_pos owner]
    exact written

theorem pglogicalAlterSubscriptionAddReplicationSet_eq_ok {subName repsetName : NameData} {result : Bool}
    (done : pglogicalAlterSubscriptionAddReplicationSet catalog subName repsetName = .ok (result, next)) :
    next = catalog ∨ WrittenBack catalog subName
      (fun sub => { sub with replicationSets := if repsetName.str ∈ sub.replicationSets then sub.replicationSets
        else sub.replicationSets ++ [repsetName.str] }) next := by
  unfold pglogicalAlterSubscriptionAddReplicationSet at done
  obtain ⟨sub, found, done⟩ := bind_eq_ok.mp done
  split at done
  · cases done
    exact .inl rfl
  · next absent =>
    obtain ⟨after, written, done⟩ := bind_eq_ok.mp done
    cases done
    refine .inr (writtenBack_of_alter found ?_)
    rw [if_neg absent]
    exact written

theorem pglogicalAlterSubscriptionRemoveReplicationSet_eq_ok {subName repsetName : NameData} {result : Bool}
    (done : pglogicalAlterSubscriptionRemoveReplicationSet catalog subName repsetName = .ok (result, next)) :
    next = catalog ∨ WrittenBack catalog subName
      (fun sub => { sub with replicationSets := sub.replicationSets.erase repsetName.str }) next := by
  unfold pglogicalAlterSubscriptionRemoveReplicationSet at done
  obtain ⟨sub, found, done⟩ := bind_eq_ok.mp done
  split at done
  · obtain ⟨after, written, done⟩ := bind_eq_ok.mp done
    cases done
    exact .inr (writtenBack_of_alter found written)
  · cases done
    exact .inl rfl

end PGLogical.Nodes
