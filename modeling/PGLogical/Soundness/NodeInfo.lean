import PGLogical.Model.NodeInfo
import PGLogical.Soundness.CopyColumns
import PGLogical.Soundness.RepsetIdentity

/-! # Information about a node lists its sets

The text that `pglogical_node_info` returns is a list of identifiers, and the subscriber splits it into the
strings that were joined. These are not the names of the sets but the bytes in front of them: the id of the
set, then the id of the node and the address of the name, up to the first zero byte.
-/

namespace PGLogical.Repsets

open Wire (Bytes CString splitIdentifierString comma)

variable {Node : Type}

/-! ## The sets of a node -/

theorem Catalog.exists_getReplicationSet (catalog : Catalog Node) {t : PGLogicalRepSet}
    (inside : t ∈ catalog.nodes.replicationSet) :
    ∃ repset, catalog.getReplicationSet t.id = .ok repset ∧ repset ∈ catalog.nodes.replicationSet ∧
      repset.id = t.id := by
  unfold Catalog.getReplicationSet
  cases found : catalog.nodes.replicationSet.find? fun repset => decide (repset.id = t.id) with
  | none =>
    have other := List.find?_eq_none.mp found t inside
    simp at other
  | some repset =>
    exact ⟨repset, rfl, List.mem_of_find?_eq_some found, by simpa using List.find?_some found⟩

/-- With unique ids the scan returns the rows of the node, in their order. -/
theorem Catalog.getNodeReplicationSets_eq (catalog : Catalog Node) (nodeid : Oid)
    (key : (catalog.nodes.replicationSet.map PGLogicalRepSet.id).Nodup) :
    catalog.getNodeReplicationSets nodeid =
      .ok (catalog.nodes.replicationSet.filter fun repset => decide (repset.nodeid = nodeid)) := by
  have read : ∀ rows : List PGLogicalRepSet, rows ⊆ catalog.nodes.replicationSet →
      rows.mapM (fun t => catalog.getReplicationSet t.id) = .ok rows := by
    intro rows
    induction rows with
    | nil => exact fun _ => rfl
    | cons t rows ih =>
      intro inside
      obtain ⟨here, behind⟩ := List.cons_subset.mp inside
      obtain ⟨repset, found, member, same⟩ := catalog.exists_getReplicationSet here
      obtain rfl := List.inj_on_of_nodup_map key member here same
      rw [List.mapM_cons, found, ih behind]
      rfl
  exact read _ fun _ inside => (List.mem_filter.mp inside).1

/-! ## Strings in memory -/

theorem length_repSetBytes (name : Pointer) (repset : PGLogicalRepSet) : (repSetBytes name repset).length = 20 := by
  simp [repSetBytes, Nodes.wordBytes, Pointer.bytes, Wire.littleEndian]

theorem short_repSetAsString (name : Pointer) (repset : PGLogicalRepSet) :
    (repSetAsString name repset).val.length < Wire.identifierLimit := by
  have prefix_length := (List.takeWhile_prefix (l := repSetBytes name repset) (· ≠ 0)).length_le
  rw [length_repSetBytes] at prefix_length
  exact Nat.lt_of_le_of_lt prefix_length (by decide)

variable (server : InfoServer)

theorem mem_repSetsAsStrings {repsets : List PGLogicalRepSet} {text : CString}
    (inside : text ∈ repSetsAsStrings server repsets) : text.val.length < Wire.identifierLimit := by
  obtain ⟨position, bound, rfl⟩ := List.mem_mapIdx.mp inside
  exact short_repSetAsString _ _

/-- What is joined is what is split, whatever it is. -/
theorem split_repSetsAsStrings (locale : Wire.Locale) (repsets : List PGLogicalRepSet) :
    splitIdentifierString locale (ReplicationCommand.stringlistToIdentifierstr server.lexicon
      ((repSetsAsStrings server repsets).map Subtype.val)) comma =
        some ((repSetsAsStrings server repsets).map Subtype.val) := by
  refine Wire.splitIdentifierString_intercalate server.lexicon locale (by decide) (by decide)
    (by simp [Wire.Locale.isspace, comma]) ?_
  intro text inside
  obtain ⟨original, member, rfl⟩ := List.mem_map.mp inside
  exact mem_repSetsAsStrings server member

/-! ## The description -/

/-- The names of the sets, for the function itself and for the subscriber that asks for its result. -/
structure InfoListsSets (locale : Wire.Locale) (catalog : Catalog Node) (node : Nodes.PGLogicalLocalNode)
    (repsets : List PGLogicalRepSet) : Prop where
  provider : ∀ info, pglogicalNodeInfo server catalog = .ok info →
    info.nodeId = node.node.id ∧
      splitIdentifierString locale info.replicationSets comma = some (repsets.map fun repset => repset.name.val)
  subscriber : ∀ remote, pglogicalRemoteNodeInfo
      ((pglogicalNodeInfo server catalog).map fun info => [info.texts]) = .ok remote →
    splitIdentifierString locale remote.replicationSets comma = some (repsets.map fun repset => repset.name.val)

/-- The bytes of each set in memory happen to start with its name. -/
def StructsReadAsNames (repsets : List PGLogicalRepSet) : Prop :=
  ∀ (position : ℕ) (inside : position < repsets.length),
    repSetAsString (server.nameOf position) repsets[position] = repsets[position].name

theorem pglogicalNodeInfo_eq {catalog : Catalog Node} {node : Nodes.PGLogicalLocalNode}
    {repsets : List PGLogicalRepSet} (local_node : catalog.nodes.getLocalNode = .ok node)
    (read : catalog.getNodeReplicationSets node.node.id = .ok repsets) :
    pglogicalNodeInfo server catalog =
      .ok ⟨node.node.id, node.node.name.str, Wire.decimal server.getSystemIdentifier.toNat,
        server.env.databaseName.str, ReplicationCommand.stringlistToIdentifierstr server.lexicon
          ((repSetsAsStrings server repsets).map Subtype.val)⟩ := by
  unfold pglogicalNodeInfo
  rw [local_node]
  change (catalog.getNodeReplicationSets node.node.id >>= _) = _
  rw [read]
  rfl

theorem repSetsAsStrings_eq_names_iff (repsets : List PGLogicalRepSet) :
    (repSetsAsStrings server repsets).map Subtype.val = repsets.map (fun repset => repset.name.val) ↔
      StructsReadAsNames server repsets := by
  constructor
  · intro same position inside
    have entry := congrArg (fun texts => texts[position]?) same
    simp only [repSetsAsStrings, List.getElem?_map, List.getElem?_mapIdx, List.getElem?_eq_getElem inside,
      Option.map_some, Option.some.injEq] at entry
    exact Subtype.ext entry
  · intro read
    refine List.ext_getElem (by simp [repSetsAsStrings]) fun position inside _ => ?_
    simp only [repSetsAsStrings, List.length_map, List.length_mapIdx] at inside
    simp only [repSetsAsStrings, List.getElem_map, List.getElem_mapIdx]
    exact congrArg Subtype.val (read position inside)

theorem InfoListsSets.structsReadAsNames {server : InfoServer} {locale : Wire.Locale} {catalog : Catalog Node}
    {node : Nodes.PGLogicalLocalNode} {repsets : List PGLogicalRepSet}
    (lists : InfoListsSets server locale catalog node repsets)
    (local_node : catalog.nodes.getLocalNode = .ok node)
    (read : catalog.getNodeReplicationSets node.node.id = .ok repsets) : StructsReadAsNames server repsets := by
  have named := (lists.provider _ (pglogicalNodeInfo_eq server local_node read)).2
  rw [split_repSetsAsStrings] at named
  exact (repSetsAsStrings_eq_names_iff server repsets).mp (Option.some.inj named)

/-- The text lists the names of the node's sets exactly if the struct of each set reads as its name. -/
theorem node_info_lists_sets_iff (locale : Wire.Locale) (catalog : Catalog Node) (node : Nodes.PGLogicalLocalNode)
    (repsets : List PGLogicalRepSet) (local_node : catalog.nodes.getLocalNode = .ok node)
    (read : catalog.getNodeReplicationSets node.node.id = .ok repsets) :
    InfoListsSets server locale catalog node repsets ↔ StructsReadAsNames server repsets := by
  refine ⟨fun lists => lists.structsReadAsNames local_node read, fun names => ?_⟩
  have info := pglogicalNodeInfo_eq server local_node read
  have split := split_repSetsAsStrings server locale repsets
  rw [(repSetsAsStrings_eq_names_iff server repsets).mpr names] at info split
  constructor
  · intro result computed
    obtain rfl := Except.ok.inj (info.symm.trans computed)
    exact ⟨rfl, split⟩
  · intro remote computed
    rw [info] at computed
    obtain rfl := Except.ok.inj computed
    exact split

def infoServer : InfoServer :=
  ⟨CopyColumns.plainLexicon, Nodes.sampleEnv, 6873281952113487872, fun _ => ⟨0x55d0c81a2f60, by decide⟩⟩

def spelledSet : PGLogicalRepSet := ⟨0x00636261, 1, CString.ofString "abc", true, true, true, true⟩

def otherSpelledSet : PGLogicalRepSet := ⟨0x00666564, 1, CString.ofString "def", true, false, false, false⟩

def spelledNode : Nodes.PGLogicalLocalNode :=
  ⟨⟨1, Nodes.providerName⟩, ⟨2, Nodes.providerName, 1, CString.ofString "dbname=postgres"⟩⟩

def spelledCatalog : Catalog Unit :=
  ⟨⟨[spelledNode.node], [spelledNode.nodeIf], [⟨1, 2⟩], [], [spelledSet, otherSpelledSet], []⟩, [], [], []⟩

/-- The ids of the sets are made of the letters of their names. -/
theorem node_info_lists_spelled_sets : InfoListsSets infoServer CopyColumns.plainLexicon.toLocale spelledCatalog
    spelledNode [spelledSet, otherSpelledSet] := by
  have exact_condition := node_info_lists_sets_iff infoServer CopyColumns.plainLexicon.toLocale spelledCatalog
    spelledNode [spelledSet, otherSpelledSet] (by decide) (by decide)
  refine exact_condition.mpr ?_
  intro position inside
  have two : position = 0 ∨ position = 1 := by
    rw [List.length_cons, List.length_singleton] at inside
    omega
  rcases two with rfl | rfl
  · change repSetAsString (infoServer.nameOf 0) spelledSet = spelledSet.name
    decide
  · change repSetAsString (infoServer.nameOf 1) otherSpelledSet = otherSpelledSet.name
    decide

def newCatalog : Catalog Unit := ⟨sampleNodes, [], [], []⟩

def newNode : Nodes.PGLogicalLocalNode :=
  ⟨⟨2941155235, Nodes.subscriberName⟩,
    ⟨2467722369, Nodes.subscriberName, 2941155235, CString.ofString "dbname=postgres"⟩⟩

/-- The sets that a new node gets are not listed. -/
theorem not_forall_info_lists_sets : ¬ ∀ (server : InfoServer) (locale : Wire.Locale) (catalog : Catalog Unit)
    (node : Nodes.PGLogicalLocalNode) (repsets : List PGLogicalRepSet), catalog.nodes.getLocalNode = .ok node →
      catalog.getNodeReplicationSets node.node.id = .ok repsets →
        InfoListsSets server locale catalog node repsets := by
  intro all
  have local_node : newCatalog.nodes.getLocalNode = .ok newNode := by decide +kernel
  have read := newCatalog.getNodeReplicationSets_eq newNode.node.id (by decide +kernel)
  have lists := all infoServer CopyColumns.plainLexicon.toLocale newCatalog newNode _ local_node read
  have first := lists.structsReadAsNames local_node read 0 (by decide +kernel)
  revert first
  decide

end PGLogical.Repsets
