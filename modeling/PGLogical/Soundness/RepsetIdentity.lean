import PGLogical.Model.RepsetFunctions
import PGLogical.Soundness.NodeRefs
import PGLogical.Soundness.Repset

/-! # Replicated tables can be identified

An UPDATE or DELETE is applied by the replica identity of its table. A table enters a set through
`replication_set_add_table`, and a set begins to replicate UPDATEs and DELETEs through
`alter_replication_set`; both look at the replica identity index. Column lists are checked when the
table is added.
-/

namespace PGLogical.Repsets

open Wire (Bytes CString)
open Nodes (Environment)
open Machine (run Permitted bind_eq_ok map_eq_ok guard_eq_ok)

variable {Node : Type} {env : Environment} {server : Server Node} {catalog next : Catalog Node}

/-- The list names columns of the table only, and all columns of its replica identity. -/
structure Covers (rel : Relation) (names : List CString) : Prop where
  existing : ∀ name ∈ names, ∃ att ∈ rel.desc.attrs, att.attisdropped = false ∧ att.attname.str = name
  identity : ∀ member ∈ rel.identityKey, ∃ att ∈ rel.desc.attrs, att.attisdropped = false ∧ att.member = member ∧
    att.attname.str ∈ names

/-- Every table in a set has what its changes need. -/
structure Identifiable (server : Server Node) (catalog : Catalog Node) : Prop where
  identity : ∀ t ∈ catalog.repsetTable, ∀ repset ∈ catalog.nodes.replicationSet, repset.id = t.setid →
    (repset.replicateUpdate || repset.replicateDelete) = true →
      ∃ target, server.heapOpen t.reloid = .ok target ∧ target.rdReplidindex ≠ invalidOid
  columns : ∀ t ∈ catalog.repsetTable, ∀ names, t.attList = some names →
    ∃ target, server.heapOpen t.reloid = .ok target ∧ Covers target.rel names

/-! ## Column lists -/

theorem getAttNumByName_nonneg {desc : TupleDesc} {name : CString} (found : 0 ≤ getAttNumByName desc name) :
    ∃ att ∈ desc.attrs, att.attisdropped = false ∧ att.attname.str = name ∧
      getAttNumByName desc name = att.attnum := by
  unfold getAttNumByName at found ⊢
  split at found
  · next att search =>
    have live := List.find?_some search
    simp only [Bool.and_eq_true, Bool.not_eq_eq_eq_not, Bool.not_true, decide_eq_true_eq] at live
    exact ⟨att, List.mem_of_find?_eq_some search, live.1, live.2, rfl⟩
  · rw [firstLowInvalidHeapAttributeNumber] at found
    omega

/-- What is left of the replica identity is what no listed name stands for. -/
theorem foldlM_checkAttname_eq_ok {nspname : CString} {rel : Relation} {attList : List CString}
    {idattrs left : Bitmapset} (done : attList.foldlM (checkAttname nspname rel) idattrs = .ok left) :
    (∀ name ∈ attList, 0 ≤ getAttNumByName rel.desc name) ∧
      ∀ member ∈ idattrs, member ∈ left ∨ ∃ name ∈ attList,
        member = getAttNumByName rel.desc name - firstLowInvalidHeapAttributeNumber := by
  induction attList generalizing idattrs with
  | nil =>
    cases done
    exact ⟨fun name inside => (List.not_mem_nil inside).elim, fun member inside => .inl inside⟩
  | cons attname rest ih =>
    rw [List.foldlM_cons] at done
    obtain ⟨fewer, first, done⟩ := bind_eq_ok.mp done
    unfold checkAttname at first
    obtain ⟨present, first⟩ := guard_eq_ok.mp first
    cases first
    obtain ⟨known, covered⟩ := ih done
    refine ⟨fun name inside => ?_, fun member inside => ?_⟩
    · rcases List.mem_cons.mp inside with rfl | inside
      · omega
      · exact known name inside
    · by_cases here : member = getAttNumByName rel.desc attname - firstLowInvalidHeapAttributeNumber
      · exact .inr ⟨attname, List.mem_cons_self .., here⟩
      · rcases covered member (Finset.mem_erase.mpr ⟨here, inside⟩) with remains | ⟨name, listed, same⟩
        · exact .inl remains
        · exact .inr ⟨name, List.mem_cons_of_mem _ listed, same⟩

theorem processAttList_eq_ok {nspname : CString} {rel : Relation} {attNames : Option (List CString)}
    {attList : List CString} (done : processAttList nspname rel attNames = .ok attList) (given : attList ≠ []) :
    Covers rel attList := by
  unfold processAttList at done
  split at done
  · cases done
    exact absurd rfl given
  · obtain ⟨left, checked, done⟩ := bind_eq_ok.mp done
    obtain ⟨empty, done⟩ := guard_eq_ok.mp done
    cases done
    obtain ⟨known, covered⟩ := foldlM_checkAttname_eq_ok checked
    refine ⟨fun name inside => ?_, fun member inside => ?_⟩
    · obtain ⟨att, column, live, named, -⟩ := getAttNumByName_nonneg (known name inside)
      exact ⟨att, column, live, named⟩
    · rcases covered member inside with remains | ⟨name, listed, same⟩
      · rw [not_not.mp empty] at remains
        exact (Finset.notMem_empty member remains).elim
      · obtain ⟨att, column, live, named, number⟩ := getAttNumByName_nonneg (known name listed)
        refine ⟨att, column, live, ?_, named ▸ listed⟩
        rw [same, number, FormPgAttribute.member]

/-! ## The invariant -/

/-- A membership of a plain table; its set's flags ask for no more than the table has. -/
structure Member (server : Server Node) (sets : List PGLogicalRepSet) (t : RepSetTableTuple Node)
    (target : TargetRel) : Prop where
  opened : server.heapOpen t.reloid = .ok target
  relkind : target.relkind = .relation
  columns : ∀ names, t.attList = some names → Covers target.rel names
  identity : ∀ repset ∈ sets, repset.id = t.setid → (repset.replicateUpdate || repset.replicateDelete) = true →
    target.rdReplidindex ≠ invalidOid

structure Inv (server : Server Node) (catalog : Catalog Node) : Prop where
  key : ∀ a ∈ catalog.nodes.replicationSet, ∀ b ∈ catalog.nodes.replicationSet, a.id = b.id → a = b
  listed : ∀ t ∈ catalog.repsetTable, ∃ repset ∈ catalog.nodes.replicationSet, repset.id = t.setid
  member : ∀ t ∈ catalog.repsetTable, ∃ target, Member server catalog.nodes.replicationSet t target

theorem Inv.identifiable (inv : Inv server catalog) : Identifiable server catalog where
  identity t inside repset present same replicated := by
    obtain ⟨target, member⟩ := inv.member t inside
    exact ⟨target, member.opened, member.identity repset present same replicated⟩
  columns t inside names stored := by
    obtain ⟨target, member⟩ := inv.member t inside
    exact ⟨target, member.opened, member.columns names stored⟩

theorem getReplicationSet_eq_ok {setid : Oid} {repset : PGLogicalRepSet}
    (found : catalog.getReplicationSet setid = .ok repset) :
    repset ∈ catalog.nodes.replicationSet ∧ repset.id = setid := by
  unfold Catalog.getReplicationSet at found
  split at found
  · next first =>
    cases found
    exact ⟨List.mem_of_find?_eq_some first, by simpa using List.find?_some first⟩
  · cases found

/-- Only the new row is added, for a plain table that fits the set. -/
theorem replicationSetAddTable_eq_ok {setid reloid : Oid} {attList : List CString} {rowFilter : Option Node}
    (done : catalog.replicationSetAddTable server setid reloid attList rowFilter = .ok next) :
    ∃ repset ∈ catalog.nodes.replicationSet, ∃ target, repset.id = setid ∧ server.heapOpen reloid = .ok target ∧
      target.relkind = .relation ∧
      ((repset.replicateUpdate || repset.replicateDelete) = true → target.rdReplidindex ≠ invalidOid) ∧
      next = { catalog with
        repsetTable := catalog.repsetTable ++ [Catalog.repSetTableTuple setid reloid rowFilter attList] } := by
  unfold Catalog.replicationSetAddTable at done
  obtain ⟨repset, found, done⟩ := bind_eq_ok.mp done
  obtain ⟨target, opened, done⟩ := bind_eq_ok.mp done
  obtain ⟨-, done⟩ := guard_eq_ok.mp done
  obtain ⟨fits, done⟩ := guard_eq_ok.mp done
  obtain ⟨finished, triggered, done⟩ := bind_eq_ok.mp done
  obtain ⟨rows, inserted, done⟩ := bind_eq_ok.mp done
  obtain ⟨-, rfl⟩ := Nodes.Catalog.insertUnique_eq_ok.mp inserted
  cases done
  obtain ⟨inside, same⟩ := getReplicationSet_eq_ok found
  have table : target.relkind = .relation := by
    unfold createTruncateTrigger at triggered
    split at triggered
    · next has => exact server.onlyTables target (.inl has)
    · exact server.onlyTables target (.inr triggered)
  refine ⟨repset, inside, target, same, opened, table, fun replicated invalid => fits ⟨invalid, replicated⟩, ?_⟩
  rw [same]

theorem repSetTableTuple_attList {setid reloid : Oid} {rowFilter : Option Node} {attList names : List CString}
    (stored : (Catalog.repSetTableTuple setid reloid rowFilter attList).attList = some names) :
    attList = names ∧ attList ≠ [] := by
  cases attList with
  | nil => cases stored
  | cons attname rest =>
    cases stored
    exact ⟨rfl, List.cons_ne_nil _ _⟩

theorem Inv.addTable (inv : Inv server catalog) {setid reloid : Oid} {attList : List CString}
    {rowFilter : Option Node} (covers : ∀ target, server.heapOpen reloid = .ok target → attList ≠ [] →
      Covers target.rel attList)
    (done : catalog.replicationSetAddTable server setid reloid attList rowFilter = .ok next) : Inv server next := by
  obtain ⟨repset, present, target, same, opened, table, fits, rfl⟩ := replicationSetAddTable_eq_ok done
  have row : (Catalog.repSetTableTuple setid reloid rowFilter attList).setid = setid ∧
      (Catalog.repSetTableTuple setid reloid rowFilter attList).reloid = reloid := by
    cases attList <;> exact ⟨rfl, rfl⟩
  refine ⟨inv.key, fun t inside => ?_, fun t inside => ?_⟩
  · rcases List.mem_append.mp inside with old | new
    · exact inv.listed t old
    · rw [List.mem_singleton.mp new, row.1]
      exact ⟨repset, present, same⟩
  · rcases List.mem_append.mp inside with old | new
    · exact inv.member t old
    · rw [List.mem_singleton.mp new]
      refine ⟨target, by rw [row.2]; exact opened, table, fun names stored => ?_, fun other otherInside equal => ?_⟩
      · obtain ⟨rfl, given⟩ := repSetTableTuple_attList stored
        exact covers target opened given
      · rw [row.1] at equal
        rw [inv.key other otherInside repset present (equal.trans same.symm)]
        exact fits

theorem Inv.withSets (inv : Inv server catalog) {sets : List PGLogicalRepSet} {rows : List (RepSetTableTuple Node)}
    {seqs : List (Oid × Oid)} (key : ∀ a ∈ sets, ∀ b ∈ sets, a.id = b.id → a = b)
    (listed : ∀ t ∈ rows, ∃ repset ∈ sets, repset.id = t.setid)
    (kept : ∀ t ∈ rows, t ∈ catalog.repsetTable)
    (identity : ∀ t ∈ rows, ∀ target, Member server catalog.nodes.replicationSet t target → ∀ repset ∈ sets,
      repset.id = t.setid → (repset.replicateUpdate || repset.replicateDelete) = true →
        target.rdReplidindex ≠ invalidOid) :
    Inv server { catalog with
      nodes := { catalog.nodes with replicationSet := sets }, repsetTable := rows, repsetSeq := seqs } where
  key := key
  listed := listed
  member t inside := by
    obtain ⟨target, member⟩ := inv.member t (kept t inside)
    exact ⟨target, member.opened, member.relkind, member.columns, identity t inside target member⟩

/-! ## Each call -/

theorem Inv.createReplicationSet (inv : Inv server catalog) {setName : NameData} {ri ru rd rt : Bool} {id : Oid}
    (done : pglogicalCreateReplicationSet env catalog setName ri ru rd rt = .ok (id, next)) : Inv server next := by
  unfold pglogicalCreateReplicationSet at done
  obtain ⟨node, -, done⟩ := bind_eq_ok.mp done
  obtain ⟨⟨repset, nodes⟩, made, done⟩ := bind_eq_ok.mp done
  cases done
  obtain ⟨free, -, rfl⟩ := Nodes.Catalog.createReplicationSet_eq_ok made
  refine inv.withSets (fun a aInside b bInside same => ?_) (fun t inside => ?_) (fun _ inside => inside)
    fun t inside target member other otherInside same => ?_
  · simp only [List.mem_append, List.mem_singleton] at aInside bInside
    rcases aInside with aOld | rfl <;> rcases bInside with bOld | rfl
    · exact inv.key a aOld b bOld same
    · exact absurd same (free a aOld)
    · exact absurd same.symm (free b bOld)
    · rfl
  · obtain ⟨old, oldInside, same⟩ := inv.listed t inside
    exact ⟨old, List.mem_append_left _ oldInside, same⟩
  · rcases List.mem_append.mp otherInside with old | new
    · exact member.identity other old same
    · obtain ⟨known, knownInside, equal⟩ := inv.listed t inside
      rw [List.mem_singleton.mp new] at same
      exact absurd (equal.trans same.symm) (free known knownInside)

theorem Inv.alterReplicationSet (inv : Inv server catalog) {repset : PGLogicalRepSet}
    (done : catalog.alterReplicationSet server repset = .ok next) : Inv server next := by
  unfold Catalog.alterReplicationSet at done
  obtain ⟨known, -, done⟩ := bind_eq_ok.mp done
  -- if the new flags ask for it, every table of the set has passed the check
  obtain ⟨checked, rfl⟩ : ((repset.replicateUpdate || repset.replicateDelete) = true →
      ∀ t ∈ catalog.repsetTable, t.setid = repset.id → Catalog.checkReplicationIndex server repset t = .ok ()) ∧
      next = { catalog with nodes := { catalog.nodes with
        replicationSet := Backend.alterReplicationSet repset catalog.nodes.replicationSet } } := by
    split at done
    · obtain ⟨finished, all, done⟩ := bind_eq_ok.mp done
      cases done
      refine ⟨fun _ t inside same => ?_, rfl⟩
      exact Machine.of_forM_eq_ok all (List.mem_filter.mpr ⟨inside, decide_eq_true same⟩)
    · next unasked =>
      cases done
      exact ⟨fun asked => absurd asked unasked, rfl⟩
  have ids : ∀ altered ∈ Backend.alterReplicationSet repset catalog.nodes.replicationSet,
      ∃ old ∈ catalog.nodes.replicationSet, altered.id = old.id ∧ (old.id = repset.id →
        altered = { repset with nodeid := old.nodeid, name := old.name }) ∧ (old.id ≠ repset.id → altered = old) := by
    intro altered inside
    obtain ⟨old, oldInside, rfl⟩ := List.mem_map.mp inside
    refine ⟨old, oldInside, ?_, fun same => if_pos same, fun other => if_neg other⟩
    split
    · next same => exact same.symm
    · rfl
  refine inv.withSets (fun a aInside b bInside same => ?_) (fun t inside => ?_) (fun _ inside => inside)
    fun t inside target member altered alteredInside same replicated => ?_
  · obtain ⟨oldA, oldAInside, idA, ownA, otherA⟩ := ids a aInside
    obtain ⟨oldB, oldBInside, idB, ownB, otherB⟩ := ids b bInside
    obtain rfl := inv.key oldA oldAInside oldB oldBInside (idA.symm.trans (same.trans idB))
    by_cases own : oldA.id = repset.id
    · rw [ownA own, ownB own]
    · rw [otherA own, otherB own]
  · obtain ⟨old, oldInside, equal⟩ := inv.listed t inside
    refine ⟨_, List.mem_map.mpr ⟨old, oldInside, rfl⟩, ?_⟩
    split
    · next own => exact own.symm.trans equal
    · exact equal
  · obtain ⟨old, oldInside, idOld, own, other⟩ := ids altered alteredInside
    by_cases isOwn : old.id = repset.id
    · rw [own isOwn] at replicated
      have passed := checked replicated t inside (same.symm.trans (idOld.trans isOwn))
      unfold Catalog.checkReplicationIndex at passed
      rw [member.opened] at passed
      intro invalid
      have failed : target.relkind = .relation ∧ target.rdReplidindex = invalidOid ∧
          (repset.replicateUpdate || repset.replicateDelete) = true := ⟨member.relkind, invalid, replicated⟩
      simp only [bind, Except.bind, if_pos failed] at passed
      cases passed
    · rw [other isOwn] at same replicated
      exact member.identity old oldInside same replicated

theorem Inv.dropReplicationSet (inv : Inv server catalog) {setid : Oid}
    (done : catalog.dropReplicationSet setid = .ok next) : Inv server next := by
  unfold Catalog.dropReplicationSet at done
  obtain ⟨known, -, done⟩ := bind_eq_ok.mp done
  cases done
  refine inv.withSets (fun a aInside b bInside => inv.key a (List.mem_filter.mp aInside).1 b (List.mem_filter.mp bInside).1)
    (fun t inside => ?_) (fun t inside => (List.mem_filter.mp inside).1)
    fun t inside target member repset present => member.identity repset (List.mem_filter.mp present).1
  obtain ⟨old, other⟩ := List.mem_filter.mp inside
  obtain ⟨repset, present, same⟩ := inv.listed t old
  exact ⟨repset, List.mem_filter.mpr ⟨present, by rw [same]; exact other⟩, same⟩

theorem Inv.queueTablesync (inv : Inv server catalog) {repset : PGLogicalRepSet} {nspname relname : CString} :
    Inv server (catalog.queueTablesync repset nspname relname) := ⟨inv.key, inv.listed, inv.member⟩

theorem Inv.replicationSetAddTable (inv : Inv server catalog) {repsetName : Option NameData} {reloid : Option Oid}
    {synchronize : Option Bool} {attNames : Option (List CString)} {rowFilter : Option CString} {result : Bool}
    (done : pglogicalReplicationSetAddTable server catalog repsetName reloid synchronize attNames rowFilter =
      .ok (result, next)) : Inv server next := by
  unfold pglogicalReplicationSetAddTable at done
  split at done
  · cases done
  · cases done
  · cases done
  · next name oid sync =>
    obtain ⟨node, -, done⟩ := bind_eq_ok.mp done
    obtain ⟨repset, -, done⟩ := bind_eq_ok.mp done
    obtain ⟨rel, opened, done⟩ := bind_eq_ok.mp done
    obtain ⟨attList, processed, done⟩ := bind_eq_ok.mp done
    obtain ⟨filter, -, done⟩ := bind_eq_ok.mp done
    obtain ⟨after, added, done⟩ := bind_eq_ok.mp done
    have covers : ∀ target, server.heapOpen oid = .ok target → attList ≠ [] → Covers target.rel attList := by
      intro target again given
      rw [Except.ok.inj (again.symm.trans opened)]
      exact processAttList_eq_ok processed given
    have afterInv := inv.addTable covers added
    cases done
    split
    · exact afterInv.queueTablesync
    · exact afterInv

theorem Inv.addOneTable (inv : Inv server catalog) {repset : PGLogicalRepSet} {nspname : CString}
    {synchronize : Bool} {existing : List Oid} {target : TargetRel}
    (done : addOneTable server repset nspname synchronize existing catalog target = .ok next) : Inv server next := by
  unfold Repsets.addOneTable at done
  split at done
  · cases done
    exact inv
  · obtain ⟨after, added, done⟩ := bind_eq_ok.mp done
    have afterInv := inv.addTable (fun _ _ given => absurd rfl given) added
    cases done
    split
    · exact afterInv.queueTablesync
    · exact afterInv

theorem Inv.replicationSetAddAllTables (inv : Inv server catalog) {repsetName : NameData} {nspNames : List CString}
    {synchronize result : Bool}
    (done : pglogicalReplicationSetAddAllTables server catalog repsetName nspNames synchronize = .ok (result, next)) :
    Inv server next := by
  unfold pglogicalReplicationSetAddAllTables at done
  obtain ⟨node, -, done⟩ := bind_eq_ok.mp done
  obtain ⟨repset, -, done⟩ := bind_eq_ok.mp done
  obtain ⟨after, added, done⟩ := bind_eq_ok.mp done
  cases done
  refine Machine.foldlM_invariant (fun {before later nspname} _ inv round => ?_) inv added
  unfold addTablesOfSchema at round
  obtain ⟨nspoid, -, round⟩ := bind_eq_ok.mp round
  exact Machine.foldlM_invariant (fun _ inv one => inv.addOneTable one) inv round

theorem Inv.replicationSetRemoveTable (inv : Inv server catalog) {setid reloid : Oid}
    (done : catalog.replicationSetRemoveTable setid reloid = .ok next) : Inv server next := by
  unfold Catalog.replicationSetRemoveTable at done
  split at done
  · cases done
    exact ⟨inv.key, fun t inside => inv.listed t (List.mem_filter.mp inside).1,
      fun t inside => inv.member t (List.mem_filter.mp inside).1⟩
  · cases done

theorem Inv.call (inv : Inv server catalog) {statement : Call}
    (committed : call env server catalog statement = .ok next) : Inv server next := by
  cases statement with
  | createReplicationSet setName ri ru rd rt =>
    obtain ⟨result, done, rfl⟩ := map_eq_ok.mp committed
    exact inv.createReplicationSet done
  | alterReplicationSet setName ri ru rd rt =>
    obtain ⟨result, done, rfl⟩ := map_eq_ok.mp committed
    unfold pglogicalAlterReplicationSet at done
    split at done
    · cases done
    · obtain ⟨node, -, done⟩ := bind_eq_ok.mp done
      obtain ⟨repset, -, done⟩ := bind_eq_ok.mp done
      obtain ⟨after, altered, done⟩ := bind_eq_ok.mp done
      cases done
      exact inv.alterReplicationSet altered
  | dropReplicationSet setName ifexists =>
    obtain ⟨result, done, rfl⟩ := map_eq_ok.mp committed
    unfold pglogicalDropReplicationSet at done
    obtain ⟨node, -, done⟩ := bind_eq_ok.mp done
    split at done
    · obtain ⟨after, dropped, done⟩ := bind_eq_ok.mp done
      cases done
      exact inv.dropReplicationSet dropped
    · split at done
      · cases done
        exact inv
      · cases done
  | replicationSetAddTable repsetName reloid synchronize attNames rowFilter =>
    obtain ⟨result, done, rfl⟩ := map_eq_ok.mp committed
    exact inv.replicationSetAddTable done
  | replicationSetAddAllTables repsetName nspNames synchronize =>
    obtain ⟨result, done, rfl⟩ := map_eq_ok.mp committed
    exact inv.replicationSetAddAllTables done
  | replicationSetRemoveTable repsetName reloid =>
    obtain ⟨result, done, rfl⟩ := map_eq_ok.mp committed
    unfold pglogicalReplicationSetRemoveTable at done
    obtain ⟨node, -, done⟩ := bind_eq_ok.mp done
    obtain ⟨repset, -, done⟩ := bind_eq_ok.mp done
    obtain ⟨after, removed, done⟩ := bind_eq_ok.mp done
    cases done
    exact inv.replicationSetRemoveTable removed

/-! ## Every run -/

theorem step_of_error {statement : Call} {message : String}
    (failed : call env server catalog statement = .error message) : step env server catalog statement = some catalog := by
  unfold step
  rw [failed]

theorem Inv.step (inv : Inv server catalog) {statement : Call}
    (taken : step env server catalog statement = some next) : Inv server next := by
  unfold Repsets.step at taken
  split at taken
  · next after committed =>
    cases taken
    exact inv.call committed
  · cases taken
    exact inv

/-- After any sequence of calls, succeeding or failing, that starts with no table in any set, every
table in a set that replicates UPDATE or DELETE has a replica identity index and every stored column
list covers its table; and a call that fails leaves the catalogs as they were. -/
theorem replicated_tables_identifiable (env : Environment) (server : Server Node) (nodes : Nodes.Catalog)
    (seqs : List (Oid × Oid)) (statements : List Call) (catalog : Catalog Node)
    (key : (nodes.replicationSet.map PGLogicalRepSet.id).Nodup)
    (done : run (step env server) ⟨nodes, [], seqs, []⟩ statements = some catalog) :
    Identifiable server catalog ∧ ∀ statement message, call env server catalog statement = .error message →
      step env server catalog statement = some catalog := by
  have initial : Inv server ⟨nodes, [], seqs, []⟩ :=
    ⟨fun a aInside b bInside same => List.inj_on_of_nodup_map key aInside bInside same,
      fun t inside => (List.not_mem_nil inside).elim, fun t inside => (List.not_mem_nil inside).elim⟩
  have inv : Inv server catalog := Machine.run_invariant (fun inv _ taken => inv.step taken) initial
    (Permitted.of_forall (fun _ _ => trivial) _ statements) done
  exact ⟨inv.identifiable, fun statement message failed => step_of_error failed⟩

/-- A table with a primary key and one without. -/
def sampleServer : Server Unit where
  tables := [⟨sampleTable, .relation, .permanent, 16410, false⟩,
    ⟨{ sampleTable with relid := 16401, identityKey := ∅ }, .relation, .permanent, invalidOid, false⟩]
  getNamespaceName _ := CString.ofString "public"
  lookupExplicitNamespace _ := .ok 2200
  parseRowFilter _ _ := .ok ()
  hasTruncateTrigger _ := false
  createTrigger target := if target.relkind = .relation then .ok () else .error "is not a table"
  onlyTables target created := by
    rcases created with has | made
    · cases has
    · by_contra other
      rw [if_neg other] at made
      cases made

def sampleNodes : Nodes.Catalog :=
  (run (Nodes.step Nodes.sampleEnv) .empty [.createNode Nodes.subscriberName (CString.ofString "dbname=postgres")]).getD
    .empty

/-- The table without a key is refused by one set and enters another one, which then keeps its flags. -/
def sampleCalls : List Call :=
  [.replicationSetAddTable (some (Nodes.nameOf "default" (by decide))) (some 16400) (some false)
      (some [CString.ofString "a", CString.ofString "c"]) none,
    .replicationSetAddTable (some (Nodes.nameOf "default" (by decide))) (some 16401) (some false) none none,
    .replicationSetAddTable (some (Nodes.nameOf "default_insert_only" (by decide))) (some 16401) (some true) none none,
    .alterReplicationSet (some (Nodes.nameOf "default_insert_only" (by decide))) none (some true) none none]

theorem tables_identifiable_sample :
    ∃ catalog, run (step Nodes.sampleEnv sampleServer) ⟨sampleNodes, [], [], []⟩ sampleCalls = some catalog ∧
      catalog.repsetTable.map (fun t => (t.reloid, t.attList)) =
        [(16400, some [CString.ofString "a", CString.ofString "c"]), (16401, none)] ∧
      Identifiable sampleServer catalog := by
  refine ⟨(run (step Nodes.sampleEnv sampleServer) ⟨sampleNodes, [], [], []⟩ sampleCalls).get (by decide +kernel),
    (Option.some_get _).symm, by decide +kernel, ?_⟩
  exact (replicated_tables_identifiable Nodes.sampleEnv sampleServer sampleNodes [] sampleCalls _ (by decide +kernel)
    (Option.some_get _).symm).1

end PGLogical.Repsets
