import PGLogical.Model.Backend
import PGLogical.Soundness.Repset

/-! # Coherence of the replication set cache

Every operation that changes the memberships or the definition of a table invalidates its entry, so
a valid entry always is what would be computed now for the table and the sets it was filled for. The
entry does not remember those sets, and nobody looks at the table, although tables whose identifiers
are one string share an entry. A lookup is answered correctly as long as the entry was filled for its
table, and its caller's sets that contain the table are the ones the entry was filled for, with the
same flags; `Traced` records which sets that were.
-/

namespace PGLogical.Backend

open Machine
open Wire (StringHash)

variable {Row Node : Type}

/-- A backend together with the sets that the entry of each table was last filled for. -/
structure Traced (Node : Type) where
  state : State Node
  filledFor : Oid → List PGLogicalRepSet

def Traced.init (bigendian : Bool) (sets : List PGLogicalRepSet) (repsetTable : List (RepSetTableTuple Node))
    (tables : List Relation) : Traced Node :=
  ⟨Backend.init bigendian sets repsetTable tables, fun _ => []⟩

def State.hits (s : State Node) (reloid : Oid) : Bool := (s.cache reloid).any (·.isvalid)

/-- A lookup that misses fills the entry for its own sets. -/
def Traced.step (base : HookEnv Row Node) (s : Traced Node) (event : Event Row Node) : Option (Traced Node) :=
  (Backend.step base s.state event).map fun next =>
    ⟨next, match lookup? base s.state event with
      | none => s.filledFor
      | some (rel, subs) =>
          if s.state.hits rel.relid then s.filledFor else Function.update s.filledFor rel.relid subs⟩

/-- A lookup that finds a valid entry asks about the table and the sets that entry was filled for, as
far as they contain the table. -/
def SameSets (base : HookEnv Row Node) (s : Traced Node) (event : Event Row Node) : Prop :=
  ∀ rel subs, lookup? base s.state event = some (rel, subs) →
    ∀ entry ∈ s.state.cache rel.relid, entry.isvalid = true → entry.reloid = rel.relid ∧
      memberships s.state.repsetTable rel (s.filledFor rel.relid) = memberships s.state.repsetTable rel subs

/-- A lookup returns what would be computed from scratch, now and for the caller's sets. -/
def CoherentLookup (base : HookEnv Row Node) (s : Traced Node) (event : Event Row Node) : Prop :=
  ∀ rel subs, lookup? base s.state event = some (rel, subs) →
    (getTableReplicationInfo base.getattr s.state.repsetTable s.state.cache rel subs).1 =
      fillTableRepInfo base.getattr s.state.repsetTable rel subs

/-- Every valid entry is current for the table with its key that it was filled for, and the sets. -/
def Current (base : HookEnv Row Node) (s : Traced Node) : Prop :=
  ∀ oid entry, s.state.cache oid = some entry → entry.isvalid = true →
    s.state.cache.key entry.reloid = s.state.cache.key oid ∧ ∃ rel, s.state.table entry.reloid = some rel ∧
      entry = fillTableRepInfo base.getattr s.state.repsetTable rel (s.filledFor entry.reloid)

/-! ## Invalidation -/

theorem find?_others {tables : List Relation} {oid reloid : Oid} (other : oid ≠ reloid) :
    (tables.filter fun rel => decide (rel.relid ≠ reloid)).find? (fun rel => decide (rel.relid = oid)) =
      tables.find? fun rel => decide (rel.relid = oid) := by
  rw [List.find?_filter]
  congr 1
  funext rel
  by_cases here : rel.relid = oid
  · simp [here, other]
  · simp [here]

theorem relid_of_table {s : State Node} {oid : Oid} {rel : Relation} (found : s.table oid = some rel) :
    rel.relid = oid := by
  have named := List.find?_some found
  exact of_decide_eq_true named

/-- Lookups are about tables as they are now. -/
theorem lookup?_table {base : HookEnv Row Node} {s : State Node} {event : Event Row Node} {rel : Relation}
    {subs : List PGLogicalRepSet} (asks : lookup? base s event = some (rel, subs)) :
    s.table rel.relid = some rel := by
  cases event with
  | decodeChange reloid change =>
    simp only [lookup?] at asks
    split at asks
    · next hooks found session here =>
      obtain ⟨-, asked⟩ := Option.ite_none_right_eq_some.mp asks
      cases asked
      rw [relid_of_table here, here]
    · cases asks
  | showRepsetTableInfo nodeid reloid names =>
    simp only [lookup?] at asks
    split at asks
    · next found sets here listed =>
      cases asks
      rw [relid_of_table here, here]
    · cases asks
  | createReplicationSet set => cases asks
  | alterReplicationSet set => cases asks
  | dropReplicationSet setid => cases asks
  | replicationSetAddTable t => cases asks
  | replicationSetRemoveTable setid reloid => cases asks
  | alterTable rel => cases asks
  | dropTable reloid => cases asks
  | invalidate reloid => cases asks
  | startup nodeid names onlyTable => cases asks
  | shutdown => cases asks

@[simp] theorem callback_key (cache : RepSetTableHash Node) (reloid : Oid) :
    (repsetRelcacheInvalidateCallback cache reloid).key = cache.key := by
  unfold repsetRelcacheInvalidateCallback
  by_cases all : reloid = invalidOid
  · rw [if_pos all, StringHash.map_key]
  rw [if_neg all]
  cases cache reloid with
  | none => rfl
  | some entry => exact StringHash.enter_key ..

theorem callbacks_key (rows : List (RepSetTableTuple Node)) (cache : RepSetTableHash Node) :
    (rows.foldl (fun cache t => repsetRelcacheInvalidateCallback cache t.reloid) cache).key = cache.key := by
  induction rows generalizing cache with
  | nil => rfl
  | cons t rest ih => rw [List.foldl_cons, ih, callback_key]

/-- What survives an invalidation was there before and has another key. -/
theorem valid_of_callback {cache : RepSetTableHash Node} {reloid oid : Oid} {entry : PGLogicalTableRepInfo Node}
    (found : repsetRelcacheInvalidateCallback cache reloid oid = some entry) (valid : entry.isvalid = true) :
    cache oid = some entry ∧ cache.key oid ≠ cache.key reloid := by
  unfold repsetRelcacheInvalidateCallback at found
  by_cases all : reloid = invalidOid
  · rw [if_pos all] at found
    obtain ⟨old, -, rfl⟩ := Option.map_eq_some_iff.mp found
    cases valid
  rw [if_neg all] at found
  cases present : cache reloid with
  | none =>
    rw [present] at found
    refine ⟨found, fun same => ?_⟩
    dsimp only at found
    rw [cache.find_congr same, present] at found
    cases found
  | some old =>
    rw [present] at found
    dsimp only at found
    by_cases same : cache.key oid = cache.key reloid
    · rw [cache.enter_same same] at found
      cases found
      cases valid
    · rw [cache.enter_of_ne same] at found
      exact ⟨found, same⟩

theorem valid_of_callbacks {cache : RepSetTableHash Node} {rows : List (RepSetTableTuple Node)} {oid : Oid}
    {entry : PGLogicalTableRepInfo Node}
    (found : rows.foldl (fun cache t => repsetRelcacheInvalidateCallback cache t.reloid) cache oid = some entry)
    (valid : entry.isvalid = true) : cache oid = some entry ∧ ∀ t ∈ rows, cache.key oid ≠ cache.key t.reloid := by
  induction rows generalizing cache with
  | nil => exact ⟨found, fun t absent => by cases absent⟩
  | cons t rest ih =>
    obtain ⟨before, others⟩ := ih found
    obtain ⟨before, other⟩ := valid_of_callback before valid
    rw [callback_key] at others
    exact ⟨before, List.forall_mem_cons.mpr ⟨other, others⟩⟩

/-- Only the rows of the table count. -/
theorem fill_congr {getattr : HeapGetattr Node} {catalog catalog' : List (RepSetTableTuple Node)} {table : Relation}
    (subs : List PGLogicalRepSet)
    (same : (catalog.filter fun t => decide (t.reloid = table.relid)) =
      catalog'.filter fun t => decide (t.reloid = table.relid)) :
    fillTableRepInfo getattr catalog table subs = fillTableRepInfo getattr catalog' table subs := by
  rw [fillTableRepInfo, fillTableRepInfo, same]

theorem fill_reloid (getattr : HeapGetattr Node) (catalog : List (RepSetTableTuple Node)) (table : Relation)
    (subs : List PGLogicalRepSet) : (fillTableRepInfo getattr catalog table subs).reloid = table.relid := by
  rw [fillTableRepInfo_eq_mergeAll, mergeAll_eq]
  rfl

theorem fill_of_memberships {getattr : HeapGetattr Node} {catalog : List (RepSetTableTuple Node)} {table : Relation}
    {subs subs' : List PGLogicalRepSet} (same : memberships catalog table subs = memberships catalog table subs') :
    fillTableRepInfo getattr catalog table subs = fillTableRepInfo getattr catalog table subs' := by
  rw [fillTableRepInfo_eq_mergeAll, fillTableRepInfo_eq_mergeAll, same]

/-! ## One step -/

section Step

variable {base : HookEnv Row Node} {s : Traced Node}

/-- A change that keeps, for every entry still valid, the tables with its key and their rows. -/
theorem Current.frame (current : Current base s) {next : State Node} (key : next.cache.key = s.state.cache.key)
    (kept : ∀ oid entry, next.cache oid = some entry → entry.isvalid = true → s.state.cache oid = some entry ∧
      ∀ reloid, s.state.cache.key reloid = s.state.cache.key oid → next.table reloid = s.state.table reloid ∧
        (next.repsetTable.filter fun t => decide (t.reloid = reloid)) =
          s.state.repsetTable.filter fun t => decide (t.reloid = reloid)) :
    Current base ⟨next, s.filledFor⟩ := by
  intro oid entry found valid
  obtain ⟨before, same⟩ := kept oid entry found valid
  obtain ⟨own, rel, here, filled⟩ := current oid entry before valid
  obtain ⟨table, rows⟩ := same entry.reloid own
  refine ⟨?_, rel, table.trans here, filled.trans (fill_congr _ ?_)⟩
  · rw [key]
    exact own
  · rw [relid_of_table here]
    exact rows.symm

/-- An invalidation, together with a change to the tables and rows of the relation only. -/
theorem Current.invalidate (current : Current base s) {next : State Node} {reloid : Oid}
    (cache : next.cache = repsetRelcacheInvalidateCallback s.state.cache reloid)
    (others : ∀ other ≠ reloid, next.table other = s.state.table other ∧
      (next.repsetTable.filter fun t => decide (t.reloid = other)) =
        s.state.repsetTable.filter fun t => decide (t.reloid = other)) :
    Current base ⟨next, s.filledFor⟩ := by
  refine current.frame (by rw [cache, callback_key]) fun oid entry found valid => ?_
  rw [cache] at found
  obtain ⟨before, apart⟩ := valid_of_callback found valid
  refine ⟨before, fun other own => others other fun same => apart ?_⟩
  rw [← own, same]

/-- A change to neither the cache nor the tables nor their memberships. -/
theorem Current.same (current : Current base s) {next : State Node} (cache : next.cache = s.state.cache)
    (tables : next.tables = s.state.tables) (repsetTable : next.repsetTable = s.state.repsetTable) :
    Current base ⟨next, s.filledFor⟩ := by
  refine current.frame (by rw [cache]) fun oid entry found _ => ⟨by rw [← cache]; exact found, fun reloid _ => ?_⟩
  rw [State.table, State.table, tables, repsetTable]
  exact ⟨rfl, rfl⟩

theorem Current.removeTables (current : Current base s) (setid : Oid) :
    Current base ⟨replicationSetRemoveTables s.state setid, s.filledFor⟩ := by
  refine current.frame (callbacks_key ..) fun oid entry found valid => ?_
  obtain ⟨before, others⟩ := valid_of_callbacks found valid
  refine ⟨before, fun reloid own => ⟨rfl, ?_⟩⟩
  rw [replicationSetRemoveTables, List.filter_filter]
  refine List.filter_congr fun t stored => ?_
  by_cases here : t.reloid = reloid
  · -- a removed row of this table would have invalidated the entry
    have stays : t.setid ≠ setid := fun removed => by
      refine others t (List.mem_filter.mpr ⟨stored, decide_eq_true removed⟩) ?_
      rw [here, own]
    simp [here, stays]
  · simp [here]

/-- A lookup leaves the entries current, whether it hits or misses. -/
theorem Current.lookup (current : Current base s) {rel : Relation} (here : s.state.table rel.relid = some rel)
    (subs : List PGLogicalRepSet) {next : State Node} (repsetTable : next.repsetTable = s.state.repsetTable)
    (tables : next.tables = s.state.tables)
    (cache : next.cache = (getTableReplicationInfo base.getattr s.state.repsetTable s.state.cache rel subs).2) :
    Current base ⟨next,
      if s.state.hits rel.relid then s.filledFor else Function.update s.filledFor rel.relid subs⟩ := by
  have table : ∀ oid, next.table oid = s.state.table oid := fun oid => by rw [State.table, tables]; rfl
  by_cases hit : s.state.hits rel.relid = true
  · rw [if_pos hit]
    have unchanged : next.cache = s.state.cache := by
      cases present : s.state.cache rel.relid with
      | none => simp [State.hits, present] at hit
      | some entry =>
        have valid : entry.isvalid = true := by simpa [State.hits, present] using hit
        rw [cache, getTableReplicationInfo, present]
        simp only [valid, if_true]
    exact current.same unchanged tables repsetTable
  · rw [if_neg hit]
    have filled : next.cache = s.state.cache.enter rel.relid
        (fillTableRepInfo base.getattr s.state.repsetTable rel subs) := by
      rw [cache, getTableReplicationInfo]
      cases present : s.state.cache rel.relid with
      | none => rfl
      | some entry =>
        have invalid : ¬ entry.isvalid = true := fun valid => hit (by rw [State.hits, present]; exact valid)
        simp only [if_neg invalid]
    intro oid entry found valid
    dsimp only at found ⊢
    rw [filled] at found ⊢
    rw [table, repsetTable, StringHash.enter_key]
    by_cases same : s.state.cache.key oid = s.state.cache.key rel.relid
    · rw [StringHash.enter_same _ same] at found
      cases found
      rw [fill_reloid, Function.update_self]
      exact ⟨same.symm, rel, here, rfl⟩
    · rw [StringHash.enter_of_ne _ same] at found
      obtain ⟨own, kept⟩ := current oid entry found valid
      have other : entry.reloid ≠ rel.relid := fun equal => same (by rw [← own, equal])
      rw [Function.update_of_ne other]
      exact ⟨own, kept⟩

/-- The hook touches the cache only for a table that it looks up. -/
theorem hook_cache {env : HookEnv Row Node} {hooks : PGLogicalHooksPrivate} {cache : RepSetTableHash Node}
    {rel : Relation} {change : ReorderBufferChange Row} {result : HookResult Node}
    (answer : pglogicalRowFilterHook env hooks cache rel change = .ok result) :
    result.cache = if hooks.replicateOnlyTable = none ∧ rel.relid ≠ env.queueTableOid ∧
        rel.relid ≠ env.replicationSetTableOid then
      (getTableReplicationInfo env.getattr env.repsetTable cache rel hooks.replicationSets).2 else cache := by
  unfold pglogicalRowFilterHook at answer
  cases only : hooks.replicateOnlyTable with
  | some name =>
    rw [only] at answer
    cases answer
    simp
  | none =>
    rw [only] at answer
    dsimp only at answer
    by_cases queue : rel.relid = env.queueTableOid
    · rw [if_pos queue] at answer
      rw [if_neg (by simp [queue])]
      split at answer <;> cases answer <;> rfl
    rw [if_neg queue] at answer
    by_cases repset : rel.relid = env.replicationSetTableOid
    · rw [if_pos repset] at answer
      rw [if_neg (by simp [repset])]
      cases handled : handleRepSetChange env hooks change with
      | error message => rw [handled] at answer; cases answer
      | ok hooks' => rw [handled] at answer; cases answer; rfl
    · rw [if_neg repset] at answer
      rw [if_pos ⟨rfl, queue, repset⟩]
      cases filtered : filterByTableInfo env
          (getTableReplicationInfo env.getattr env.repsetTable cache rel hooks.replicationSets).1 change with
      | error message => rw [filtered] at answer; cases answer
      | ok forward => rw [filtered] at answer; cases answer; rfl

/-- Whatever happens, valid entries stay current for the sets they were filled for. -/
theorem current_step {event : Event Row Node} {next : Traced Node} (current : Current base s)
    (taken : Traced.step base s event = some next) : Current base next := by
  obtain ⟨state, stepped, rfl⟩ := Option.map_eq_some_iff.mp taken
  cases event with
  | createReplicationSet set =>
    simp only [step, Option.ite_none_left_eq_some, Option.some.injEq] at stepped
    obtain ⟨-, rfl⟩ := stepped
    exact current.same rfl rfl rfl
  | alterReplicationSet set =>
    simp only [step, Option.ite_none_right_eq_some, Option.some.injEq] at stepped
    obtain ⟨-, rfl⟩ := stepped
    exact current.same rfl rfl rfl
  | dropReplicationSet setid =>
    simp only [step, Option.ite_none_right_eq_some, Option.some.injEq] at stepped
    obtain ⟨-, rfl⟩ := stepped
    exact (current.removeTables setid).invalidate rfl fun _ _ => ⟨rfl, rfl⟩
  | replicationSetAddTable t =>
    simp only [step, Option.ite_none_right_eq_some, Option.some.injEq] at stepped
    obtain ⟨-, rfl⟩ := stepped
    refine current.invalidate rfl fun other different => ⟨rfl, ?_⟩
    simp [State.invalidate, List.filter_append, different.symm]
  | replicationSetRemoveTable setid reloid =>
    simp only [step, Option.ite_none_right_eq_some, Option.some.injEq] at stepped
    obtain ⟨-, rfl⟩ := stepped
    refine current.invalidate rfl fun other different => ⟨rfl, ?_⟩
    rw [State.invalidate, List.filter_filter]
    refine List.filter_congr fun t _ => ?_
    by_cases here : t.reloid = other
    · simp [here, different]
    · simp [here]
  | alterTable rel =>
    cases stepped
    refine current.invalidate rfl fun other different => ⟨?_, rfl⟩
    simp only [State.table, State.invalidate]
    rw [List.find?_cons_of_neg (by simpa using different.symm), find?_others different]
  | dropTable reloid =>
    cases stepped
    refine current.invalidate rfl fun other different => ⟨?_, ?_⟩
    · simp only [State.table, State.invalidate]
      rw [find?_others different]
    · rw [State.invalidate, List.filter_filter]
      refine List.filter_congr fun t _ => ?_
      by_cases here : t.reloid = other
      · simp [here, different]
      · simp [here]
  | invalidate reloid =>
    cases stepped
    exact current.invalidate rfl fun _ _ => ⟨rfl, rfl⟩
  | startup nodeid names onlyTable =>
    simp only [step] at stepped
    split at stepped
    · cases stepped
      exact current.same rfl rfl rfl
    · cases stepped
  | decodeChange reloid change =>
    simp only [step] at stepped
    cases session : s.state.session with
    | none => rw [session] at stepped; cases stepped
    | some hooks =>
      cases table : s.state.table reloid with
      | none => rw [session, table] at stepped; cases stepped
      | some rel =>
        have same := relid_of_table table
        subst same
        by_cases normal : hooks.replicateOnlyTable = none ∧ rel.relid ≠ base.queueTableOid ∧
            rel.relid ≠ base.replicationSetTableOid
        · have asks : lookup? base s.state (.decodeChange rel.relid change) = some (rel, hooks.replicationSets) := by
            simp only [lookup?, session, table, if_pos normal]
          have cached : state.repsetTable = s.state.repsetTable ∧ state.tables = s.state.tables ∧ state.cache =
              (getTableReplicationInfo base.getattr s.state.repsetTable s.state.cache rel hooks.replicationSets).2 := by
            rw [session, table] at stepped
            dsimp only at stepped
            cases answer : pglogicalRowFilterHook (s.state.env base) hooks s.state.cache rel change with
            | ok result =>
              rw [answer] at stepped
              cases stepped
              exact ⟨rfl, rfl, (hook_cache answer).trans (if_pos normal)⟩
            | error message =>
              rw [answer, asks] at stepped
              cases stepped
              exact ⟨rfl, rfl, rfl⟩
          simp only [asks]
          exact current.lookup table _ cached.1 cached.2.1 cached.2.2
        · have asks : lookup? base s.state (.decodeChange rel.relid change) = none := by
            simp only [lookup?, session, table, if_neg normal]
          simp only [asks]
          rw [session, table] at stepped
          dsimp only at stepped
          cases answer : pglogicalRowFilterHook (s.state.env base) hooks s.state.cache rel change with
          | ok result =>
            rw [answer] at stepped
            cases stepped
            have same : result.cache = s.state.cache := (hook_cache answer).trans (if_neg normal)
            exact current.same same rfl rfl
          | error message =>
            rw [answer, asks] at stepped
            cases stepped
            exact current.same rfl rfl rfl
  | shutdown =>
    cases stepped
    exact current.same rfl rfl rfl
  | showRepsetTableInfo nodeid reloid names =>
    simp only [step] at stepped
    cases table : s.state.table reloid with
    | none => rw [table] at stepped; cases stepped
    | some rel =>
      cases found : getReplicationSets s.state.sets nodeid names with
      | none => rw [table, found] at stepped; cases stepped
      | some sets =>
        rw [table, found] at stepped
        cases stepped
        have same := relid_of_table table
        subst same
        simp only [lookup?, table, found]
        exact current.lookup table sets rfl rfl rfl

end Step

/-! ## Whole runs -/

theorem current_init (base : HookEnv Row Node) (bigendian : Bool) (sets : List PGLogicalRepSet)
    (repsetTable : List (RepSetTableTuple Node)) (tables : List Relation) :
    Current base (Traced.init bigendian sets repsetTable tables) := by
  intro oid entry found
  cases found

/-- An entry filled for the table and these sets answers for them; a missing one is computed. -/
theorem coherentLookup_of_sameSets {base : HookEnv Row Node} {s : Traced Node} {event : Event Row Node}
    (current : Current base s) (same : SameSets base s event) : CoherentLookup base s event := by
  intro rel subs asks
  rw [getTableReplicationInfo]
  cases present : s.state.cache rel.relid with
  | none => rfl
  | some entry =>
    dsimp only
    by_cases valid : entry.isvalid = true
    · rw [if_pos valid]
      obtain ⟨own, sets⟩ := same rel subs asks entry present valid
      obtain ⟨-, table, here, filled⟩ := current rel.relid entry present valid
      rw [own, lookup?_table asks] at here
      cases here
      rw [filled, own]
      exact fill_of_memberships sets
    · rw [if_neg valid]

/-- In every run in which a valid entry is only used for the table and the sets it was filled for, every
lookup returns what a fresh computation would. -/
theorem cache_coherent (base : HookEnv Row Node) (bigendian : Bool) (sets : List PGLogicalRepSet)
    (repsetTable : List (RepSetTableTuple Node)) (tables : List Relation) (events : List (Event Row Node))
    (allowed : Permitted (Traced.step base) (SameSets base) (Traced.init bigendian sets repsetTable tables) events) :
    Permitted (Traced.step base) (CoherentLookup base) (Traced.init bigendian sets repsetTable tables) events :=
  allowed.of_invariant (fun current _ taken => current_step current taken)
    (fun current same => coherentLookup_of_sameSets current same) (current_init base bigendian sets repsetTable tables)

/-! ## Altered flags -/

/-- Rows of the sample table are integers; rows of the set catalog are sets. -/
def sampleBase : HookEnv (ℤ ⊕ PGLogicalRepSet) ℤ where
  queueTableOid := 16410
  replicationSetTableOid := 16411
  getNamespaceOid := fun _ => 2200
  repsetTable := []
  getattr := ⟨fun _ t => t.attList, fun _ t => t.rowFilter⟩
  queuedMessageFromTuple := fun _ => ⟨none, 'Q'⟩
  replicationSetFromTuple := fun row => row.elim (fun _ => sampleSet 0) id
  execEvalExpr := fun bound row => row.elim (fun n => some (decide (bound < n))) fun _ => none

/-- One set with one table, that table, the table of the sets themselves, and one whose identifier is the same
string as that of the first on a little-endian server. -/
def sampleInit : Traced ℤ :=
  Traced.init false [sampleSet 1] [⟨1, 16640, none, none, by decide⟩]
    [{ sampleTable with relid := 16640 }, { sampleTable with relid := 16411 }, { sampleTable with relid := 16896 }]

def insertFive (reloid : Oid) : Event (ℤ ⊕ PGLogicalRepSet) ℤ := .decodeChange reloid ⟨.insert, none, some (.inl 5)⟩

/-- INSERTs are taken out of the set, and the session has seen it. -/
def alterSampleSet : List (Event (ℤ ⊕ PGLogicalRepSet) ℤ) :=
  [.alterReplicationSet { sampleSet 1 with replicateInsert := false },
    .decodeChange 16411 ⟨.update, none, some (.inr { sampleSet 1 with replicateInsert := false })⟩]

/-- The entry filled before the set was altered still decides about the next INSERT, and it decides about a
table with the same key that is in no set. -/
theorem cache_stale_after_alter :
    ¬ Permitted (Traced.step sampleBase) (CoherentLookup sampleBase) sampleInit
      (.startup 1 [⟨[115], by decide⟩] none :: insertFive 16640 :: alterSampleSet ++ [insertFive 16640]) ∧
    ¬ Permitted (Traced.step sampleBase) (CoherentLookup sampleBase) sampleInit
      [.startup 1 [⟨[115], by decide⟩] none, insertFive 16640, insertFive 16896] := by
  refine ⟨fun allowed => ?_, fun allowed => ?_⟩
  · have started := allowed.2 _ rfl
    have filled := started.2 _ rfl
    have altered := filled.2 _ rfl
    have decoded := altered.2 _ rfl
    have coherent := decoded.1 _ [{ sampleSet 1 with replicateInsert := false }] rfl
    cases congrArg PGLogicalTableRepInfo.replicateInsert coherent
  · have started := allowed.2 _ rfl
    have filled := started.2 _ rfl
    have coherent := filled.1 _ [sampleSet 1] rfl
    cases congrArg PGLogicalTableRepInfo.replicateInsert coherent

/-- A session that looks the table up twice with the sets it started with. -/
theorem cache_coherent_one_session :
    Permitted (Traced.step sampleBase) (CoherentLookup sampleBase) sampleInit
      [.startup 1 [⟨[115], by decide⟩] none, insertFive 16640, insertFive 16640] := by
  apply cache_coherent
  refine ⟨?_, fun started taken => ?_⟩
  · intro rel subs asks
    cases asks
  cases taken
  refine ⟨fun rel subs asks entry found => ?_, fun filled taken => ?_⟩
  · cases asks
    cases found
  · cases taken
    refine ⟨fun rel subs asks entry found valid => ?_, fun answered taken => trivial⟩
    cases asks
    cases found
    exact ⟨rfl, rfl⟩

end PGLogical.Backend
