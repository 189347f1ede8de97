import PGLogical.Machine.Fallible
import PGLogical.Machine.Run
import PGLogical.Model.RelcacheInval

/-! # Column maps and invalidations

A valid entry of the relation cache has the map for the table as it is, or DDL on the table is pending. A table
that is locked has no DDL pending. So a row is decoded with the current map unless the entry was
found valid while DDL was pending: opening the table then processes the invalidation, which comes too
late for this row. Names of dropped columns are not skipped when the map is computed, and must not be
names of remote columns. Ids that are one string share an entry, which is that of the last one announced.
-/

namespace PGLogical.RelcacheInval

open Machine
open Wire (CString StringHash)

/-! ## Processing invalidations -/

/-- An entry without its local table. -/
def forget (entry : PGLogicalRelation) : PGLogicalRelation := { entry with reloid := invalidOid }

/-- The entry is among those that an invalidation is about. -/
def Concerns (message : Invalidation) (entry : PGLogicalRelation) : Prop :=
  message.reloid = invalidOid ∨ entry.reloid = message.reloid

instance (message : Invalidation) (entry : PGLogicalRelation) : Decidable (Concerns message entry) :=
  inferInstanceAs (Decidable (_ ∨ _))

theorem callback_apply (hash : PGLogicalRelationHash) (message : Invalidation) (remoteid : Oid) :
    pglogicalRelcacheInvalidateCallback hash message.reloid remoteid =
      (hash remoteid).map fun entry => if Concerns message entry then forget entry else entry := by
  unfold pglogicalRelcacheInvalidateCallback
  rw [StringHash.map_find]
  congr 1
  funext entry
  by_cases all : message.reloid = invalidOid
  · simp [Concerns, all, forget]
  · simp [Concerns, all, forget]

theorem foldl_callback_key (pending : List Invalidation) (hash : PGLogicalRelationHash) :
    (pending.foldl (fun hash message => pglogicalRelcacheInvalidateCallback hash message.reloid) hash).key = hash.key := by
  induction pending generalizing hash with
  | nil => rfl
  | cons message rest ih =>
    rw [List.foldl_cons, ih]
    rfl

/-- Processing a queue forgets the entries that some message is about. -/
theorem foldl_callback_apply (pending : List Invalidation) (hash : PGLogicalRelationHash) (remoteid : Oid) :
    pending.foldl (fun hash message => pglogicalRelcacheInvalidateCallback hash message.reloid) hash remoteid =
      (hash remoteid).map fun entry => if ∃ message ∈ pending, Concerns message entry then forget entry else entry := by
  induction pending generalizing hash with
  | nil => simp
  | cons message rest ih =>
    rw [List.foldl_cons, ih, callback_apply, Option.map_map]
    congr 1
    funext entry
    by_cases first : Concerns message entry
    · simp [first, forget]
    · simp [first]

theorem acceptInvalidationMessages_hash (s : State) (remoteid : Oid) :
    (acceptInvalidationMessages s).hash remoteid = (s.hash remoteid).map fun entry =>
      if ∃ message ∈ s.pending, Concerns message entry then forget entry else entry :=
  foldl_callback_apply ..

section Lock

variable (s : State) (relid : Oid)

@[simp] theorem lockRelationOid_tables : (lockRelationOid s relid).tables = s.tables := by
  unfold lockRelationOid
  split <;> rfl

@[simp] theorem lockRelationOid_announced : (lockRelationOid s relid).announced = s.announced := by
  unfold lockRelationOid
  split <;> rfl

@[simp] theorem lockRelationOid_announcer : (lockRelationOid s relid).announcer = s.announcer := by
  unfold lockRelationOid
  split <;> rfl

@[simp] theorem lockRelationOid_key : (lockRelationOid s relid).hash.key = s.hash.key := by
  unfold lockRelationOid
  split
  · rfl
  · exact foldl_callback_key s.pending s.hash

/-- A lock leaves an entry as it is, except that it may forget the local table. -/
theorem lockRelationOid_hash {s : State} {remoteid : Oid} {entry : PGLogicalRelation}
    (found : s.hash remoteid = some entry) (relid : Oid) :
    (lockRelationOid s relid).hash remoteid = some entry ∨
      (lockRelationOid s relid).hash remoteid = some (forget entry) := by
  unfold lockRelationOid
  split
  · exact .inl found
  · simp only [acceptInvalidationMessages_hash, found, Option.map_some]
    split
    · exact .inr rfl
    · exact .inl rfl

end Lock

/-! ## The invariant -/

/-- The map and the trigger flag of the entry are those of the table. -/
structure Matches (entry : PGLogicalRelation) (table : LocalTable) : Prop where
  attmap : entry.attnames.mapM (tupdescGetAttByName table.desc) = .ok entry.attmap
  triggers : entry.hasTriggers = table.triggers.any Trigger.firesOnReplica

/-- DDL on the table of the entry is pending, or the entry matches the table. -/
def Current (s : State) (entry : PGLogicalRelation) : Prop :=
  .altered entry.reloid ∈ s.pending ∨ ∃ table, s.tables entry.reloid = some table ∧ Matches entry table

structure Inv (s : State) : Prop where
  announced : ∀ remoteid entry, s.hash remoteid = some entry → s.announcer (s.hash.key remoteid) = some remoteid →
    s.announced remoteid = some entry.attnames
  current : ∀ remoteid entry, s.hash remoteid = some entry → entry.reloid ≠ invalidOid → Current s entry
  locked : ∀ relid ∈ s.locks, .altered relid ∉ s.pending

theorem inv_init (bigendian : Bool) (tables : Oid → Option LocalTable) (names : CString → CString → Option Oid) :
    Inv (init bigendian tables names) where
  announced _ _ := nofun
  current _ _ := nofun
  locked _ := nofun

variable {s next : State}

/-- Entries may be forgotten as long as the others stay current. -/
theorem inv_forget (inv : Inv s) {concerned : PGLogicalRelation → Prop} [DecidablePred concerned]
    (announced : next.announced = s.announced) (announcer : next.announcer = s.announcer)
    (key : next.hash.key = s.hash.key)
    (hash : ∀ remoteid, next.hash remoteid =
      (s.hash remoteid).map fun entry => if concerned entry then forget entry else entry)
    (current : ∀ entry, ¬concerned entry → Current s entry → Current next entry)
    (locked : ∀ relid ∈ next.locks, .altered relid ∉ next.pending) : Inv next where
  announced remoteid entry found own := by
    rw [hash] at found
    obtain ⟨old, before, rfl⟩ := Option.map_eq_some_iff.mp found
    rw [key, announcer] at own
    rw [announced]
    split
    · exact inv.announced remoteid old before own
    · exact inv.announced remoteid old before own
  current remoteid entry found valid := by
    rw [hash] at found
    obtain ⟨old, before, rfl⟩ := Option.map_eq_some_iff.mp found
    split at valid
    · exact absurd rfl valid
    · next unconcerned =>
      rw [if_neg unconcerned]
      exact current old unconcerned (inv.current remoteid old before valid)
  locked := locked

theorem inv_accept (inv : Inv s) : Inv (acceptInvalidationMessages s) := by
  refine inv_forget inv rfl rfl (foldl_callback_key s.pending s.hash) (acceptInvalidationMessages_hash s)
    (fun entry unconcerned current => ?_) fun _ _ => List.not_mem_nil
  exact .inr (current.resolve_left fun pending => unconcerned ⟨_, pending, .inr rfl⟩)

theorem inv_lock (inv : Inv s) (relid : Oid) : Inv (lockRelationOid s relid) := by
  unfold lockRelationOid
  split
  · exact inv
  · have accepted := inv_accept inv
    exact { accepted with locked := fun _ _ => List.not_mem_nil }

/-! ## Opening a relation -/

/-- The table that a row for the entry is going to open. -/
def State.target (s : State) (entry : PGLogicalRelation) : Option Oid :=
  if entry.reloid = invalidOid then s.relnameGetRelid entry.nspname entry.relname else some entry.reloid

/-- The entry with the map to a table. -/
def fill (entry : PGLogicalRelation) (relid : Oid) (table : LocalTable) (attmap : List ℕ) : PGLogicalRelation :=
  { entry with attmap := attmap, reloid := relid, hasTriggers := table.triggers.any Trigger.firesOnReplica }

theorem heapOpen_eq_ok {relid : Oid} {rel : LocalRelation} (opened : heapOpen s relid = .ok (rel, next)) :
    ∃ table, s.tables relid = some table ∧ rel = ⟨relid, table.desc, table.triggers⟩ ∧
      next = lockRelationOid s relid := by
  unfold heapOpen at opened
  split at opened
  · cases opened
  · next table present =>
    cases opened
    exact ⟨table, present, rfl, rfl⟩

theorem heapOpenrv_eq_ok {schemaname relname : CString} {rel : LocalRelation}
    (opened : heapOpenrv s schemaname relname = .ok (rel, next)) :
    ∃ relid, s.relnameGetRelid schemaname relname = some relid ∧ heapOpen s relid = .ok (rel, next) := by
  unfold heapOpenrv at opened
  split at opened
  · cases opened
  · next relid resolved => exact ⟨relid, resolved, opened⟩

/-- The map of an entry without a local table is computed from the table that is opened; any other entry is
left to the invalidations. -/
theorem relationOpen_eq_ok {remoteid : Oid} {rel : LocalRelation}
    (opened : pglogicalRelationOpen s remoteid = .ok (rel, next)) :
    ∃ entry relid table, s.hash remoteid = some entry ∧ s.target entry = some relid ∧ s.tables relid = some table ∧
      rel = ⟨relid, table.desc, table.triggers⟩ ∧
      ((entry.reloid = invalidOid ∧ ∃ attmap, entry.attnames.mapM (tupdescGetAttByName table.desc) = .ok attmap ∧
        next = { lockRelationOid s relid with
          hash := (lockRelationOid s relid).hash.enter remoteid (fill entry relid table attmap) }) ∨
      (entry.reloid ≠ invalidOid ∧ relid = entry.reloid ∧ next = lockRelationOid s relid)) := by
  unfold pglogicalRelationOpen at opened
  split at opened
  · cases opened
  · next entry cached =>
    split at opened
    · next unmapped =>
      obtain ⟨⟨found, locked⟩, byName, opened⟩ := bind_eq_ok.mp opened
      obtain ⟨attmap, mapped, opened⟩ := bind_eq_ok.mp opened
      obtain ⟨relid, resolved, byOid⟩ := heapOpenrv_eq_ok byName
      obtain ⟨table, present, rfl, rfl⟩ := heapOpen_eq_ok byOid
      cases opened
      exact ⟨entry, relid, table, cached, by rw [State.target, if_pos unmapped, resolved], present, rfl,
        .inl ⟨unmapped, attmap, mapped, rfl⟩⟩
    · next valid =>
      obtain ⟨table, present, rfl, rfl⟩ := heapOpen_eq_ok opened
      exact ⟨entry, entry.reloid, table, cached, by rw [State.target, if_neg valid], present, rfl,
        .inr ⟨valid, rfl, rfl⟩⟩

/-- A new entry, with the columns that are announced for the last id with its key. -/
theorem inv_enter (inv : Inv s) {remoteid : Oid} {entry : PGLogicalRelation} {announced : Oid → Option (List CString)}
    {announcer : CString → Option Oid} (current : entry.reloid ≠ invalidOid → Current s entry)
    (others : ∀ other, s.hash.key other ≠ s.hash.key remoteid →
      announced other = s.announced other ∧ announcer (s.hash.key other) = s.announcer (s.hash.key other))
    (own : ∀ other, s.hash.key other = s.hash.key remoteid → announcer (s.hash.key other) = some other →
      announced other = some entry.attnames) :
    Inv { s with hash := s.hash.enter remoteid entry, announced := announced, announcer := announcer } where
  announced other found cached last := by
    by_cases same : s.hash.key other = s.hash.key remoteid
    · rw [StringHash.enter_same _ same] at cached
      cases cached
      exact own other same last
    · rw [StringHash.enter_of_ne _ same] at cached
      obtain ⟨unchanged, kept⟩ := others other same
      exact unchanged.trans (inv.announced other found cached (kept.symm.trans last))
  current other found cached valid := by
    by_cases same : s.hash.key other = s.hash.key remoteid
    · rw [StringHash.enter_same _ same] at cached
      cases cached
      exact current valid
    · rw [StringHash.enter_of_ne _ same] at cached
      exact inv.current other found cached valid
  locked := inv.locked

theorem inv_open (inv : Inv s) {remoteid : Oid} {rel : LocalRelation}
    (opened : pglogicalRelationOpen s remoteid = .ok (rel, next)) : Inv next := by
  obtain ⟨entry, relid, table, cached, -, present, -, ⟨-, attmap, mapped, rfl⟩ | ⟨-, -, rfl⟩⟩ :=
    relationOpen_eq_ok opened
  · have locked := inv_lock inv relid
    rw [← lockRelationOid_tables s relid] at present
    refine inv_enter locked (fun _ => .inr ⟨table, present, mapped, rfl⟩) (fun _ _ => ⟨rfl, rfl⟩) fun other same last => ?_
    rw [lockRelationOid_key] at same last
    rw [lockRelationOid_announcer] at last
    rw [lockRelationOid_announced]
    exact inv.announced other entry ((StringHash.find_congr _ same).trans cached) last
  · exact inv_lock inv relid

/-! ## Rows -/

/-- The names of dropped columns are not among the remote ones. -/
def NoneDropped (desc : TupleDesc) (attnames : List CString) : Prop :=
  ∀ att ∈ desc.attrs, att.attisdropped = true → att.attname.str ∉ attnames

/-- A row finds an entry that is its id's own, and invalid or without DDL on its table pending. -/
def Settled (s : State) : Event → Prop
  | .row remoteid => ∀ entry ∈ s.hash remoteid, s.announcer (s.hash.key remoteid) = some remoteid ∧
      (entry.reloid ≠ invalidOid → entry.reloid ∉ s.locks → .altered entry.reloid ∉ s.pending) ∧
      ∀ relid ∈ s.target entry, ∀ table ∈ s.tables relid, NoneDropped table.desc entry.attnames
  | _ => True

/-- Every remote column is mapped to the live column of its name, and the trigger flag is that of the table. -/
structure CurrentMap (attnames : List CString) (entry : PGLogicalRelation) (rel : LocalRelation) : Prop where
  columns : List.Forall₂ (fun name attid => ∃ att, rel.desc.attrs[attid]? = some att ∧ att.attname.str = name ∧
    att.attisdropped = false) attnames entry.attmap
  triggers : entry.hasTriggers = rel.triggers.any Trigger.firesOnReplica

/-- What a row is decoded with, and what its RELATION message has announced. -/
def UsesCurrentMap (s : State) : Event → Prop
  | .row remoteid => ∀ rel next, pglogicalRelationOpen s remoteid = .ok (rel, next) →
      ∃ entry attnames, next.hash remoteid = some entry ∧ s.announced remoteid = some attnames ∧
        CurrentMap attnames entry rel
  | _ => True

theorem tupdescGetAttByName_eq_ok {desc : TupleDesc} {attname : CString} {attid : ℕ}
    (found : tupdescGetAttByName desc attname = .ok attid) :
    ∃ att, desc.attrs[attid]? = some att ∧ att.attname.str = attname := by
  unfold tupdescGetAttByName at found
  split at found
  · next position first =>
    cases found
    obtain ⟨inside, hit, -⟩ := List.findIdx?_eq_some_iff_getElem.mp first
    exact ⟨_, List.getElem?_eq_getElem inside, of_decide_eq_true hit⟩
  · cases found

/-- A map that was computed without errors leads from every name to the live column, if none of
the names is that of a dropped one. -/
theorem columns_of_mapM {desc : TupleDesc} {attnames : List CString} {attmap : List ℕ}
    (live : NoneDropped desc attnames) (mapped : attnames.mapM (tupdescGetAttByName desc) = .ok attmap) :
    List.Forall₂ (fun name attid => ∃ att, desc.attrs[attid]? = some att ∧ att.attname.str = name ∧
      att.attisdropped = false) attnames attmap := by
  induction attnames generalizing attmap with
  | nil =>
    cases mapped
    exact .nil
  | cons name rest ih =>
    rw [List.mapM_cons] at mapped
    obtain ⟨attid, first, mapped⟩ := bind_eq_ok.mp mapped
    obtain ⟨others, later, mapped⟩ := bind_eq_ok.mp mapped
    cases mapped
    obtain ⟨att, position, named⟩ := tupdescGetAttByName_eq_ok first
    refine .cons ⟨att, position, named, ?_⟩ (ih ?_ later)
    · refine Bool.eq_false_iff.mpr fun dropped => live att (List.mem_of_getElem? position) dropped ?_
      rw [named]
      exact List.mem_cons_self ..
    · exact fun other inside dropped again => live other inside dropped (List.mem_cons_of_mem _ again)

theorem currentMap_of_matches {entry : PGLogicalRelation} {table : LocalTable} (relid : Oid)
    (same : Matches entry table) (live : NoneDropped table.desc entry.attnames) :
    CurrentMap entry.attnames entry ⟨relid, table.desc, table.triggers⟩ :=
  ⟨columns_of_mapM live same.attmap, same.triggers⟩

theorem usesCurrentMap_row (inv : Inv s) {remoteid : Oid} (settled : Settled s (.row remoteid)) :
    UsesCurrentMap s (.row remoteid) := by
  intro rel next opened
  obtain ⟨entry, relid, table, cached, target, present, rfl, ⟨-, attmap, mapped, rfl⟩ | ⟨valid, rfl, rfl⟩⟩ :=
    relationOpen_eq_ok opened
  · obtain ⟨own, -, live⟩ := settled entry cached
    refine ⟨_, entry.attnames, StringHash.enter_self .., inv.announced remoteid entry cached own, ?_⟩
    exact ⟨columns_of_mapM (live relid target table present) mapped, rfl⟩
  · obtain ⟨own, calm, live⟩ := settled entry cached
    have notPending : .altered entry.reloid ∉ s.pending := by
      by_cases locked : entry.reloid ∈ s.locks
      · exact inv.locked _ locked
      · exact calm valid locked
    obtain ⟨same, this, agrees⟩ := (inv.current remoteid entry cached valid).resolve_left notPending
    rw [present] at this
    cases this
    have current := currentMap_of_matches entry.reloid agrees (live _ target table present)
    rcases lockRelationOid_hash cached entry.reloid with untouched | forgotten
    · exact ⟨entry, entry.attnames, untouched, inv.announced remoteid entry cached own, current⟩
    · exact ⟨forget entry, entry.attnames, forgotten, inv.announced remoteid entry cached own, current.columns,
        current.triggers⟩

/-! ## Other events -/

/-- The worker's own DDL forgets the entries of the table at once. -/
theorem inv_alter (inv : Inv s) (relid : Oid) (table : Option LocalTable) (names : CString → CString → Option Oid) :
    Inv { s with
      tables := Function.update s.tables relid table
      relnameGetRelid := names
      hash := pglogicalRelcacheInvalidateCallback s.hash relid } := by
  refine inv_forget inv rfl rfl rfl (callback_apply s.hash (.altered relid)) (fun entry unconcerned current => ?_) inv.locked
  have other : entry.reloid ≠ relid := fun same => unconcerned (.inr same)
  simpa only [Current, Function.update_of_ne other] using current

/-- DDL of others changes a table that is not locked, and leaves its invalidation behind. -/
theorem inv_ddl (inv : Inv s) {relid : Oid} (unlocked : relid ∉ s.locks) (table : Option LocalTable)
    (names : CString → CString → Option Oid) :
    Inv { s with
      tables := Function.update s.tables relid table
      relnameGetRelid := names
      pending := s.pending ++ [.altered relid] } where
  announced := inv.announced
  current remoteid entry cached valid := by
    by_cases this : entry.reloid = relid
    · refine .inl ?_
      rw [this]
      exact List.mem_append_right _ (List.mem_singleton_self _)
    · simp only [Current, Function.update_of_ne this]
      exact (inv.current remoteid entry cached valid).imp_left (List.mem_append_left _)
  locked held inside pending := by
    rcases List.mem_append.mp pending with before | last
    · exact inv.locked held inside before
    · cases List.mem_singleton.mp last
      exact unlocked inside

theorem inv_refresh (inv : Inv s) (relid : Oid) : Inv { s with pending := s.pending ++ [.refreshed relid] } where
  announced := inv.announced
  current remoteid entry cached valid :=
    (inv.current remoteid entry cached valid).imp_left (List.mem_append_left _)
  locked held inside pending := by
    rcases List.mem_append.mp pending with before | last
    · exact inv.locked held inside before
    · cases List.mem_singleton.mp last

theorem inv_step {event : Event} (inv : Inv s) (stepped : step s event = some next) : Inv next := by
  cases event with
  | relation remoteid schemaname relname attnames =>
    cases stepped
    refine inv_enter inv (fun valid => absurd rfl valid) (fun other apart => ?_) fun other same last => ?_
    · have different : other ≠ remoteid := fun equal => apart (congrArg _ equal)
      exact ⟨Function.update_of_ne different .., Function.update_of_ne apart ..⟩
    · rw [same, Function.update_self] at last
      cases last
      exact Function.update_self ..
  | row remoteid =>
    simp only [step] at stepped
    split at stepped
    · split at stepped
      · next rel target opened =>
        cases stepped
        exact inv_open inv opened
      · cases stepped
    · cases stepped
  | startTransaction =>
    simp only [step] at stepped
    split at stepped
    · cases stepped
    · cases stepped
      have accepted := inv_accept inv
      exact { accepted with }
  | lock relid =>
    simp only [step] at stepped
    split at stepped
    · cases stepped
      exact inv_lock inv relid
    · cases stepped
  | queuedDdl relid table names =>
    simp only [step] at stepped
    split at stepped
    · cases stepped
      exact inv_alter (inv_lock inv relid) relid table names
    · cases stepped
  | commit =>
    simp only [step] at stepped
    split at stepped
    · cases stepped
      exact { inv with locked := nofun }
    · cases stepped
  | ddl relid table names =>
    simp only [step] at stepped
    split at stepped
    · cases stepped
    · next unlocked =>
      cases stepped
      exact inv_ddl inv unlocked table names
  | refresh relid =>
    cases stepped
    exact inv_refresh inv relid

/-- In every run in which each row finds the entry of its own id, invalid or with its table without pending DDL, each
row is decoded with the column map and the trigger flag of the table that is opened for it. -/
theorem rows_use_current_map (bigendian : Bool) (tables : Oid → Option LocalTable) (names : CString → CString → Option Oid)
    (events : List Event) (settled : Permitted step Settled (init bigendian tables names) events) :
    Permitted step UsesCurrentMap (init bigendian tables names) events := by
  have preserved : ∀ {s next : State} {event : Event}, Inv s → Settled s event → step s event = some next → Inv next :=
    fun inv _ stepped => inv_step inv stepped
  refine Permitted.of_invariant preserved ?_ (inv_init bigendian tables names) settled
  intro s event inv settled
  cases event with
  | row remoteid => exact usesCurrentMap_row inv settled
  | _ => trivial

/-! ## A column that is dropped and added again -/

instance (desc : TupleDesc) (attnames : List CString) : Decidable (NoneDropped desc attnames) :=
  inferInstanceAs (Decidable (∀ att ∈ desc.attrs, att.attisdropped = true → att.attname.str ∉ attnames))

instance Settled.decidable (s : State) : ∀ event, Decidable (Settled s event)
  | .row remoteid =>
      have : ∀ entry, Decidable (∀ relid ∈ s.target entry, ∀ table ∈ s.tables relid,
          NoneDropped table.desc entry.attnames) := fun _ => Option.decidableForallMem _
      inferInstanceAs (Decidable (∀ entry ∈ s.hash remoteid, s.announcer (s.hash.key remoteid) = some remoteid ∧
        (entry.reloid ≠ invalidOid → entry.reloid ∉ s.locks → .altered entry.reloid ∉ s.pending) ∧
        ∀ relid ∈ s.target entry, ∀ table ∈ s.tables relid, NoneDropped table.desc entry.attnames))
  | .relation .. | .startTransaction | .lock _ | .queuedDdl .. | .commit | .ddl .. | .refresh _ => isTrue trivial

def nameA : NameData := ⟨⟨[97], by decide⟩, by decide⟩

def nameB : NameData := ⟨⟨[98], by decide⟩, by decide⟩

/-- The name that the server gives to the first column when it is dropped. -/
def nameDropped : NameData :=
  ⟨⟨List.replicate 8 46 ++ [112, 103, 46, 100, 114, 111, 112, 112, 101, 100, 46, 49] ++ List.replicate 8 46, by decide⟩,
    by decide⟩

def sampleColumn (name : NameData) (attnum : ℤ) (dropped : Bool) : FormPgAttribute :=
  { FormPgAttribute.int4 name attnum with attisdropped := dropped }

def tableBefore : LocalTable :=
  ⟨⟨[sampleColumn nameA 1 false, sampleColumn nameB 2 false], by decide, by decide, by decide⟩, []⟩

def tableAfter : LocalTable :=
  ⟨⟨[sampleColumn nameDropped 1 true, sampleColumn nameB 2 false, sampleColumn nameA 3 false], by decide, by decide,
    by decide⟩, []⟩

def sampleTables : Oid → Option LocalTable := fun relid => if relid = 16999 then some tableBefore else none

/-- The table has the only name there is. -/
def sampleNames : CString → CString → Option Oid := fun _ _ => some 16999

/-- The cache entry gets its map in a first transaction. -/
def firstRow : List Event := [.relation 16400 nameB.str nameA.str [nameA.str], .startTransaction, .row 16400, .commit]

def dropAndAdd : Event := .ddl 16999 (some tableAfter) sampleNames

/-- DDL between two transactions is seen when the second one starts. -/
theorem rows_use_current_map_after_ddl :
    (run step (init false sampleTables sampleNames)
      (firstRow ++ [dropAndAdd, .startTransaction, .row 16400])).isSome = true ∧
    Permitted step UsesCurrentMap (init false sampleTables sampleNames)
      (firstRow ++ [dropAndAdd, .startTransaction, .row 16400]) :=
  ⟨by decide, rows_use_current_map _ _ _ _ (by decide)⟩

/-- Two tables whose ids are the empty string on a little-endian server. -/
def sharedKey : List Event :=
  [.relation 16640 nameB.str nameA.str [nameA.str], .relation 16896 nameB.str nameB.str [nameB.str], .startTransaction]

/-- DDL after the transaction has started is seen when the table is opened for the row, with the entry already
found valid: the row is decoded into the dropped column. And a table whose id has the key of another one has
that one's columns. -/
theorem row_decoded_with_stale_map :
    (∃ s, run step (init false sampleTables sampleNames) (firstRow ++ [.startTransaction, dropAndAdd]) = some s ∧
      ¬UsesCurrentMap s (.row 16400)) ∧
    ∃ s, run step (init false sampleTables sampleNames) sharedKey = some s ∧ ¬UsesCurrentMap s (.row 16640) := by
  refine ⟨⟨_, rfl, fun uses => ?_⟩, ⟨_, rfl, fun uses => ?_⟩⟩
  · obtain ⟨entry, attnames, cached, announced, current⟩ := uses _ _ rfl
    cases cached
    cases announced
    obtain ⟨att, position, -, live⟩ := (List.forall₂_cons.mp current.columns).1
    cases position
    cases live
  · obtain ⟨entry, attnames, cached, announced, current⟩ := uses _ _ rfl
    cases cached
    cases announced
    obtain ⟨att, position, named, -⟩ := (List.forall₂_cons.mp current.columns).1
    cases position
    cases named

end PGLogical.RelcacheInval
