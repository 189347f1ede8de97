import PGLogical.Model.Hooks
import Mathlib.Tactic.Tauto

/-! # The replication decision and the union of the subscribed sets

The merged entry is a function of the memberships of the table in subscribed sets: the action flags
are the union over them, the row filters are collected from all of them and must all pass, and the
column lists are united with NULL adding nothing. The documented decision is the union in all three
respects. The two agree exactly when no membership takes away what another one grants. Filters and
lists are those that are read through the descriptor of the replicated table, which need not be the
stored ones.
-/

namespace PGLogical

open Wire (CString)

variable {Row Node : Type}

/-! ## What the merged entry holds -/

/-- The rows of a table, each with the subscribed sets it belongs to, in the order of the two loops. -/
def memberships (catalog : List (RepSetTableTuple Node)) (table : Relation) (subs : List PGLogicalRepSet) :
    List (RepSetTableTuple Node × PGLogicalRepSet) :=
  (catalog.filter fun t => decide (t.reloid = table.relid)).flatMap fun t =>
    (subs.filter fun s => decide (t.setid = s.id)).map fun s => (t, s)

theorem mem_memberships {catalog : List (RepSetTableTuple Node)} {table : Relation} {subs : List PGLogicalRepSet}
    {t : RepSetTableTuple Node} {s : PGLogicalRepSet} :
    (t, s) ∈ memberships catalog table subs ↔
      t ∈ catalog ∧ t.reloid = table.relid ∧ s ∈ subs ∧ t.setid = s.id := by
  simp only [memberships, List.mem_flatMap, List.mem_filter, decide_eq_true_eq, List.mem_map, Prod.mk.injEq]
  constructor
  · rintro ⟨row, ⟨stored, here⟩, set, ⟨subscribed, same⟩, rfl, rfl⟩
    exact ⟨stored, here, subscribed, same⟩
  · rintro ⟨stored, here, subscribed, same⟩
    exact ⟨t, ⟨stored, here⟩, s, ⟨subscribed, same⟩, rfl, rfl⟩

/-- The columns listed by any membership. -/
def listedNames (getattr : HeapGetattr Node) (desc : TupleDesc)
    (members : List (RepSetTableTuple Node × PGLogicalRepSet)) : List CString :=
  members.flatMap fun m => (getattr.attList desc m.1).getD []

/-- The two loops as one. -/
def PGLogicalTableRepInfo.mergeAll (getattr : HeapGetattr Node) (desc : TupleDesc)
    (entry : PGLogicalTableRepInfo Node) (members : List (RepSetTableTuple Node × PGLogicalRepSet)) :
    PGLogicalTableRepInfo Node :=
  members.foldl (fun entry m => merge getattr desc entry m.1 m.2) entry

theorem fillTableRepInfo_eq_mergeAll (getattr : HeapGetattr Node) (catalog : List (RepSetTableTuple Node))
    (table : Relation) (subs : List PGLogicalRepSet) :
    fillTableRepInfo getattr catalog table subs =
      { PGLogicalTableRepInfo.mergeAll getattr table.desc (.empty table.relid) (memberships catalog table subs) with
        isvalid := true } := by
  have inner : PGLogicalTableRepInfo.mergeSets getattr table.desc subs = fun entry t =>
      entry.mergeAll getattr table.desc ((subs.filter fun s => decide (t.setid = s.id)).map fun s => (t, s)) := by
    funext entry t
    rw [PGLogicalTableRepInfo.mergeAll, List.foldl_map, List.foldl_filter]
    simp only [PGLogicalTableRepInfo.mergeSets, decide_eq_true_eq]
  rw [fillTableRepInfo, PGLogicalTableRepInfo.mergeAll, memberships, List.foldl_flatMap, inner]
  rfl

/-- The three accumulators at the end of the loops, from any starting entry. -/
theorem mergeAll_eq (getattr : HeapGetattr Node) (desc : TupleDesc) (entry : PGLogicalTableRepInfo Node)
    (members : List (RepSetTableTuple Node × PGLogicalRepSet)) :
    entry.mergeAll getattr desc members =
      { entry with
        replicateInsert := entry.replicateInsert || members.any (·.2.replicateInsert)
        replicateUpdate := entry.replicateUpdate || members.any (·.2.replicateUpdate)
        replicateDelete := entry.replicateDelete || members.any (·.2.replicateDelete)
        attList := (listedNames getattr desc members).foldl (addAttribute desc) entry.attList
        rowFilter := entry.rowFilter ++ members.filterMap fun m => getattr.rowFilter desc m.1 } := by
  induction members generalizing entry with
  | nil => simp [PGLogicalTableRepInfo.mergeAll, listedNames]
  | cons m rest ih =>
    have step : entry.mergeAll getattr desc (m :: rest) =
      (entry.merge getattr desc m.1 m.2).mergeAll getattr desc rest := rfl
    rw [step, ih]
    simp only [PGLogicalTableRepInfo.merge, listedNames, List.flatMap_cons, List.foldl_append,
      List.any_cons, List.filterMap_cons]
    congr 1
    · rw [← Bool.or_assoc, Bool.or_comm m.2.replicateInsert]
    · rw [← Bool.or_assoc, Bool.or_comm m.2.replicateUpdate]
    · rw [← Bool.or_assoc, Bool.or_comm m.2.replicateDelete]
    · cases getattr.attList desc m.1 <;> rfl
    · cases getattr.rowFilter desc m.1 <;> simp

/-! ## Column lists -/

theorem TupleDesc.attnum_inj (desc : TupleDesc) {a b : FormPgAttribute} (inA : a ∈ desc.attrs)
    (inB : b ∈ desc.attrs) (same : a.attnum = b.attnum) : a = b := by
  have distinct : (desc.attrs.map FormPgAttribute.attnum).Nodup := by
    rw [desc.numbered]
    exact List.Nodup.map (fun i j equal => by simpa using equal) List.nodup_range
  exact List.inj_on_of_nodup_map distinct inA inB same

theorem TupleDesc.attnum_pos (desc : TupleDesc) {att : FormPgAttribute} (member : att ∈ desc.attrs) :
    0 < att.attnum := by
  have listed := List.mem_map_of_mem (f := FormPgAttribute.attnum) member
  rw [desc.numbered, List.mem_map] at listed
  obtain ⟨i, -, equal⟩ := listed
  omega

/-- A name has the number of a live column exactly when it is the name of that column. -/
theorem getAttNumByName_eq_iff (desc : TupleDesc) {att : FormPgAttribute} (member : att ∈ desc.attrs)
    (live : att.attisdropped = false) (name : CString) :
    getAttNumByName desc name = att.attnum ↔ name = att.attname.str := by
  unfold getAttNumByName
  constructor
  · split
    · next found search =>
      intro same
      have named := List.find?_some search
      simp only [Bool.and_eq_true, decide_eq_true_eq] at named
      rw [desc.attnum_inj (List.mem_of_find?_eq_some search) member same] at named
      exact named.2.symm
    · intro same
      have := desc.attnum_pos member
      rw [firstLowInvalidHeapAttributeNumber] at same
      omega
  · rintro rfl
    split
    · next found search =>
      have named := List.find?_some search
      simp only [Bool.and_eq_true, decide_eq_true_eq] at named
      have same : found.attname = att.attname := by
        cases foundName : found.attname
        cases attName : att.attname
        simp_all
      rw [List.inj_on_of_nodup_map desc.named (List.mem_of_find?_eq_some search) member same]
    · next search =>
      have missed := List.find?_eq_none.mp search att member
      simp [live] at missed

theorem mem_foldl_addAttribute (desc : TupleDesc) (names : List CString) (start : Option Bitmapset) :
    names = [] ∧ names.foldl (addAttribute desc) start = start ∨
    names ≠ [] ∧ ∃ members, names.foldl (addAttribute desc) start = some members ∧
      ∀ x, x ∈ members ↔ x ∈ start.getD ∅ ∨
        ∃ name ∈ names, x = getAttNumByName desc name - firstLowInvalidHeapAttributeNumber := by
  induction names generalizing start with
  | nil => exact .inl ⟨rfl, rfl⟩
  | cons name rest ih =>
    refine .inr ⟨List.cons_ne_nil _ _, ?_⟩
    rw [List.foldl_cons]
    rcases ih (addAttribute desc start name) with ⟨rfl, same⟩ | ⟨-, members, same, mem⟩
    · refine ⟨_, same, fun x => ?_⟩
      simp only [Finset.mem_insert, List.mem_singleton, exists_eq_left]
      exact or_comm
    · refine ⟨members, same, fun x => ?_⟩
      rw [mem]
      simp only [addAttribute, Option.getD_some, Finset.mem_insert, List.mem_cons, exists_eq_or_imp]
      tauto

/-- The united lists send a live column when there are none, or when one of them names it. -/
theorem sent_foldl_addAttribute {desc : TupleDesc} {att : FormPgAttribute} (member : att ∈ desc.attrs)
    (live : att.attisdropped = false) (names : List CString) :
    att.sent (names.foldl (addAttribute desc) none) = true ↔ names = [] ∨ att.attname.str ∈ names := by
  rcases mem_foldl_addAttribute desc names none with ⟨rfl, same⟩ | ⟨nonempty, members, same, mem⟩
  · simp [FormPgAttribute.sent, live]
  · rw [same]
    simp only [FormPgAttribute.sent, live, Bool.not_false, Bool.true_and, decide_eq_true_eq, mem,
      FormPgAttribute.member, sub_left_inj, Option.getD_none, Finset.notMem_empty, false_or]
    simp only [eq_comm (a := att.attnum), getAttNumByName_eq_iff desc member live, exists_eq_right, nonempty, false_or]

/-! ## The decision of the hook -/

def PGLogicalRepSet.replicates (s : PGLogicalRepSet) : ReorderBufferChangeType → Bool
  | .insert => s.replicateInsert
  | .update => s.replicateUpdate
  | .delete => s.replicateDelete
  | .other _ => false

/-- The set is subscribed and contains the table, by the membership row. -/
structure Member (env : HookEnv Row Node) (hooks : PGLogicalHooksPrivate) (rel : Relation)
    (t : RepSetTableTuple Node) (s : PGLogicalRepSet) : Prop where
  stored : t ∈ env.repsetTable
  table : t.reloid = rel.relid
  subscribed : s ∈ hooks.replicationSets
  set : t.setid = s.id

theorem member_iff {env : HookEnv Row Node} {hooks : PGLogicalHooksPrivate} {rel : Relation}
    {t : RepSetTableTuple Node} {s : PGLogicalRepSet} :
    (t, s) ∈ memberships env.repsetTable rel hooks.replicationSets ↔ Member env hooks rel t s := by
  rw [mem_memberships]
  exact ⟨fun ⟨stored, table, subscribed, set⟩ => ⟨stored, table, subscribed, set⟩,
    fun m => ⟨m.stored, m.table, m.subscribed, m.set⟩⟩

/-- The filter of a membership, if any, evaluates to true on the row. -/
def Accepts (env : HookEnv Row Node) (change : ReorderBufferChange Row) (t : RepSetTableTuple Node) : Prop :=
  ∀ filter ∈ t.rowFilter, ∃ row ∈ change.row, env.execEvalExpr filter row = some true

/-- The filter of a membership, as it is read, evaluates to true on the row. -/
def Passes (env : HookEnv Row Node) (rel : Relation) (change : ReorderBufferChange Row)
    (t : RepSetTableTuple Node) : Prop :=
  ∀ filter ∈ env.getattr.rowFilter rel.desc t, ∃ row ∈ change.row, env.execEvalExpr filter row = some true

/-- The names that are read from the column lists of the memberships. -/
def readNames (env : HookEnv Row Node) (hooks : PGLogicalHooksPrivate) (rel : Relation) : List CString :=
  listedNames env.getattr rel.desc (memberships env.repsetTable rel hooks.replicationSets)

/-- A change of a table that is decided by its replication sets. -/
structure Ordinary (env : HookEnv Row Node) (hooks : PGLogicalHooksPrivate) (rel : Relation)
    (change : ReorderBufferChange Row) : Prop where
  sets : hooks.replicateOnlyTable = none
  queue : rel.relid ≠ env.queueTableOid
  repset : rel.relid ≠ env.replicationSetTableOid
  action : change.action = .insert ∨ change.action = .update ∨ change.action = .delete

theorem passesFilters_iff (env : HookEnv Row Node) (row : Row) (filters : List Node) :
    passesFilters env row filters = true ↔ ∀ filter ∈ filters, env.execEvalExpr filter row = some true := by
  induction filters with
  | nil => simp [passesFilters]
  | cons filter rest ih =>
    rw [passesFilters, List.forall_mem_cons]
    split
    · next result => simp [result]
    · next result => simp [result]
    · next result => simp [result, ih]

/-- An entry replicates the action, and all its filters pass, with a row to try them on if there are any. -/
def PGLogicalTableRepInfo.Sends (entry : PGLogicalTableRepInfo Node) (env : HookEnv Row Node)
    (change : ReorderBufferChange Row) : Prop :=
  entry.replicates change.action = .ok true ∧
    ∀ filter ∈ entry.rowFilter, ∃ row ∈ change.row, env.execEvalExpr filter row = some true

theorem filterByTableInfo_ok (env : HookEnv Row Node) (entry : PGLogicalTableRepInfo Node)
    {change : ReorderBufferChange Row}
    (known : change.action = .insert ∨ change.action = .update ∨ change.action = .delete) :
    ∃ forward, filterByTableInfo env entry change = .ok forward ∧ (forward = true ↔ entry.Sends env change) := by
  obtain ⟨replicated, action⟩ : ∃ replicated, entry.replicates change.action = .ok replicated := by
    rcases known with insert | update | delete
    · exact ⟨_, by rw [insert]; rfl⟩
    · exact ⟨_, by rw [update]; rfl⟩
    · exact ⟨_, by rw [delete]; rfl⟩
  unfold filterByTableInfo PGLogicalTableRepInfo.Sends
  rw [action]
  cases replicated with
  | false => exact ⟨false, rfl, by simp⟩
  | true =>
    cases filters : entry.rowFilter with
    | nil => exact ⟨true, rfl, by simp⟩
    | cons first rest =>
      cases change.row with
      | none =>
        refine ⟨false, rfl, Bool.noConfusion, ?_⟩
        rintro ⟨-, all⟩
        obtain ⟨row, absent, -⟩ := all first (List.mem_cons_self ..)
        cases absent
      | some row => exact ⟨_, rfl, by simp [passesFilters_iff]⟩

section Decision

variable {env : HookEnv Row Node} {hooks : PGLogicalHooksPrivate} {cache : RepSetTableHash Node} {rel : Relation}
  {change : ReorderBufferChange Row}

/-- The entry that is computed sends what some set replicates and all filters let pass. -/
theorem fill_sends (known : change.action = .insert ∨ change.action = .update ∨ change.action = .delete) :
    (fillTableRepInfo env.getattr env.repsetTable rel hooks.replicationSets).Sends env change ↔
      (∃ t s, Member env hooks rel t s ∧ s.replicates change.action = true) ∧
        ∀ t s, Member env hooks rel t s → Passes env rel change t := by
  have flags : (fillTableRepInfo env.getattr env.repsetTable rel hooks.replicationSets).replicates change.action =
      .ok ((memberships env.repsetTable rel hooks.replicationSets).any fun m => m.2.replicates change.action) := by
    rw [fillTableRepInfo_eq_mergeAll, mergeAll_eq]
    rcases known with insert | update | delete
    · rw [insert]
      rfl
    · rw [update]
      rfl
    · rw [delete]
      rfl
  have filters : (fillTableRepInfo env.getattr env.repsetTable rel hooks.replicationSets).rowFilter =
      (memberships env.repsetTable rel hooks.replicationSets).filterMap fun m => env.getattr.rowFilter rel.desc m.1 := by
    rw [fillTableRepInfo_eq_mergeAll, mergeAll_eq]
    rfl
  rw [PGLogicalTableRepInfo.Sends, flags, filters]
  refine and_congr ?_ ?_
  · simp only [Except.ok.injEq, List.any_eq_true, Prod.exists, member_iff]
  · constructor
    · intro all t s member filter read
      exact all filter (List.mem_filterMap.mpr ⟨(t, s), member_iff.mpr member, read⟩)
    · intro all filter collected
      obtain ⟨⟨t, s⟩, member, read⟩ := List.mem_filterMap.mp collected
      exact all t s (member_iff.mp member) filter read

theorem fill_sent {att : FormPgAttribute} (column : att ∈ rel.desc.attrs) (live : att.attisdropped = false) :
    att.sent (fillTableRepInfo env.getattr env.repsetTable rel hooks.replicationSets).attList = true ↔
      readNames env hooks rel = [] ∨ att.attname.str ∈ readNames env hooks rel := by
  rw [fillTableRepInfo_eq_mergeAll, mergeAll_eq]
  exact sent_foldl_addAttribute column live _

/-- The hook answers by the entry it gets. -/
theorem rowFilterHook_decision (env : HookEnv Row Node) (cache : RepSetTableHash Node)
    (ordinary : Ordinary env hooks rel change) :
    let entry := (getTableReplicationInfo env.getattr env.repsetTable cache rel hooks.replicationSets).1
    ∃ result, pglogicalRowFilterHook env hooks cache rel change = .ok result ∧
      (result.forward = true ↔ entry.Sends env change) ∧ (result.forward = true → result.attList = entry.attList) := by
  intro entry
  obtain ⟨forward, answer, sends⟩ := filterByTableInfo_ok env entry ordinary.action
  refine ⟨⟨forward, if forward then entry.attList else none, hooks,
    (getTableReplicationInfo env.getattr env.repsetTable cache rel hooks.replicationSets).2⟩, ?_, sends,
    fun forwarded => if_pos forwarded⟩
  simp only [pglogicalRowFilterHook, ordinary.sets, if_neg ordinary.queue, if_neg ordinary.repset]
  rw [answer]
  rfl

/-! ## The documented decision -/

/-- Some subscribed set replicates the action and the row. -/
def Granted (env : HookEnv Row Node) (hooks : PGLogicalHooksPrivate) (rel : Relation)
    (change : ReorderBufferChange Row) : Prop :=
  ∃ t s, Member env hooks rel t s ∧ s.replicates change.action = true ∧ Accepts env change t

/-- Some subscribed set has the column, by its list or because it has none. -/
def ColumnGranted (env : HookEnv Row Node) (hooks : PGLogicalHooksPrivate) (rel : Relation)
    (att : FormPgAttribute) : Prop :=
  ∃ t s, Member env hooks rel t s ∧ (t.attList = none ∨ ∃ names ∈ t.attList, att.attname.str ∈ names)

/-- The union over the subscribed sets: of the actions and rows they replicate, and of their columns. -/
structure UnionDecision (env : HookEnv Row Node) (hooks : PGLogicalHooksPrivate) (rel : Relation)
    (change : ReorderBufferChange Row) (result : HookResult Node) : Prop where
  forward : result.forward = true ↔ Granted env hooks rel change
  columns : result.forward = true → ∀ att ∈ rel.desc.attrs, att.attisdropped = false →
    (att.sent result.attList = true ↔ ColumnGranted env hooks rel att)

/-- What is read from the memberships neither takes away what one of them grants nor adds to it. -/
structure NoConflict (env : HookEnv Row Node) (hooks : PGLogicalHooksPrivate) (rel : Relation)
    (change : ReorderBufferChange Row) : Prop where
  /-- No filter rejects a row that some set sends. -/
  passes : Granted env hooks rel change → ∀ t s, Member env hooks rel t s → Passes env rel change t
  /-- A row that no filter rejects is sent by one of the sets that replicate the action. -/
  accepts : (∃ t s, Member env hooks rel t s ∧ s.replicates change.action = true) →
    (∀ t s, Member env hooks rel t s → Passes env rel change t) → Granted env hooks rel change
  /-- The names are those of the columns some set has; when there are none, some set has every column. -/
  columns : Granted env hooks rel change → ∀ att ∈ rel.desc.attrs, att.attisdropped = false →
    if readNames env hooks rel = [] then ColumnGranted env hooks rel att
    else att.attname.str ∈ readNames env hooks rel ↔ ColumnGranted env hooks rel att

/-- With an empty cache the hook takes the documented decision exactly when the memberships of the
table do not conflict. -/
theorem union_decision_iff (env : HookEnv Row Node) (hooks : PGLogicalHooksPrivate) (cache : RepSetTableHash Node)
    (rel : Relation) (change : ReorderBufferChange Row) (ordinary : Ordinary env hooks rel change)
    (empty : ∀ oid, cache oid = none) :
    (∃ result, pglogicalRowFilterHook env hooks cache rel change = .ok result ∧
      UnionDecision env hooks rel change result) ↔ NoConflict env hooks rel change := by
  obtain ⟨result, answer, forward, attList⟩ := rowFilterHook_decision env cache ordinary
  have lookup : (getTableReplicationInfo env.getattr env.repsetTable cache rel hooks.replicationSets).1 =
      fillTableRepInfo env.getattr env.repsetTable rel hooks.replicationSets := by
    rw [getTableReplicationInfo, empty]
  rw [lookup] at attList
  rw [lookup, fill_sends ordinary.action] at forward
  have columns : result.forward = true → ∀ att ∈ rel.desc.attrs, att.attisdropped = false →
      (att.sent result.attList = true ↔ readNames env hooks rel = [] ∨ att.attname.str ∈ readNames env hooks rel) := by
    intro sends att column live
    rw [attList sends]
    exact fill_sent column live
  rw [answer]
  constructor
  · rintro ⟨_, same, union⟩
    cases same
    refine ⟨fun granted => (forward.mp (union.forward.mpr granted)).2,
      fun replicated passes => union.forward.mp (forward.mpr ⟨replicated, passes⟩), fun granted att column live => ?_⟩
    have sends := union.forward.mpr granted
    have agree := (columns sends att column live).symm.trans (union.columns sends att column live)
    split
    · next none => exact agree.mp (.inl none)
    · next some => exact (or_iff_right some).symm.trans agree
  · intro noConflict
    have granted : result.forward = true ↔ Granted env hooks rel change := by
      rw [forward]
      refine ⟨fun ⟨replicated, passes⟩ => noConflict.accepts replicated passes, fun granted => ⟨?_, ?_⟩⟩
      · obtain ⟨t, s, member, action, -⟩ := granted
        exact ⟨t, s, member, action⟩
      · exact noConflict.passes granted
    refine ⟨result, rfl, granted, fun sends att column live => ?_⟩
    have agree := noConflict.columns (granted.mp sends) att column live
    rw [columns sends att column live]
    split at agree
    · next none => exact ⟨fun _ => agree, fun _ => .inl none⟩
    · next some => exact (or_iff_right some).trans agree

/-! ## Memberships that are read as they are stored -/

/-- The descriptor of the table finds the nullable attributes of the membership rows that are looked at. -/
def ReadsThrough (env : HookEnv Row Node) (hooks : PGLogicalHooksPrivate) (rel : Relation) : Prop :=
  ∀ t s, Member env hooks rel t s →
    env.getattr.attList rel.desc t = t.attList ∧ env.getattr.rowFilter rel.desc t = t.rowFilter

/-- The lists of the memberships name every live column between them. -/
def ListsCover (env : HookEnv Row Node) (hooks : PGLogicalHooksPrivate) (rel : Relation) : Prop :=
  ∀ att ∈ rel.desc.attrs, att.attisdropped = false →
    ∃ t s names, Member env hooks rel t s ∧ t.attList = some names ∧ att.attname.str ∈ names

theorem passes_iff_accepts (reads : ReadsThrough env hooks rel) {t : RepSetTableTuple Node} {s : PGLogicalRepSet}
    (member : Member env hooks rel t s) : Passes env rel change t ↔ Accepts env change t := by
  rw [Passes, Accepts, (reads t s member).2]

theorem mem_readNames (reads : ReadsThrough env hooks rel) (name : CString) :
    name ∈ readNames env hooks rel ↔ ∃ t s names, Member env hooks rel t s ∧ t.attList = some names ∧ name ∈ names := by
  simp only [readNames, listedNames, List.mem_flatMap, Prod.exists, member_iff]
  constructor
  · rintro ⟨t, s, member, listed⟩
    rw [(reads t s member).1] at listed
    cases stored : t.attList with
    | none => simp [stored] at listed
    | some names => exact ⟨t, s, names, member, stored, by simpa [stored] using listed⟩
  · rintro ⟨t, s, names, member, stored, listed⟩
    refine ⟨t, s, member, ?_⟩
    rw [(reads t s member).1, stored]
    exact listed

/-- No list is stored empty, so no names are read only if every membership has NULL. -/
theorem readNames_eq_nil (reads : ReadsThrough env hooks rel) :
    readNames env hooks rel = [] ↔ ∀ t s, Member env hooks rel t s → t.attList = none := by
  rw [List.eq_nil_iff_forall_not_mem]
  constructor
  · intro nothing t s member
    cases stored : t.attList with
    | none => rfl
    | some names =>
      cases names with
      | nil => exact absurd stored t.nonempty
      | cons name rest =>
        exact absurd ((mem_readNames reads name).mpr ⟨t, s, _, member, stored, List.mem_cons_self ..⟩) (nothing name)
  · intro null name listed
    obtain ⟨t, s, names, member, stored, -⟩ := (mem_readNames reads name).mp listed
    rw [null t s member] at stored
    cases stored

/-- The lists are all NULL, all given, or complete. -/
theorem columns_agree_iff (reads : ReadsThrough env hooks rel) {t : RepSetTableTuple Node} {s : PGLogicalRepSet}
    (some : Member env hooks rel t s) :
    (∀ att ∈ rel.desc.attrs, att.attisdropped = false →
      if readNames env hooks rel = [] then ColumnGranted env hooks rel att
      else att.attname.str ∈ readNames env hooks rel ↔ ColumnGranted env hooks rel att) ↔
      (∀ t s, Member env hooks rel t s → t.attList = none) ∨
        (∀ t s, Member env hooks rel t s → t.attList ≠ none) ∨ ListsCover env hooks rel := by
  by_cases null : ∀ t s, Member env hooks rel t s → t.attList = none
  · have nothing := (readNames_eq_nil reads).mpr null
    simp only [if_pos nothing]
    exact ⟨fun _ => .inl null, fun _ _ _ _ => ⟨t, s, some, .inl (null t s some)⟩⟩
  simp only [if_neg (mt (readNames_eq_nil reads).mp null), mem_readNames reads]
  constructor
  · intro agree
    by_cases given : ∀ t s, Member env hooks rel t s → t.attList ≠ none
    · exact .inr (.inl given)
    · push Not at given
      obtain ⟨t', s', member, none⟩ := given
      exact .inr (.inr fun att column live => (agree att column live).mpr ⟨t', s', member, .inl none⟩)
  · rintro cases att column live
    constructor
    · rintro ⟨t', s', names, member, stored, listed⟩
      exact ⟨t', s', member, .inr ⟨names, stored, listed⟩⟩
    · rintro ⟨t', s', member, none | ⟨names, stored, listed⟩⟩
      · rcases cases.resolve_left null with given | cover
        · exact absurd none (given t' s' member)
        · exact cover att column live
      · exact ⟨t', s', names, member, stored, listed⟩

/-- For tables that let the memberships be read as they are stored: when some set would send the row,
every filter lets it pass, and the column lists are all NULL, all given, or complete. -/
theorem noConflict_iff (reads : ReadsThrough env hooks rel) :
    NoConflict env hooks rel change ↔ (Granted env hooks rel change →
      (∀ t s, Member env hooks rel t s → Accepts env change t) ∧
      ((∀ t s, Member env hooks rel t s → t.attList = none) ∨
        (∀ t s, Member env hooks rel t s → t.attList ≠ none) ∨ ListsCover env hooks rel)) := by
  constructor
  · intro noConflict granted
    have passes := noConflict.passes granted
    have columns := noConflict.columns granted
    obtain ⟨t, s, member, -, -⟩ := granted
    exact ⟨fun t s member => (passes_iff_accepts reads member).mp (passes t s member),
      (columns_agree_iff reads member).mp columns⟩
  · intro agree
    refine ⟨fun granted t s member => ?_, ?_, fun granted => ?_⟩
    · exact (passes_iff_accepts reads member).mpr ((agree granted).1 t s member)
    · rintro ⟨t, s, member, action⟩ passes
      exact ⟨t, s, member, action, (passes_iff_accepts reads member).mp (passes t s member)⟩
    · have lists := (agree granted).2
      obtain ⟨t, s, member, -, -⟩ := granted
      exact (columns_agree_iff reads member).mpr lists

/-! ## Catching up one table -/

/-- A session that catches up this table answers as a session with the replication sets does. -/
def CatchUpAgrees (env : HookEnv Row Node) (hooks : PGLogicalHooksPrivate) (cache : RepSetTableHash Node)
    (rel : Relation) (change : ReorderBufferChange Row) (schemaname : CString) : Prop :=
  ∃ catchUp normal,
    pglogicalRowFilterHook env { hooks with replicateOnlyTable := some (schemaname, rel.relname.str) } cache rel
      change = .ok catchUp ∧
    pglogicalRowFilterHook env hooks cache rel change = .ok normal ∧
    catchUp.forward = normal.forward ∧
    (catchUp.forward = true → rel.desc.sentAttributes catchUp.attList = rel.desc.sentAttributes normal.attList)

/-- The entry for the table that is used as it is. -/
def cachedEntry (cache : RepSetTableHash Node) (rel : Relation) : Option (PGLogicalTableRepInfo Node) :=
  (cache rel.relid).filter (·.isvalid)

/-- The change is sent with every live column: by the entry that is cached, or else by the memberships. -/
def Unrestricted (env : HookEnv Row Node) (hooks : PGLogicalHooksPrivate) (cache : RepSetTableHash Node)
    (rel : Relation) (change : ReorderBufferChange Row) : Prop :=
  match cachedEntry cache rel with
  | some entry => entry.Sends env change ∧
      ∀ att ∈ rel.desc.attrs, att.attisdropped = false → att.sent entry.attList = true
  | none =>
      ((∃ t s, Member env hooks rel t s ∧ s.replicates change.action = true) ∧
        ∀ t s, Member env hooks rel t s → Passes env rel change t) ∧
      (readNames env hooks rel = [] ∨
        ∀ att ∈ rel.desc.attrs, att.attisdropped = false → att.attname.str ∈ readNames env hooks rel)

theorem sentAttributes_eq_live_iff (desc : TupleDesc) (attList : Option Bitmapset) :
    desc.sentAttributes none = desc.sentAttributes attList ↔
      ∀ att ∈ desc.attrs, att.attisdropped = false → att.sent attList = true := by
  have all : ∀ att : FormPgAttribute, att.sent none = true ↔ att.attisdropped = false := by
    intro att
    simp [FormPgAttribute.sent]
  constructor
  · intro same att column live
    have sent : att ∈ desc.sentAttributes none := List.mem_filter.mpr ⟨column, (all att).mpr live⟩
    rw [same] at sent
    exact (List.mem_filter.mp sent).2
  · intro covers
    refine List.filter_congr fun att column => ?_
    rw [Bool.eq_iff_iff, all]
    refine ⟨covers att column, fun sent => ?_⟩
    simp only [FormPgAttribute.sent, Bool.and_eq_true, Bool.not_eq_true'] at sent
    exact sent.1

theorem getTableReplicationInfo_eq (getattr : HeapGetattr Node) (catalog : List (RepSetTableTuple Node))
    (cache : RepSetTableHash Node) (table : Relation) (subs : List PGLogicalRepSet) :
    (getTableReplicationInfo getattr catalog cache table subs).1 =
      (cachedEntry cache table).getD (fillTableRepInfo getattr catalog table subs) := by
  rw [getTableReplicationInfo, cachedEntry]
  cases cache table.relid with
  | none => rfl
  | some entry =>
    by_cases valid : entry.isvalid = true
    · simp [Option.filter, valid]
    · simp [Option.filter, valid]

theorem unrestricted_iff (known : change.action = .insert ∨ change.action = .update ∨ change.action = .delete) :
    Unrestricted env hooks cache rel change ↔
      let entry := (getTableReplicationInfo env.getattr env.repsetTable cache rel hooks.replicationSets).1
      entry.Sends env change ∧ ∀ att ∈ rel.desc.attrs, att.attisdropped = false → att.sent entry.attList = true := by
  rw [Unrestricted, getTableReplicationInfo_eq]
  cases cachedEntry cache rel with
  | some entry => rfl
  | none =>
    refine and_congr (fill_sends known).symm ?_
    constructor
    · intro names att column live
      exact (fill_sent column live).mpr (names.imp id fun all => all att column live)
    · intro all
      by_cases none : readNames env hooks rel = []
      · exact .inl none
      · exact .inr fun att column live => ((fill_sent column live).mp (all att column live)).resolve_left none

/-- The catch-up stream looks at the name of the table only, so it agrees exactly where such a change is
sent with every column. -/
theorem catchUp_agrees_iff (env : HookEnv Row Node) (hooks : PGLogicalHooksPrivate) (cache : RepSetTableHash Node)
    (rel : Relation) (change : ReorderBufferChange Row) (schemaname : CString)
    (ordinary : Ordinary env hooks rel change) (schema : rel.relnamespace = env.getNamespaceOid schemaname) :
    CatchUpAgrees env hooks cache rel change schemaname ↔ Unrestricted env hooks cache rel change := by
  obtain ⟨result, answer, forward, attList⟩ := rowFilterHook_decision env cache ordinary
  have only : pglogicalRowFilterHook env { hooks with replicateOnlyTable := some (schemaname, rel.relname.str) }
      cache rel change = .ok ⟨true, none, { hooks with replicateOnlyTable := some (schemaname, rel.relname.str) },
        cache⟩ := by
    simp [pglogicalRowFilterHook, schema]
  rw [unrestricted_iff ordinary.action]
  constructor
  · rintro ⟨_, _, first, second, same, lists⟩
    rw [only] at first
    rw [answer] at second
    cases first
    cases second
    have sends := same.symm
    refine ⟨forward.mp sends, ?_⟩
    rw [← attList sends]
    exact (sentAttributes_eq_live_iff ..).mp (lists rfl)
  · rintro ⟨sends, all⟩
    have sends := forward.mpr sends
    refine ⟨_, result, only, answer, sends.symm, fun _ => ?_⟩
    rw [attList sends]
    exact (sentAttributes_eq_live_iff ..).mpr all

end Decision

/-! ## A table in two sets -/

/-- A table whose first columns are laid out like those of the membership catalog. -/
def sampleTable : Relation where
  relid := 16400
  relnamespace := 2200
  relname := namestrcpy (.ofBytes [116])
  desc := ⟨[.int4 (namestrcpy (.ofBytes [97])) 1, .int4 (namestrcpy (.ofBytes [98])) 2,
    .text (namestrcpy (.ofBytes [99])) 3, .text (namestrcpy (.ofBytes [100])) 4], by decide, by decide, by decide⟩
  identityKey := {9}

/-- Rows are the values of one integer column, and a filter asks for more than its bound. -/
def sampleEnv (repsetTable : List (RepSetTableTuple ℤ)) : HookEnv ℤ ℤ where
  queueTableOid := 16410
  replicationSetTableOid := 16411
  getNamespaceOid := fun _ => 2200
  repsetTable := repsetTable
  getattr := ⟨fun _ t => t.attList, fun _ t => t.rowFilter⟩
  queuedMessageFromTuple := fun _ => ⟨none, 'Q'⟩
  replicationSetFromTuple := fun _ => ⟨0, 0, .ofBytes [], false, false, false, false⟩
  execEvalExpr := fun bound row => some (decide (bound < row))

def sampleSet (id : Oid) : PGLogicalRepSet := ⟨id, 1, ⟨[115], by decide⟩, true, true, true, true⟩

def sampleHooks : PGLogicalHooksPrivate := ⟨1, [sampleSet 1, sampleSet 2], none⟩

theorem sample_ordinary (repsetTable : List (RepSetTableTuple ℤ)) :
    Ordinary (sampleEnv repsetTable) sampleHooks sampleTable ⟨.insert, none, some 5⟩ :=
  ⟨rfl, (by decide : (16400 : Oid) ≠ 16410), (by decide : (16400 : Oid) ≠ 16411), .inl rfl⟩

theorem sample_reads (repsetTable : List (RepSetTableTuple ℤ)) :
    ReadsThrough (sampleEnv repsetTable) sampleHooks sampleTable :=
  fun _ _ _ => ⟨rfl, rfl⟩

/-- One set sends all rows and the other only those above ten: row five is lost. -/
theorem union_decision_not_forwarded :
    let env := sampleEnv [⟨1, 16400, none, none, by decide⟩, ⟨2, 16400, none, some 10, by decide⟩]
    Ordinary env sampleHooks sampleTable ⟨.insert, none, some 5⟩ ∧ ReadsThrough env sampleHooks sampleTable ∧
    ¬ ∃ result, pglogicalRowFilterHook env sampleHooks (.create false) sampleTable ⟨.insert, none, some 5⟩ =
        .ok result ∧ UnionDecision env sampleHooks sampleTable ⟨.insert, none, some 5⟩ result := by
  intro env
  refine ⟨sample_ordinary _, sample_reads _, ?_⟩
  rintro ⟨result, answer, union⟩
  have member : Member env sampleHooks sampleTable ⟨1, 16400, none, none, by decide⟩ (sampleSet 1) :=
    ⟨List.mem_cons_self .., rfl, List.mem_cons_self .., rfl⟩
  have sends := union.forward.mpr ⟨_, _, member, rfl, fun filter held => by cases held⟩
  have stays : pglogicalRowFilterHook env sampleHooks (.create false) sampleTable ⟨.insert, none, some 5⟩ =
      .ok ⟨false, none, sampleHooks, _⟩ := rfl
  rw [stays] at answer
  cases answer
  cases sends

theorem union_decision_iff_one_set :
    let env := sampleEnv [⟨1, 16400, some [⟨[97], by decide⟩], some 1, by decide⟩]
    ∃ result, pglogicalRowFilterHook env sampleHooks (.create false) sampleTable ⟨.insert, none, some 5⟩ =
      .ok result ∧ UnionDecision env sampleHooks sampleTable ⟨.insert, none, some 5⟩ result := by
  intro env
  refine (union_decision_iff env sampleHooks (.create false) sampleTable _ (sample_ordinary _) fun oid => rfl).mpr ?_
  refine (noConflict_iff (sample_reads _)).mpr fun granted => ⟨fun t s member => ?_, .inr (.inl fun t s member => ?_)⟩
  · rw [List.mem_singleton.mp member.stored]
    rintro filter held
    cases held
    exact ⟨5, rfl, rfl⟩
  · rw [List.mem_singleton.mp member.stored]
    exact Option.some_ne_none _

/-- A row the filter rejects is sent by the catch-up stream. -/
theorem catchUp_disagrees_on_filtered_row :
    let env := sampleEnv [⟨1, 16400, none, some 10, by decide⟩]
    Ordinary env sampleHooks sampleTable ⟨.insert, none, some 5⟩ ∧ ReadsThrough env sampleHooks sampleTable ∧
    ¬ CatchUpAgrees env sampleHooks (.create false) sampleTable ⟨.insert, none, some 5⟩ ⟨[112], by decide⟩ := by
  intro env
  refine ⟨sample_ordinary _, sample_reads _, ?_⟩
  rintro ⟨catchUp, normal, first, second, same, -⟩
  have sends : pglogicalRowFilterHook env
      { sampleHooks with replicateOnlyTable := some (⟨[112], by decide⟩, sampleTable.relname.str) } (.create false)
      sampleTable ⟨.insert, none, some 5⟩ = .ok ⟨true, none, _, .create false⟩ := rfl
  have stays : pglogicalRowFilterHook env sampleHooks (.create false) sampleTable ⟨.insert, none, some 5⟩ =
      .ok ⟨false, none, sampleHooks, _⟩ := rfl
  rw [sends] at first
  rw [stays] at second
  cases first
  cases second
  cases same

theorem catchUp_agrees_iff_plain_set :
    let env := sampleEnv [⟨1, 16400, none, none, by decide⟩]
    CatchUpAgrees env sampleHooks (.create false) sampleTable ⟨.insert, none, some 5⟩ ⟨[112], by decide⟩ := by
  intro env
  refine (catchUp_agrees_iff env sampleHooks (.create false) sampleTable _ _ (sample_ordinary _) rfl).mpr
    ⟨⟨?_, fun t s member => ?_⟩, .inl rfl⟩
  · exact ⟨_, sampleSet 1, ⟨List.mem_cons_self .., rfl, List.mem_cons_self .., rfl⟩, rfl⟩
  · rw [List.mem_singleton.mp member.stored]
    rintro filter held
    cases held

end PGLogical
