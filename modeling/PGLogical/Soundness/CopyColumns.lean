import PGLogical.Machine.Fallible
import PGLogical.Model.CopyColumns
import PGLogical.Soundness.RelcacheInval
import PGLogical.Soundness.Wire

/-! # Copied columns

The column list of `pglogical_show_repset_table_info` keeps dropped columns, which RELATION messages
leave out. So it is the list that is streamed exactly when no dropped column passes the column
list. COPY TO lists the mapped columns without quotes, and COPY FROM takes all columns of the local
table. Both name the same columns exactly when every local column is mapped and SQL reads
every name as itself.
-/

namespace PGLogical.CopyColumns

open Machine Wire

/-! ## The same columns as in the stream -/

section Streamed

variable {Node : Type} (getattr : HeapGetattr Node) (catalog : List (RepSetTableTuple Node))
  (getNamespaceName : Oid → CString) (cache : RepSetTableHash Node) (rel : Relation)
  (replicationSets : List PGLogicalRepSet)

/-- Whether the local table can be opened after these columns were announced. -/
def Maps (here : LocalCatalog) (hash : PGLogicalRelationHash) (remoterel : PGLogicalRemoteRel)
    (attnames : List CString) : Prop :=
  ∃ opened, pglogicalRelationOpen here
    (pglogicalRelationCacheUpdate hash remoterel.relid remoterel.nspname remoterel.relname attnames)
    remoterel.relid = .ok opened

/-- The answer of the provider has the columns of the RELATION message that is sent with the same column
list, and they are mapped wherever those are. -/
def CopiesStreamed : Prop :=
  let remoterel := (pglogicalShowRepsetTableInfo getattr catalog getNamespaceName cache rel replicationSets).1
  let attList := (getTableReplicationInfo getattr catalog cache rel replicationSets).1.attList
  remoterel.attnames = Native.sentNames rel attList ∧
    ∀ here hash, Maps here hash remoterel (Native.sentNames rel attList) → Maps here hash remoterel remoterel.attnames

/-- The streamed columns are the listed ones that are not dropped. -/
theorem sentNames_eq_listed (attList : Option Bitmapset) :
    Native.sentNames rel attList =
      ((rel.desc.attrs.filter (listed attList)).filter fun att => !att.attisdropped).map (·.attname.str) := by
  rw [List.filter_filter]
  rfl

theorem repsetTableColumns_eq_iff (attList : Option Bitmapset) :
    repsetTableColumns rel.desc attList = Native.sentNames rel attList ↔
      ∀ att ∈ rel.desc.attrs, listed attList att → att.attisdropped = false := by
  rw [sentNames_eq_listed, repsetTableColumns]
  constructor
  · intro same att inside passes
    have lengths := congrArg List.length same
    rw [List.length_map, List.length_map] at lengths
    have live := List.length_filter_eq_length_iff.mp lengths.symm att (List.mem_filter.mpr ⟨inside, passes⟩)
    simpa using live
  · intro live
    have whole : (rel.desc.attrs.filter (listed attList)).filter (fun att => !att.attisdropped) =
        rel.desc.attrs.filter (listed attList) := by
      refine List.filter_eq_self.mpr fun att inside => ?_
      obtain ⟨column, passes⟩ := List.mem_filter.mp inside
      simp [live att column passes]
    rw [whole]

/-- Copy and stream have the same columns exactly when no dropped column gets past the column list. -/
theorem copies_streamed_iff :
    CopiesStreamed getattr catalog getNamespaceName cache rel replicationSets ↔
      ∀ att ∈ rel.desc.attrs,
        listed (getTableReplicationInfo getattr catalog cache rel replicationSets).1.attList att →
          att.attisdropped = false := by
  rw [← repsetTableColumns_eq_iff]
  constructor
  · rintro ⟨same, -⟩
    exact same
  · intro same
    refine ⟨same, fun here hash maps => ?_⟩
    have columns : (pglogicalShowRepsetTableInfo getattr catalog getNamespaceName cache rel replicationSets).1.attnames =
        Native.sentNames rel (getTableReplicationInfo getattr catalog cache rel replicationSets).1.attList := same
    rwa [columns]

end Streamed

/-- A table whose second column has been dropped. -/
def shrunkTable : Relation where
  relid := 16400
  relnamespace := 2200
  relname := namestrcpy (.ofString "shrunk")
  desc := ⟨[.int4 (namestrcpy (.ofString "id")) 1,
    { FormPgAttribute.text (namestrcpy (.ofString "........pg.dropped.2........")) 2 with
      atttypid := 0, attisdropped := true }], by decide, by decide, by decide⟩
  identityKey := {9}

theorem no_columns_listed : (none : Option (List CString)) ≠ some [] := by decide

/-- The table is in the default set with all its columns. -/
def shrunkRow : RepSetTableTuple ℕ := ⟨1144, 16400, none, none, no_columns_listed⟩

def shrunkSet : PGLogicalRepSet := ⟨1144, 9, .ofString "default", true, true, true, true⟩

/-- The dropped column is copied but not streamed. -/
theorem copies_streamed_dropped :
    ¬ CopiesStreamed ⟨fun _ t => t.attList, fun _ t => t.rowFilter⟩ [shrunkRow] (fun _ => .ofString "public")
      (.create false) shrunkTable [shrunkSet] := by
  rintro ⟨same, -⟩
  have lengths := congrArg List.length same
  revert lengths
  decide

/-! ## The list of columns -/

theorem forall₂_of_mapM_eq_ok {α β : Type} {f : α → Except String β} {items : List α} {results : List β}
    (done : items.mapM f = .ok results) : List.Forall₂ (fun item result => f item = .ok result) items results := by
  induction items generalizing results with
  | nil =>
    cases done
    exact .nil
  | cons first rest ih =>
    rw [List.mapM_cons] at done
    obtain ⟨head, now, done⟩ := bind_eq_ok.mp done
    obtain ⟨tail, later, done⟩ := bind_eq_ok.mp done
    cases done
    exact .cons now (ih later)

/-- The live columns of a table, in order. -/
def liveNames (desc : TupleDesc) : List CString := (desc.attrs.filter fun att => !att.attisdropped).map (·.attname.str)

/-- The live columns with a remote counterpart, in order. -/
def mappedNames (attnames : List CString) (desc : TupleDesc) : List CString :=
  (desc.attrs.filter fun att => !att.attisdropped && decide (att.attname.str ∈ attnames)).map (·.attname.str)

theorem nameData_eq {a b : NameData} (same : a.str = b.str) : a = b := by
  cases a
  cases b
  cases same
  rfl

theorem position_of_name {desc : TupleDesc} {i j : ℕ} {att other : FormPgAttribute} (here : desc.attrs[i]? = some att)
    (there : desc.attrs[j]? = some other) (named : other.attname.str = att.attname.str) : j = i := by
  have same := nameData_eq named
  obtain ⟨below, rfl⟩ := List.getElem?_eq_some_iff.mp here
  obtain ⟨inside, rfl⟩ := List.getElem?_eq_some_iff.mp there
  have namesBelow : i < (desc.attrs.map FormPgAttribute.attname).length := by simpa using below
  have namesInside : j < (desc.attrs.map FormPgAttribute.attname).length := by simpa using inside
  exact (@List.Nodup.getElem_inj_iff _ _ desc.named j namesInside i namesBelow).mp (by simpa using same)

/-- A local column is looked up under its own name. -/
theorem physattInAttmap_bind {rel : PGLogicalRelation} {desc : TupleDesc} {att : FormPgAttribute} {attnum : ℕ}
    (mapped : rel.attnames.mapM (tupdescGetAttByName desc) = .ok rel.attmap) (position : desc.attrs[attnum]? = some att) :
    (physattInAttmap rel attnum).bind (fun remoteattnum => rel.attnames[remoteattnum]?) =
      if att.attname.str ∈ rel.attnames then some att.attname.str else none := by
  have pairs := forall₂_of_mapM_eq_ok mapped
  -- Whatever is mapped to the column has its name.
  have back : ∀ k (bound : k < rel.attmap.length), rel.attmap[k] = attnum → rel.attnames[k]? = some att.attname.str := by
    intro k bound hit
    have inside : k < rel.attnames.length := pairs.length_eq ▸ bound
    have looked := pairs.get inside bound
    simp only [List.get_eq_getElem] at looked
    rw [hit] at looked
    obtain ⟨other, there, named⟩ := RelcacheInval.tupdescGetAttByName_eq_ok looked
    rw [position] at there
    cases there
    rw [List.getElem?_eq_getElem inside, named]
  cases found : physattInAttmap rel attnum with
  | some k =>
    obtain ⟨bound, hit, -⟩ := List.findIdx?_eq_some_iff_getElem.mp found
    have name := back k bound (of_decide_eq_true hit)
    rw [if_pos (List.mem_of_getElem? name)]
    exact name
  | none =>
    rw [if_neg]
    · rfl
    intro announced
    obtain ⟨attid, listed, looked⟩ := exists_of_mapM_eq_ok mapped announced
    obtain ⟨other, there, named⟩ := RelcacheInval.tupdescGetAttByName_eq_ok looked
    have hit := position_of_name position there named
    subst hit
    have missed := List.findIdx?_eq_none_iff.mp found attid listed
    simp at missed

theorem makeCopyAttnamelist_eq {rel : PGLogicalRelation} {desc : TupleDesc}
    (mapped : rel.attnames.mapM (tupdescGetAttByName desc) = .ok rel.attmap) :
    makeCopyAttnamelist rel desc = mappedNames rel.attnames desc := by
  have each : ∀ column ∈ desc.attrs.zipIdx,
      (if column.1.attisdropped then none
        else (physattInAttmap rel column.2).bind fun remoteattnum => rel.attnames[remoteattnum]?) =
      if !column.1.attisdropped && decide (column.1.attname.str ∈ rel.attnames) then
        some column.1.attname.str else none := by
    rintro ⟨att, attnum⟩ member
    rw [physattInAttmap_bind mapped (List.mk_mem_zipIdx_iff_getElem?.mp member)]
    cases att.attisdropped <;> simp
  have columns : (desc.attrs.zipIdx).map Prod.fst = desc.attrs := List.zipIdx_map_fst ..
  rw [makeCopyAttnamelist, mappedNames, List.filterMap_congr each]
  nth_rewrite 2 [← columns]
  rw [List.filter_map, List.map_map, ← List.filterMap_eq_map, List.filterMap_filter]
  rfl

/-! ## What the commands mean -/

section Commands

variable (lexicon : Lexicon) (remoterel : PGLogicalRemoteRel) (replicationSets : List CString)

/-- The columns the list of a COPY TO names. -/
def ListsColumns (query : Bytes) (columns : List Bytes) : Prop :=
  ∃ attlist, query = copyToQuery remoterel replicationSets (some attlist) ∧
    lexicon.parseColumnList attlist = some columns

/-- The columns a COPY TO reads from a table that has the columns `provider`. -/
def ReadsColumns (provider : List Bytes) (query : Bytes) (columns : List Bytes) : Prop :=
  ListsColumns lexicon remoterel replicationSets query columns ∨
    query = copyToQuery remoterel replicationSets none ∧ columns = provider

/-- The columns a COPY FROM stores its values in. -/
def WritesColumns (here : TupleDesc) (query : Bytes) (columns : List Bytes) : Prop :=
  query = copyFromQuery remoterel ∧ columns = (liveNames here).map Subtype.val

/-- The listed names denote themselves, and both commands have the same columns in the same order. -/
structure CopiesByName (provider : List Bytes) (here : TupleDesc) (queries : CopyQueries) : Prop where
  denotes : queries.attnamelist ≠ [] →
    ListsColumns lexicon remoterel replicationSets queries.copyTo (queries.attnamelist.map Subtype.val)
  same : ∃ columns, ReadsColumns lexicon remoterel replicationSets provider queries.copyTo columns ∧
    WritesColumns remoterel here queries.copyFrom columns

/-- Every local column is a remote one and goes without quotes, and there is one; or none is a remote
one, and the tables have the same columns. -/
def Copyable (provider : List Bytes) (here : TupleDesc) : Prop :=
  ((∃ att ∈ here.attrs, att.attisdropped = false) ∧ ∀ att ∈ here.attrs, att.attisdropped = false →
    att.attname.str ∈ remoterel.attnames ∧ lexicon.Unquoted att.attname.str.val) ∨
  ((∀ att ∈ here.attrs, att.attisdropped = false → att.attname.str ∉ remoterel.attnames) ∧
    provider = (liveNames here).map Subtype.val)

variable {lexicon remoterel replicationSets}

theorem copyToQuery_some_inj {attlist other : Bytes}
    (same : copyToQuery remoterel replicationSets (some attlist) = copyToQuery remoterel replicationSets (some other)) :
    attlist = other := by
  unfold copyToQuery at same
  split at same
  · simpa using same
  · simpa using same

theorem copyToQuery_some_eq_none {attlist : Bytes}
    (same : copyToQuery remoterel replicationSets (some attlist) = copyToQuery remoterel replicationSets none) :
    attlist = ascii "*" := by
  unfold copyToQuery at same
  split at same
  · simpa using same
  · simp only [List.append_assoc, List.append_cancel_left_eq, List.nil_append] at same
    have first := congrArg List.head? same
    revert first
    simp [ascii]

theorem listsColumns_some {columns : List Bytes} {attlist : Bytes} :
    ListsColumns lexicon remoterel replicationSets (copyToQuery remoterel replicationSets (some attlist)) columns ↔
      lexicon.parseColumnList attlist = some columns := by
  constructor
  · rintro ⟨other, same, parsed⟩
    rwa [copyToQuery_some_inj same]
  · intro parsed
    exact ⟨attlist, rfl, parsed⟩

theorem parseColumnList_star : lexicon.parseColumnList (ascii "*") = none := rfl

theorem readsColumns_some {provider columns parsed : List Bytes} {attlist : Bytes}
    (named : lexicon.parseColumnList attlist = some parsed) :
    ReadsColumns lexicon remoterel replicationSets provider
      (copyToQuery remoterel replicationSets (some attlist)) columns ↔ columns = parsed := by
  constructor
  · rintro (lists | ⟨same, -⟩)
    · have again := listsColumns_some.mp lists
      rw [named] at again
      exact (Option.some.inj again).symm
    · rw [copyToQuery_some_eq_none same, parseColumnList_star] at named
      cases named
  · rintro rfl
    exact .inl (listsColumns_some.mpr named)

theorem readsColumns_none {provider columns : List Bytes} :
    ReadsColumns lexicon remoterel replicationSets provider (copyToQuery remoterel replicationSets none) columns ↔
      columns = provider := by
  constructor
  · rintro (⟨attlist, same, parsed⟩ | ⟨-, rfl⟩)
    · rw [copyToQuery_some_eq_none same.symm, parseColumnList_star] at parsed
      cases parsed
    · rfl
  · rintro rfl
    exact .inr ⟨rfl, rfl⟩

/-- What is sent for a table that can be mapped. -/
theorem copyTableQueries_eq_ok {catalog : LocalCatalog} {hash : PGLogicalRelationHash} {here : LocalRelation}
    {queries : CopyQueries} (opens : catalog.heapOpenrv remoterel.nspname remoterel.relname = .ok here)
    (built : copyTableQueries catalog hash remoterel replicationSets = .ok queries) :
    queries.attnamelist = mappedNames remoterel.attnames here.desc ∧
      queries.copyTo = copyToQuery remoterel replicationSets (if queries.attnamelist.isEmpty then none
        else some ([comma].intercalate (queries.attnamelist.map Subtype.val))) ∧
      queries.copyFrom = copyFromQuery remoterel := by
  unfold copyTableQueries at built
  obtain ⟨⟨rel, opened, after⟩, found, built⟩ := bind_eq_ok.mp built
  cases built
  unfold pglogicalRelationOpen pglogicalRelationCacheUpdate at found
  simp only [StringHash.enter_self, if_true] at found
  obtain ⟨table, byName, found⟩ := bind_eq_ok.mp found
  obtain ⟨attmap, mapped, found⟩ := bind_eq_ok.mp found
  rw [opens] at byName
  cases byName
  cases found
  exact ⟨makeCopyAttnamelist_eq mapped, rfl, rfl⟩

theorem mem_mappedNames {attnames : List CString} {desc : TupleDesc} {name : CString} :
    name ∈ mappedNames attnames desc ↔
      ∃ att ∈ desc.attrs, att.attisdropped = false ∧ att.attname.str = name ∧ name ∈ attnames := by
  simp only [mappedNames, List.mem_map, List.mem_filter, Bool.and_eq_true, Bool.not_eq_eq_eq_not, Bool.not_true,
    decide_eq_true_eq]
  constructor
  · rintro ⟨att, ⟨inside, live, announced⟩, rfl⟩
    exact ⟨att, inside, live, rfl, announced⟩
  · rintro ⟨att, inside, live, rfl, announced⟩
    exact ⟨att, ⟨inside, live, announced⟩, rfl⟩

theorem mappedNames_eq_liveNames {attnames : List CString} {desc : TupleDesc}
    (all : ∀ att ∈ desc.attrs, att.attisdropped = false → att.attname.str ∈ attnames) :
    mappedNames attnames desc = liveNames desc := by
  have same : ∀ att ∈ desc.attrs,
      (!att.attisdropped && decide (att.attname.str ∈ attnames)) = !att.attisdropped := by
    intro att inside
    cases live : att.attisdropped with
    | true => rfl
    | false => simp [all att inside live]
  rw [mappedNames, liveNames, List.filter_congr same]

/-- A list of names that is sent does what is asked of it exactly when the names go without quotes and
are all there are. -/
theorem copiesByName_some {provider : List Bytes} {here : TupleDesc} {queries : CopyQueries}
    (some_listed : queries.attnamelist ≠ [])
    (copyTo : queries.copyTo = copyToQuery remoterel replicationSets
      (some ([comma].intercalate (queries.attnamelist.map Subtype.val))))
    (copyFrom : queries.copyFrom = copyFromQuery remoterel) :
    CopiesByName lexicon remoterel replicationSets provider here queries ↔
      (∀ name ∈ queries.attnamelist, lexicon.Unquoted name.val) ∧ queries.attnamelist = liveNames here := by
  have listed := lexicon.parseColumnList_intercalate (queries.attnamelist.map Subtype.val)
  have plain : (∀ name ∈ queries.attnamelist.map Subtype.val, lexicon.Unquoted name) ↔
      ∀ name ∈ queries.attnamelist, lexicon.Unquoted name.val := List.forall_mem_map
  rw [plain] at listed
  have there : queries.attnamelist.map Subtype.val ≠ [] := fun empty => some_listed (List.map_eq_nil_iff.mp empty)
  constructor
  · rintro ⟨denotes, columns, reads, -, stored⟩
    have parsed := denotes some_listed
    rw [copyTo, listsColumns_some] at parsed
    rw [copyTo, readsColumns_some parsed] at reads
    refine ⟨(listed.mp parsed).2, List.map_injective_iff.mpr Subtype.val_injective ?_⟩
    rw [← reads, stored]
  · rintro ⟨unquoted, live⟩
    have parsed := listed.mpr ⟨there, unquoted⟩
    refine ⟨fun _ => ?_, queries.attnamelist.map Subtype.val, ?_, copyFrom, by rw [live]⟩
    · rw [copyTo, listsColumns_some]
      exact parsed
    · rw [copyTo, readsColumns_some parsed]

theorem copiesByName_none {provider : List Bytes} {here : TupleDesc} {queries : CopyQueries}
    (none_listed : queries.attnamelist = [])
    (copyTo : queries.copyTo = copyToQuery remoterel replicationSets none)
    (copyFrom : queries.copyFrom = copyFromQuery remoterel) :
    CopiesByName lexicon remoterel replicationSets provider here queries ↔
      provider = (liveNames here).map Subtype.val := by
  constructor
  · rintro ⟨-, columns, reads, -, stored⟩
    rw [copyTo, readsColumns_none] at reads
    rw [← reads, stored]
  · intro same
    refine ⟨fun listed => absurd none_listed listed, provider, ?_, copyFrom, same⟩
    rw [copyTo, readsColumns_none]

/-- The two commands copy by name exactly under `Copyable`. -/
theorem copies_by_name_iff (provider : List Bytes) {catalog : LocalCatalog} {hash : PGLogicalRelationHash}
    {here : LocalRelation} {queries : CopyQueries}
    (opens : catalog.heapOpenrv remoterel.nspname remoterel.relname = .ok here)
    (built : copyTableQueries catalog hash remoterel replicationSets = .ok queries) :
    CopiesByName lexicon remoterel replicationSets provider here.desc queries ↔
      Copyable lexicon remoterel provider here.desc := by
  obtain ⟨names, copyTo, copyFrom⟩ := copyTableQueries_eq_ok opens built
  by_cases none_listed : queries.attnamelist = []
  · rw [none_listed, List.isEmpty_nil, if_pos rfl] at copyTo
    rw [copiesByName_none none_listed copyTo copyFrom]
    have unmapped : ∀ att ∈ here.desc.attrs, att.attisdropped = false → att.attname.str ∉ remoterel.attnames := by
      intro att inside live announced
      have listed := mem_mappedNames.mpr ⟨att, inside, live, rfl, announced⟩
      rw [← names, none_listed] at listed
      cases listed
    constructor
    · intro same
      exact .inr ⟨unmapped, same⟩
    · rintro (⟨⟨att, inside, live⟩, all⟩ | ⟨-, same⟩)
      · exact absurd (all att inside live).1 (unmapped att inside live)
      · exact same
  · rw [if_neg (by simpa using none_listed)] at copyTo
    rw [copiesByName_some none_listed copyTo copyFrom, names]
    constructor
    · rintro ⟨unquoted, live⟩
      obtain ⟨first, listed⟩ := List.exists_mem_of_ne_nil _ none_listed
      rw [names] at listed
      obtain ⟨att, inside, kept, -, -⟩ := mem_mappedNames.mp listed
      refine .inl ⟨⟨att, inside, kept⟩, fun other column kept => ?_⟩
      have present : other.attname.str ∈ liveNames here.desc :=
        List.mem_map.mpr ⟨other, List.mem_filter.mpr ⟨column, by simp [kept]⟩, rfl⟩
      rw [← live] at present
      obtain ⟨-, -, -, -, announced⟩ := mem_mappedNames.mp present
      exact ⟨announced, unquoted _ present⟩
    · rintro (⟨-, all⟩ | ⟨unmapped, -⟩)
      · refine ⟨fun name listed => ?_, mappedNames_eq_liveNames fun att inside live => (all att inside live).1⟩
        obtain ⟨att, inside, live, rfl, -⟩ := mem_mappedNames.mp listed
        exact (all att inside live).2
      · obtain ⟨first, listed⟩ := List.exists_mem_of_ne_nil _ none_listed
        rw [names] at listed
        obtain ⟨att, inside, live, rfl, announced⟩ := mem_mappedNames.mp listed
        exact absurd announced (unmapped att inside live)

end Commands

/-! ## A table with a capital letter in a column name -/

/-- A server that knows two words of the grammar. -/
def plainLexicon : Lexicon where
  isspaceHigh := fun _ => false
  tolowerHigh := id
  mbcliplen := fun ident => ident.length
  keyword := fun word =>
    if word = ascii "select" then some .reserved else if word = ascii "name" then some .unreserved else none
  quoteAllIdentifiers := false

def ordersDesc (total : NameData) (fresh : total ≠ namestrcpy (.ofString "id")) : TupleDesc where
  attrs := [.int4 (namestrcpy (.ofString "id")) 1, .text total 2]
  natts := (by decide : 2 ≤ maxHeapAttributeNumber)
  numbered := rfl
  named := by simpa [FormPgAttribute.int4, FormPgAttribute.text] using fresh.symm

def ordersCatalog (desc : TupleDesc) : LocalCatalog := ⟨fun _ _ => .ok ⟨16500, desc, []⟩, fun _ => .ok ⟨16500, desc, []⟩⟩

def ordersRemote (total : NameData) : PGLogicalRemoteRel :=
  ⟨16400, .ofString "public", .ofString "orders", [.ofString "id", total.str], false⟩

theorem total_fresh : namestrcpy (.ofString "total") ≠ namestrcpy (.ofString "id") := by decide

theorem capital_fresh : namestrcpy (.ofString "Total") ≠ namestrcpy (.ofString "id") := by decide

/-- What is sent for a table with the columns `id` and `total`, in whatever spelling. -/
def ordersQueries (total : NameData) (attlist : String) : CopyQueries :=
  ⟨[.ofString "id", total.str], copyToQuery (ordersRemote total) [] (some (ascii attlist)),
    copyFromQuery (ordersRemote total)⟩

/-- COPY TO reads the column `total`. -/
theorem copies_by_name_capital :
    let total := namestrcpy (.ofString "Total")
    let desc := ordersDesc total capital_fresh
    copyTableQueries (ordersCatalog desc) (.create false) (ordersRemote total) [] =
        .ok (ordersQueries total "id,Total") ∧
      ¬ CopiesByName plainLexicon (ordersRemote total) [] [ascii "id", ascii "Total"] desc
        (ordersQueries total "id,Total") := by
  intro total desc
  refine ⟨by decide +kernel, ?_⟩
  rintro ⟨denotes, -⟩
  have lists := denotes (List.cons_ne_nil _ _)
  rw [ordersQueries, listsColumns_some] at lists
  revert lists
  decide +kernel

theorem copies_by_name_plain :
    let total := namestrcpy (.ofString "total")
    let desc := ordersDesc total total_fresh
    CopiesByName plainLexicon (ordersRemote total) [] [ascii "id", ascii "total"] desc
      (ordersQueries total "id,total") := by
  intro total desc
  have built : copyTableQueries (ordersCatalog desc) (.create false) (ordersRemote total) [] =
      .ok (ordersQueries total "id,total") := by decide +kernel
  refine (copies_by_name_iff _ (rfl : (ordersCatalog desc).heapOpenrv _ _ = .ok ⟨16500, desc, []⟩) built).mpr ?_
  left
  decide

end PGLogical.CopyColumns
