import PGLogical.Model.Proto
import PGLogical.Model.ProtoNative

/-! # Round trip of the native protocol

Writer and reader of a message are walked in step. The only places where they do not move together
are the column filter, which the writer applies twice and the reader never sees, and the column
map, through which the reader stores what it reads. Because sent names are distinct, the map is
injective and no column overwrites another.
-/

namespace PGLogical.Native

open Wire

/-! ## Single fields -/

theorem decodes_oid (oid : Oid) : Decodes (pqSendint oid.toNat 4) pqGetmsgOid (· = oid) := by
  refine (decodes_int (lt_of_lt_of_eq oid.toNat_lt (by norm_num))).finish ?_
  rintro _ rfl
  exact ⟨_, UInt32.ofNat_toNat, fun input => rfl⟩

theorem decodes_lsn (lsn : UInt64) : Decodes (pqSendint64 lsn.toInt64) pqGetmsgLsn (· = lsn) := by
  refine (decodes_int64 lsn.toInt64).finish ?_
  rintro _ rfl
  exact ⟨_, UInt64.toUInt64_toInt64 lsn, fun input => rfl⟩

/-- A one-byte length and a terminated string of less than 255 bytes. -/
theorem decodes_name {s : CString} (short : s.strlen < 255) :
    Decodes (pqSendbyte (UInt8.ofNat (s.strlen + 1)) >>= fun _ => pqSendbytes s.terminated) readName (· = s) := by
  refine (decodes_byte _).bind ?_
  rintro _ rfl
  refine decodes_cstring ?_
  rw [UInt8.toNat_ofNat', Nat.mod_eq_of_lt (by omega)]

theorem decodes_writeName (name : NameData) : Decodes (writeName name) readName (· = name.str) := by
  have short := name.short
  rw [namedatalen] at short
  exact decodes_name (by omega)

/-! ## Transactions and origins -/

theorem decodes_begin (session : Session) (hash : PGLogicalRelationHash) (scratch : PGLogicalTupleData)
    (txn : ReorderBufferTXN) :
    Decodes (pglogicalWriteBegin txn) (readMessage session hash scratch)
      (· = (.begin txn.finalLsn txn.commitTime txn.xid, hash)) := by
  refine (decodes_byte _).bind ?_
  rintro _ rfl
  rw [if_pos rfl]
  refine Decodes.finish (P := (· = (txn.finalLsn, txn.commitTime, txn.xid))) ?_ ?_
  · refine (decodes_byte 0).bind fun _ _ => (decodes_lsn txn.finalLsn).bind ?_
    rintro _ rfl
    refine (decodes_int64 txn.commitTime).bind ?_
    rintro _ rfl
    refine (decodes_oid txn.xid).finish ?_
    rintro _ rfl
    exact ⟨_, rfl, fun input => rfl⟩
  · rintro _ rfl
    exact ⟨_, rfl, fun input => rfl⟩

theorem decodes_commit (session : Session) (hash : PGLogicalRelationHash) (scratch : PGLogicalTupleData)
    (txn : ReorderBufferTXN) (commitLsn : UInt64) :
    Decodes (pglogicalWriteCommit txn commitLsn) (readMessage session hash scratch)
      (· = (.commit commitLsn txn.endLsn txn.commitTime, hash)) := by
  refine (decodes_byte _).bind ?_
  rintro _ rfl
  rw [if_neg (by decide), if_pos rfl]
  refine Decodes.finish (P := (· = (commitLsn, txn.endLsn, txn.commitTime))) ?_ ?_
  · refine (decodes_byte 0).bind fun _ _ => (decodes_lsn commitLsn).bind ?_
    rintro _ rfl
    refine (decodes_lsn txn.endLsn).bind ?_
    rintro _ rfl
    refine (decodes_int64 txn.commitTime).finish ?_
    rintro _ rfl
    exact ⟨_, rfl, fun input => rfl⟩
  · rintro _ rfl
    exact ⟨_, rfl, fun input => rfl⟩

theorem decodes_origin (session : Session) (hash : PGLogicalRelationHash) (scratch : PGLogicalTupleData)
    (origin : CString) (originLsn : UInt64) (short : origin.strlen < 255) :
    Decodes (pglogicalWriteOrigin origin originLsn) (readMessage session hash scratch)
      (· = (.origin originLsn origin, hash)) := by
  refine (decodes_byte _).bind ?_
  rintro _ rfl
  rw [if_neg (by decide), if_neg (by decide), if_pos rfl]
  refine Decodes.finish (P := (· = (originLsn, origin))) ?_ ?_
  · refine (decodes_byte 0).bind fun _ _ => (decodes_lsn originLsn).bind ?_
    rintro _ rfl
    refine (decodes_byte _).bind ?_
    rintro _ rfl
    have width : (UInt8.ofNat (origin.strlen + 1)).toNat = origin.terminated.length := by
      rw [UInt8.toNat_ofNat', Nat.mod_eq_of_lt (by omega), origin.length_terminated]
    rw [width]
    refine (decodes_bytes origin.terminated).finish ?_
    rintro _ rfl
    refine ⟨_, ?_, fun input => rfl⟩
    have copied := origin.ofBytes_terminated []
    rw [List.append_nil] at copied
    rw [copied]
  · rintro _ rfl
    exact ⟨_, rfl, fun input => rfl⟩

/-! ## Relations -/

theorem decodes_attr (identityKey : Bitmapset) (att : FormPgAttribute) :
    Decodes (writeAttr identityKey att) readAttr (· = att.attname.str) := by
  have short := att.attname.short
  rw [namedatalen] at short
  refine (decodes_byte _).bind ?_
  rintro _ rfl
  refine Decodes.lookup (ensure_true rfl) ((decodes_byte _).bind fun _ _ => (decodes_byte _).bind ?_)
  rintro _ rfl
  refine Decodes.lookup (ensure_true rfl) ((decodes_int (by omega)).bind ?_)
  rintro _ rfl
  exact decodes_cstring rfl

theorem decodes_attrs (identityKey : Bitmapset) (attrs : List FormPgAttribute) :
    Decodes (writeAttrs identityKey attrs) (readAttrs attrs.length) (· = attrs.map (·.attname.str)) := by
  induction attrs with
  | nil => exact Decodes.pure rfl
  | cons att rest ih =>
    refine (decodes_attr identityKey att).bind ?_
    rintro _ rfl
    refine ih.finish ?_
    rintro _ rfl
    exact ⟨_, rfl, fun input => rfl⟩

/-- The names a RELATION message lists. -/
def sentNames (rel : Relation) (attList : Option Bitmapset) : List CString :=
  (rel.desc.sentAttributes attList).map (·.attname.str)

theorem decodes_writeAttrs (rel : Relation) (attList : Option Bitmapset) :
    Decodes (pglogicalWriteAttrs rel attList) pglogicalReadAttrs (· = sentNames rel attList) := by
  have few := rel.desc.length_sentAttributes attList
  rw [maxHeapAttributeNumber] at few
  refine (decodes_byte _).bind ?_
  rintro _ rfl
  refine Decodes.lookup (ensure_true rfl) ((decodes_int (by omega)).bind ?_)
  rintro _ rfl
  exact decodes_attrs rel.identityKey _

theorem decodes_relation (catalog : Catalog) (session : Session) (hash : PGLogicalRelationHash)
    (scratch : PGLogicalTupleData) (rel : Relation) (attList : Option Bitmapset) {nspname : NameData}
    (found : catalog.getNamespaceName rel.relnamespace = some nspname) :
    Decodes (pglogicalWriteRel catalog rel attList) (readMessage session hash scratch)
      (· = (.relation rel.relid,
        pglogicalRelationCacheUpdate hash rel.relid nspname.str rel.relname.str (sentNames rel attList))) := by
  unfold pglogicalWriteRel
  simp only [found]
  refine (decodes_byte _).bind ?_
  rintro _ rfl
  rw [if_neg (by decide), if_neg (by decide), if_neg (by decide), if_pos rfl]
  refine Decodes.finish (P := (· = (rel.relid,
    pglogicalRelationCacheUpdate hash rel.relid nspname.str rel.relname.str (sentNames rel attList)))) ?_ ?_
  · refine (decodes_byte 0).bind fun _ _ => (decodes_oid rel.relid).bind ?_
    rintro _ rfl
    refine (decodes_writeName nspname).bind ?_
    rintro _ rfl
    refine (decodes_writeName rel.relname).bind ?_
    rintro _ rfl
    refine (decodes_writeAttrs rel attList).finish ?_
    rintro _ rfl
    exact ⟨_, rfl, fun input => rfl⟩
  · rintro _ rfl
    exact ⟨_, rfl, fun input => rfl⟩

/-! ## Columns -/

/-- What the arrays hold at the position of a column that was sent. -/
def ColumnReceived (io : TypeFunctions) (tuple : PGLogicalTupleData) (p : ℕ) : Option Datum → Prop
  | none => tuple.nulls p = true ∧ tuple.changed p = true
  | some (.externalOndisk _) => tuple.changed p = false
  | some datum => tuple.nulls p = false ∧ tuple.changed p = true ∧ io.SameValue (tuple.values p) datum

/-- One pass of the loop: the column arrived, and nothing else was touched. -/
structure Stored (io : TypeFunctions) (before : PGLogicalTupleData) (attid : ℕ) (value : Option Datum)
    (after : PGLogicalTupleData) : Prop where
  received : ColumnReceived io after attid value
  values : ∀ p, p ≠ attid → after.values p = before.values p
  nulls : ∀ p, p ≠ attid → after.nulls p = before.nulls p
  changed : ∀ p, p ≠ attid → after.changed p = before.changed p

theorem stored_set {io : TypeFunctions} {tuple : PGLogicalTupleData} {attid : ℕ} {datum read : Datum}
    (inline : datum.isExternalOndisk = false) (same : io.SameValue read datum) :
    Stored io tuple attid (some datum) (tuple.set attid read) where
  received := by
    cases datum with
    | externalOndisk pointer => cases inline
    | byval word => exact ⟨Function.update_self .., Function.update_self .., by simpa [PGLogicalTupleData.set]⟩
    | byref bytes => exact ⟨Function.update_self .., Function.update_self .., by simpa [PGLogicalTupleData.set]⟩
    | externalIndirect target =>
      exact ⟨Function.update_self .., Function.update_self .., by simpa [PGLogicalTupleData.set]⟩
  values := fun p other => Function.update_of_ne other ..
  nulls := fun p other => Function.update_of_ne other ..
  changed := fun p other => Function.update_of_ne other ..

theorem decodes_null {io : TypeFunctions} {att : FormPgAttribute} {attid : ℕ} {tuple : PGLogicalTupleData}
    (fresh : tuple.nulls attid = true) :
    Decodes (pqSendbyte 'n'.toUInt8) (readColumn io att attid tuple) (Stored io tuple attid none) := by
  refine (decodes_byte _).finish ?_
  rintro _ rfl
  rw [if_pos rfl]
  refine ⟨_, ?_, fun input => rfl⟩
  exact
    { received := ⟨fresh, Function.update_self ..⟩
      values := fun p other => Function.update_of_ne other ..
      nulls := fun p other => rfl
      changed := fun p other => Function.update_of_ne other .. }

theorem decodes_unchanged {io : TypeFunctions} {att : FormPgAttribute} {attid : ℕ} {tuple : PGLogicalTupleData}
    {pointer : Bytes} (fresh : tuple.changed attid = false) :
    Decodes (pqSendbyte 'u'.toUInt8) (readColumn io att attid tuple)
      (Stored io tuple attid (some (.externalOndisk pointer))) := by
  refine (decodes_byte _).finish ?_
  rintro _ rfl
  rw [if_neg (by decide), if_pos rfl]
  refine ⟨_, ?_, fun input => rfl⟩
  exact
    { received := fresh
      values := fun p other => Function.update_of_ne other ..
      nulls := fun p other => rfl
      changed := fun p other => rfl }

section Formats

variable {io : TypeFunctions} {att here : FormPgAttribute} {attid : ℕ} {tuple : PGLogicalTupleData} {datum : Datum}

/-- A length of four bytes covers everything that can be allocated. -/
private theorem length_fits {n : ℕ} (room : n < maxAllocSize) : n < 256 ^ 4 := by
  rw [maxAllocSize] at room
  omega

/-- A length and that many bytes, read by the internal format. -/
theorem decodes_sized {data : Bytes} {n : ℕ} (width : data.length = n)
    (read : io.SameValue (if here.attbyval then .byval (io.fetchAtt data n) else .byref data) datum) :
    Decodes (pqSendint n 4 >>= fun _ => appendBinaryStringInfo data) (readInternal io here)
      (io.SameValue · datum) := by
  subst width
  refine Decodes.assumeRoom fun room => (decodes_int (length_fits room)).bind ?_
  rintro _ rfl
  refine (decodes_bytes data).finish ?_
  rintro _ rfl
  exact ⟨_, read, fun input => rfl⟩

/-- The `i` branch of the reader. -/
theorem decodes_kindInternal {w : Writer Unit} (inline : datum.isExternalOndisk = false)
    (value : Decodes w (readInternal io here) (io.SameValue · datum)) :
    Decodes (pqSendbyte 'i'.toUInt8 >>= fun _ => w) (readColumn io here attid tuple)
      (Stored io tuple attid (some datum)) := by
  refine (decodes_byte _).bind ?_
  rintro _ rfl
  rw [if_neg (by decide), if_neg (by decide), if_pos rfl]
  exact value.finish fun read equal => ⟨_, stored_set inline equal, fun input => rfl⟩

theorem decodes_internal (same : here.SameType att) (holds : att.Holds datum)
    (inline : datum.isExternalOndisk = false) (inverse : io.Inverse att datum) :
    Decodes (writeInternal io att datum) (readColumn io here attid tuple) (Stored io tuple attid (some datum)) := by
  refine decodes_kindInternal inline ?_
  cases datum with
  | externalOndisk pointer => cases inline
  | byval word =>
    rw [if_pos holds.1]
    refine decodes_sized (io.storeLength ..) ?_
    rw [if_pos (same.attbyval.trans holds.1), Datum.word, inverse.byval word rfl]
    exact io.sameRefl _
  | byref bytes =>
    have passed : ¬ here.attbyval = true := by rw [same.attbyval, holds.1]; decide
    rw [if_neg (by rw [holds.1]; decide)]
    split
    · next fixed =>
      have width : bytes.length = att.attlen.toNat := by
        have := holds.2 fixed
        omega
      refine decodes_sized (by simp [Datum.data, width]) ?_
      rw [if_neg passed, Datum.data, List.take_of_length_le (le_of_eq width)]
      exact io.sameRefl _
    · split
      · refine decodes_sized rfl ?_
        rw [if_neg passed]
        exact io.sameRefl _
      · intro before after written
        cases written
  | externalIndirect target =>
    rw [if_neg (by rw [holds.1]; decide), if_neg (by rw [holds.2]; decide), if_pos holds.2]
    refine decodes_sized rfl ?_
    rw [if_neg (by rw [same.attbyval, holds.1]; decide)]
    exact io.sameIndirect target

theorem decodes_binary (same : here.SameType att) (inline : datum.isExternalOndisk = false)
    (inverse : io.Inverse att datum) :
    Decodes (writeBinary io att datum) (readColumn io here attid tuple) (Stored io tuple attid (some datum)) := by
  refine (decodes_byte _).bind ?_
  rintro _ rfl
  rw [if_neg (by decide), if_neg (by decide), if_neg (by decide), if_pos rfl]
  refine Decodes.finish (P := (io.SameValue · datum)) ?_ fun read equal =>
    ⟨_, stored_set inline equal, fun input => rfl⟩
  refine Decodes.call fun bytes sent => ?_
  obtain ⟨read, received, equal⟩ := inverse.binary bytes sent
  rw [← same.atttypid, ← same.atttypmod] at received
  refine Decodes.assumeRoom fun room => (decodes_int (length_fits room)).bind ?_
  rintro _ rfl
  refine (decodes_bytes bytes).finish ?_
  rintro bytes rfl
  refine ⟨read, equal, fun input => bind_ok.mpr ⟨(read, bytes.length), input, liftM_ok received input, ?_⟩⟩
  exact bind_ok.mpr ⟨(), input, ensure_true (beq_self_eq_true _) input, rfl⟩

theorem decodes_text (same : here.SameType att) (inline : datum.isExternalOndisk = false)
    (inverse : io.Inverse att datum) :
    Decodes (writeText io att datum) (readColumn io here attid tuple) (Stored io tuple attid (some datum)) := by
  refine (decodes_byte _).bind ?_
  rintro _ rfl
  rw [if_neg (by decide), if_neg (by decide), if_neg (by decide), if_neg (by decide), if_pos rfl]
  refine Decodes.finish (P := (io.SameValue · datum)) ?_ fun read equal =>
    ⟨_, stored_set inline equal, fun input => rfl⟩
  refine Decodes.call fun str printed => ?_
  obtain ⟨read, parsed, equal⟩ := inverse.text str printed
  rw [← same.atttypid, ← same.atttypmod] at parsed
  refine Decodes.assumeRoom fun room => (decodes_int (length_fits (str.length_terminated ▸ room))).bind ?_
  rintro _ rfl
  refine (decodes_cstring rfl).finish ?_
  rintro _ rfl
  exact ⟨read, equal, liftM_ok parsed⟩

end Formats

theorem decodes_column {catalog : Catalog} {data : PGLogicalOutputData} {att here : FormPgAttribute}
    {attid : ℕ} {tuple : PGLogicalTupleData} {value : Option Datum} (same : here.SameType att)
    (holds : ∀ datum ∈ value, att.Holds datum) (inverse : ∀ datum ∈ value, catalog.io.Inverse att datum)
    (nulls : tuple.nulls attid = true) (changed : tuple.changed attid = false) :
    Decodes (writeColumn catalog data att value) (readColumn catalog.io here attid tuple)
      (Stored catalog.io tuple attid value) := by
  cases value with
  | none => exact decodes_null nulls
  | some datum =>
    have holds := holds datum rfl
    have inverse := inverse datum rfl
    rw [writeColumn]
    split
    · next toast =>
      cases datum with
      | externalOndisk pointer => exact decodes_unchanged changed
      | byval word => cases toast.2
      | byref bytes => cases toast.2
      | externalIndirect target => cases toast.2
    · next plain =>
      have inline : datum.isExternalOndisk = false := by
        cases datum with
        | externalOndisk pointer => exact absurd ⟨holds.2, rfl⟩ plain
        | byval word => rfl
        | byref bytes => rfl
        | externalIndirect target => rfl
      split
      · intro before after written
        cases written
      · split
        · exact decodes_internal same holds inline inverse
        · exact decodes_binary same inline inverse
        · exact decodes_text same inline inverse

/-! ## Tuples -/

theorem ColumnReceived.congr {io : TypeFunctions} {before after : PGLogicalTupleData} {p : ℕ} {value : Option Datum}
    (values : after.values p = before.values p) (nulls : after.nulls p = before.nulls p)
    (changed : after.changed p = before.changed p) (received : ColumnReceived io before p value) :
    ColumnReceived io after p value := by
  unfold ColumnReceived at received ⊢
  rw [values, nulls, changed]
  exact received

/-- A local column of the right type stands at the position. -/
def MapsTo (desc : TupleDesc) (p : ℕ) (att : FormPgAttribute) : Prop :=
  ∃ here, desc.attrs[p]? = some here ∧ here.SameType att

/-- The arrays after a whole tuple: what was sent stands at its mapped position, and the rest is
NULL and unchanged. -/
structure Received (io : TypeFunctions) (attmap : List ℕ) (columns : List (FormPgAttribute × Option Datum))
    (tuple : PGLogicalTupleData) : Prop where
  columns : List.Forall₂ (fun p column => ColumnReceived io tuple p column.2) attmap columns
  outside : ∀ p, p ∉ attmap → tuple.nulls p = true ∧ tuple.changed p = false

/-- The loop keeps every position it has not come to as `memset` left it. -/
theorem decodes_columns {catalog : Catalog} {data : PGLogicalOutputData} {desc : TupleDesc} {attmap : List ℕ}
    {columns : List (FormPgAttribute × Option Datum)}
    (mapped : List.Forall₂ (fun p column => MapsTo desc p column.1) attmap columns) (distinct : attmap.Nodup)
    (holds : ∀ column ∈ columns, ∀ datum ∈ column.2, column.1.Holds datum)
    (inverse : ∀ column ∈ columns, ∀ datum ∈ column.2, catalog.io.Inverse column.1 datum)
    {tuple : PGLogicalTupleData} (fresh : ∀ p, tuple.nulls p = true ∧ tuple.changed p = false ∨ p ∉ attmap) :
    Decodes (writeColumns catalog data columns) (readColumns catalog.io desc attmap tuple) fun after =>
      List.Forall₂ (fun p column => ColumnReceived catalog.io after p column.2) attmap columns ∧
      ∀ p, p ∉ attmap → after.values p = tuple.values p ∧ after.nulls p = tuple.nulls p ∧
        after.changed p = tuple.changed p := by
  induction mapped generalizing tuple with
  | nil => exact Decodes.pure ⟨.nil, fun p outside => ⟨rfl, rfl, rfl⟩⟩
  | @cons attid column attmap columns head rest ih =>
    obtain ⟨here, found, same⟩ := head
    obtain ⟨unused, distinct⟩ := List.nodup_cons.mp distinct
    rw [readColumns, found]
    have start := (fresh attid).resolve_right fun outside => outside (List.mem_cons_self ..)
    refine (decodes_column same (holds column (List.mem_cons_self ..)) (inverse column (List.mem_cons_self ..))
      start.1 start.2).bind fun middle stored => ?_
    have next : ∀ p, middle.nulls p = true ∧ middle.changed p = false ∨ p ∉ attmap := by
      intro p
      by_cases inside : p ∈ attmap
      · have other : p ≠ attid := fun equal => unused (equal ▸ inside)
        rw [stored.nulls p other, stored.changed p other]
        exact .inl ((fresh p).resolve_right fun outside => outside (List.mem_cons_of_mem _ inside))
      · exact .inr inside
    refine (ih distinct (fun c member => holds c (List.mem_cons_of_mem _ member))
      (fun c member => inverse c (List.mem_cons_of_mem _ member)) next).imp ?_
    rintro after ⟨received, kept⟩
    have here := kept attid unused
    refine ⟨.cons (stored.received.congr here.1 here.2.1 here.2.2) received, fun p outside => ?_⟩
    have other : p ≠ attid := fun equal => outside (equal ▸ List.mem_cons_self ..)
    obtain ⟨values, nulls, changed⟩ := kept p fun inside => outside (List.mem_cons_of_mem _ inside)
    exact ⟨values.trans (stored.values p other), nulls.trans (stored.nulls p other),
      changed.trans (stored.changed p other)⟩

theorem decodes_tuple {catalog : Catalog} {data : PGLogicalOutputData} {desc here : TupleDesc}
    {tuple : HeapTuple desc} {attList : Option Bitmapset} {entry : PGLogicalRelation}
    {scratch : PGLogicalTupleData} (natts : entry.natts = (desc.sentAttributes attList).length)
    (mapped : List.Forall₂ (MapsTo here) entry.attmap (desc.sentAttributes attList)) (distinct : entry.attmap.Nodup)
    (inverse : ∀ column ∈ tuple.sentColumns attList, ∀ datum ∈ column.2, catalog.io.Inverse column.1 datum) :
    Decodes (pglogicalWriteTuple catalog data tuple attList) (pglogicalReadTuple catalog.io entry here scratch)
      (Received catalog.io entry.attmap (tuple.sentColumns attList)) := by
  have few := desc.length_sentAttributes attList
  rw [maxHeapAttributeNumber] at few
  rw [← tuple.map_sentColumns attList, List.forall₂_map_right_iff] at mapped
  refine (decodes_byte _).bind ?_
  rintro _ rfl
  refine Decodes.lookup (ensure_true rfl) ((decodes_int (by omega)).bind ?_)
  rintro _ rfl
  refine Decodes.lookup (ensure_true (beq_iff_eq.mpr natts)) (Decodes.reserve ?_)
  refine (decodes_columns mapped distinct (fun column => tuple.holds_sentColumns attList) inverse
    fun p => .inl ⟨rfl, rfl⟩).imp ?_
  rintro after ⟨received, kept⟩
  exact ⟨received, fun p outside => (kept p outside).2⟩

/-! ## The column map -/

/-- The subscriber has the table of that name, under a valid identifier. -/
structure Opens (catalog : LocalCatalog) (nspname relname : CString) (here : LocalRelation) : Prop where
  byName : catalog.heapOpenrv nspname relname = .ok here
  byOid : catalog.heapOpen here.reloid = .ok here
  valid : here.reloid ≠ invalidOid

/-- Every sent column has a local column of the same name and type. -/
def SameColumns (here : TupleDesc) (attrs : List FormPgAttribute) : Prop :=
  ∀ att ∈ attrs, ∃ column ∈ here.attrs, column.attname = att.attname ∧ column.SameType att

/-- The local position of each name. -/
def columnMap (here : TupleDesc) (names : List CString) : List ℕ :=
  names.map fun name => here.attrs.findIdx fun att => decide (att.attname.str = name)

/-- What the cache holds about a relation that was described. -/
structure Describes (hash : PGLogicalRelationHash) (rel : Relation) (nspname : NameData)
    (attList : Option Bitmapset) (here : LocalRelation) (entry : PGLogicalRelation) : Prop where
  cached : hash rel.relid = some entry
  remoteid : entry.remoteid = hash.key rel.relid
  nspname : entry.nspname = nspname.str
  relname : entry.relname = rel.relname.str
  natts : entry.natts = (rel.desc.sentAttributes attList).length
  attnames : entry.attnames = sentNames rel attList
  attmap : entry.reloid = invalidOid ∨
    entry.reloid = here.reloid ∧ entry.attmap = columnMap here.desc (sentNames rel attList)

theorem findIdx_attname {here : TupleDesc} {att column : FormPgAttribute} (member : column ∈ here.attrs)
    (named : column.attname = att.attname) :
    here.attrs[here.attrs.findIdx fun c => decide (c.attname.str = att.attname.str)]? = some column := by
  set p := here.attrs.findIdx fun c => decide (c.attname.str = att.attname.str) with position
  have inside : p < here.attrs.length :=
    List.findIdx_lt_length_of_exists ⟨column, member, decide_eq_true (congrArg NameData.str named)⟩
  have hit : here.attrs[p].attname.str = att.attname.str := of_decide_eq_true (List.findIdx_getElem (w := inside))
  -- names are unique, so the first match is the column itself
  have same : here.attrs[p].attname = column.attname := by
    rw [named]
    cases found : here.attrs[p].attname
    cases sought : att.attname
    simp_all
  rw [List.getElem?_eq_getElem inside, List.inj_on_of_nodup_map here.named (List.getElem_mem inside) member same]

theorem mapM_tupdescGetAttByName {here : TupleDesc} {attrs : List FormPgAttribute} (columns : SameColumns here attrs) :
    (attrs.map (·.attname.str)).mapM (tupdescGetAttByName here) =
      .ok (columnMap here (attrs.map (·.attname.str))) := by
  induction attrs with
  | nil => rfl
  | cons att rest ih =>
    obtain ⟨column, member, named, -⟩ := columns att (List.mem_cons_self ..)
    have first : tupdescGetAttByName here att.attname.str =
        .ok (here.attrs.findIdx fun c => decide (c.attname.str = att.attname.str)) := by
      rw [tupdescGetAttByName, List.findIdx?_eq_some_of_exists
        ⟨column, member, decide_eq_true (congrArg NameData.str named)⟩]
    rw [List.map_cons, List.mapM_cons, first, ih fun other later => columns other (List.mem_cons_of_mem _ later)]
    rfl

theorem columnMap_mapsTo {here : TupleDesc} {attrs : List FormPgAttribute} (columns : SameColumns here attrs) :
    List.Forall₂ (MapsTo here) (columnMap here (attrs.map (·.attname.str))) attrs := by
  induction attrs with
  | nil => exact .nil
  | cons att rest ih =>
    obtain ⟨column, member, named, same⟩ := columns att (List.mem_cons_self ..)
    exact .cons ⟨column, findIdx_attname member named, same⟩
      (ih fun other later => columns other (List.mem_cons_of_mem _ later))

/-- Distinct names stand at distinct positions. -/
theorem columnMap_nodup {here : TupleDesc} {attrs : List FormPgAttribute} (columns : SameColumns here attrs)
    (distinct : (attrs.map FormPgAttribute.attname).Nodup) :
    (columnMap here (attrs.map (·.attname.str))).Nodup := by
  rw [columnMap, List.map_map]
  refine List.Nodup.map_on ?_ (List.Nodup.of_map _ distinct)
  intro a inA b inB equal
  obtain ⟨column, member, named, -⟩ := columns a inA
  obtain ⟨other, memberB, namedB, -⟩ := columns b inB
  have found := findIdx_attname member named
  have foundB := findIdx_attname memberB namedB
  simp only [Function.comp_apply] at equal
  rw [equal, foundB] at found
  cases found
  exact List.inj_on_of_nodup_map distinct inA inB (named.symm.trans namedB)

/-- Opening a described relation succeeds, fills in the column map and keeps the description. -/
theorem relationOpen_describes {catalog : LocalCatalog} {hash : PGLogicalRelationHash} {rel : Relation}
    {nspname : NameData} {attList : Option Bitmapset} {here : LocalRelation} {entry : PGLogicalRelation}
    (opens : Opens catalog nspname.str rel.relname.str here)
    (columns : SameColumns here.desc (rel.desc.sentAttributes attList))
    (describes : Describes hash rel nspname attList here entry) :
    ∃ opened hash', pglogicalRelationOpen catalog hash rel.relid = .ok (opened, here, hash') ∧
      Describes hash' rel nspname attList here opened ∧
      opened.attmap = columnMap here.desc (sentNames rel attList) := by
  rw [pglogicalRelationOpen, describes.cached]
  by_cases unmapped : entry.reloid = invalidOid
  · have names := mapM_tupdescGetAttByName columns
    simp only [if_pos unmapped, describes.nspname, describes.relname, describes.attnames, opens.byName, sentNames,
      bind, Except.bind]
    rw [names]
    refine ⟨_, _, rfl, ?_, rfl⟩
    exact
      { cached := StringHash.enter_self ..
        remoteid := describes.remoteid
        nspname := rfl
        relname := rfl
        natts := describes.natts
        attnames := rfl
        attmap := .inr ⟨rfl, rfl⟩ }
  · obtain ⟨reloid, attmap⟩ := describes.attmap.resolve_left unmapped
    dsimp only
    rw [if_neg unmapped, reloid, opens.byOid]
    exact ⟨entry, hash, rfl, describes, attmap⟩

theorem describes_cacheUpdate (hash : PGLogicalRelationHash) (rel : Relation) (nspname : NameData)
    (attList : Option Bitmapset) (here : LocalRelation) :
    ∃ entry, Describes (pglogicalRelationCacheUpdate hash rel.relid nspname.str rel.relname.str
      (sentNames rel attList)) rel nspname attList here entry :=
  ⟨_, { cached := StringHash.enter_self ..
        remoteid := rfl
        nspname := rfl
        relname := rfl
        natts := List.length_map ..
        attnames := rfl
        attmap := .inl rfl }⟩

/-! ## Rows -/

section Rows

variable {catalog : Catalog} {data : PGLogicalOutputData} {session : LocalCatalog} {hash : PGLogicalRelationHash}
  {scratch : PGLogicalTupleData} {rel : Relation} {nspname : NameData} {attList : Option Bitmapset}
  {here : LocalRelation} {entry : PGLogicalRelation}

/-- The type functions undo each other on every datum the message carries. -/
def Invertible (catalog : Catalog) (attList : Option Bitmapset) {desc : TupleDesc} (tuple : HeapTuple desc) : Prop :=
  ∀ column ∈ tuple.sentColumns attList, ∀ datum ∈ column.2, catalog.io.Inverse column.1 datum

/-- A tuple of a described relation arrives in whatever arrays it is read into. -/
theorem decodes_describedTuple (columns : SameColumns here.desc (rel.desc.sentAttributes attList))
    (describes : Describes hash rel nspname attList here entry)
    (attmap : entry.attmap = columnMap here.desc (sentNames rel attList)) {tuple : HeapTuple rel.desc}
    (inverse : Invertible catalog attList tuple) :
    Decodes (pglogicalWriteTuple catalog data tuple attList)
      (pglogicalReadTuple catalog.io entry here.desc scratch)
      (Received catalog.io (columnMap here.desc (sentNames rel attList)) (tuple.sentColumns attList)) := by
  rw [← attmap]
  refine decodes_tuple describes.natts ?_ ?_ inverse
  · rw [attmap]
    exact columnMap_mapsTo columns
  · rw [attmap]
    exact columnMap_nodup columns (rel.desc.nodup_sentNames attList)

theorem decodes_insert (opens : Opens session nspname.str rel.relname.str here)
    (columns : SameColumns here.desc (rel.desc.sentAttributes attList))
    (describes : Describes hash rel nspname attList here entry) {newtuple : HeapTuple rel.desc}
    (inverse : Invertible catalog attList newtuple) :
    Decodes (pglogicalWriteInsert catalog data rel newtuple attList)
      (readMessage ⟨catalog.io, session⟩ hash scratch) fun result =>
      ∃ opened newtup, result.1 = .insert opened newtup ∧ Describes result.2 rel nspname attList here opened ∧
        opened.attmap = columnMap here.desc (sentNames rel attList) ∧
        Received catalog.io opened.attmap (newtuple.sentColumns attList) newtup := by
  obtain ⟨opened, hash', succeeds, described, attmap⟩ := relationOpen_describes opens columns describes
  unfold pglogicalWriteInsert writeRowHeader
  simp only [bind_assoc]
  refine (decodes_byte _).bind ?_
  rintro _ rfl
  rw [if_neg (by decide), if_neg (by decide), if_neg (by decide), if_neg (by decide), if_pos rfl]
  refine Decodes.finish (P := fun result => result.1 = opened ∧ result.2.2 = hash' ∧
    Received catalog.io opened.attmap (newtuple.sentColumns attList) result.2.1) ?_ ?_
  · refine (decodes_byte 0).bind fun _ _ => (decodes_oid rel.relid).bind ?_
    rintro _ rfl
    refine (decodes_byte _).bind ?_
    rintro _ rfl
    refine Decodes.lookup (ensure_true rfl) (Decodes.lookup (liftM_ok succeeds) ?_)
    refine (decodes_describedTuple columns described attmap inverse).finish ?_
    rintro newtup received
    rw [← attmap] at received
    exact ⟨_, ⟨rfl, rfl, received⟩, fun input => rfl⟩
  · rintro ⟨opened, newtup, hash'⟩ ⟨rfl, rfl, received⟩
    exact ⟨_, ⟨opened, newtup, rfl, described, attmap, received⟩, fun input => rfl⟩

theorem decodes_delete (opens : Opens session nspname.str rel.relname.str here)
    (columns : SameColumns here.desc (rel.desc.sentAttributes attList))
    (describes : Describes hash rel nspname attList here entry) {oldtuple : HeapTuple rel.desc}
    (inverse : Invertible catalog attList oldtuple) :
    Decodes (pglogicalWriteDelete catalog data rel oldtuple attList)
      (readMessage ⟨catalog.io, session⟩ hash scratch) fun result =>
      ∃ opened oldtup, result.1 = .delete opened oldtup ∧ Describes result.2 rel nspname attList here opened ∧
        opened.attmap = columnMap here.desc (sentNames rel attList) ∧
        Received catalog.io opened.attmap (oldtuple.sentColumns attList) oldtup := by
  obtain ⟨opened, hash', succeeds, described, attmap⟩ := relationOpen_describes opens columns describes
  unfold pglogicalWriteDelete writeRowHeader
  simp only [bind_assoc]
  refine (decodes_byte _).bind ?_
  rintro _ rfl
  rw [if_neg (by decide), if_neg (by decide), if_neg (by decide), if_neg (by decide), if_neg (by decide),
    if_neg (by decide), if_pos rfl]
  refine Decodes.finish (P := fun result => result.1 = opened ∧ result.2.2 = hash' ∧
    Received catalog.io opened.attmap (oldtuple.sentColumns attList) result.2.1) ?_ ?_
  · refine (decodes_byte 0).bind fun _ _ => (decodes_oid rel.relid).bind ?_
    rintro _ rfl
    refine (decodes_byte _).bind ?_
    rintro _ rfl
    refine Decodes.lookup (ensure_true rfl) (Decodes.lookup (liftM_ok succeeds) ?_)
    refine (decodes_describedTuple columns described attmap inverse).finish ?_
    rintro oldtup received
    rw [← attmap] at received
    exact ⟨_, ⟨rfl, rfl, received⟩, fun input => rfl⟩
  · rintro ⟨opened, oldtup, hash'⟩ ⟨rfl, rfl, received⟩
    exact ⟨_, ⟨opened, oldtup, rfl, described, attmap, received⟩, fun input => rfl⟩

theorem decodes_update (opens : Opens session nspname.str rel.relname.str here)
    (columns : SameColumns here.desc (rel.desc.sentAttributes attList))
    (describes : Describes hash rel nspname attList here entry) {oldtuple : Option (HeapTuple rel.desc)}
    {newtuple : HeapTuple rel.desc} (inverseOld : ∀ old ∈ oldtuple, Invertible catalog attList old)
    (inverse : Invertible catalog attList newtuple) :
    Decodes (pglogicalWriteUpdate catalog data rel oldtuple newtuple attList)
      (readMessage ⟨catalog.io, session⟩ hash scratch) fun result =>
      ∃ opened oldtup newtup, result.1 = .update opened oldtup newtup ∧
        Describes result.2 rel nspname attList here opened ∧
        opened.attmap = columnMap here.desc (sentNames rel attList) ∧
        Option.Rel (fun old => Received catalog.io opened.attmap (old.sentColumns attList)) oldtuple oldtup ∧
        Received catalog.io opened.attmap (newtuple.sentColumns attList) newtup := by
  obtain ⟨opened, hash', succeeds, described, attmap⟩ := relationOpen_describes opens columns describes
  have new : Decodes (pglogicalWriteTuple catalog data newtuple attList)
      (pglogicalReadTuple catalog.io opened here.desc scratch) _ :=
    decodes_describedTuple columns described attmap inverse
  unfold pglogicalWriteUpdate writeRowHeader
  simp only [bind_assoc]
  refine (decodes_byte _).bind ?_
  rintro _ rfl
  rw [if_neg (by decide), if_neg (by decide), if_neg (by decide), if_neg (by decide), if_neg (by decide),
    if_pos rfl]
  refine Decodes.finish (P := fun result => result.1 = opened ∧ result.2.2.2 = hash' ∧
    Option.Rel (fun old => Received catalog.io opened.attmap (old.sentColumns attList)) oldtuple result.2.1 ∧
    Received catalog.io opened.attmap (newtuple.sentColumns attList) result.2.2.1) ?_ ?_
  · refine (decodes_byte 0).bind fun _ _ => (decodes_oid rel.relid).bind ?_
    rintro _ rfl
    cases oldtuple with
    | none =>
      rw [writeOldKey, pure_bind]
      refine (decodes_byte _).bind ?_
      rintro _ rfl
      refine Decodes.lookup (ensure_true rfl) (Decodes.lookup (liftM_ok succeeds) ?_)
      dsimp only
      rw [if_neg (by decide)]
      refine Decodes.lookup (ensure_true rfl) (new.finish ?_)
      rintro newtup received
      rw [← attmap] at received
      exact ⟨_, ⟨rfl, rfl, .none, received⟩, fun input => rfl⟩
    | some old =>
      simp only [writeOldKey, bind_assoc]
      refine (decodes_byte _).bind ?_
      rintro _ rfl
      refine Decodes.lookup (ensure_true rfl) (Decodes.lookup (liftM_ok succeeds) ?_)
      dsimp only
      rw [if_pos (by decide)]
      refine (decodes_describedTuple columns described attmap (inverseOld old rfl)).bind fun oldtup oldReceived => ?_
      refine (decodes_byte _).bind ?_
      rintro _ rfl
      refine Decodes.lookup (ensure_true rfl) (new.finish ?_)
      rintro newtup received
      rw [← attmap] at received oldReceived
      exact ⟨(opened, some oldtup, newtup, hash'), ⟨rfl, rfl, .some oldReceived, received⟩, fun input => rfl⟩
  · rintro ⟨opened, oldtup, newtup, hash'⟩ ⟨rfl, rfl, oldReceived, received⟩
    exact ⟨_, ⟨opened, oldtup, newtup, rfl, described, attmap, oldReceived, received⟩, fun input => rfl⟩

end Rows

/-! ## The protocol -/

/-- Every message reads back as it was written. A RELATION message leaves a description of the
relation in the cache; with it, row messages arrive column by column, and they keep it. -/
theorem native_round_trip (catalog : Catalog) (data : PGLogicalOutputData) (session : LocalCatalog)
    (hash : PGLogicalRelationHash) (scratch : PGLogicalTupleData) (rel : Relation) (attList : Option Bitmapset)
    (nspname : NameData) (here : LocalRelation)
    (namespaceName : catalog.getNamespaceName rel.relnamespace = some nspname)
    (opens : Opens session nspname.str rel.relname.str here)
    (columns : SameColumns here.desc (rel.desc.sentAttributes attList)) :
    (∀ txn, RoundTrip (pglogicalWriteBegin txn) (readMessage ⟨catalog.io, session⟩ hash scratch)
      (· = (.begin txn.finalLsn txn.commitTime txn.xid, hash))) ∧
    (∀ txn commitLsn, RoundTrip (pglogicalWriteCommit txn commitLsn) (readMessage ⟨catalog.io, session⟩ hash scratch)
      (· = (.commit commitLsn txn.endLsn txn.commitTime, hash))) ∧
    (∀ origin originLsn, origin.strlen < 255 →
      RoundTrip (pglogicalWriteOrigin origin originLsn) (readMessage ⟨catalog.io, session⟩ hash scratch)
        (· = (.origin originLsn origin, hash))) ∧
    RoundTrip (pglogicalWriteRel catalog rel attList) (readMessage ⟨catalog.io, session⟩ hash scratch)
      (fun result => result.1 = .relation rel.relid ∧ ∃ entry, Describes result.2 rel nspname attList here entry) ∧
    ∀ entry, Describes hash rel nspname attList here entry →
      (∀ newtuple, Invertible catalog attList newtuple →
        RoundTrip (pglogicalWriteInsert catalog data rel newtuple attList)
          (readMessage ⟨catalog.io, session⟩ hash scratch) fun result =>
          ∃ opened newtup, result.1 = .insert opened newtup ∧ Describes result.2 rel nspname attList here opened ∧
            opened.attmap = columnMap here.desc (sentNames rel attList) ∧
            Received catalog.io opened.attmap (newtuple.sentColumns attList) newtup) ∧
      (∀ oldtuple newtuple, (∀ old ∈ oldtuple, Invertible catalog attList old) →
        Invertible catalog attList newtuple →
        RoundTrip (pglogicalWriteUpdate catalog data rel oldtuple newtuple attList)
          (readMessage ⟨catalog.io, session⟩ hash scratch) fun result =>
          ∃ opened oldtup newtup, result.1 = .update opened oldtup newtup ∧
            Describes result.2 rel nspname attList here opened ∧
            opened.attmap = columnMap here.desc (sentNames rel attList) ∧
            Option.Rel (fun old => Received catalog.io opened.attmap (old.sentColumns attList)) oldtuple oldtup ∧
            Received catalog.io opened.attmap (newtuple.sentColumns attList) newtup) ∧
      (∀ oldtuple, Invertible catalog attList oldtuple →
        RoundTrip (pglogicalWriteDelete catalog data rel oldtuple attList)
          (readMessage ⟨catalog.io, session⟩ hash scratch) fun result =>
          ∃ opened oldtup, result.1 = .delete opened oldtup ∧ Describes result.2 rel nspname attList here opened ∧
            opened.attmap = columnMap here.desc (sentNames rel attList) ∧
            Received catalog.io opened.attmap (oldtuple.sentColumns attList) oldtup) := by
  refine ⟨fun txn => (decodes_begin _ hash scratch txn).roundTrip,
    fun txn commitLsn => (decodes_commit _ hash scratch txn commitLsn).roundTrip,
    fun origin originLsn short => (decodes_origin _ hash scratch origin originLsn short).roundTrip, ?_, ?_⟩
  · refine ((decodes_relation catalog _ hash scratch rel attList namespaceName).imp ?_).roundTrip
    rintro _ rfl
    exact ⟨rfl, describes_cacheUpdate hash rel nspname attList here⟩
  · intro entry describes
    exact ⟨fun newtuple inverse => (decodes_insert opens columns describes inverse).roundTrip,
      fun oldtuple newtuple inverseOld inverse =>
        (decodes_update opens columns describes inverseOld inverse).roundTrip,
      fun oldtuple inverse => (decodes_delete opens columns describes inverse).roundTrip⟩

/-- `int4` and a user-defined text type, with the functions PostgreSQL has for them on short values. -/
def sampleTypes : TypeFunctions where
  typoutput := fun _ datum => .ok <| CString.ofBytes <| match datum with
    | .byval word => (Nat.toDigits 10 word.toNat).map Char.toUInt8
    | other => other.data.drop 4
  typinput := fun typid _ s => .ok <|
    if typid = 23 then .byval (s.val.foldl (fun n digit => 10 * n + (digit.toUInt64 - 48)) 0)
    else .byref (UInt8.ofNat (4 * (s.strlen + 4)) :: 0 :: 0 :: 0 :: s.val)
  typsend := fun _ datum => .ok <| match datum with
    | .byval word => bigEndian 4 word.toNat
    | other => other.data.drop 4
  typreceive := fun typid _ bytes => .ok <|
    (if typid = 23 then .byval (UInt64.ofNat (ofBigEndian bytes))
      else .byref (UInt8.ofNat (4 * (bytes.length + 4)) :: 0 :: 0 :: 0 :: bytes), bytes.length)
  storeAttByval := fun word attlen => (bigEndian attlen word.toNat).reverse
  fetchAtt := fun bytes attlen => UInt64.ofNat (ofBigEndian (bytes.take attlen).reverse)
  storeLength := by simp
  SameValue := fun a b => a.data = b.data ∧ a.word = b.word
  sameRefl := fun _ => ⟨rfl, rfl⟩
  sameIndirect := fun _ => ⟨rfl, rfl⟩

def sampleSchema : NameData := namestrcpy (.ofBytes [112])

def sampleId (attnum : ℤ) : FormPgAttribute :=
  .int4 (namestrcpy (.ofBytes [105, 100])) attnum

def sampleDropped (attnum : ℤ) : FormPgAttribute :=
  { FormPgAttribute.int4 (namestrcpy (.ofBytes [111, 108, 100])) attnum with atttypid := 0, attisdropped := true }

def sampleNote (attnum : ℤ) : FormPgAttribute :=
  { FormPgAttribute.text (namestrcpy (.ofBytes [110, 111])) attnum with atttypid := 16500 }

def sampleRel : Relation where
  relid := 16400
  relnamespace := 2200
  relname := namestrcpy (.ofBytes [116])
  desc := ⟨[sampleId 1, sampleDropped 2, sampleNote 3], by decide, by decide, by decide⟩
  identityKey := {9}

def sampleHere : LocalRelation := ⟨16999, ⟨[sampleNote 1, sampleId 2], by decide, by decide, by decide⟩, []⟩

def sampleTuple : HeapTuple sampleRel.desc where
  tLen := 40
  values := [some (.byval 7), none, some (.byref [24, 0, 0, 0, 104, 105])]
  length := rfl
  holds := by decide

def sampleCatalog : Catalog where
  getNamespaceName := fun _ => some sampleSchema
  typeForm := fun typid => if typid = 23 then some ⟨'b', 0, 2406⟩ else some ⟨'b', 0, 16501⟩
  io := sampleTypes

theorem sample_invertible : Invertible sampleCatalog none sampleTuple := by
  intro column inside datum held
  have sent : sampleTuple.sentColumns none =
      [(sampleId 1, some (.byval 7)), (sampleNote 3, some (.byref [24, 0, 0, 0, 104, 105]))] := by rfl
  rw [sent] at inside
  simp only [List.mem_cons, List.not_mem_nil, or_false] at inside
  rcases inside with rfl | rfl
  · cases held
    constructor
    · intro s printed
      obtain rfl := Except.ok.inj printed
      exact ⟨.byval 7, rfl, rfl, rfl⟩
    · intro bytes sent
      obtain rfl := Except.ok.inj sent
      exact ⟨.byval 7, rfl, rfl, rfl⟩
    · intro word equal
      cases equal
      rfl
  · cases held
    constructor
    · intro s printed
      obtain rfl := Except.ok.inj printed
      exact ⟨.byref [24, 0, 0, 0, 104, 105], rfl, rfl, rfl⟩
    · intro bytes sent
      obtain rfl := Except.ok.inj sent
      exact ⟨.byref [24, 0, 0, 0, 104, 105], rfl, rfl, rfl⟩
    · intro word equal
      cases equal

def sampleSession : LocalCatalog := ⟨fun _ _ => .ok sampleHere, fun _ => .ok sampleHere⟩

theorem sample_columns : SameColumns sampleHere.desc (sampleRel.desc.sentAttributes none) := by
  have sent : sampleRel.desc.sentAttributes none = [sampleId 1, sampleNote 3] := by rfl
  rw [sent]
  intro att inside
  simp only [List.mem_cons, List.not_mem_nil, or_false] at inside
  rcases inside with rfl | rfl
  · exact ⟨sampleId 2, by decide, rfl, rfl, rfl, rfl, rfl⟩
  · exact ⟨sampleNote 1, by decide, rfl, rfl, rfl, rfl, rfl⟩

/-- An INSERT into a table with a dropped column, in two transfer formats, read into a table whose
columns stand in the opposite order. -/
theorem native_round_trip_sample :
    let hash := pglogicalRelationCacheUpdate (.create false) 16400 sampleSchema.str sampleRel.relname.str
      (sentNames sampleRel none)
    let message := [73, 0, 0, 0, 64, 16, 78, 84, 0, 2, 105, 0, 0, 0, 4, 7, 0, 0, 0, 116, 0, 0, 0, 3, 104, 105, 0]
    pglogicalWriteInsert sampleCatalog ⟨true, false⟩ sampleRel sampleTuple none [] = .ok ((), message) ∧
    ∃ opened newtup hash',
      readMessage ⟨sampleTypes, sampleSession⟩ hash ⟨fun _ => .byval 0, fun _ => false, fun _ => false⟩ message =
        .ok ((.insert opened newtup, hash'), []) ∧
      opened.attmap = [1, 0] ∧
      newtup.nulls 1 = false ∧ newtup.changed 1 = true ∧ (newtup.values 1).word = 7 ∧ newtup.nulls 2 = true := by
  intro hash message
  have written : pglogicalWriteInsert sampleCatalog ⟨true, false⟩ sampleRel sampleTuple none [] =
      .ok ((), message) := by rfl
  obtain ⟨entry, describes⟩ := describes_cacheUpdate (.create false) sampleRel sampleSchema none sampleHere
  have trips := native_round_trip sampleCatalog ⟨true, false⟩ sampleSession hash
    ⟨fun _ => .byval 0, fun _ => false, fun _ => false⟩ sampleRel none sampleSchema sampleHere rfl
    ⟨rfl, rfl, by decide⟩ sample_columns
  obtain ⟨bytes, ⟨_, hash'⟩, appended, ⟨opened, newtup, rfl, described, attmap, received⟩, reads⟩ :=
    (trips.2.2.2.2 entry describes).1 sampleTuple sample_invertible [] message written
  have attmap : opened.attmap = [1, 0] := attmap.trans rfl
  rw [List.nil_append] at appended
  subst appended
  rw [attmap] at received
  obtain ⟨nulls, changed, same⟩ := (List.forall₂_cons.mp received.columns).1
  exact ⟨written, opened, newtup, hash', reads, attmap, nulls, changed, same.2,
    (received.outside 2 (by decide)).1⟩

end PGLogical.Native
