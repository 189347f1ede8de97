import PGLogical.Model.MessageFormat
import PGLogical.Soundness.Transfer
import PGLogical.Wire.Emits

/-! # A session sends the documented format

Writer by writer, what is appended is the encoding of one documented message: no flag is set that has
no meaning, strings carry their terminators, lengths fit their fields. A tuple has this because its datums
fit their columns and what has been appended fits the allocation limit. The name of an origin has to be
short for it, since its length is cut to a byte.
-/

namespace PGLogical.Format

open Machine Wire Native Callbacks Transfer

/-! ## Tuples -/

section Tuples

variable {catalog : Catalog} {data : Native.PGLogicalOutputData}

/-- A length of four bytes and the data. -/
theorem emits_sized (kind : FieldKind) {payload : Bytes} {n : ℕ} (width : payload.length = n)
    (terminated : kind = .text → IsTerminated payload) :
    Emits (pqSendint n 4 >>= fun _ => appendBinaryStringInfo payload) fun out =>
      ∃ field : Field, field.Fits ∧ field.Terminated ∧ [kind.code] ++ out = field.encode := by
  subst width
  refine Emits.front ((emits_binary payload).imp ?_)
  rintro sent ⟨rfl, room⟩
  refine ⟨.full kind sent, ?_, ?_, rfl⟩
  · rw [maxAllocSize] at room
    show sent.length < 256 ^ 4
    omega
  · cases kind with
    | internal => trivial
    | binary => trivial
    | text => exact terminated rfl

theorem emits_writeInternal {att : FormPgAttribute} {datum : Datum} (holds : att.Holds datum) :
    Emits (writeInternal catalog.io att datum) fun out =>
      ∃ field : Field, field.Fits ∧ field.Terminated ∧ out = field.encode := by
  refine Emits.front (.ite (fun byval => ?_) fun byref => .ite (fun fixed => ?_) fun _ => .ite (fun _ => ?_) fun _ => ?_)
  · exact emits_sized .internal (catalog.io.storeLength ..) (fun text => by cases text)
  · refine emits_sized .internal ?_ (fun text => by cases text)
    cases datum with
    | byval word => exact absurd holds.1 byref
    | byref bytes =>
      have width := holds.2 fixed
      rw [Datum.data, List.length_take]
      omega
    | externalOndisk pointer => exact absurd holds.2 (by omega)
    | externalIndirect target => exact absurd holds.2 (by omega)
  · exact emits_sized .internal rfl (fun text => by cases text)
  · exact .throw _

theorem emits_writeColumn {att : FormPgAttribute} {value : Option Datum} (holds : ∀ datum ∈ value, att.Holds datum) :
    Emits (writeColumn catalog data att value) fun out =>
      ∃ field : Field, field.Fits ∧ field.Terminated ∧ out = field.encode := by
  cases value with
  | none => exact (emits_bytes _).imp fun _ same => ⟨.null, trivial, trivial, same⟩
  | some datum =>
    refine .ite (fun _ => (emits_bytes _).imp fun _ same => ⟨.unchanged, trivial, trivial, same⟩) fun _ => ?_
    cases catalog.typeForm att.atttypid with
    | none => exact .throw _
    | some typclass =>
      dsimp only
      split
      · exact emits_writeInternal (holds datum rfl)
      · exact Emits.front (.call fun _ => emits_sized .binary rfl (fun text => by cases text))
      · exact Emits.front (.call fun str => emits_sized .text str.length_terminated fun _ => ⟨str, rfl⟩)

theorem emits_writeColumns {columns : List (FormPgAttribute × Option Datum)}
    (holds : ∀ column ∈ columns, ∀ datum ∈ column.2, column.1.Holds datum) :
    Emits (writeColumns catalog data columns) fun out => ∃ fields : Tuple, fields.length = columns.length ∧
      (∀ field ∈ fields, field.Fits ∧ field.Terminated) ∧ out = fields.flatMap Field.encode := by
  induction columns with
  | nil => exact .pure ⟨[], rfl, by simp, rfl⟩
  | cons column rest ih =>
    refine (emits_writeColumn (holds column (List.mem_cons_self ..))).bind ?_
    rintro _ ⟨field, fits, terminated, rfl⟩
    refine (ih fun other inside => holds other (List.mem_cons_of_mem _ inside)).imp ?_
    rintro _ ⟨fields, count, each, rfl⟩
    refine ⟨field :: fields, by simp [count], ?_, by simp⟩
    exact List.forall_mem_cons.mpr ⟨⟨fits, terminated⟩, each⟩

/-- The fields of a tuple fit and are terminated. -/
def Tuple.Sound (tuple : Tuple) : Prop := Tuple.Fits tuple ∧ ∀ field ∈ tuple, field.Terminated

theorem emits_writeTuple {desc : TupleDesc} (tuple : HeapTuple desc) (attList : Option Bitmapset) :
    Emits (pglogicalWriteTuple catalog data tuple attList) fun out =>
      ∃ fields : Tuple, Tuple.Sound fields ∧ out = encodeTuple fields := by
  have few := desc.length_sentAttributes attList
  rw [maxHeapAttributeNumber] at few
  refine Emits.front (Emits.front (.reserve ((emits_writeColumns fun column => tuple.holds_sentColumns attList).imp ?_)))
  rintro _ ⟨fields, count, each, rfl⟩
  have width : fields.length = (desc.sentAttributes attList).length := by
    rw [count, ← tuple.map_sentColumns attList, List.length_map]
  refine ⟨fields, ⟨⟨by omega, fun field inside => (each field inside).1⟩, fun field inside => (each field inside).2⟩, ?_⟩
  rw [encodeTuple, width]
  rfl

/-! ## The messages -/

/-- One message of the documented format. -/
def Message.Sound (message : Message) : Prop := message.Fits ∧ message.FlagsClear ∧ message.Terminated

theorem yields_wellFormed {w : Writer Unit} (emits : Emits w fun out => ∃ message : Message, message.Sound ∧
    out = message.encode) : Yields WellFormed w := by
  intro bytes written
  obtain ⟨out, rfl, message, ⟨fits, clear, terminated⟩, rfl⟩ := emits written
  exact ⟨message, fits, clear, terminated, List.nil_append _⟩

theorem yields_begin (txn : Native.ReorderBufferTXN) : Yields WellFormed (pglogicalWriteBegin txn) := by
  refine yields_wellFormed (.front (.front (.front (.front ((emits_bytes _).imp ?_)))))
  rintro _ rfl
  refine ⟨.begin 0 txn.finalLsn txn.commitTime.toUInt64 txn.xid, ⟨trivial, rfl, trivial⟩, ?_⟩
  simp [Message.encode, Message.body, Message.type]

theorem yields_commit (txn : Native.ReorderBufferTXN) (commitLsn : UInt64) :
    Yields WellFormed (pglogicalWriteCommit txn commitLsn) := by
  refine yields_wellFormed (.front (.front (.front (.front ((emits_bytes _).imp ?_)))))
  rintro _ rfl
  refine ⟨.commit 0 commitLsn txn.endLsn txn.commitTime.toUInt64, ⟨trivial, rfl, trivial⟩, ?_⟩
  simp [Message.encode, Message.body, Message.type]

/-- The length of a terminated string that fits a byte. -/
theorem bigEndian_terminated {s : CString} : bigEndian 1 s.terminated.length = [UInt8.ofNat (s.strlen + 1)] := by
  rw [s.length_terminated]
  simp [bigEndian]

theorem yields_origin {origin : CString} (short : origin.strlen < 255) (originLsn : UInt64) :
    Yields WellFormed (pglogicalWriteOrigin origin originLsn) := by
  refine yields_wellFormed (.front (.front (.front (.front ((emits_bytes _).imp ?_)))))
  rintro _ rfl
  refine ⟨.origin 0 originLsn origin.terminated, ⟨?_, rfl, .inr ⟨origin, rfl⟩⟩, ?_⟩
  · show origin.terminated.length < 256 ^ 1
    rw [origin.length_terminated]
    omega
  · simp [Message.encode, Message.body, Message.type, bigEndian_terminated]

/-! ### Relations -/

theorem emits_writeName (name : NameData) : Emits (writeName name) fun out => ∃ str : CString,
    str.terminated.length < 256 ^ 1 ∧ out = bigEndian 1 str.terminated.length ++ str.terminated := by
  refine Emits.front ((emits_bytes _).imp ?_)
  rintro _ rfl
  refine ⟨name.str, ?_, by rw [bigEndian_terminated]⟩
  have short := name.short
  rw [namedatalen] at short
  rw [name.str.length_terminated]
  omega

theorem emits_writeAttr (identityKey : Bitmapset) (att : FormPgAttribute) :
    Emits (writeAttr identityKey att) fun out => ∃ column : Column, column.name.length < 256 ^ 2 ∧
      (column.flags = 0 ∨ column.flags = 1) ∧ IsTerminated column.name ∧ out = column.encode := by
  refine .front (.front (.front (.front ((emits_bytes _).imp ?_))))
  rintro _ rfl
  refine ⟨⟨if att.member ∈ identityKey then isReplicaIdentity else 0, att.attname.str.terminated⟩, ?_, ?_, ⟨_, rfl⟩, ?_⟩
  · have short := att.attname.short
    rw [namedatalen] at short
    show att.attname.str.terminated.length < 256 ^ 2
    rw [att.attname.str.length_terminated]
    omega
  · dsimp only
    split_ifs
    · exact .inr rfl
    · exact .inl rfl
  · simp [Column.encode, CString.length_terminated]

theorem emits_writeAttrs (identityKey : Bitmapset) (attrs : List FormPgAttribute) :
    Emits (writeAttrs identityKey attrs) fun out => ∃ columns : List Column, columns.length = attrs.length ∧
      (∀ column ∈ columns, column.name.length < 256 ^ 2 ∧ (column.flags = 0 ∨ column.flags = 1) ∧
        IsTerminated column.name) ∧ out = columns.flatMap Column.encode := by
  induction attrs with
  | nil => exact .pure ⟨[], rfl, by simp, rfl⟩
  | cons att rest ih =>
    refine (emits_writeAttr identityKey att).bind ?_
    rintro _ ⟨column, small, flags, terminated, rfl⟩
    refine ih.imp ?_
    rintro _ ⟨columns, count, each, rfl⟩
    exact ⟨column :: columns, by simp [count], List.forall_mem_cons.mpr ⟨⟨small, flags, terminated⟩, each⟩, by simp⟩

theorem yields_relation (rel : Relation) (attList : Option Bitmapset) :
    Yields WellFormed (pglogicalWriteRel catalog rel attList) := by
  refine yields_wellFormed (.front (.front (.front ?_)))
  cases catalog.getNamespaceName rel.relnamespace with
  | none => exact .throw _
  | some nspname =>
    refine (emits_writeName nspname).bind ?_
    rintro _ ⟨nsp, shortNsp, rfl⟩
    refine (emits_writeName rel.relname).bind ?_
    rintro _ ⟨name, shortName, rfl⟩
    refine .front (.front ((emits_writeAttrs rel.identityKey _).imp ?_))
    rintro _ ⟨columns, count, each, rfl⟩
    have few := rel.desc.length_sentAttributes attList
    rw [maxHeapAttributeNumber] at few
    refine ⟨.relation 0 rel.relid nsp.terminated name.terminated columns, ⟨⟨shortNsp, shortName, by omega, ?_⟩,
      ⟨rfl, ?_⟩, ⟨_, rfl⟩, ⟨_, rfl⟩, ?_⟩, ?_⟩
    · exact fun column inside => (each column inside).1
    · exact fun column inside => (each column inside).2.1
    · exact fun column inside => (each column inside).2.2
    · simp [Message.encode, Message.body, Message.type, count]

/-! ### Rows -/

theorem yields_insert (rel : Relation) (newtuple : HeapTuple rel.desc) (attList : Option Bitmapset) :
    Yields WellFormed (pglogicalWriteInsert catalog data rel newtuple attList) := by
  refine yields_wellFormed ?_
  unfold pglogicalWriteInsert writeRowHeader
  simp only [bind_assoc]
  refine .front (.front (.front (.front ((emits_writeTuple newtuple attList).imp ?_))))
  rintro _ ⟨new, ⟨fits, terminated⟩, rfl⟩
  exact ⟨.insert 0 rel.relid new, ⟨fits, rfl, terminated⟩, by simp [Message.encode, Message.body, Message.type]⟩

theorem yields_update (rel : Relation) (oldtuple : Option (HeapTuple rel.desc)) (newtuple : HeapTuple rel.desc)
    (attList : Option Bitmapset) : Yields WellFormed (pglogicalWriteUpdate catalog data rel oldtuple newtuple attList) := by
  have old : Emits (writeOldKey catalog data rel attList oldtuple) fun out => ∃ old : Option (OldTuple × Tuple),
      (∀ tuple ∈ old, Tuple.Sound tuple.2) ∧ out = encodeOld old := by
    cases oldtuple with
    | none => exact .pure ⟨none, by simp, rfl⟩
    | some oldtuple =>
      refine .front ((emits_writeTuple oldtuple attList).imp ?_)
      rintro _ ⟨fields, sound, rfl⟩
      exact ⟨some (.key, fields), by simpa using sound, rfl⟩
  refine yields_wellFormed ?_
  unfold pglogicalWriteUpdate writeRowHeader
  simp only [bind_assoc]
  refine .front (.front (.front (old.bind ?_)))
  rintro _ ⟨old, oldSound, rfl⟩
  refine .front ((emits_writeTuple newtuple attList).imp ?_)
  rintro _ ⟨new, ⟨fits, terminated⟩, rfl⟩
  refine ⟨.update 0 rel.relid old new, ⟨⟨?_, fits⟩, rfl, ?_, terminated⟩, ?_⟩
  · exact fun tuple isOld => (oldSound tuple isOld).1
  · exact fun tuple isOld => (oldSound tuple isOld).2
  · simp [Message.encode, Message.body, Message.type]

theorem yields_delete (rel : Relation) (oldtuple : HeapTuple rel.desc) (attList : Option Bitmapset) :
    Yields WellFormed (pglogicalWriteDelete catalog data rel oldtuple attList) := by
  refine yields_wellFormed ?_
  unfold pglogicalWriteDelete writeRowHeader
  simp only [bind_assoc]
  refine .front (.front (.front (.front ((emits_writeTuple oldtuple attList).imp ?_))))
  rintro _ ⟨old, ⟨fits, terminated⟩, rfl⟩
  exact ⟨.delete 0 rel.relid .key old, ⟨fits, rfl, terminated⟩, by simp [Message.encode, Message.body, Message.type,
    OldTuple.code]⟩

theorem yields_startup (params : List (CString × CString)) : Yields WellFormed (writeStartupMessage params) := by
  intro bytes written
  refine ⟨.startup params, trivial, trivial, trivial, ?_⟩
  rw [Startup.writeStartupMessage_ok written]
  rfl

end Tuples

/-! ## The callbacks -/

section Session

variable {server : Server} {data : Callbacks.PGLogicalOutputData}

/-- An origin that is to be sent has a name whose length fits its byte. -/
def Named (server : Server) (data : Callbacks.PGLogicalOutputData) (txn : Json.ReorderBufferTXN) : Prop :=
  sendsReplicationOrigin data txn = true →
    ∃ origin, server.replOriginByOid txn.originId = some origin ∧ origin.strlen < 255

theorem yields_rowWriter {rel : Relation} {change : ReorderBufferChange (HeapTuple rel.desc)}
    {attList : Option Bitmapset} {writer : Writer Unit} (native : data.proto = .native)
    (chosen : rowWriter? server data rel change attList = some writer) : Yields WellFormed writer := by
  unfold rowWriter? at chosen
  simp only [api, native, pglogicalInitApi] at chosen
  split at chosen
  · obtain ⟨newtuple, -, rfl⟩ := Option.map_eq_some_iff.mp chosen
    exact yields_insert rel newtuple attList
  · obtain ⟨newtuple, -, rfl⟩ := Option.map_eq_some_iff.mp chosen
    exact yields_update rel change.oldtuple newtuple attList
  · obtain ⟨oldtuple, -, rfl⟩ := Option.map_eq_some_iff.mp chosen
    exact yields_delete rel oldtuple attList
  · cases chosen

theorem preserves_startup (native : data.proto = .native) :
    Preserves (AllWritten WellFormed) (sendStartupMessageOnce server data) := by
  have yields : Yields WellFormed ((api server data).writeStartupMessage server.prepareStartupMessage) := by
    unfold api
    rw [native]
    exact yields_startup server.prepareStartupMessage
  intro ctx before
  cases sent : ctx.startupMessageSent with
  | true =>
    rw [sendStartupMessageOnce_of_sent sent]
    exact before
  | false =>
    rw [sendStartupMessageOnce_of_unsent sent]
    exact preserves_filled yields (fun before filled =>
      Preserves.after (fun _ _ written => written) (before.write filled)) before

theorem preserves_beginTxn {txn : Json.ReorderBufferTXN} (native : data.proto = .native)
    (named : Named server data txn) : Preserves (AllWritten WellFormed) (pgDecodeBeginTxn server data txn) := by
  have begins : Yields WellFormed ((api server data).writeBegin txn) := by
    unfold api
    rw [native]
    exact yields_begin txn.toReorderBufferTXN
  have origin : sendsReplicationOrigin data txn = true → Yields WellFormed (writeOrigin? server data txn) := by
    intro sends
    obtain ⟨origin, found, short⟩ := named sends
    have writer : writeOrigin? server data txn = pglogicalWriteOrigin origin txn.originLsn := by
      simp [writeOrigin?, api, native, pglogicalInitApi, found]
    rw [writer]
    exact yields_origin short txn.originLsn
  exact (preserves_startup native).bind fun _ => preserves_sendBegin begins origin

theorem preserves_changeTxn (native : data.proto = .native) (rel : Relation)
    (change : ReorderBufferChange (HeapTuple rel.desc)) (answer : Option (Option Bitmapset)) :
    Preserves (AllWritten WellFormed) (pgDecodeChange server data rel change answer) := by
  cases answer with
  | none => exact .pure ()
  | some attList =>
    refine .bind (fun ctx before => ?_) fun _ => ?_
    · rw [sendRelationOnce_eq rel attList native]
      split_ifs
      · exact before
      · rw [sendRelation_eq]
        cases written : pglogicalWriteRel server.catalog rel attList [] with
        | error message => exact before
        | ok result =>
          refine List.forall_mem_append.mpr ⟨before, List.forall_mem_singleton.mpr ?_⟩
          exact yields_relation rel attList written
    · cases chosen : rowWriter? server data rel change attList with
      | none => exact .pure ()
      | some writer => exact preserves_message (yields_rowWriter native chosen)

theorem preserves_commitTxn (native : data.proto = .native) (txn : Json.ReorderBufferTXN) (commitLsn : UInt64) :
    Preserves (AllWritten WellFormed) (pgDecodeCommitTxn server data txn commitLsn) := by
  have yields : Yields WellFormed ((api server data).writeCommit txn commitLsn) := by
    unfold api
    rw [native]
    exact yields_commit txn.toReorderBufferTXN commitLsn
  exact preserves_filled yields fun before filled => Preserves.after (fun _ _ written => written) (before.write filled)

theorem preserves_occur {occurrence : Occurrence} (native : data.proto = .native)
    (named : ∀ txn, occurrence = .callback (.begin txn) → Named server data txn) :
    Preserves (AllWritten WellFormed) (occur server data occurrence) := by
  cases occurrence with
  | invalidate relid => exact fun _ before => before
  | callback callback =>
    cases callback with
    | begin txn => exact preserves_beginTxn native (named txn rfl)
    | change rel change answer => exact preserves_changeTxn native rel change answer
    | commit txn commitLsn => exact preserves_commitTxn native txn commitLsn

/-- Every message that a session of the native protocol hands over is one message of the documented format, in
every field, also when the session ends with an error. The origins that are forwarded have to have names whose
lengths fit a byte. -/
theorem session_wellFormed (native : data.proto = .native) (occurrences : List Occurrence)
    (named : ∀ txn, .callback (.begin txn) ∈ occurrences → Named server data txn) (cache : Output.RelMetaCache) :
    ∀ message ∈ (stateOf (decoding server data occurrences (Context.start cache))).written, WellFormed message := by
  have kept : Preserves (AllWritten WellFormed) (decoding server data occurrences) :=
    .forM fun occurrence inside => preserves_occur native fun txn same => named txn (same ▸ inside)
  exact kept (fun _ impossible => by cases impossible)

/-- A server that knows the origin of the transaction by a name. -/
def namedServer : Server := { sampleServer with replOriginByOid := fun _ => some (CString.ofString "pgl_provider") }

def forwardedOccurrences : List Occurrence :=
  [.callback (.begin remoteTxn), .callback sampleInsert, .invalidate 16400, .callback sampleInsert,
    .callback (.commit remoteTxn 110)]

theorem session_wellFormed_sample : sendsReplicationOrigin sampleOutput remoteTxn = true ∧ ∃ written,
    (stateOf (decoding namedServer sampleOutput forwardedOccurrences (Context.start fun _ => none))).written = written ∧
      ∀ message ∈ written, WellFormed message := by
  refine ⟨rfl, _, rfl, session_wellFormed rfl forwardedOccurrences (fun txn _ _ => ?_) fun _ => none⟩
  exact ⟨CString.ofString "pgl_provider", rfl, by decide⟩

end Session

end PGLogical.Format
