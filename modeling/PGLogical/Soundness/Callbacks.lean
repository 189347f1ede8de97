import PGLogical.Machine.Fallible
import PGLogical.Model.Callbacks
import PGLogical.Soundness.Disclosure

/-! # Every message has a type

A writer sends the type first and only appends after that, so a message it has filled starts with its
type. One boundary is opened without knowing that there will be a writer: the one for the origin.
-/

namespace PGLogical.Callbacks

open Machine Wire Native Json Output

/-! ## The writers append -/

theorem appends_writeColumn (catalog : Catalog) (data : Native.PGLogicalOutputData) (att : FormPgAttribute)
    (value : Option Datum) : Appends (writeColumn catalog data att value) := by
  cases value with
  | none => exact appends_binary _
  | some datum =>
    refine .ite (appends_binary _) ?_
    cases catalog.typeForm att.atttypid with
    | none => exact .throw _
    | some typclass =>
      dsimp only
      split
      · refine (appends_binary _).bind (.ite ?_ (.ite ?_ (.ite ?_ (.throw _))))
        · exact (appends_binary _).bind (appends_binary _)
        · exact (appends_binary _).bind (appends_binary _)
        · exact (appends_binary _).bind (appends_binary _)
      · exact (appends_binary _).bind (.call fun _ => (appends_binary _).bind (appends_binary _))
      · exact (appends_binary _).bind (.call fun _ => (appends_binary _).bind (appends_binary _))

theorem appends_writeColumns (catalog : Catalog) (data : Native.PGLogicalOutputData)
    (columns : List (FormPgAttribute × Option Datum)) : Appends (writeColumns catalog data columns) := by
  induction columns with
  | nil => exact .pure
  | cons column rest ih => exact (appends_writeColumn ..).bind ih

theorem appends_writeTuple (catalog : Catalog) (data : Native.PGLogicalOutputData) {desc : TupleDesc}
    (tuple : HeapTuple desc) (attList : Option Bitmapset) :
    Appends (pglogicalWriteTuple catalog data tuple attList) :=
  (appends_binary _).bind ((appends_binary _).bind (.reserve (appends_writeColumns ..)))

theorem appends_writeAttrs (identityKey : Bitmapset) (attrs : List FormPgAttribute) :
    Appends (writeAttrs identityKey attrs) := by
  induction attrs with
  | nil => exact .pure
  | cons att rest ih =>
    refine .bind ?_ ih
    exact (appends_binary _).bind ((appends_binary _).bind ((appends_binary _).bind
      ((appends_binary _).bind (appends_binary _))))

theorem appends_writeOldKey (catalog : Catalog) (data : Native.PGLogicalOutputData) (rel : Relation)
    (attList : Option Bitmapset) (oldtuple : Option (HeapTuple rel.desc)) :
    Appends (writeOldKey catalog data rel attList oldtuple) := by
  cases oldtuple with
  | none => exact .pure
  | some oldtuple => exact (appends_binary _).bind (appends_writeTuple ..)

theorem appends_jsonWriteTuple (functions : JsonFunctions) {desc : TupleDesc} (tuple : HeapTuple desc) :
    Appends (jsonWriteTuple functions tuple) := .call fun _ => appends_binary _

theorem appends_jsonWriteTuple? (functions : JsonFunctions) {desc : TupleDesc} (key : String)
    (tuple : Option (HeapTuple desc)) : Appends (jsonWriteTuple? functions key tuple) := by
  cases tuple with
  | none => exact .pure
  | some tuple => exact (appends_binary _).bind (appends_jsonWriteTuple ..)

theorem appends_jsonWriteParams (functions : JsonFunctions) (first : Bool) (msg : List (CString × CString)) :
    Appends (jsonWriteParams functions first msg) := by
  induction msg generalizing first with
  | nil => exact .pure
  | cons param rest ih =>
    have tail : Appends (do
        appendBinaryStringInfo (functions.escapeJson param.1)
        appendStringInfoString ":"
        appendBinaryStringInfo (functions.escapeJson param.2)
        jsonWriteParams functions false rest) :=
      (appends_binary _).bind ((appends_binary _).bind ((appends_binary _).bind (ih false)))
    unfold jsonWriteParams
    exact .ite ((appends_binary _).bind tail) tail

theorem appends_writeStartupParams (msg : List (CString × CString)) : Appends (writeStartupParams msg) := by
  induction msg with
  | nil => exact .pure
  | cons param rest ih => exact (appends_binary _).bind ((appends_binary _).bind ih)

/-! ## The type comes first -/

def messageTypes : List Char := ['B', 'C', 'O', 'R', 'I', 'U', 'D', 'S']

/-- The text of the first member of a JSON message. -/
def actionText (type : Char) : Bytes := text ("\"action\":\"" ++ String.singleton type ++ "\"")

/-- A message that begins with a type: a type byte, or an object with an action. -/
def Typed : PGLogicalProtoType → Bytes → Prop
  | .native, message => ∃ type ∈ messageTypes, [type.toUInt8] <+: message
  | .json, message => ∃ type ∈ messageTypes, text "\x7b" ++ actionText type <+: message

theorem not_typed_nil (proto : PGLogicalProtoType) : ¬ Typed proto [] := by
  cases proto with
  | native => simp [Typed]
  | json => simp [Typed, text]

/-- What the writer writes into an empty buffer. -/
def Yields (P : Bytes → Prop) (w : Writer Unit) : Prop := ∀ ⦃message : Bytes⦄, w [] = .ok ((), message) → P message

theorem typedWriter_native {w : Writer Unit} (type : Char) (known : type ∈ messageTypes) (rest : Appends w) :
    Yields (Typed .native) (pqSendbyte type.toUInt8 >>= fun _ => w) :=
  fun _ written => ⟨type, known, rest.begins written⟩

theorem typedWriter_json {w : Writer Unit} {data : Bytes} (type : Char) (known : type ∈ messageTypes)
    (starts : actionText type <+: data) (rest : Appends w) :
    Yields (Typed .json) (appendStringInfoString "\x7b" >>= fun _ => appendBinaryStringInfo data >>= fun _ => w) := by
  intro message written
  obtain ⟨_, middle, opened, written⟩ := bind_ok.mp written
  obtain ⟨-, rfl⟩ := appendBinaryStringInfo_ok.mp opened
  refine ⟨type, known, ?_⟩
  exact ((List.prefix_append_right_inj _).mpr starts).trans (rest.begins written)

theorem text_append (s t : String) : text (s ++ t) = text s ++ text t := by
  simp [text]

section Api

variable (server : Server) (data : PGLogicalOutputData)

theorem typed_writeBegin (txn : Json.ReorderBufferTXN) : Yields (Typed data.proto) ((api server data).writeBegin txn) := by
  unfold api
  cases data.proto with
  | native =>
    exact typedWriter_native 'B' (by decide) ((appends_binary _).bind ((appends_binary _).bind
      ((appends_binary _).bind (appends_binary _))))
  | json =>
    have originId : Appends (jsonWriteOriginId txn) := .ite (appends_binary _) .pure
    have txinfo : Appends (jsonWriteBeginTxinfo server.functions data.clientNoTxinfo txn) :=
      .ite .pure ((appends_binary _).bind ((appends_binary _).bind ((appends_binary _).bind
        (.ite (appends_binary _) .pure))))
    exact typedWriter_json 'B' (by decide) (List.prefix_refl _)
      ((appends_binary _).bind (originId.bind (txinfo.bind (appends_binary _))))

theorem typed_writeCommit (txn : Json.ReorderBufferTXN) (commitLsn : UInt64) :
    Yields (Typed data.proto) ((api server data).writeCommit txn commitLsn) := by
  unfold api
  cases data.proto with
  | native =>
    exact typedWriter_native 'C' (by decide) ((appends_binary _).bind ((appends_binary _).bind
      ((appends_binary _).bind (appends_binary _))))
  | json =>
    have txinfo : Appends (jsonWriteCommitTxinfo data.clientNoTxinfo txn) :=
      .ite .pure ((appends_binary _).bind (appends_binary _))
    exact typedWriter_json 'C' (by decide) (List.prefix_refl _) (txinfo.bind (appends_binary _))

theorem typed_writeStartupMessage :
    Yields (Typed data.proto) ((api server data).writeStartupMessage server.prepareStartupMessage) := by
  unfold api
  cases data.proto with
  | native => exact typedWriter_native 'S' (by decide) ((appends_binary _).bind (appends_writeStartupParams _))
  | json =>
    intro message written
    have begins := ((appends_jsonWriteParams server.functions true _).bind (appends_binary _)).begins written
    exact ⟨'S', by decide, List.IsPrefix.trans ⟨text ", \"params\": \x7b", by decide +kernel⟩ begins⟩

/-- The three row messages of the JSON format. -/
theorem typed_jsonWriteChange (type : Char) (known : type ∈ messageTypes) (rel : Relation)
    (oldtuple newtuple : Option (HeapTuple rel.desc)) :
    Yields (Typed .json) (pglogicalJsonWriteChange server.functions server.catalog (String.singleton type) rel
      oldtuple newtuple) := by
  refine typedWriter_json type known ?_ ((appends_jsonWriteTuple? ..).bind ((appends_jsonWriteTuple? ..).bind
    (appends_binary _)))
  have quoted : "\",\"relation\":[\"" = "\"" ++ ",\"relation\":[\"" := by decide
  rw [quoted, ← String.append_assoc, text_append, List.append_assoc, List.append_assoc, List.append_assoc,
    List.append_assoc]
  exact List.prefix_append ..

/-- The three row messages of the native format. -/
theorem typedWriter_row {w : Writer Unit} (type : Char) (known : type ∈ messageTypes) (rel : Relation)
    (rest : Appends w) : Yields (Typed .native) (writeRowHeader type rel >>= fun _ => w) := by
  rw [writeRowHeader, bind_assoc]
  refine typedWriter_native type known ?_
  rw [bind_assoc]
  exact (appends_binary _).bind ((appends_binary _).bind rest)

theorem typed_writeRel {rel : Relation} {attList : Option Bitmapset}
    {writeRel : Relation → Option Bitmapset → Writer Unit} (present : (api server data).writeRel = some writeRel) :
    Yields (Typed data.proto) (writeRel rel attList) := by
  unfold api at present
  cases proto : data.proto with
  | json =>
    rw [proto] at present
    cases present
  | native =>
    rw [proto] at present
    cases present
    refine typedWriter_native 'R' (by decide) ((appends_binary _).bind ((appends_binary _).bind ?_))
    cases server.catalog.getNamespaceName rel.relnamespace with
    | none => exact .throw _
    | some nspname =>
      have name : ∀ name : NameData, Appends (writeName name) := fun _ => (appends_binary _).bind (appends_binary _)
      exact (name _).bind ((name _).bind ((appends_binary _).bind ((appends_binary _).bind (appends_writeAttrs ..))))

theorem typed_writeInsert (rel : Relation) (newtuple : HeapTuple rel.desc) (attList : Option Bitmapset) :
    Yields (Typed data.proto) ((api server data).writeInsert rel newtuple attList) := by
  unfold api
  cases data.proto with
  | native => exact typedWriter_row 'I' (by decide) rel ((appends_binary _).bind (appends_writeTuple ..))
  | json => exact typed_jsonWriteChange server 'I' (by decide) rel none (some newtuple)

theorem typed_writeUpdate (rel : Relation) (oldtuple : Option (HeapTuple rel.desc)) (newtuple : HeapTuple rel.desc)
    (attList : Option Bitmapset) :
    Yields (Typed data.proto) ((api server data).writeUpdate rel oldtuple newtuple attList) := by
  unfold api
  cases data.proto with
  | native =>
    exact typedWriter_row 'U' (by decide) rel
      ((appends_writeOldKey ..).bind ((appends_binary _).bind (appends_writeTuple ..)))
  | json => exact typed_jsonWriteChange server 'U' (by decide) rel oldtuple (some newtuple)

theorem typed_writeDelete (rel : Relation) (oldtuple : HeapTuple rel.desc) (attList : Option Bitmapset) :
    Yields (Typed data.proto) ((api server data).writeDelete rel oldtuple attList) := by
  unfold api
  cases data.proto with
  | native => exact typedWriter_row 'D' (by decide) rel ((appends_binary _).bind (appends_writeTuple ..))
  | json => exact typed_jsonWriteChange server 'D' (by decide) rel (some oldtuple) none

theorem typed_rowWriter? {rel : Relation} {change : ReorderBufferChange (HeapTuple rel.desc)}
    {attList : Option Bitmapset} {writer : Writer Unit}
    (chosen : rowWriter? server data rel change attList = some writer) : Yields (Typed data.proto) writer := by
  unfold rowWriter? at chosen
  split at chosen
  · obtain ⟨newtuple, -, rfl⟩ := Option.map_eq_some_iff.mp chosen
    exact typed_writeInsert ..
  · obtain ⟨newtuple, -, rfl⟩ := Option.map_eq_some_iff.mp chosen
    exact typed_writeUpdate ..
  · obtain ⟨oldtuple, -, rfl⟩ := Option.map_eq_some_iff.mp chosen
    exact typed_writeDelete ..
  · cases chosen

end Api

/-! ## The callbacks -/

def AllWritten (P : Bytes → Prop) (ctx : Context) : Prop := ∀ message ∈ ctx.written, P message

variable {P : Bytes → Prop} {ctx : Context} {w : Writer Unit} {k : Unit → CallbackM Unit}
  {server : Server} {data : PGLogicalOutputData} {txn : Json.ReorderBufferTXN}

/-- A boundary is opened and the buffer is filled. -/
theorem filled_eq (ctx : Context) :
    (outputPluginPrepareWrite >>= fun _ => fill w >>= k) ctx =
      match w [] with
      | .ok ((), out) => k () { ctx with preparedWrite := true, out }
      | .error message => .error message { ctx with preparedWrite := true, out := [] } := by
  cases written : w [] with
  | error message =>
    simp [outputPluginPrepareWrite, fill, run_modify, bind, EStateM.bind, written]
  | ok result =>
    simp [outputPluginPrepareWrite, fill, run_modify, bind, EStateM.bind, written]

theorem AllWritten.write (before : AllWritten P ctx) (yields : P ctx.out) :
    AllWritten P (stateOf (outputPluginWrite ctx)) := by
  unfold outputPluginWrite
  split
  · intro message inside
    rcases List.mem_append.mp inside with earlier | now
    · exact before message earlier
    · rwa [List.mem_singleton.mp now]
  · exact before

/-- A message is as its writer yields it if the buffer is left alone until the end. -/
theorem preserves_filled (yields : Yields P w)
    (rest : ∀ {ctx : Context}, AllWritten P ctx → P ctx.out → AllWritten P (stateOf (k () ctx))) :
    Preserves (AllWritten P) (outputPluginPrepareWrite >>= fun _ => fill w >>= k) := by
  intro ctx before
  rw [filled_eq]
  cases written : w [] with
  | error message => exact before
  | ok result => exact rest before (yields written)

theorem preserves_message (yields : Yields P w) :
    Preserves (AllWritten P) (do outputPluginPrepareWrite; fill w; outputPluginWrite) :=
  preserves_filled yields fun before filled => before.write filled

theorem sendStartupMessageOnce_of_sent (sent : ctx.startupMessageSent = true) :
    sendStartupMessageOnce server data ctx = .ok () ctx := by
  simp [sendStartupMessageOnce, run_get, bind, EStateM.bind, sent, pure, EStateM.pure]

theorem sendStartupMessageOnce_of_unsent (unsent : ctx.startupMessageSent = false) :
    sendStartupMessageOnce server data ctx = sendStartupMessage server data ctx := by
  simp [sendStartupMessageOnce, run_get, bind, EStateM.bind, unsent]

theorem preserves_sendStartupMessageOnce :
    Preserves (AllWritten (Typed data.proto)) (sendStartupMessageOnce server data) := by
  have send : Preserves (AllWritten (Typed data.proto)) (sendStartupMessage server data) :=
    preserves_filled (typed_writeStartupMessage server data) fun before filled =>
      Preserves.after (fun _ _ sent => sent) (before.write filled)
  intro ctx before
  cases sent : ctx.startupMessageSent with
  | true =>
    rw [sendStartupMessageOnce_of_sent sent]
    exact before
  | false =>
    rw [sendStartupMessageOnce_of_unsent sent]
    exact send before

/-- A boundary is opened for an origin that nobody writes. -/
def Unnamed (server : Server) (data : PGLogicalOutputData) (txn : Json.ReorderBufferTXN) : Prop :=
  data.forwardChangesetOrigins = true ∧ txn.originId ≠ Json.invalidRepOriginId ∧
    (data.proto = .json ∨ server.replOriginByOid txn.originId = none)

theorem sendsReplicationOrigin_iff : sendsReplicationOrigin data txn = true ↔
    data.forwardChangesetOrigins = true ∧ txn.originId ≠ Json.invalidRepOriginId := by
  simp [sendsReplicationOrigin]

theorem writeOrigin?_of_unnamed (unnamed : Unnamed server data txn) : writeOrigin? server data txn = pure () := by
  obtain ⟨-, -, json | unknown⟩ := unnamed
  · simp [writeOrigin?, api, json, pglogicalInitApi]
  · unfold writeOrigin?
    rw [unknown]
    split <;> first | rfl | contradiction

theorem typed_writeOrigin? (sends : sendsReplicationOrigin data txn = true) (named : ¬ Unnamed server data txn) :
    Yields (Typed data.proto) (writeOrigin? server data txn) := by
  obtain ⟨forwarded, remote⟩ := sendsReplicationOrigin_iff.mp sends
  cases proto : data.proto with
  | json => exact absurd ⟨forwarded, remote, .inl proto⟩ named
  | native =>
    cases found : server.replOriginByOid txn.originId with
    | none => exact absurd ⟨forwarded, remote, .inr found⟩ named
    | some origin =>
      have writer : writeOrigin? server data txn = pglogicalWriteOrigin origin txn.originLsn := by
        simp [writeOrigin?, api, proto, pglogicalInitApi, found]
      rw [writer]
      exact typedWriter_native 'O' (by decide) ((appends_binary _).bind ((appends_binary _).bind
        ((appends_binary _).bind (appends_binary _))))

/-- What `pg_decode_begin_txn` writes itself. -/
def sendBegin (server : Server) (data : PGLogicalOutputData) (txn : Json.ReorderBufferTXN) : CallbackM Unit := do
  outputPluginPrepareWrite
  fill ((api server data).writeBegin txn)
  originBoundary server data txn
  outputPluginWrite

theorem preserves_sendBegin (begins : Yields P ((api server data).writeBegin txn))
    (origin : sendsReplicationOrigin data txn = true → Yields P (writeOrigin? server data txn)) :
    Preserves (AllWritten P) (sendBegin server data txn) := by
  refine preserves_filled begins fun before filled => ?_
  unfold originBoundary
  split
  · next sends =>
    simp only [bind_assoc]
    exact Preserves.after (fun _ => preserves_message (origin sends)) (before.write filled)
  · rw [pure_bind]
    exact before.write filled

theorem preserves_begin (named : ¬ Unnamed server data txn) :
    Preserves (AllWritten (Typed data.proto)) (pgDecodeBeginTxn server data txn) :=
  preserves_sendStartupMessageOnce.bind fun _ =>
    preserves_sendBegin (typed_writeBegin server data txn) fun sends => typed_writeOrigin? sends named

theorem preserves_change (rel : Relation) (change : ReorderBufferChange (HeapTuple rel.desc))
    (answer : Option (Option Bitmapset)) :
    Preserves (AllWritten (Typed data.proto)) (pgDecodeChange server data rel change answer) := by
  cases answer with
  | none => exact .pure ()
  | some attList =>
    refine .bind ?_ fun _ => ?_
    · unfold sendRelationOnce
      split
      · exact .pure ()
      · next writeRel present =>
        refine .bind (fun _ before => before) fun hit => ?_
        cases hit with
        | true => exact .pure ()
        | false =>
          refine preserves_filled (typed_writeRel server data present) fun {ctx} before filled => ?_
          have cached : AllWritten (Typed data.proto) { ctx with cache := setCached ctx.cache rel.relid } := before
          exact cached.write filled
    · cases chosen : rowWriter? server data rel change attList with
      | none => exact .pure ()
      | some writer => exact preserves_message (typed_rowWriter? server data chosen)

theorem preserves_call {callback : Callback} (named : ∀ txn, callback = .begin txn → ¬ Unnamed server data txn) :
    Preserves (AllWritten (Typed data.proto)) (call server data callback) := by
  cases callback with
  | begin txn => exact preserves_begin (named txn rfl)
  | change rel change answer => exact preserves_change rel change answer
  | commit txn commitLsn =>
    exact preserves_filled (typed_writeCommit server data txn commitLsn) fun before filled =>
      Preserves.after (fun _ _ sent => sent) (before.write filled)

/-! ## The empty message -/

theorem length_text (s : String) : (text s).length = s.length := by
  simp [text, String.length]

theorem length_decimal {n : ℕ} (small : n < 2 ^ 32) : (Json.decimal n).length ≤ 10 := by
  have digits := (Nat.length_toDigits_le_iff (b := 10) (n := n) (k := 10) (by decide) (by decide)).mpr (by omega)
  simpa [Json.decimal, String.length] using digits

theorem length_lsnText (lsn : UInt64) : (lsnText lsn).length ≤ 17 := by
  have digits : ∀ {n : ℕ}, n < 2 ^ 32 → (hex n).length ≤ 8 := by
    intro n small
    have digits := (Nat.length_toDigits_le_iff (b := 16) (n := n) (k := 8) (by decide) (by decide)).mpr (by omega)
    simpa [hex, String.length] using digits
  have high := digits (n := lsn.toNat / 2 ^ 32) (by have := lsn.toNat_lt; omega)
  have low := digits (n := lsn.toNat % 2 ^ 32) (Nat.mod_lt _ (by decide))
  rw [lsnText, String.length_append, String.length_append]
  have slash : "/".length = 1 := rfl
  omega

theorem fits_text {s : String} {size : ℕ} (small : s.length ≤ size) : Fits size (appendStringInfoString s) :=
  fits_binary (by rwa [length_text])

/-- A member of the object, with the quotation mark behind it. -/
theorem fits_member {key value : String} (short : key.length ≤ 32) (small : value.length ≤ 17) :
    Fits 50 (appendStringInfoString (key ++ value ++ "\"")) := by
  refine fits_text ?_
  rw [String.length_append, String.length_append]
  have quote : "\"".length = 1 := rfl
  omega

/-- BEGIN always fits. -/
theorem exists_writeBegin (server : Server) (data : PGLogicalOutputData) (txn : Json.ReorderBufferTXN) :
    ∃ message, (api server data).writeBegin txn [] = .ok ((), message) := by
  unfold api
  cases data.proto with
  | native =>
    have fits : Fits (1 + (1 + (8 + (8 + 4)))) (pglogicalWriteBegin txn.toReorderBufferTXN) :=
      (fits_byte _).bind ((fits_byte _).bind ((fits_int64 _).bind ((fits_int64 _).bind (fits_int _ 4))))
    obtain ⟨message, written, -⟩ := @fits [] (by decide)
    exact ⟨message, written⟩
  | json =>
    have originId : Fits 50 (jsonWriteOriginId txn) :=
      .ite (fits_member (by decide) (le_trans (length_decimal (by have := txn.originId.toNat_lt; omega)) (by decide)))
        .pure
    have commitTime : Fits 200 (jsonWriteCommitTime server.functions txn) := by
      refine .ite (fits_binary ?_) .pure
      have bounded := (server.functions.timestamptzToStr txn.commitTime).property
      simp only [List.length_append, length_text]
      have key : ", \"commit_time\":\"".length = 17 := rfl
      have quote : "\"".length = 1 := rfl
      unfold maxDateLen at bounded
      omega
    have txinfo : Fits (50 + (50 + (50 + 200))) (jsonWriteBeginTxinfo server.functions data.clientNoTxinfo txn) :=
      .ite .pure ((fits_member (by decide) (le_trans (length_decimal txn.xid.toNat_lt) (by decide))).bind
        ((fits_member (by decide) (length_lsnText _)).bind
          ((fits_member (by decide) (length_lsnText _)).bind commitTime)))
    have flag : (if txn.hasCatalogChanges then "t" else "f").length ≤ 17 := by
      split <;> decide
    have fits : Fits (1 + (12 + (50 + (50 + ((50 + (50 + (50 + 200))) + 1)))))
        (pglogicalJsonWriteBegin server.functions data.clientNoTxinfo txn) :=
      (fits_text (by decide)).bind ((fits_text (by decide)).bind ((fits_member (by decide) flag).bind
        (originId.bind (txinfo.bind (fits_text (by decide))))))
    obtain ⟨message, written, -⟩ := @fits [] (by decide)
    exact ⟨message, written⟩

/-- The startup message is out, or can be written. -/
def StartupReady (server : Server) (data : PGLogicalOutputData) (ctx : Context) : Prop :=
  ctx.startupMessageSent = true ∨
    ∃ message, (api server data).writeStartupMessage server.prepareStartupMessage [] = .ok ((), message)

theorem exists_sendStartupMessageOnce (ready : StartupReady server data ctx) :
    ∃ after, sendStartupMessageOnce server data ctx = .ok () after := by
  cases sent : ctx.startupMessageSent with
  | true => exact ⟨ctx, sendStartupMessageOnce_of_sent sent⟩
  | false =>
    obtain ⟨message, written⟩ := ready.resolve_left (by simp [sent])
    rw [sendStartupMessageOnce_of_unsent sent, sendStartupMessage, filled_eq, written]
    exact ⟨_, rfl⟩

theorem sendBegin_of_unnamed (unnamed : Unnamed server data txn) (ctx : Context) :
    ∃ after message, sendBegin server data txn ctx = .ok () after ∧ after.written = ctx.written ++ [message] ++ [[]] := by
  obtain ⟨message, written⟩ := exists_writeBegin server data txn
  have sends : sendsReplicationOrigin data txn = true := sendsReplicationOrigin_iff.mpr ⟨unnamed.1, unnamed.2.1⟩
  rw [sendBegin, filled_eq, written]
  simp only [originBoundary, sends, if_true, bind_assoc, writeOrigin?_of_unnamed unnamed]
  exact ⟨_, message, rfl, rfl⟩

theorem empty_message_of_unnamed (unnamed : Unnamed server data txn) (ready : StartupReady server data ctx) :
    [] ∈ (stateOf (pgDecodeBeginTxn server data txn ctx)).written := by
  obtain ⟨mid, started⟩ := exists_sendStartupMessageOnce ready
  obtain ⟨after, message, begun, written⟩ := sendBegin_of_unnamed unnamed mid
  have whole : pgDecodeBeginTxn server data txn ctx = .ok () after := run_bind_eq_ok.mpr ⟨(), mid, started, begun⟩
  rw [whole]
  show [] ∈ after.written
  rw [written]
  simp

/-! ## The other side of the wire -/

section Receiver

variable (session : Native.Session) (hash : PGLogicalRelationHash) (scratch : PGLogicalTupleData)

/-- `replication_handler` can read the message. -/
def Accepted (message : Bytes) : Prop :=
  ∃ result rest, readMessage session hash scratch message = .ok (result, rest)

theorem not_accepted_nil : ¬ Accepted session hash scratch [] := by
  rintro ⟨result, rest, read⟩
  cases read

theorem accepted_begin (txn : Native.ReorderBufferTXN) :
    Yields (Accepted session hash scratch) (pglogicalWriteBegin txn) := by
  intro message written
  obtain ⟨_, result, rfl, -, reads⟩ := (decodes_begin session hash scratch txn).roundTrip [] message written
  exact ⟨result, [], reads⟩

/-- The length of a long name is cut to a byte; less than the name is read then. -/
theorem accepted_origin (origin : CString) (originLsn : UInt64) :
    Yields (Accepted session hash scratch) (pglogicalWriteOrigin origin originLsn) := by
  intro message written
  obtain ⟨_, _, type, written⟩ := bind_ok.mp written
  obtain ⟨_, _, flags, written⟩ := bind_ok.mp written
  obtain ⟨_, _, lsn, written⟩ := bind_ok.mp written
  obtain ⟨_, _, len, written⟩ := bind_ok.mp written
  obtain ⟨-, rfl⟩ := appendBinaryStringInfo_ok.mp type
  obtain ⟨-, rfl⟩ := appendBinaryStringInfo_ok.mp flags
  obtain ⟨bytes, value, rfl, -, readLsn⟩ := decodes_lsn originLsn lsn
  obtain ⟨-, rfl⟩ := appendBinaryStringInfo_ok.mp len
  obtain ⟨-, rfl⟩ := appendBinaryStringInfo_ok.mp written
  have enough : (UInt8.ofNat (origin.strlen + 1)).toNat ≤ origin.terminated.length := by
    rw [UInt8.toNat_ofNat', origin.length_terminated]
    exact Nat.mod_le _ _
  obtain ⟨⟨copy, left⟩, copied⟩ :
      ∃ result, pqGetmsgbytes (UInt8.ofNat (origin.strlen + 1)).toNat origin.terminated = .ok result := by
    rw [pqGetmsgbytes, if_neg (by omega)]
    exact ⟨_, rfl⟩
  have read : pglogicalReadOrigin ([0] ++ (bytes ++ ([UInt8.ofNat (origin.strlen + 1)] ++ origin.terminated))) =
      .ok ((value, CString.ofBytes copy), left) :=
    bind_ok.mpr ⟨0, _, rfl, bind_ok.mpr ⟨value, _, readLsn _, bind_ok.mpr ⟨_, _, rfl,
      bind_ok.mpr ⟨_, _, copied, rfl⟩⟩⟩⟩
  refine ⟨(.origin value (CString.ofBytes copy), hash), left, bind_ok.mpr ⟨'O'.toUInt8,
    [0] ++ (bytes ++ ([UInt8.ofNat (origin.strlen + 1)] ++ origin.terminated)),
    by simp only [List.append_assoc, List.nil_append, List.singleton_append]; rfl, ?_⟩⟩
  rw [if_neg (by decide), if_neg (by decide), if_pos rfl]
  exact bind_ok.mpr ⟨_, _, read, rfl⟩

end Receiver

/-! ## What is emitted -/

/-- The messages a callback writes. -/
def messagesOf (m : CallbackM Unit) (ctx : Context) : List Bytes := (stateOf (m { ctx with written := [] })).written

/-- A callback that opens a boundary for an origin and then has nothing to write. -/
def OpensUnnamed (server : Server) (data : PGLogicalOutputData) (ctx : Context) (callback : Callback) : Prop :=
  ∃ txn, callback = .begin txn ∧ Unnamed server data txn ∧ StartupReady server data ctx

theorem AllWritten.start (ctx : Context) : AllWritten P { ctx with written := [] } := fun _ inside => by cases inside

/-- If the startup message cannot be written, nothing is. -/
theorem messagesOf_of_unready (unready : ¬ StartupReady server data ctx) :
    messagesOf (pgDecodeBeginTxn server data txn) ctx = [] := by
  obtain ⟨unsent, fails⟩ := not_or.mp unready
  cases written : (api server data).writeStartupMessage server.prepareStartupMessage [] with
  | ok result => exact absurd ⟨result.2, written⟩ fails
  | error message =>
    have once : sendStartupMessageOnce server data { ctx with written := [] } =
        .error message { ctx with preparedWrite := true, out := [], written := [] } := by
      rw [sendStartupMessageOnce_of_unsent (by simpa using unsent), sendStartupMessage, filled_eq, written]
    simp only [messagesOf, pgDecodeBeginTxn, bind, EStateM.bind, once]
    rfl

theorem typed_iff (ctx : Context) (callback : Callback) :
    (∀ message ∈ messagesOf (call server data callback) ctx, Typed data.proto message) ↔
      ¬ OpensUnnamed server data ctx callback := by
  constructor
  · rintro typed ⟨txn, rfl, unnamed, ready⟩
    exact not_typed_nil _ (typed [] (empty_message_of_unnamed unnamed ready))
  · intro opens
    cases callback with
    | begin txn =>
      by_cases unnamed : Unnamed server data txn
      · have unready : ¬ StartupReady server data ctx := fun ready => opens ⟨txn, rfl, unnamed, ready⟩
        change ∀ message ∈ messagesOf (pgDecodeBeginTxn server data txn) ctx, _
        rw [messagesOf_of_unready unready]
        exact fun _ inside => by cases inside
      · exact preserves_begin unnamed (.start ctx)
    | change rel change answer => exact preserves_change rel change answer (.start ctx)
    | commit txn commitLsn => exact preserves_call (fun _ other => by cases other) (.start ctx)

/-- A session whose named transactions can be named writes typed messages only. -/
theorem session_typed {callbacks : List Callback}
    (named : ∀ txn, .begin txn ∈ callbacks → ¬ Unnamed server data txn) (ctx : Context) :
    ∀ message ∈ messagesOf (session server data callbacks) ctx, Typed data.proto message := by
  have kept : Preserves (AllWritten (Typed data.proto)) (session server data callbacks) :=
    .forM fun callback inside => preserves_call fun txn same => named txn (same ▸ inside)
  exact kept (.start ctx)

/-- The BEGIN of a session in native format, with the startup message out, is accepted exactly if its origin
can be named. -/
theorem accepted_iff (reader : Native.Session) (hash : PGLogicalRelationHash) (scratch : PGLogicalTupleData)
    (native : data.proto = .native) (sent : ctx.startupMessageSent = true) :
    (∀ message ∈ messagesOf (pgDecodeBeginTxn server data txn) ctx, Accepted reader hash scratch message) ↔
      ¬ Unnamed server data txn := by
  constructor
  · intro accepted unnamed
    exact not_accepted_nil reader hash scratch (accepted [] (empty_message_of_unnamed unnamed (.inl sent)))
  · intro named
    have begins : Yields (Accepted reader hash scratch) ((api server data).writeBegin txn) := by
      unfold api
      rw [native]
      exact accepted_begin reader hash scratch txn.toReorderBufferTXN
    have origin : sendsReplicationOrigin data txn = true →
        Yields (Accepted reader hash scratch) (writeOrigin? server data txn) := by
      intro sends
      obtain ⟨forwarded, remote⟩ := sendsReplicationOrigin_iff.mp sends
      cases found : server.replOriginByOid txn.originId with
      | none => exact absurd ⟨forwarded, remote, .inr found⟩ named
      | some name =>
        have writer : writeOrigin? server data txn = pglogicalWriteOrigin name txn.originLsn := by
          simp [writeOrigin?, api, native, pglogicalInitApi, found]
        rw [writer]
        exact accepted_origin reader hash scratch name txn.originLsn
    have whole : messagesOf (pgDecodeBeginTxn server data txn) ctx = messagesOf (sendBegin server data txn) ctx := by
      have once := @sendStartupMessageOnce_of_sent { ctx with written := [] } server data sent
      simp only [messagesOf, pgDecodeBeginTxn, sendBegin, bind, EStateM.bind, once]
    rw [whole]
    exact preserves_sendBegin begins origin (.start ctx)

/-- A callback writes only messages that begin with a type, unless it is the BEGIN of a transaction whose
origin is to be forwarded and cannot be named. The same holds over a session, and decides in native format
whether the receiver accepts what a BEGIN writes. -/
theorem emitted_messages_typed (server : Server) (data : PGLogicalOutputData) (ctx : Context) :
    (∀ callback, (∀ message ∈ messagesOf (call server data callback) ctx, Typed data.proto message) ↔
      ¬ OpensUnnamed server data ctx callback) ∧
    (∀ callbacks, (∀ txn, .begin txn ∈ callbacks → ¬ Unnamed server data txn) →
      ∀ message ∈ messagesOf (session server data callbacks) ctx, Typed data.proto message) ∧
    (data.proto = .native → ctx.startupMessageSent = true → ∀ reader hash scratch txn,
      (∀ message ∈ messagesOf (pgDecodeBeginTxn server data txn) ctx, Accepted reader hash scratch message) ↔
        ¬ Unnamed server data txn) :=
  ⟨typed_iff ctx, fun _ named => session_typed named ctx,
    fun native sent reader hash scratch _ => accepted_iff reader hash scratch native sent⟩

/-- A provider that cannot name any origin. -/
def sampleServer : Server := ⟨sampleCatalog, sampleFunctions, fun _ => none, [(⟨[107], by decide⟩, ⟨[118], by decide⟩)]⟩

def sampleOutput : PGLogicalOutputData := ⟨⟨false, false⟩, false, true, .native⟩

def remoteTxn : Json.ReorderBufferTXN := ⟨⟨7, 100, 120, 5⟩, false, 1, 90, 80⟩

def localTxn : Json.ReorderBufferTXN := { remoteTxn with originId := Json.invalidRepOriginId }

def startedContext : Context := { Context.start (fun _ => none) with startupMessageSent := true }

theorem emitted_messages_typed_local :
    ∀ message ∈ messagesOf (session sampleServer sampleOutput [.begin localTxn, .commit localTxn 110]) startedContext,
      Typed .native message := by
  refine (emitted_messages_typed sampleServer sampleOutput startedContext).2.1 _ ?_
  intro txn inside unnamed
  rcases List.mem_cons.mp inside with same | inside
  · cases same
    exact unnamed.2.1 rfl
  · simp at inside

/-- The transaction of a remote origin without a name: an empty message follows BEGIN, and the receiver
fails on it. -/
theorem empty_origin_message :
    messagesOf (pgDecodeBeginTxn sampleServer sampleOutput remoteTxn) startedContext =
      [[66, 0, 0, 0, 0, 0, 0, 0, 0, 100, 0, 0, 0, 0, 0, 0, 0, 5, 0, 0, 0, 7], []] ∧
    ¬ Typed .native [] ∧
    ∀ reader hash scratch, readMessage reader hash scratch [] = .error "no data left in message" :=
  ⟨by decide +kernel, not_typed_nil _, fun _ _ _ => rfl⟩

end PGLogical.Callbacks
