import PGLogical.Soundness.QueueMessage
import PGLogical.Wire.JsonText
import Mathlib.Data.List.Sort

/-! # Queued messages come back

Whatever is queued, the receiver does what was announced. JSON text that is put together by hand
becomes an object with the same strings in some order, and the parsers find each of them under its
name. What is used of PostgreSQL's JSON input and of its arrays of text is stated as a structure of
laws, which JSON text of strings and objects of strings satisfies.
-/

namespace PGLogical.Queue

open Wire Machine

/-! ## Laws -/

namespace JsonFunctions

variable (json : JsonFunctions)

/-- The text of a string: escaped, or between quotation marks where nothing has to be. -/
def Text (text : Bytes) (s : CString) : Prop :=
  text = json.escapeJson s.val ∨
    (∀ b ∈ s.val, isPlain b = true) ∧ text = quotationMark :: s.val ++ [quotationMark]

/-- Both input functions accept a text, and the second one gives such a value. -/
def Accepts (text : Bytes) (value : Jsonb → Prop) : Prop :=
  json.jsonIn text = .ok () ∧ ∃ message, json.jsonbIn text = .ok message ∧ value message

/-- What escaping and input of JSON have to do with each other. An object may have its keys reordered. -/
structure Restores : Prop where
  string : ∀ s : CString, json.Accepts (json.escapeJson s.val) fun message => message.root = .scalar (.string s)
  object : ∀ members : List (CString × Bytes × CString), (∀ member ∈ members, ∀ b ∈ member.1.val, isPlain b = true) →
    (members.map Prod.fst).Nodup → (∀ member ∈ members, json.Text member.2.1 member.2.2) →
    json.Accepts (objectText (members.map fun member => (member.1.val, member.2.1)))
      fun message => message.Holds (members.map fun member => (member.1, member.2.2))

end JsonFunctions

/-- Arrays of text are read as the list that they were made of. -/
structure ArrayFunctions.Restores {TextArray : Type} (arrays : ArrayFunctions TextArray) : Prop where
  list : ∀ names, arrays.textarrayToList (arrays.strlistToTextarray names) = names

/-! ## Texts of messages -/

theorem plain_names : ∀ name ∈ [schemaName, tableName, sequenceName, lastValue], ∀ b ∈ name.val, isPlain b = true := by
  decide +kernel

/-- The text of a value, without quotation marks. -/
def valueText (value : Int64) : CString :=
  ⟨decimalInt value.toInt, by
    intro inside
    unfold decimalInt at inside
    split at inside
    · obtain zero | digit := List.mem_cons.mp inside
      · exact absurd zero (by decide)
      · exact absurd (isDigit_of_mem_decimal digit) (by decide)
    · exact absurd (isDigit_of_mem_decimal inside) (by decide)⟩

theorem plain_valueText (value : Int64) : ∀ b ∈ (valueText value).val, isPlain b = true := by
  have digits : ∀ b : UInt8, isDigit b = true → isPlain b = true := by
    intro b digit
    simp only [isDigit, isPlain, quotationMark, backslash, Bool.and_eq_true, decide_eq_true_eq, bne_iff_ne, ne_eq,
      UInt8.le_iff_toNat_le, UInt8.lt_iff_toNat_lt, ← UInt8.toNat_inj, UInt8.reduceToNat] at digit ⊢
    omega
  intro b inside
  change b ∈ decimalInt value.toInt at inside
  unfold decimalInt at inside
  split at inside
  · obtain rfl | digit := List.mem_cons.mp inside
    · decide
    · exact digits b (isDigit_of_mem_decimal digit)
  · exact digits b (isDigit_of_mem_decimal inside)

section Messages

variable (json : JsonFunctions)

theorem relationText_eq (nspname relname : CString) : relationText json nspname relname =
    objectText [(schemaName.val, json.escapeJson nspname.val), (tableName.val, json.escapeJson relname.val)] := by
  have front : ascii "\x7b\"schema_name\": " = leftBrace :: quotationMark :: schemaName.val ++
      [quotationMark, colon, 32] := by decide
  have middle : ascii ",\"table_name\": " = comma :: quotationMark :: tableName.val ++
      [quotationMark, colon, 32] := by decide
  have last : ascii "\x7d" = [rightBrace] := by decide
  rw [relationText, front, middle, last]
  simp [objectText, memberText, List.intercalate_cons_cons]

theorem sequenceText_eq (nspname relname : CString) (value : Int64) : sequenceText json nspname relname value =
    objectText [(schemaName.val, json.escapeJson nspname.val), (sequenceName.val, json.escapeJson relname.val),
      (lastValue.val, quotationMark :: (valueText value).val ++ [quotationMark])] := by
  have front : ascii "\x7b\"schema_name\": " = leftBrace :: quotationMark :: schemaName.val ++
      [quotationMark, colon, 32] := by decide
  have middle : ascii ",\"sequence_name\": " = comma :: quotationMark :: sequenceName.val ++
      [quotationMark, colon, 32] := by decide +kernel
  have number : ascii ",\"last_value\": \"" = comma :: quotationMark :: lastValue.val ++
      [quotationMark, colon, 32, quotationMark] := by decide +kernel
  have mark : ascii "\"" = [quotationMark] := by decide
  have last : ascii "\x7d" = [rightBrace] := by decide
  rw [sequenceText, front, middle, number, mark, last]
  simp [objectText, memberText, List.intercalate_cons_cons, valueText]

variable {json} (restores : json.Restores)

include restores

/-- An object with keys of the queue has the strings of its members. -/
theorem accepts_members (members : List (CString × Bytes × CString))
    (listed : ∀ member ∈ members, member.1 ∈ [schemaName, tableName, sequenceName, lastValue])
    (distinct : (members.map Prod.fst).Nodup) (texts : ∀ member ∈ members, json.Text member.2.1 member.2.2) :
    json.Accepts (objectText (members.map fun member => (member.1.val, member.2.1)))
      fun message => message.Holds (members.map fun member => (member.1, member.2.2)) :=
  restores.object members (fun member inside => plain_names member.1 (listed member inside)) distinct texts

theorem accepts_relationText (nspname relname : CString) :
    json.Accepts (relationText json nspname relname) fun message =>
      parseRelationMessage message = .ok (nspname, relname) := by
  have names : [schemaName, tableName].Nodup := by decide
  obtain ⟨accepted, message, read, holds⟩ := accepts_members restores
    [(schemaName, json.escapeJson nspname.val, nspname), (tableName, json.escapeJson relname.val, relname)]
    (by simp) names (by simp [JsonFunctions.Text])
  rw [relationText_eq]
  exact ⟨accepted, message, read, (relationMessage_iff.mp holds).1⟩

theorem accepts_sequenceText (nspname relname : CString) (value : Int64) :
    json.Accepts (sequenceText json nspname relname value) fun message =>
      parseSequenceMessage message = .ok (nspname, relname, valueText value) := by
  have names : [schemaName, sequenceName, lastValue].Nodup := by decide
  obtain ⟨accepted, message, read, holds⟩ := accepts_members restores
    [(schemaName, json.escapeJson nspname.val, nspname), (sequenceName, json.escapeJson relname.val, relname),
      (lastValue, quotationMark :: (valueText value).val ++ [quotationMark], valueText value)]
    (by simp) names (by
      have number : json.Text (quotationMark :: (valueText value).val ++ [quotationMark]) (valueText value) :=
        .inr ⟨plain_valueText value, rfl⟩
      simpa [JsonFunctions.Text] using number)
  rw [sequenceText_eq]
  exact ⟨accepted, message, read, (holds_sequence_iff.mp holds).1⟩

theorem accepts_query (query : CString) :
    json.Accepts (json.escapeJson query.val) fun message => parseSqlMessage message = .ok query := by
  obtain ⟨accepted, message, read, root⟩ := restores.string query
  refine ⟨accepted, message, read, ?_⟩
  simp [parseSqlMessage, Jsonb.rootIsScalar, Jsonb.tokens, root]

end Messages

/-! ## Announcements -/

/-- What the parsers find in the message of an announcement. -/
def Announcement.Decoded (here : Subscriber) (message : Jsonb) : Announcement → Prop
  | .addTable _ nspname relname => parseRelationMessage message = .ok (nspname, relname)
  | .finishTruncate _ nspname relname => parseRelationMessage message = .ok (nspname, relname)
  | .addSequence _ nspname relname value => ∃ text,
      parseSequenceMessage message = .ok (nspname, relname, text) ∧ scanint8 here.locale text = .ok value
  | .synchronizeSequence _ nspname relname value => ∃ text,
      parseSequenceMessage message = .ok (nspname, relname, text) ∧ scanint8 here.locale text = .ok value
  | .replicateDdlCommand _ query => parseSqlMessage message = .ok query

/-- `setval` for a sequence that is looked up by its name. -/
def setSequence (here : Subscriber) (nspname relname : CString) (value : Int64) : ApplyM Unit := do
  let nspoid ← ofExcept (here.getNamespaceOid nspname)
  ofExcept (here.setvalOid (here.getRelnameRelid relname nspoid) value)
  perform (.setval (here.getRelnameRelid relname nspoid) value)

/-- What an announcement asks of the subscriber. -/
def Announcement.carryOut (here : Subscriber) (role : CString) (txJustStarted : Bool) : Announcement → ApplyM Unit
  | .addTable _ nspname relname =>
      if here.hasTableSyncStatus nspname relname then pure () else perform (.synchronize nspname relname)
  | .finishTruncate _ nspname relname =>
      if here.checkSyncingRelation nspname relname then pure () else perform (.truncateTable nspname relname)
  | .addSequence _ nspname relname value => setSequence here nspname relname value
  | .synchronizeSequence _ nspname relname value => setSequence here nspname relname value
  | .replicateDdlCommand _ query => perform (.executeSqlCommand query role txJustStarted)

theorem Announcement.accepts {json : JsonFunctions} (restores : json.Restores) (announcement : Announcement) :
    json.Accepts (announcement.text json) fun message => ∀ here, announcement.Decoded here message := by
  have sequence : ∀ nspname relname value, json.Accepts (sequenceText json nspname relname value) fun message =>
      ∀ here : Subscriber, ∃ text, parseSequenceMessage message = .ok (nspname, relname, text) ∧
        scanint8 here.locale text = .ok value := by
    intro nspname relname value
    obtain ⟨accepted, message, read, parsed⟩ := accepts_sequenceText restores nspname relname value
    exact ⟨accepted, message, read, fun here => ⟨valueText value, parsed, scanint8_decimalInt here.locale value rfl⟩⟩
  cases announcement with
  | addTable repset nspname relname =>
    obtain ⟨accepted, message, read, parsed⟩ := accepts_relationText restores nspname relname
    exact ⟨accepted, message, read, fun _ => parsed⟩
  | finishTruncate repsetNames nspname relname =>
    obtain ⟨accepted, message, read, parsed⟩ := accepts_relationText restores nspname relname
    exact ⟨accepted, message, read, fun _ => parsed⟩
  | addSequence repset nspname relname last => exact sequence nspname relname last
  | synchronizeSequence repsetNames nspname relname last => exact sequence nspname relname last
  | replicateDdlCommand replicationSets query =>
    obtain ⟨accepted, message, read, parsed⟩ := accepts_query restores query
    exact ⟨accepted, message, read, fun _ => parsed⟩

section Handlers

variable {here : Subscriber} {queuedMessage : QueuedMessage} {nspname relname : CString}

theorem handleTableSync_eq (parsed : parseRelationMessage queuedMessage.message = .ok (nspname, relname)) :
    handleTableSync here queuedMessage =
      if here.hasTableSyncStatus nspname relname then pure () else perform (.synchronize nspname relname) := by
  rw [handleTableSync, parsed]
  rfl

theorem handleTruncate_eq (parsed : parseRelationMessage queuedMessage.message = .ok (nspname, relname)) :
    handleTruncate here queuedMessage =
      if here.checkSyncingRelation nspname relname then pure () else perform (.truncateTable nspname relname) := by
  rw [handleTruncate, parsed]
  rfl

theorem handleSequence_eq {text : CString} {value : Int64}
    (parsed : parseSequenceMessage queuedMessage.message = .ok (nspname, relname, text))
    (denotes : scanint8 here.locale text = .ok value) :
    handleSequence here queuedMessage = setSequence here nspname relname value := by
  rw [handleSequence, parsed, setSequence]
  change (ofExcept (here.getNamespaceOid nspname) >>= fun nspoid =>
    ofExcept (scanint8 here.locale text) >>= fun value =>
      ofExcept (here.setvalOid (here.getRelnameRelid relname nspoid) value) >>= fun _ =>
        perform (.setval (here.getRelnameRelid relname nspoid) value)) = _
  rw [denotes]
  rfl

theorem handleSql_eq {query : CString} (parsed : parseSqlMessage queuedMessage.message = .ok query)
    (txJustStarted : Bool) : handleSql queuedMessage txJustStarted =
      perform (.executeSqlCommand query queuedMessage.role txJustStarted) := by
  rw [handleSql, parsed]
  rfl

/-- A message that is decoded as announced is handled as announced. -/
theorem Announcement.dispatch_eq {announcement : Announcement}
    (type : queuedMessage.messageType = announcement.messageType)
    (decoded : announcement.Decoded here queuedMessage.message) (txJustStarted : Bool) :
    dispatch here queuedMessage txJustStarted = announcement.carryOut here queuedMessage.role txJustStarted := by
  rw [dispatch, type]
  cases announcement with
  | addTable repset nspname relname => exact handleTableSync_eq decoded
  | finishTruncate repsetNames nspname relname => exact handleTruncate_eq decoded
  | addSequence repset nspname relname last =>
    obtain ⟨text, parsed, denotes⟩ := decoded
    exact handleSequence_eq parsed denotes
  | synchronizeSequence repsetNames nspname relname last =>
    obtain ⟨text, parsed, denotes⟩ := decoded
    exact handleSequence_eq parsed denotes
  | replicateDdlCommand replicationSets query => exact handleSql_eq decoded txJustStarted

end Handlers

/-- A name that fits is not cut off. -/
theorem namestrcpy_str (name : NameData) : namestrcpy name.str = name := by
  obtain ⟨⟨bytes, text⟩, short⟩ := name
  simp only [namestrcpy, NameData.mk.injEq, Subtype.mk.injEq]
  exact List.take_of_length_le (Nat.le_sub_one_of_lt short)

/-- **What is queued is read back**: with the same role, type and sets, the names, value or text that were
announced, and with the effect that was announced. -/
theorem queued_messages_round_trip {TextArray : Type} {json : JsonFunctions} {arrays : ArrayFunctions TextArray}
    (restores : json.Restores) (lists : arrays.Restores) (announcement : Announcement)
    (some_set : announcement.replicationSets ≠ []) (queuedAt : Int64) (role : NameData) :
    ∃ tuple queuedMessage, announcement.queue json arrays queuedAt role = .ok tuple ∧
      queuedMessageFromTuple json arrays tuple = .ok queuedMessage ∧
      queuedMessage.role = role.str ∧ queuedMessage.messageType = announcement.messageType ∧
      queuedMessage.replicationSets = announcement.replicationSets ∧
      ∀ here, announcement.Decoded here queuedMessage.message ∧ ∀ txJustStarted,
        handleQueuedMessage here json arrays tuple txJustStarted =
          announcement.carryOut here role.str txJustStarted := by
  obtain ⟨accepted, message, read, decoded⟩ := announcement.accepts restores
  have queued : announcement.queue json arrays queuedAt role = .ok ⟨queuedAt, role,
      some (arrays.strlistToTextarray announcement.replicationSets), announcement.messageType,
      announcement.text json⟩ := by
    rw [Announcement.queue, queueMessage, accepted, namestrcpy_str, if_neg some_set]
    rfl
  have received : queuedMessageFromTuple json arrays ⟨queuedAt, role,
      some (arrays.strlistToTextarray announcement.replicationSets), announcement.messageType,
      announcement.text json⟩ =
        .ok ⟨queuedAt, role.str, announcement.replicationSets, announcement.messageType, message⟩ := by
    rw [queuedMessageFromTuple, read, Option.map_some, Option.getD_some, lists.list]
    rfl
  refine ⟨_, _, queued, received, rfl, rfl, rfl, fun here => ⟨decoded here, fun txJustStarted => ?_⟩⟩
  rw [handleQueuedMessage, received]
  exact Announcement.dispatch_eq rfl (decoded here) txJustStarted

/-! ## JSON text of strings -/

/-- Of equal keys the last one counts. -/
def lastFields (members : List (Bytes × Bytes)) : List (CString × CString) :=
  (members.map fun member => (CString.ofBytes member.1, CString.ofBytes member.2)).pwFilter
    fun field other => field.1 ≠ other.1

/-- A `jsonb` has its short keys first. -/
def keyOrder (field other : CString × CString) : Bool :=
  decide (field.1.strlen < other.1.strlen) || field.1.strlen == other.1.strlen && decide (field.1.val ≤ other.1.val)

def objectFields (members : List (Bytes × Bytes)) : List (CString × CString) :=
  (lastFields members).mergeSort keyOrder

theorem objectFields_distinct (members : List (Bytes × Bytes)) (pairs : List (CString × JsonbValue))
    (object : JsonbValue.object (strings (objectFields members)) = .object pairs) : (pairs.map Prod.fst).Nodup := by
  cases object
  have last : ((lastFields members).map Prod.fst).Nodup := List.pairwise_map.mpr (List.pairwise_pwFilter _)
  have distinct := ((List.mergeSort_perm (lastFields members) keyOrder).map Prod.fst).nodup_iff.mpr last
  rw [strings, List.map_map]
  exact distinct

theorem scalar_distinct (v : JsonbScalar) (pairs : List (CString × JsonbValue))
    (object : JsonbValue.scalar v = .object pairs) : (pairs.map Prod.fst).Nodup := by
  cases object

def toJsonb : JsonText → Jsonb
  | .string s => ⟨.scalar (.string (.ofBytes s)), scalar_distinct _⟩
  | .object members => ⟨.object (strings (objectFields members)), objectFields_distinct members⟩

/-- JSON text as far as it consists of strings and objects of strings. -/
def jsonText : JsonFunctions where
  escapeJson := escapeJson
  jsonIn text := match readJson text with
    | some _ => .ok ()
    | none => .error "invalid input syntax for type json"
  jsonbIn text := match readJson text with
    | some value => .ok (toJsonb value)
    | none => .error "invalid input syntax for type json"

theorem accepts_of_readJson {text : Bytes} {value : JsonText} {expected : Jsonb → Prop}
    (read : readJson text = some value) (holds : expected (toJsonb value)) : jsonText.Accepts text expected :=
  ⟨by simp only [jsonText, read], toJsonb value, by simp only [jsonText, read], holds⟩

theorem ofBytes_val (s : CString) : CString.ofBytes s.val = s := by
  apply Subtype.ext
  exact List.takeWhile_eq_self_iff.mpr fun b inside => by simpa using fun zero : b = 0 => s.property (zero ▸ inside)

theorem writes_text {text : Bytes} {s : CString} (written : jsonText.Text text s) : Writes text s.val := by
  obtain rfl | ⟨plain, rfl⟩ := written
  · exact writes_escapeJson s.property
  · exact writes_plain plain

/-- Distinct keys all stay. -/
theorem objectFields_perm (fields : List (CString × CString)) (distinct : (fields.map Prod.fst).Nodup) :
    (objectFields (fields.map fun field => (field.1.val, field.2.val))).Perm fields := by
  have all : lastFields (fields.map fun field => (field.1.val, field.2.val)) = fields := by
    rw [lastFields, List.map_map]
    simp only [Function.comp_def, ofBytes_val, Prod.mk.eta, List.map_id']
    exact List.pwFilter_eq_self.mpr (List.pairwise_map.mp distinct)
  rw [objectFields, all]
  exact List.mergeSort_perm fields keyOrder

theorem jsonText_restores : jsonText.Restores where
  string s := accepts_of_readJson (readJson_string (writes_escapeJson s.property))
    (congrArg (fun s => JsonbValue.scalar (.string s)) (ofBytes_val s))
  object members plain distinct texts := by
    have read := readJson_objectText (members.map fun member => (member.1.val, member.2.1, member.2.2.val))
      (List.forall_mem_map.mpr plain) (List.forall_mem_map.mpr fun member inside => writes_text (texts member inside))
    rw [List.map_map, List.map_map] at read
    refine accepts_of_readJson read ⟨_, rfl, ?_⟩
    have fields := objectFields_perm (members.map fun member => (member.1, member.2.2)) (by rwa [List.map_map])
    rwa [List.map_map] at fields

/-- Lists stand for arrays of text. -/
def textLists : ArrayFunctions (List CString) := ⟨id, id⟩

/-- A sequence with a quotation mark in its name and a negative value. -/
def quotedSequence : Announcement :=
  .synchronizeSequence [.ofString "default"] (.ofString "public") (.ofString "seq\"\\") (-9223372036854775808)

theorem queued_messages_quoted_sequence : ∃ tuple queuedMessage,
    quotedSequence.queue jsonText textLists 7 (namestrcpy (.ofString "postgres")) = .ok tuple ∧
      queuedMessageFromTuple jsonText textLists tuple = .ok queuedMessage ∧
      queuedMessage.role = (namestrcpy (.ofString "postgres")).str ∧
      queuedMessage.messageType = quotedSequence.messageType ∧
      queuedMessage.replicationSets = quotedSequence.replicationSets ∧
      ∀ here, quotedSequence.Decoded here queuedMessage.message ∧ ∀ txJustStarted,
        handleQueuedMessage here jsonText textLists tuple txJustStarted =
          quotedSequence.carryOut here (namestrcpy (.ofString "postgres")).str txJustStarted :=
  queued_messages_round_trip jsonText_restores ⟨fun _ => rfl⟩ quotedSequence (List.cons_ne_nil _ _) 7
    (namestrcpy (.ofString "postgres"))

end PGLogical.Queue
