import PGLogical.Model.Relation
import PGLogical.Wire.Decimal
import Mathlib.Data.List.Nodup

/-! # Messages in the queue

Tables to synchronise, truncations, sequence values and SQL commands travel as rows of a queue table,
with a JSON text that the sender puts together by hand. The receiver has the text converted to `jsonb`
and walks it with an iterator: `parse_relation_message` and `handle_sequence` are the same loop with
other names. JSON input and the arrays of set names are PostgreSQL's and are parameters.
-/

namespace PGLogical.Queue

open Wire

/-! ## Values and their iterator -/

inductive JsonbScalar where
  | null
  | string (s : CString)
  | numeric (digits : CString)
  | bool (b : Bool)
deriving DecidableEq

/-- `jbvNull`, `jbvString`, `jbvNumeric` and `jbvBool`. -/
def JsonbScalar.type : JsonbScalar → ℕ
  | .null => 0
  | .string _ => 1
  | .numeric _ => 2
  | .bool _ => 3

inductive JsonbValue where
  | scalar (v : JsonbScalar)
  | array (elems : List JsonbValue)
  | object (pairs : List (CString × JsonbValue))

/-- A `jsonb` has no key twice; only the outermost object matters here. -/
structure Jsonb where
  root : JsonbValue
  distinct : ∀ pairs, root = .object pairs → (pairs.map Prod.fst).Nodup

/-- What `JsonbIteratorNext` returns, with its value. -/
inductive JsonbIteratorToken where
  | key (s : CString)
  | value (v : JsonbScalar)
  | elem (v : JsonbScalar)
  | beginArray
  | endArray
  | beginObject
  | endObject
deriving DecidableEq

def JsonbIteratorToken.code : JsonbIteratorToken → ℕ
  | .key _ => 1
  | .value _ => 2
  | .elem _ => 3
  | .beginArray => 4
  | .endArray => 5
  | .beginObject => 6
  | .endObject => 7

mutual

/-- The tokens of a value behind a key. -/
def valueTokens : JsonbValue → List JsonbIteratorToken
  | .scalar v => [.value v]
  | .array elems => .beginArray :: elemsTokens elems ++ [.endArray]
  | .object pairs => .beginObject :: pairsTokens pairs ++ [.endObject]

def elemsTokens : List JsonbValue → List JsonbIteratorToken
  | [] => []
  | .scalar v :: rest => .elem v :: elemsTokens rest
  | .array elems :: rest => .beginArray :: elemsTokens elems ++ .endArray :: elemsTokens rest
  | .object pairs :: rest => .beginObject :: pairsTokens pairs ++ .endObject :: elemsTokens rest

def pairsTokens : List (CString × JsonbValue) → List JsonbIteratorToken
  | [] => []
  | (key, value) :: rest => .key key :: valueTokens value ++ pairsTokens rest

end

/-- All tokens before `WJB_DONE`. A scalar is kept as the only element of an array. -/
def Jsonb.tokens (message : Jsonb) : List JsonbIteratorToken :=
  match message.root with
  | .scalar v => [.beginArray, .elem v, .endArray]
  | container => valueTokens container

def Jsonb.rootIsObject (message : Jsonb) : Bool :=
  match message.root with
  | .object _ => true
  | _ => false

def Jsonb.rootIsScalar (message : Jsonb) : Bool :=
  match message.root with
  | .scalar _ => true
  | _ => false

/-! ## The loops over the iterator -/

def schemaName : CString := .ofString "schema_name"
def tableName : CString := .ofString "table_name"
def sequenceName : CString := .ofString "sequence_name"
def lastValue : CString := .ofString "last_value"

/-- `strncmp` finds no difference in the first `n` bytes. -/
def strncmpEq (a b : CString) (n : ℕ) : Bool := a.terminated.take n == b.terminated.take n

/-- The variables of the loop: the depth, the pending key, the result it stands for, and the results. -/
structure ParseState where
  level : ℕ
  key : Option CString
  parseRes : Option CString
  results : CString → Option CString

/-- The name a key is taken for: the first that it agrees with over its own length. -/
def selects (names : List CString) (key : CString) : Option CString :=
  names.find? fun name => strncmpEq key name key.strlen

def unexpectedContent {α : Type} (r : JsonbIteratorToken) (level : ℕ) : Except String α :=
  .error s!"unexpected content: {r.code} at level {level}"

/-- Back out of an object. -/
def ParseState.leave (state : ParseState) : ParseState :=
  { state with level := state.level - 1, parseRes := none, key := none }

/-- A token directly inside of the root. -/
def parseField (names : List CString) (state : ParseState) : JsonbIteratorToken → Except String ParseState
  | .key s =>
      match selects names s with
      | some name => .ok { state with parseRes := some name, key := some s }
      | none => .error s!"unexpected key: {s.toString}"
  | .value v =>
      match state.key, v with
      | none, _ => .error "in wrong state when parsing key"
      | some _, .string s =>
          .ok { state with results := fun name => if state.parseRes = some name then some s else state.results name }
      | some key, v => .error s!"unexpected type for key '{key.toString}': {v.type}"
  | .endObject => .ok state.leave
  | r => unexpectedContent r state.level

/-- One round of the loop. -/
def parseToken (names : List CString) (state : ParseState) (r : JsonbIteratorToken) : Except String ParseState :=
  if state.level = 0 then
    if r = .beginObject then .ok { state with level := state.level + 1 }
    else .error "root element needs to be an object"
  else if state.level = 1 then parseField names state r
  else if r = .endObject then .ok state.leave
  else unexpectedContent r state.level

def parseMessage (names : List CString) (message : Jsonb) : Except String (CString → Option CString) := do
  if !message.rootIsObject then throw "malformed message in queued message tuple: root is not object"
  let state ← message.tokens.foldlM (parseToken names) ⟨0, none, none, fun _ => none⟩
  return state.results

/-- A result that must not be NULL at the end. -/
def required (results : CString → Option CString) (name : CString) (message : String) : Except String CString :=
  match results name with
  | some value => .ok value
  | none => .error message

/-- Schema and table. -/
def parseRelationMessage (message : Jsonb) : Except String (CString × CString) := do
  let results ← parseMessage [schemaName, tableName] message
  let nspname ← required results schemaName "missing schema_name in relation message"
  let relname ← required results tableName "missing table_name in relation message"
  return (nspname, relname)

/-- The part of `handle_sequence` up to the catalogs: schema, sequence and the text of the value. -/
def parseSequenceMessage (message : Jsonb) : Except String (CString × CString × CString) := do
  let results ← parseMessage [schemaName, sequenceName, lastValue] message
  let nspname ← required results schemaName "missing schema_name in sequence message"
  let relname ← required results sequenceName "missing table_name in sequence message"
  let lastValueRaw ← required results lastValue "missing last_value in sequence message"
  return (nspname, relname, lastValueRaw)

/-! ## The handlers -/

/-- What the handlers do to the subscriber. -/
inductive Effect where
  /-- A synchronisation status for the data of a table, and the table in the list of those being synchronised. -/
  | synchronize (nspname relname : CString)
  | truncateTable (nspname relname : CString)
  | setval (reloid : Oid) (value : Int64)
  | executeSqlCommand (sql role : CString) (txJustStarted : Bool)
deriving DecidableEq

/-- The subscriber's catalogs and its server's locale. -/
structure Subscriber where
  locale : Wire.Locale
  checkSyncingRelation : CString → CString → Bool
  /-- Whether `get_table_sync_status` finds a row. -/
  hasTableSyncStatus : CString → CString → Bool
  getNamespaceOid : CString → Except String Oid
  getRelnameRelid : CString → Oid → Oid
  setvalOid : Oid → Int64 → Except String Unit

/-- Effects stay visible when an error follows them. -/
abbrev ApplyM := EStateM String (List Effect)

def ofExcept {α : Type} : Except String α → ApplyM α
  | .ok value => pure value
  | .error message => throw message

def perform (effect : Effect) : ApplyM Unit := modify (· ++ [effect])

structure QueuedMessage where
  queuedAt : Int64
  role : CString
  replicationSets : List CString
  messageType : Char
  message : Jsonb

variable (here : Subscriber)

def handleTruncate (queuedMessage : QueuedMessage) : ApplyM Unit := do
  let (schemaname, relname) ← ofExcept (parseRelationMessage queuedMessage.message)
  if here.checkSyncingRelation schemaname relname then return
  perform (.truncateTable schemaname relname)

def handleTableSync (queuedMessage : QueuedMessage) : ApplyM Unit := do
  let (schemaname, relname) ← ofExcept (parseRelationMessage queuedMessage.message)
  if here.hasTableSyncStatus schemaname relname then return
  perform (.synchronize schemaname relname)

/-- The relation is not required to exist before `setval` is called. -/
def handleSequence (queuedMessage : QueuedMessage) : ApplyM Unit := do
  let (nspname, relname, lastValueRaw) ← ofExcept (parseSequenceMessage queuedMessage.message)
  let nspoid ← ofExcept (here.getNamespaceOid nspname)
  let reloid := here.getRelnameRelid relname nspoid
  let value ← ofExcept (scanint8 here.locale lastValueRaw)
  ofExcept (here.setvalOid reloid value)
  perform (.setval reloid value)

/-- The tokens that `handle_sql` expects one after the other. -/
def parseSqlMessage (message : Jsonb) : Except String CString :=
  if !message.rootIsScalar then .error "malformed message in queued message tuple: root is not scalar"
  else match message.tokens with
    | [.beginArray, .elem (.string sql), .endArray] => .ok sql
    | [.beginArray, .elem v, .endArray] =>
        .error s!"malformed message in queued message tuple, expected value type 1 got {v.type}"
    | _ => .error "malformed message in queued message tuple, unexpected item type"

def handleSql (queuedMessage : QueuedMessage) (txJustStarted : Bool) : ApplyM Unit := do
  let sql ← ofExcept (parseSqlMessage queuedMessage.message)
  perform (.executeSqlCommand sql queuedMessage.role txJustStarted)

def queueCommandTypeSql : Char := 'Q'
def queueCommandTypeTruncate : Char := 'T'
def queueCommandTypeTablesync : Char := 'A'
def queueCommandTypeSequence : Char := 'S'

def dispatch (queuedMessage : QueuedMessage) (txJustStarted : Bool) : ApplyM Unit :=
  if queuedMessage.messageType = queueCommandTypeSql then handleSql queuedMessage txJustStarted
  else if queuedMessage.messageType = queueCommandTypeTruncate then handleTruncate here queuedMessage
  else if queuedMessage.messageType = queueCommandTypeTablesync then handleTableSync here queuedMessage
  else if queuedMessage.messageType = queueCommandTypeSequence then handleSequence here queuedMessage
  else throw s!"unknown message type '{queuedMessage.messageType}'"

/-! ## The sender -/

/-- PostgreSQL's functions on JSON. The type `json` keeps its text, so its input only accepts or refuses. -/
structure JsonFunctions where
  escapeJson : Bytes → Bytes
  jsonIn : Bytes → Except String Unit
  jsonbIn : Bytes → Except String Jsonb

structure ArrayFunctions (TextArray : Type) where
  strlistToTextarray : List CString → TextArray
  textarrayToList : TextArray → List CString

structure QueueTuple (TextArray : Type) where
  queuedAt : Int64
  role : NameData
  replicationSets : Option TextArray
  messageType : Char
  message : Bytes

variable {TextArray : Type} (json : JsonFunctions) (arrays : ArrayFunctions TextArray)

/-- The role is given by its name, which `namein` reads again. -/
def queueMessage (queuedAt : Int64) (replicationSets : List CString) (role : NameData) (messageType : Char)
    (message : Bytes) : Except String (QueueTuple TextArray) := do
  json.jsonIn message
  return ⟨queuedAt, namestrcpy role.str,
    if replicationSets = [] then none else some (arrays.strlistToTextarray replicationSets), messageType, message⟩

def queuedMessageFromTuple (queueTup : QueueTuple TextArray) : Except String QueuedMessage := do
  let message ← json.jsonbIn queueTup.message
  return ⟨queueTup.queuedAt, queueTup.role.str, (queueTup.replicationSets.map arrays.textarrayToList).getD [],
    queueTup.messageType, message⟩

def handleQueuedMessage (msgtup : QueueTuple TextArray) (txJustStarted : Bool) : ApplyM Unit := do
  let queuedMessage ← ofExcept (queuedMessageFromTuple json arrays msgtup)
  dispatch here queuedMessage txJustStarted

/-- The JSON text for a table. -/
def relationText (nspname relname : CString) : Bytes :=
  ascii "\x7b\"schema_name\": " ++ json.escapeJson nspname.val ++ ascii ",\"table_name\": " ++
    json.escapeJson relname.val ++ ascii "\x7d"

/-- The JSON text for a sequence, with the value between quotation marks. -/
def sequenceText (nspname relname : CString) (value : Int64) : Bytes :=
  ascii "\x7b\"schema_name\": " ++ json.escapeJson nspname.val ++ ascii ",\"sequence_name\": " ++
    json.escapeJson relname.val ++ ascii ",\"last_value\": \"" ++ decimalInt value.toInt ++ ascii "\"" ++ ascii "\x7d"

/-- What is queued, by the function that queues it. -/
inductive Announcement where
  /-- `pglogical_replication_set_add_table` and `_add_all_tables` -/
  | addTable (repset nspname relname : CString)
  /-- `pglogical_replication_set_add_sequence` and `_add_all_sequences` -/
  | addSequence (repset nspname relname : CString) (value : Int64)
  /-- `synchronize_sequence` and `synchronize_sequences` -/
  | synchronizeSequence (repsetNames : List CString) (nspname relname : CString) (value : Int64)
  /-- `pglogical_finish_truncate` -/
  | finishTruncate (repsetNames : List CString) (nspname relname : CString)
  /-- `pglogical_replicate_ddl_command` -/
  | replicateDdlCommand (replicationSets : List CString) (query : CString)
deriving DecidableEq

def Announcement.replicationSets : Announcement → List CString
  | .addTable repset _ _ => [repset]
  | .addSequence repset _ _ _ => [repset]
  | .synchronizeSequence repsetNames _ _ _ => repsetNames
  | .finishTruncate repsetNames _ _ => repsetNames
  | .replicateDdlCommand replicationSets _ => replicationSets

def Announcement.messageType : Announcement → Char
  | .addTable .. => queueCommandTypeTablesync
  | .addSequence .. => queueCommandTypeSequence
  | .synchronizeSequence .. => queueCommandTypeSequence
  | .finishTruncate .. => queueCommandTypeTruncate
  | .replicateDdlCommand .. => queueCommandTypeSql

def Announcement.text : Announcement → Bytes
  | .addTable _ nspname relname => relationText json nspname relname
  | .addSequence _ nspname relname value => sequenceText json nspname relname value
  | .synchronizeSequence _ nspname relname value => sequenceText json nspname relname value
  | .finishTruncate _ nspname relname => relationText json nspname relname
  | .replicateDdlCommand _ query => json.escapeJson query.val

def Announcement.queue (announcement : Announcement) (queuedAt : Int64) (role : NameData) :
    Except String (QueueTuple TextArray) :=
  queueMessage json arrays queuedAt announcement.replicationSets role announcement.messageType (announcement.text json)

end PGLogical.Queue
