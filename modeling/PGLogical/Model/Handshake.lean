import PGLogical.Model.OutputConfig
import PGLogical.Model.StartupMessage

/-! # The start of a replication session

The subscriber describes its server and its request in the options of START_REPLICATION. The walsender's
output plugin compares the description with its own server and looks up the subscriber's hooks, which read
the request. With the first BEGIN it sends a startup message about its server and about what has been agreed,
which the subscriber checks before anything else.
-/

namespace PGLogical.Handshake

open Wire ReplicationCommand
open Startup (Param Receiver)

/-! ## Hooks -/

/-- Of the hooks that only changes and transactions are handed to, whether they are set. -/
structure PGLogicalHooks where
  /-- From the options to the private data and the extra startup parameters. -/
  startupHook : Option (List DefElem → Except String (HooksPrivate × List Param))
  shutdownHook : Bool
  rowFilterHook : Bool
  txnFilterHook : Bool
  hooksPrivateData : Option HooksPrivate

/-- `palloc0` -/
def PGLogicalHooks.zeroed : PGLogicalHooks := ⟨none, false, false, false, none⟩

/-- A function of one argument of type internal. -/
structure HooksFunction where
  returnsVoid : Bool
  /-- The current user may execute it. -/
  executable : Bool
  setup : PGLogicalHooks → PGLogicalHooks

/-- The provider's server, and what it looks up. -/
structure Upstream extends OutputConfig.Server where
  pgVersion : CString
  catalogVersionNo : Int32
  maximumAlignof : Int32
  walsenderPid : Int32
  databaseEncodingName : CString
  pgEncodingToChar : OutputConfig.Encoding → CString
  currentUser : CString
  lookupFuncName : List Bytes → Option HooksFunction
  getLocalNode : Except String Oid
  getReplicationSets : Oid → List Bytes → Except String (List PGLogicalRepSet)

variable (up : Upstream)

/-- `NameListToString` -/
def nameListToString (names : List Bytes) : String := messageText ([46].intercalate names)

def getHooksFunction (funcname : List Bytes) : Except String HooksFunction :=
  match up.lookupFuncName funcname with
  | none => .error s!"function {nameListToString funcname}(internal) does not exist"
  | some function =>
      if !function.returnsVoid then .error s!"function {nameListToString funcname} must return void"
      else if !function.executable then
        .error (s!"current user {up.currentUser.toString} does not have permission to call function " ++
          nameListToString funcname)
      else .ok function

def loadHooks (funcname : List Bytes) : Except String PGLogicalHooks :=
  if funcname ≠ [] then do
    let function ← getHooksFunction up funcname
    return function.setup .zeroed
  else .ok .zeroed

def callStartupHook (hooks : PGLogicalHooks) (pluginParams : List DefElem) :
    Except String (PGLogicalHooks × List Param) :=
  match hooks.startupHook with
  | some startupHook => do
      let (privateData, outParams) ← startupHook pluginParams
      return ({ hooks with hooksPrivateData := some privateData }, outParams)
  | none => .ok (hooks, [])

/-- The startup hook of the extension. It has no extra parameters. -/
def extensionStartupHook (inParams : List DefElem) : Except String (HooksPrivate × List Param) := do
  let localNodeId ← up.getLocalNode
  let privateData ← pglogicalStartupHook up.locale up.getReplicationSets localNodeId inParams
  return (privateData, [])

def pglogicalHooksSetup (hooks : PGLogicalHooks) : PGLogicalHooks :=
  { hooks with
    startupHook := some (extensionStartupHook up)
    shutdownHook := false
    rowFilterHook := true
    txnFilterHook := true }

def hooksSetupName : List Bytes := [ascii "pglogical", ascii "pglogical_hooks_setup"]

/-- CREATE FUNCTION pglogical.pglogical_hooks_setup(internal) RETURNS void, for everybody. -/
def Upstream.Installed : Prop := up.lookupFuncName hooksSetupName = some ⟨true, true, pglogicalHooksSetup up⟩

/-! ## The start of decoding -/

/-- The strings of the command end with a NUL. -/
def cstringElem (elem : DefElem) : OutputConfig.DefElem := ⟨.ofBytes elem.1, elem.2.map .ofBytes⟩

/-- What is left of `PGLogicalOutputData` by the startup callback. -/
structure Session where
  started : OutputConfig.Started
  hooks : PGLogicalHooks
  extraStartupParams : List Param

def pgDecodeStartup (outputPluginOptions : List DefElem) : Except String Session := do
  let started ← OutputConfig.pgDecodeStartup up.toServer (outputPluginOptions.map cstringElem)
  if started.client.hooksSetupFuncname ≠ [] then
    let hooks ← loadHooks up started.client.hooksSetupFuncname
    let (hooks, extraStartupParams) ← callStartupHook hooks outputPluginOptions
    return ⟨started, hooks, extraStartupParams⟩
  else return ⟨started, .zeroed, []⟩

/-! ## The startup message -/

def addStartupMsgS (key : String) (val : CString) : Param := (.ofString key, val)

def addStartupMsgI (key : String) (val : Int32) : Param := (.ofString key, .ofBytes (decimalInt val.toInt))

def addStartupMsgB (key : String) (val : Bool) : Param := (.ofString key, .ofString (if val then "t" else "f"))

def prepareStartupMessage (session : Session) : List Param :=
  [addStartupMsgS "max_proto_version" (.ofString "1"),
    addStartupMsgS "min_proto_version" (.ofString "1"),
    addStartupMsgB "coltypes" false,
    addStartupMsgI "pg_version_num" up.pgVersionNum.toInt32,
    addStartupMsgS "pg_version" up.pgVersion,
    addStartupMsgI "pg_catversion" up.catalogVersionNo,
    addStartupMsgS "database_encoding" up.databaseEncodingName,
    addStartupMsgS "encoding" (up.pgEncodingToChar session.started.fieldDatumEncoding),
    addStartupMsgB "forward_changeset_origins" session.started.data.forwardChangesetOrigins,
    addStartupMsgI "walsender_pid" up.walsenderPid,
    addStartupMsgS "pglogical_output_version" (.ofString "1.1.0"),
    addStartupMsgI "pglogical_output_version" 10100,
    addStartupMsgB "binary.internal_basetypes" session.started.data.allowInternalBasetypes,
    addStartupMsgB "binary.binary_basetypes" session.started.data.allowBinaryBasetypes,
    addStartupMsgI "binary.basetypes_major_version" up.majorVersion.toInt32,
    addStartupMsgI "binary.sizeof_int" up.sizeofInt.toInt32,
    addStartupMsgI "binary.sizeof_long" up.sizeofLong.toInt32,
    addStartupMsgI "binary.sizeof_datum" up.sizeofDatum.toInt32,
    addStartupMsgI "binary.maxalign" up.maximumAlignof,
    addStartupMsgB "binary.bigendian" up.bigendian,
    addStartupMsgB "binary.float4_byval" up.float4Byval,
    addStartupMsgB "binary.float8_byval" up.float8Byval,
    addStartupMsgB "binary.integer_datetimes" up.integerDatetimes,
    addStartupMsgI "binary.binary_pg_version" up.majorVersion.toInt32,
    addStartupMsgB "no_txinfo" session.started.data.clientNoTxinfo,
    addStartupMsgB "hooks.startup_hook_enabled" session.hooks.startupHook.isSome,
    addStartupMsgB "hooks.shutdown_hook_enabled" session.hooks.shutdownHook,
    addStartupMsgB "hooks.row_filter_enabled" session.hooks.rowFilterHook,
    addStartupMsgB "hooks.transaction_filter_enabled" session.hooks.txnFilterHook] ++
    session.extraStartupParams

/-! ## Both sides -/

/-- The subscriber's server. -/
structure Subscriber where
  lexicon : Lexicon
  down : Downstream
  receiver : Receiver

/-- The walsender takes the command. -/
def startReplication (subscriber : Subscriber) (request : Request) : Except String Session :=
  match parseOptions up.locale (optionsText (request.options subscriber.lexicon subscriber.down)) with
  | none => .error "syntax error"
  | some outputPluginOptions => pgDecodeStartup up outputPluginOptions

/-- The first message, read by `replication_handler` and `handle_startup` to its end. -/
def receiveStartup (receiver : Receiver) (message : Bytes) : Except String Unit := do
  let (action, body) ← pqGetmsgbyte message
  if action ≠ 'S'.toUInt8 then throw s!"unknown action of type {action}"
  let _ ← (Startup.handleStartup (Startup.handleStartupParam receiver) body).2
  return ()

/-- The subscriber's request, the startup of the decoding session and its first message. -/
def handshake (subscriber : Subscriber) (request : Request) : Except String Session := do
  let session ← startReplication up subscriber request
  let (_, message) ← Callbacks.writeStartupMessage (prepareStartupMessage up session) []
  receiveStartup subscriber.receiver message
  return session

end PGLogical.Handshake
