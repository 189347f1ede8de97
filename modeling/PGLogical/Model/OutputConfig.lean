import PGLogical.Model.Callbacks
import PGLogical.Model.ReplicationCommand

/-! # The parameters of the output plugin

The client says what it understands in the options of START_REPLICATION, which the plugin reads when
decoding starts (`process_parameters`) and compares with its own server (`pg_decode_startup`). Three
parameters are looked up first, by names of any case. The others are read in a loop, by exact names;
one that is not given leaves its fields zeroed.
-/

namespace PGLogical.OutputConfig

open Wire

structure DefElem where
  defname : CString
  arg : Option CString
deriving DecidableEq

abbrev Encoding := ℕ

/-- How the server was built, and what it looks up. -/
structure Server where
  pgVersionNum : UInt32
  sizeofDatum : UInt32
  sizeofInt : UInt32
  sizeofLong : UInt32
  bigendian : Bool
  float4Byval : Bool
  float8Byval : Bool
  integerDatetimes : Bool
  locale : Wire.Locale
  parseBool : CString → Option Bool
  pgCharToEncoding : CString → Option Encoding
  pgGetClientEncoding : Encoding
  getDatabaseEncoding : Encoding

variable (server : Server)

def Server.majorVersion : UInt32 := server.pgVersionNum / 100

/-! ## Values -/

def parseParamBool (elem : DefElem) (value : CString) : Except String Bool :=
  match server.parseBool value with
  | some res => .ok res
  | none => .error s!"could not parse boolean value \"{value.toString}\" for parameter \"{elem.defname.toString}\""

def parseParamUint32 (elem : DefElem) (value : CString) : Except String UInt32 :=
  match scanint8 server.locale value with
  | .error _ =>
      .error s!"could not parse integer value \"{value.toString}\" for parameter \"{elem.defname.toString}\""
  | .ok res =>
      if 4294967295 < res.toInt ∨ res.toInt < 0 then
        .error s!"value \"{value.toString}\" out of range for parameter \"{elem.defname.toString}\""
      else .ok (UInt32.ofNat res.toInt.toNat)

def parseParamString (_elem : DefElem) (value : CString) : Except String CString := .ok value

/-- `textToQualifiedNameList` -/
def parseParamQualifiedName (_elem : DefElem) (value : CString) : Except String (List Bytes) :=
  match splitIdentifierString server.locale value.val 46 with
  | none | some [] => .error "invalid name syntax"
  | some namelist => .ok namelist

variable {α : Type}

/-- No caller accepts a NULL. -/
def getParamValue (elem : DefElem) (parse : DefElem → CString → Except String α) : Except String α :=
  match elem.arg with
  | none => .error s!"parameter \"{elem.defname.toString}\" cannot be NULL"
  | some value => parse elem value

/-- The first option whose name is `name` in any case. -/
def getParam (options : List DefElem) (name : String) (parse : DefElem → CString → Except String α) :
    Except String α :=
  match options.find? fun elem => ReplicationCommand.sameName server.locale (ascii name) elem.defname.val with
  | none => .error s!"missing required parameter \"{name}\""
  | some elem => getParamValue elem parse

/-! ## The parameters -/

inductive OutputPluginParamKey where
  | unrecognised
  | maxProtocolVersion
  | minProtocolVersion
  | protocolFormat
  | expectedEncoding
  | binaryBigendian
  | binarySizeofDatum
  | binarySizeofInt
  | binarySizeofLong
  | binaryFloat4byval
  | binaryFloat8byval
  | binaryIntegerDatetimes
  | binaryWantInternalBasetypes
  | binaryWantBinaryBasetypes
  | binaryBasetypesMajorVersion
  | pgVersion
  | hooksSetupFunction
  | noTxinfo
deriving DecidableEq

def paramLookup : List (String × OutputPluginParamKey) :=
  [("max_proto_version", .maxProtocolVersion),
    ("min_proto_version", .minProtocolVersion),
    ("proto_format", .protocolFormat),
    ("expected_encoding", .expectedEncoding),
    ("binary.bigendian", .binaryBigendian),
    ("binary.sizeof_datum", .binarySizeofDatum),
    ("binary.sizeof_int", .binarySizeofInt),
    ("binary.sizeof_long", .binarySizeofLong),
    ("binary.float4_byval", .binaryFloat4byval),
    ("binary.float8_byval", .binaryFloat8byval),
    ("binary.integer_datetimes", .binaryIntegerDatetimes),
    ("binary.want_internal_basetypes", .binaryWantInternalBasetypes),
    ("binary.want_binary_basetypes", .binaryWantBinaryBasetypes),
    ("binary.basetypes_major_version", .binaryBasetypesMajorVersion),
    ("pg_version", .pgVersion),
    ("hooks.setup_function", .hooksSetupFunction),
    ("no_txinfo", .noTxinfo)]

/-- "Look up a param name to find the enum value for the param, or PARAM_UNRECOGNISED if not found." -/
def getParamKey (paramName : CString) : OutputPluginParamKey :=
  match paramLookup.find? fun param => decide (CString.ofString param.1 = paramName) with
  | some param => param.2
  | none => .unrecognised

/-- The "client info" of `PGLogicalOutputData`. -/
structure ClientInfo where
  clientPgVersion : UInt32
  clientMaxProtoVersion : UInt32
  clientMinProtoVersion : UInt32
  clientExpectedEncoding : Option CString
  clientProtocolFormat : Option CString
  clientBinaryBasetypesMajorVersion : UInt32
  clientWantInternalBasetypesSet : Bool
  clientWantInternalBasetypes : Bool
  clientWantBinaryBasetypesSet : Bool
  clientWantBinaryBasetypes : Bool
  clientBinaryBigendianSet : Bool
  clientBinaryBigendian : Bool
  clientBinarySizeofdatum : UInt32
  clientBinarySizeofint : UInt32
  clientBinarySizeoflong : UInt32
  clientBinaryFloat4byvalSet : Bool
  clientBinaryFloat4byval : Bool
  clientBinaryFloat8byvalSet : Bool
  clientBinaryFloat8byval : Bool
  clientBinaryIntdatetimesSet : Bool
  clientBinaryIntdatetimes : Bool
  clientNoTxinfo : Bool
  hooksSetupFuncname : List Bytes
deriving DecidableEq

/-- `palloc0` -/
def ClientInfo.zeroed : ClientInfo :=
  ⟨0, 0, 0, none, none, 0, false, false, false, false, false, false, 0, 0, 0, false, false, false, false, false, false,
    false, []⟩

/-- The switch of the loop: what one option assigns, when its value can be read. -/
def assigned (elem : DefElem) : Except String (ClientInfo → ClientInfo) :=
  match getParamKey elem.defname with
  | .binaryBigendian => do
      let val ← getParamValue elem (parseParamBool server)
      return fun data => { data with clientBinaryBigendianSet := true, clientBinaryBigendian := val }
  | .binarySizeofDatum => do
      let val ← getParamValue elem (parseParamUint32 server)
      return fun data => { data with clientBinarySizeofdatum := val }
  | .binarySizeofInt => do
      let val ← getParamValue elem (parseParamUint32 server)
      return fun data => { data with clientBinarySizeofint := val }
  | .binarySizeofLong => do
      let val ← getParamValue elem (parseParamUint32 server)
      return fun data => { data with clientBinarySizeoflong := val }
  | .binaryFloat4byval => do
      let val ← getParamValue elem (parseParamBool server)
      return fun data => { data with clientBinaryFloat4byvalSet := true, clientBinaryFloat4byval := val }
  | .binaryFloat8byval => do
      let val ← getParamValue elem (parseParamBool server)
      -- the fields of the case above
      return fun data => { data with clientBinaryFloat4byvalSet := true, clientBinaryFloat4byval := val }
  | .binaryIntegerDatetimes => do
      let val ← getParamValue elem (parseParamBool server)
      return fun data => { data with clientBinaryIntdatetimesSet := true, clientBinaryIntdatetimes := val }
  | .protocolFormat => do
      let val ← getParamValue elem parseParamString
      return fun data => { data with clientProtocolFormat := some val }
  | .expectedEncoding => do
      let val ← getParamValue elem parseParamString
      return fun data => { data with clientExpectedEncoding := some val }
  | .pgVersion => do
      let val ← getParamValue elem (parseParamUint32 server)
      return fun data => { data with clientPgVersion := val }
  | .binaryWantInternalBasetypes => do
      let val ← getParamValue elem (parseParamBool server)
      return fun data => { data with clientWantInternalBasetypesSet := true, clientWantInternalBasetypes := val }
  | .binaryWantBinaryBasetypes => do
      let val ← getParamValue elem (parseParamBool server)
      return fun data => { data with clientWantBinaryBasetypesSet := true, clientWantBinaryBasetypes := val }
  | .binaryBasetypesMajorVersion => do
      let val ← getParamValue elem (parseParamUint32 server)
      return fun data => { data with clientBinaryBasetypesMajorVersion := val }
  | .hooksSetupFunction => do
      let val ← getParamValue elem (parseParamQualifiedName server)
      return fun data => { data with hooksSetupFuncname := val }
  | .noTxinfo => do
      let val ← getParamValue elem (parseParamBool server)
      return fun data => { data with clientNoTxinfo := val }
  | .maxProtocolVersion | .minProtocolVersion | .unrecognised => .ok id

/-- One round of the loop. -/
def processParameter (data : ClientInfo) (elem : DefElem) : Except String ClientInfo := do
  let assign ← assigned server elem
  return assign data

def processParametersV1 (options : List DefElem) (data : ClientInfo) : Except String ClientInfo := do
  let maxProtoVersion ← getParam server options "max_proto_version" (parseParamUint32 server)
  let minProtoVersion ← getParam server options "min_proto_version" (parseParamUint32 server)
  options.foldlM (processParameter server)
    { data with clientMaxProtoVersion := maxProtoVersion, clientMinProtoVersion := minProtoVersion }

def pglogicalStartupParamFormatFlat : UInt32 := 1

def processParameters (options : List DefElem) (data : ClientInfo) : Except String (UInt32 × ClientInfo) := do
  let paramsFormat ← getParam server options "startup_params_format" (parseParamUint32 server)
  if paramsFormat = pglogicalStartupParamFormatFlat then
    let data ← processParametersV1 server options data
    return (paramsFormat, data)
  else
    throw s!"startup_params_format {paramsFormat.toInt32} not supported, only version 1 supported"

/-! ## The start of decoding -/

def checkBinaryCompatibility (data : ClientInfo) : Bool :=
  if data.clientBinaryBasetypesMajorVersion ≠ server.majorVersion then false
  else if data.clientBinaryBigendianSet = true ∧ data.clientBinaryBigendian ≠ server.bigendian then false
  else if data.clientBinarySizeofdatum ≠ 0 ∧ data.clientBinarySizeofdatum ≠ server.sizeofDatum then false
  else if data.clientBinarySizeofint ≠ 0 ∧ data.clientBinarySizeofint ≠ server.sizeofInt then false
  else if data.clientBinarySizeoflong ≠ 0 ∧ data.clientBinarySizeoflong ≠ server.sizeofLong then false
  else if data.clientBinaryFloat4byvalSet = true ∧ data.clientBinaryFloat4byval ≠ server.float4Byval then false
  else if data.clientBinaryFloat8byvalSet = true ∧ data.clientBinaryFloat8byval ≠ server.float8Byval then false
  else if data.clientBinaryIntdatetimesSet = true ∧ data.clientBinaryIntdatetimes ≠ server.integerDatetimes then false
  else true

inductive OutputPluginOutputType where
  | binaryOutput
  | textualOutput
deriving DecidableEq

def jsonFormat : CString := CString.ofString "json"
def nativeFormat : CString := CString.ofString "native"

/-- The format behind `api` and the kind of output that logical decoding expects. -/
def protocolOf (data : ClientInfo) : Except String (Output.PGLogicalProtoType × OutputPluginOutputType) :=
  match data.clientProtocolFormat with
  | none => .ok (.native, .binaryOutput)
  | some format =>
      if format = jsonFormat then .ok (.json, .textualOutput)
      else if format = nativeFormat then .ok (.native, .binaryOutput)
      else
        .error s!"client requested protocol {format.toString} but only \"json\" or \"native\" are supported"

/-- The encoding of values, zeroed when the client expects none. -/
def fieldDatumEncoding (data : ClientInfo) (outputType : OutputPluginOutputType) : Except String Encoding :=
  match data.clientExpectedEncoding with
  | none => .ok 0
  | some expected =>
      if expected.strlen = 0 then .ok 0
      else
        match server.pgCharToEncoding expected with
        | none => .error s!"unrecognised encoding name {expected.toString} passed to expected_encoding"
        | some wantedEncoding =>
            match outputType with
            | .textualOutput =>
                if wantedEncoding ≠ server.pgGetClientEncoding then
                  .error "expected_encoding must be unset or match client_encoding in text protocols"
                else .ok wantedEncoding
            | .binaryOutput =>
                if wantedEncoding ≠ server.getDatabaseEncoding then
                  .error "encoding conversion for binary datum not supported yet"
                else .ok wantedEncoding

/-- What the client asked for, and what the session has been started with. -/
structure Started where
  client : ClientInfo
  data : Callbacks.PGLogicalOutputData
  outputType : OutputPluginOutputType
  fieldDatumEncoding : Encoding

/-- "Parse and validate options passed by the client", up to the hooks. -/
def pgDecodeStartup (options : List DefElem) : Except String Started := do
  let (paramsFormat, client) ← processParameters server options .zeroed
  if paramsFormat ≠ 1 then
    throw s!"client sent startup parameters in format {paramsFormat.toInt32} but we only support format 1"
  if 1 < client.clientMinProtoVersion then
    throw s!"client sent min_proto_version={client.clientMinProtoVersion.toInt32} but we only support protocol 1 or lower"
  if client.clientMaxProtoVersion < 1 then
    throw s!"client sent max_proto_version={client.clientMaxProtoVersion.toInt32} but we only support protocol 1 or higher"
  let (proto, outputType) ← protocolOf client
  let encoding ← fieldDatumEncoding server client outputType
  return {
    client := client
    data := {
      allowInternalBasetypes := decide (outputType = .binaryOutput) && client.clientWantInternalBasetypes &&
        checkBinaryCompatibility server client
      allowBinaryBasetypes := decide (outputType = .binaryOutput) && client.clientWantBinaryBasetypes &&
        decide (client.clientBinaryBasetypesMajorVersion = server.majorVersion)
      -- "no_txinfo option ignored for protocols other than json"
      clientNoTxinfo := client.clientNoTxinfo && decide (proto = .json)
      forwardChangesetOrigins := decide (server.majorVersion ≠ 904)
      proto := proto }
    outputType := outputType
    fieldDatumEncoding := encoding }

end PGLogical.OutputConfig
