import PGLogical.Machine.Fallible
import PGLogical.Model.Handshake
import PGLogical.Soundness.OutputConfig
import PGLogical.Soundness.ReplicationCommand
import PGLogical.Soundness.StartupMessage
import PGLogical.Soundness.Transfer

/-! # What a session starts with

The subscriber's description of itself comes out of the walsender's parameters as it went into the command,
but for the representation of `float8`, and its request reaches the hooks. Replication starts exactly if both
servers have the same encoding, the names can be said and the provider knows the replication sets; then binary
values are sent if the servers agree about them, and the subscriber accepts the startup message.
-/

namespace PGLogical.Handshake

open Machine Wire ReplicationCommand
open OutputConfig (ClientInfo Encoding getParamKey OutputPluginParamKey parseParamBool parseParamUint32)
open Startup (Param Receiver encodeParams handleStartupParam)

/-! ## Values -/

theorem ofBytes_val {bytes : Bytes} (noNul : 0 ∉ bytes) : (CString.ofBytes bytes).val = bytes := by
  rw [CString.ofBytes, List.takeWhile_eq_self_iff]
  intro b inside
  simpa using fun zero : b = 0 => noNul (zero ▸ inside)

theorem zero_notMem_decimal (n : ℕ) : 0 ∉ decimal n := by
  intro inside
  exact absurd (isDigit_of_mem_decimal inside) (by decide)

theorem decimalInt_natCast (n : ℕ) : decimalInt n = decimal n := by
  rw [decimalInt, if_neg (by omega), Int.natAbs_natCast]

/-- `parse_bool` on the flags in the options. -/
structure ReadsDigits (parseBool : CString → Option Bool) : Prop where
  one : parseBool (.ofBytes (decimal 1)) = some true
  zero : parseBool (.ofBytes (decimal 0)) = some false

/-- `parse_bool` on the flags in the startup message. -/
structure ReadsLetters (parseBool : CString → Option Bool) : Prop where
  letterT : parseBool (.ofString "t") = some true
  letterF : parseBool (.ofString "f") = some false

variable {up : Upstream}

theorem parseParamUint32_decimal {n : ℕ} (small : n < 4294967296) (elem : OutputConfig.DefElem) :
    parseParamUint32 up.toServer elem (.ofBytes (decimal n)) = .ok (UInt32.ofNat n) := by
  have value : (Int64.ofNat n).toInt = n := Int64.toInt_ofNat_of_lt (by omega)
  have printed : (CString.ofBytes (decimal n)).val = decimalInt (Int64.ofNat n).toInt := by
    rw [value, decimalInt_natCast, ofBytes_val (zero_notMem_decimal n)]
  rw [parseParamUint32, scanint8_decimalInt up.locale (Int64.ofNat n) printed]
  have inside : ¬ (4294967295 < (n : ℤ) ∨ (n : ℤ) < 0) := by omega
  simp only [value, inside, if_false, Int.toNat_natCast]

theorem parseParamBool_flag (digits : ReadsDigits up.parseBool) (value : Bool) (elem : OutputConfig.DefElem) :
    parseParamBool up.toServer elem (.ofBytes (flag value)) = .ok value := by
  cases value with
  | false => rw [parseParamBool, flag, Bool.toNat_false, digits.zero]
  | true => rw [parseParamBool, flag, Bool.toNat_true, digits.one]

variable (up) in
/-- The name of the subscriber's hooks function in parts. -/
theorem parseParamQualifiedName_hooks (elem : OutputConfig.DefElem) :
    OutputConfig.parseParamQualifiedName up.toServer elem (.ofBytes (ascii "pglogical.pglogical_hooks_setup")) =
      .ok hooksSetupName := by
  have short : ∀ name ∈ hooksSetupName, name.length < identifierLimit := by decide
  have split := splitIdentifierString_intercalate ⟨up.locale, fun _ => none, false⟩ up.locale
    (by decide : isSafe 46 = false) (by decide) (by simp [Locale.isspace]) short
  have text : (CString.ofBytes (ascii "pglogical.pglogical_hooks_setup")).val =
      [46].intercalate (hooksSetupName.map (Lexicon.quoteIdentifier ⟨up.locale, fun _ => none, false⟩)) := by
    rfl
  rw [OutputConfig.parseParamQualifiedName, text, split]
  rfl

/-! ## The parameters -/

/-- An option as the plugin gets it. -/
def given (option : PluginOption) : OutputConfig.DefElem := cstringElem option.defElem

theorem getParamKey_listed : ∀ param ∈ OutputConfig.paramLookup, getParamKey (.ofBytes (ascii param.1)) = param.2 := by
  decide +kernel

/-- Names that the plugin does not know. -/
theorem getParamKey_foreign : ∀ name ∈ [forwardOriginsName, replicateOnlyTableName, replicationSetNamesName,
    ascii "relmeta_cache_size", ascii "pglogical_version", ascii "pglogical_version_num",
    ascii "pglogical_apply_pid", ascii "startup_params_format"], getParamKey (.ofBytes name) = .unrecognised := by
  decide +kernel

theorem regular_noNul {option : PluginOption} (regular : option.regular = true) : 0 ∉ option.name := by
  intro inside
  simp only [PluginOption.regular, Bool.and_eq_true] at regular
  exact absurd (List.all_eq_true.mp regular.1.1.1 0 inside) (by cases option.quoted <;> decide)

/-- The first option of a name. -/
theorem getParam_option {α : Type} {before after : List PluginOption} {option : PluginOption} {name : String}
    {parse : OutputConfig.DefElem → CString → Except String α}
    (regular : ∀ other ∈ before ++ option :: after, other.regular = true) (named : option.name = ascii name)
    (first : ∀ other ∈ before, other.name ≠ ascii name) :
    OutputConfig.getParam up.toServer ((before ++ option :: after).map given) name parse =
      parse (given option) (.ofBytes option.value.content) := by
  have same : ∀ other ∈ before ++ option :: after,
      sameName up.locale (ascii name) (given other).defname.val = (other.name == ascii name) := by
    intro other inside
    rw [given, cstringElem, PluginOption.defElem, ofBytes_val (regular_noNul (regular other inside))]
    exact sameName_regular up.locale (regular other inside) (ascii name)
  have skipped : before.find? (fun other => sameName up.locale (ascii name) (given other).defname.val) = none := by
    rw [List.find?_eq_none]
    intro other inside
    rw [same other (List.mem_append_left _ inside), beq_iff_eq]
    exact first other inside
  have found : (before ++ option :: after).find?
      (fun other => sameName up.locale (ascii name) (given other).defname.val) = some option := by
    rw [List.find?_append, skipped, Option.none_or, List.find?_cons_of_pos]
    rw [same option (List.mem_append_right _ (List.mem_cons_self ..)), named, beq_self_eq_true]
  rw [OutputConfig.getParam, List.find?_map]
  simp only [Function.comp_def, found]
  rfl

/-- The numbers of a server fit their options. -/
structure Sized (down : Downstream) : Prop where
  pgVersionNum : down.pgVersionNum < 4294967296
  sizeofDatum : 0 < down.sizeofDatum ∧ down.sizeofDatum < 4294967296
  sizeofInt : 0 < down.sizeofInt ∧ down.sizeofInt < 4294967296
  sizeofLong : 0 < down.sizeofLong ∧ down.sizeofLong < 4294967296
  named : down.encodingName ≠ []
  terminated : 0 ∉ down.encodingName

/-- What the plugin takes the subscriber to be. -/
def described (down : Downstream) : ClientInfo where
  clientPgVersion := UInt32.ofNat down.pgVersionNum
  clientMaxProtoVersion := 1
  clientMinProtoVersion := 1
  clientExpectedEncoding := some (.ofBytes down.encodingName)
  clientProtocolFormat := none
  clientBinaryBasetypesMajorVersion := UInt32.ofNat (down.pgVersionNum / 100)
  clientWantInternalBasetypesSet := true
  clientWantInternalBasetypes := true
  clientWantBinaryBasetypesSet := true
  clientWantBinaryBasetypes := true
  clientBinaryBigendianSet := true
  clientBinaryBigendian := down.bigendian
  clientBinarySizeofdatum := UInt32.ofNat down.sizeofDatum
  clientBinarySizeofint := UInt32.ofNat down.sizeofInt
  clientBinarySizeoflong := UInt32.ofNat down.sizeofLong
  clientBinaryFloat4byvalSet := true
  -- the value of the option behind it
  clientBinaryFloat4byval := down.float8Byval
  clientBinaryFloat8byvalSet := false
  clientBinaryFloat8byval := false
  clientBinaryIntdatetimesSet := true
  clientBinaryIntdatetimes := down.integerDatetimes
  clientNoTxinfo := false
  hooksSetupFuncname := hooksSetupName

variable (up) in
/-- What an option does to the fields. -/
def Assigns (option : PluginOption) (assign : ClientInfo → ClientInfo) : Prop :=
  ∀ data, OutputConfig.processParameter up.toServer data (given option) = .ok (assign data)

/-- An option that the plugin does not look at in the loop. -/
theorem assigns_id {option : PluginOption} {key : OutputPluginParamKey}
    (named : getParamKey (.ofBytes option.name) = key)
    (ignored : key = .maxProtocolVersion ∨ key = .minProtocolVersion ∨ key = .unrecognised) :
    Assigns up option id := by
  intro data
  have assign : OutputConfig.assigned up.toServer (given option) = .ok id := by
    rw [OutputConfig.assigned, given, cstringElem, PluginOption.defElem, named]
    rcases ignored with rfl | rfl | rfl <;> rfl
  rw [OutputConfig.processParameter, assign]
  rfl

/-- An option that the plugin reads. -/
theorem assigns_formatted {name : String} {key : OutputPluginParamKey} (listed : (name, key) ∈ OutputConfig.paramLookup)
    {α : Type} {parse : OutputConfig.DefElem → CString → Except String α} (set : α → ClientInfo → ClientInfo)
    (assigned : ∀ elem : OutputConfig.DefElem, getParamKey elem.defname = key →
      OutputConfig.assigned up.toServer elem = OutputConfig.getParamValue elem parse >>= fun val => pure (set val))
    {quoted : Bool} {value : Bytes} {val : α} (parsed : ∀ elem, parse elem (.ofBytes value) = .ok val) :
    Assigns up (formatOption name quoted value) (set val) := by
  intro data
  have named : getParamKey (given (formatOption name quoted value)).defname = key :=
    getParamKey_listed (name, key) listed
  have read : OutputConfig.getParamValue (given (formatOption name quoted value)) parse = .ok val := parsed _
  rw [OutputConfig.processParameter, assigned _ named, read]
  rfl

theorem ok_bind {ε α β : Type} (value : α) (k : α → Except ε β) : (Except.ok value >>= k) = k value := rfl

theorem processParameters_assigns {options : List PluginOption} {assigns : List (ClientInfo → ClientInfo)}
    (each : List.Forall₂ (Assigns up) options assigns) (data : ClientInfo) :
    (options.map given).foldlM (OutputConfig.processParameter up.toServer) data =
      .ok (assigns.foldl (fun data assign => assign data) data) := by
  induction each generalizing data with
  | nil => rfl
  | cons first _ ih =>
    rw [List.map_cons, List.foldlM_cons, first data]
    exact ih _

/-- Options that leave the fields alone. -/
theorem processParameters_ids {options : List PluginOption} (each : ∀ option ∈ options, Assigns up option id)
    (data : ClientInfo) : (options.map given).foldlM (OutputConfig.processParameter up.toServer) data = .ok data := by
  induction options with
  | nil => rfl
  | cons option options ih =>
    obtain ⟨now, later⟩ := List.forall_mem_cons.mp each
    rw [List.map_cons, List.foldlM_cons, now data]
    exact ih later

theorem assigns_protocolOptions (digits : ReadsDigits up.parseBool) {down : Downstream} (sized : Sized down) :
    List.Forall₂ (Assigns up) (protocolOptions down)
      [fun data => { data with clientExpectedEncoding := some (.ofBytes down.encodingName) }, id, id, id,
        fun data => { data with clientWantInternalBasetypesSet := true, clientWantInternalBasetypes := true },
        fun data => { data with clientWantBinaryBasetypesSet := true, clientWantBinaryBasetypes := true },
        fun data => { data with clientBinaryBasetypesMajorVersion := UInt32.ofNat (down.pgVersionNum / 100) },
        fun data => { data with clientBinarySizeofdatum := UInt32.ofNat down.sizeofDatum },
        fun data => { data with clientBinarySizeofint := UInt32.ofNat down.sizeofInt },
        fun data => { data with clientBinarySizeoflong := UInt32.ofNat down.sizeofLong },
        fun data => { data with clientBinaryBigendianSet := true, clientBinaryBigendian := down.bigendian },
        fun data => { data with clientBinaryFloat4byvalSet := true, clientBinaryFloat4byval := down.float4Byval },
        fun data => { data with clientBinaryFloat4byvalSet := true, clientBinaryFloat4byval := down.float8Byval },
        fun data =>
          { data with clientBinaryIntdatetimesSet := true, clientBinaryIntdatetimes := down.integerDatetimes },
        fun data => { data with hooksSetupFuncname := hooksSetupName }] := by
  have major : down.pgVersionNum / 100 < 4294967296 := Nat.lt_of_le_of_lt (Nat.div_le_self ..) sized.pgVersionNum
  have flags := parseParamBool_flag digits
  refine .cons ?_ (.cons ?_ (.cons ?_ (.cons ?_ (.cons ?_ (.cons ?_ (.cons ?_ (.cons ?_ (.cons ?_ (.cons ?_ (.cons ?_
    (.cons ?_ (.cons ?_ (.cons ?_ (.cons ?_ .nil))))))))))))))
  · exact assigns_formatted (by decide : ("expected_encoding", .expectedEncoding) ∈ _)
      (fun val data => { data with clientExpectedEncoding := some val })
      (fun elem named => by rw [OutputConfig.assigned, named])
      fun elem => (rfl : OutputConfig.parseParamString elem (.ofBytes down.encodingName) = .ok _)
  · exact assigns_id (getParamKey_listed ("min_proto_version", .minProtocolVersion) (by decide)) (.inr (.inl rfl))
  · exact assigns_id (getParamKey_listed ("max_proto_version", .maxProtocolVersion) (by decide)) (.inl rfl)
  · exact assigns_id (getParamKey_foreign (ascii "startup_params_format") (by decide)) (.inr (.inr rfl))
  · exact assigns_formatted (by decide : ("binary.want_internal_basetypes", .binaryWantInternalBasetypes) ∈ _)
      (fun val data => { data with clientWantInternalBasetypesSet := true, clientWantInternalBasetypes := val })
      (fun elem named => by rw [OutputConfig.assigned, named]) (flags true)
  · exact assigns_formatted (by decide : ("binary.want_binary_basetypes", .binaryWantBinaryBasetypes) ∈ _)
      (fun val data => { data with clientWantBinaryBasetypesSet := true, clientWantBinaryBasetypes := val })
      (fun elem named => by rw [OutputConfig.assigned, named]) (flags true)
  · exact assigns_formatted (by decide : ("binary.basetypes_major_version", .binaryBasetypesMajorVersion) ∈ _)
      (fun val data => { data with clientBinaryBasetypesMajorVersion := val })
      (fun elem named => by rw [OutputConfig.assigned, named]) (parseParamUint32_decimal major)
  · exact assigns_formatted (by decide : ("binary.sizeof_datum", .binarySizeofDatum) ∈ _)
      (fun val data => { data with clientBinarySizeofdatum := val })
      (fun elem named => by rw [OutputConfig.assigned, named]) (parseParamUint32_decimal sized.sizeofDatum.2)
  · exact assigns_formatted (by decide : ("binary.sizeof_int", .binarySizeofInt) ∈ _)
      (fun val data => { data with clientBinarySizeofint := val })
      (fun elem named => by rw [OutputConfig.assigned, named]) (parseParamUint32_decimal sized.sizeofInt.2)
  · exact assigns_formatted (by decide : ("binary.sizeof_long", .binarySizeofLong) ∈ _)
      (fun val data => { data with clientBinarySizeoflong := val })
      (fun elem named => by rw [OutputConfig.assigned, named]) (parseParamUint32_decimal sized.sizeofLong.2)
  · exact assigns_formatted (by decide : ("binary.bigendian", .binaryBigendian) ∈ _)
      (fun val data => { data with clientBinaryBigendianSet := true, clientBinaryBigendian := val })
      (fun elem named => by rw [OutputConfig.assigned, named]) (flags down.bigendian)
  · exact assigns_formatted (by decide : ("binary.float4_byval", .binaryFloat4byval) ∈ _)
      (fun val data => { data with clientBinaryFloat4byvalSet := true, clientBinaryFloat4byval := val })
      (fun elem named => by rw [OutputConfig.assigned, named]) (flags down.float4Byval)
  · exact assigns_formatted (by decide : ("binary.float8_byval", .binaryFloat8byval) ∈ _)
      (fun val data => { data with clientBinaryFloat4byvalSet := true, clientBinaryFloat4byval := val })
      (fun elem named => by rw [OutputConfig.assigned, named]) (flags down.float8Byval)
  · exact assigns_formatted (by decide : ("binary.integer_datetimes", .binaryIntegerDatetimes) ∈ _)
      (fun val data => { data with clientBinaryIntdatetimesSet := true, clientBinaryIntdatetimes := val })
      (fun elem named => by rw [OutputConfig.assigned, named]) (flags down.integerDatetimes)
  · exact assigns_formatted (by decide : ("hooks.setup_function", .hooksSetupFunction) ∈ _)
      (fun val data => { data with hooksSetupFuncname := val })
      (fun elem named => by rw [OutputConfig.assigned, named]) (parseParamQualifiedName_hooks up)

theorem assigns_versionOptions {down : Downstream} (sized : Sized down) :
    List.Forall₂ (Assigns up) (versionOptions down)
      [id, fun data => { data with clientPgVersion := UInt32.ofNat down.pgVersionNum }, id, id, id] := by
  have foreign (name : String) (listed : ascii name ∈ _) {value : Bytes} {quoted : Bool} :
      Assigns up (formatOption name quoted value) id :=
    assigns_id (getParamKey_foreign (ascii name) listed) (.inr (.inr rfl))
  refine .cons ?_ (.cons ?_ (.cons ?_ (.cons ?_ (.cons ?_ .nil))))
  · exact foreign "relmeta_cache_size" (by decide)
  · exact assigns_formatted (by decide : ("pg_version", .pgVersion) ∈ _)
      (fun val data => { data with clientPgVersion := val })
      (fun elem named => by rw [OutputConfig.assigned, named]) (parseParamUint32_decimal sized.pgVersionNum)
  · exact foreign "pglogical_version" (by decide)
  · exact foreign "pglogical_version_num" (by decide)
  · exact foreign "pglogical_apply_pid" (by decide)

/-- The options that are for the hooks. -/
theorem exists_literals (lexicon : Lexicon) (down : Downstream) (request : Request) :
    ∃ literals, request.options lexicon down = protocolOptions down ++ (literals ++ versionOptions down) ∧
      ∀ option ∈ literals, Assigns up option id := by
  have foreign {name : Bytes} (listed : name ∈ [forwardOriginsName, replicateOnlyTableName, replicationSetNamesName])
      {value : Option Bytes} : ∀ option ∈ literalOption name value, Assigns up option id := by
    intro option inside
    obtain ⟨text, -, rfl⟩ := List.mem_map.mp inside
    exact assigns_id (getParamKey_foreign name (List.mem_append_left _ listed)) (.inr (.inr rfl))
  have all (forwardOrigins replicationSets replicateOnlyTable : Option Bytes) :
      ∃ literals, startReplicationOptions down forwardOrigins replicationSets replicateOnlyTable =
        protocolOptions down ++ (literals ++ versionOptions down) ∧ ∀ option ∈ literals, Assigns up option id := by
    refine ⟨literalOption forwardOriginsName forwardOrigins ++
      literalOption replicateOnlyTableName replicateOnlyTable ++ literalOption replicationSetNamesName replicationSets,
      by simp only [startReplicationOptions, List.append_assoc], ?_⟩
    rw [List.forall_mem_append, List.forall_mem_append]
    exact ⟨⟨foreign (by simp), foreign (by simp)⟩, foreign (by simp)⟩
  cases request with
  | apply => exact all _ _ _
  | sync => exact all _ _ _

theorem nodup_protocolOptions (down : Downstream) : ((protocolOptions down).map PluginOption.name).Nodup := by
  simp only [protocolOptions, formatOption, List.map_cons, List.map_nil]
  decide +kernel

/-- A parameter that is looked up by its name is the protocol option of that name. -/
theorem getParam_request {α : Type} (lexicon : Lexicon) {down : Downstream} (request : Request) {option : PluginOption}
    (listed : option ∈ protocolOptions down) {name : String} (named : option.name = ascii name)
    {parse : OutputConfig.DefElem → CString → Except String α} :
    OutputConfig.getParam up.toServer ((request.options lexicon down).map given) name parse =
      parse (given option) (.ofBytes option.value.content) := by
  obtain ⟨literals, split, -⟩ := @exists_literals up lexicon down request
  obtain ⟨before, after, parts⟩ := List.append_of_mem listed
  have regular := regular_request lexicon down request
  have different := nodup_protocolOptions down
  rw [parts, List.map_append, List.map_cons, List.nodup_append] at different
  rw [split, parts, List.append_assoc, List.cons_append] at regular ⊢
  refine getParam_option regular named fun other inside same => ?_
  exact different.2.2 _ (List.mem_map_of_mem inside) _ (List.mem_cons_self ..) (same.trans named.symm)

theorem processParameters_request (digits : ReadsDigits up.parseBool) (lexicon : Lexicon) {down : Downstream}
    (sized : Sized down) (request : Request) :
    OutputConfig.processParameters up.toServer ((request.options lexicon down).map given) .zeroed =
      .ok (1, described down) := by
  have number (name : String) (listed : formatOption name false (decimal 1) ∈ protocolOptions down) :
      OutputConfig.getParam up.toServer ((request.options lexicon down).map given) name (parseParamUint32 up.toServer) =
        .ok 1 :=
    (getParam_request lexicon request listed rfl).trans (parseParamUint32_decimal (by decide) _)
  have one : ascii "1" = decimal 1 := by decide
  have format := number "startup_params_format" (by simp [protocolOptions, one])
  have maxProto := number "max_proto_version" (by simp [protocolOptions])
  have minProto := number "min_proto_version" (by simp [protocolOptions])
  obtain ⟨literals, split, foreign⟩ := @exists_literals up lexicon down request
  rw [OutputConfig.processParameters, format, ok_bind,
    if_pos (show (1 : UInt32) = OutputConfig.pglogicalStartupParamFormatFlat from rfl),
    OutputConfig.processParametersV1, maxProto, ok_bind, minProto, ok_bind, split, List.map_append, List.map_append,
    List.foldlM_append, processParameters_assigns (assigns_protocolOptions digits sized), ok_bind,
    List.foldlM_append, processParameters_ids foreign, ok_bind,
    processParameters_assigns (assigns_versionOptions sized)]
  rfl

/-! ## The start of decoding -/

variable (up) in
/-- What the session is started with. -/
def agreed (down : Downstream) : OutputConfig.Started where
  client := described down
  data := {
    allowInternalBasetypes := OutputConfig.checkBinaryCompatibility up.toServer (described down)
    allowBinaryBasetypes := decide (UInt32.ofNat (down.pgVersionNum / 100) = up.majorVersion)
    clientNoTxinfo := false
    forwardChangesetOrigins := decide (up.majorVersion ≠ 904)
    proto := .native }
  outputType := .binaryOutput
  fieldDatumEncoding := up.getDatabaseEncoding

variable (up) in
/-- The plugin knows the encoding, and it is the one of its database. -/
def SameEncoding (down : Downstream) : Prop :=
  up.pgCharToEncoding (.ofBytes down.encodingName) = some up.getDatabaseEncoding

theorem fieldDatumEncoding_iff {down : Downstream} (sized : Sized down) {encoding : Encoding} :
    OutputConfig.fieldDatumEncoding up.toServer (described down) .binaryOutput = .ok encoding ↔
      SameEncoding up down ∧ encoding = up.getDatabaseEncoding := by
  have some_text : ¬ (CString.ofBytes down.encodingName).strlen = 0 := by
    rw [CString.strlen, ofBytes_val sized.terminated, List.length_eq_zero_iff]
    exact sized.named
  simp only [OutputConfig.fieldDatumEncoding, described, some_text, if_false, SameEncoding]
  cases up.pgCharToEncoding (.ofBytes down.encodingName) with
  | none => simp
  | some wanted =>
    by_cases same : wanted = up.getDatabaseEncoding
    · simp [same, eq_comm]
    · simp [same]

theorem pgDecodeStartup_iff (digits : ReadsDigits up.parseBool) (lexicon : Lexicon) {down : Downstream}
    (sized : Sized down) (request : Request) {started : OutputConfig.Started} :
    OutputConfig.pgDecodeStartup up.toServer ((request.options lexicon down).map given) = .ok started ↔
      SameEncoding up down ∧ started = agreed up down := by
  have reduced : OutputConfig.pgDecodeStartup up.toServer ((request.options lexicon down).map given) =
      OutputConfig.fieldDatumEncoding up.toServer (described down) .binaryOutput >>= fun encoding =>
        .ok { agreed up down with fieldDatumEncoding := encoding } := by
    rw [OutputConfig.pgDecodeStartup, processParameters_request digits lexicon sized, ok_bind]
    rfl
  rw [reduced, bind_eq_ok]
  simp only [fieldDatumEncoding_iff sized, Except.ok.injEq]
  constructor
  · rintro ⟨encoding, ⟨same, rfl⟩, rfl⟩
    exact ⟨same, rfl⟩
  · rintro ⟨same, rfl⟩
    exact ⟨_, ⟨same, rfl⟩, rfl⟩

/-! ## The request -/

/-- No name of the request makes its literal an escaped one. -/
def Sayable (request : Request) : Prop := ∀ name ∈ request.names, backslash ∉ nameBytes name

variable (up) in
/-- What the hooks are to hear. -/
def heard (request : Request) : Except String HooksPrivate := do
  let localNodeId ← up.getLocalNode
  request.startup up.getReplicationSets localNodeId

variable (up) in
/-- The hooks of the extension, behind the startup hook. -/
def hooksOf (hooksPrivate : HooksPrivate) : PGLogicalHooks :=
  { pglogicalHooksSetup up .zeroed with hooksPrivateData := some hooksPrivate }

theorem extensionStartupHook_request (lexicon : Lexicon) (down : Downstream) (request : Request) :
    extensionStartupHook up ((request.options lexicon down).map PluginOption.defElem) =
      heard up request >>= fun hooksPrivate => .ok (hooksPrivate, []) := by
  have hears (localNodeId : Oid) : pglogicalStartupHook up.locale up.getReplicationSets localNodeId
      ((request.options lexicon down).map PluginOption.defElem) =
        request.startup up.getReplicationSets localNodeId := by
    cases request with
    | apply => exact hook_apply ..
    | sync => exact hook_sync ..
  simp only [extensionStartupHook, hears, heard, bind_assoc]
  rfl

theorem loadHooks_installed (installed : up.Installed) :
    loadHooks up hooksSetupName = .ok (pglogicalHooksSetup up .zeroed) := by
  rw [loadHooks, if_pos (by decide), getHooksFunction, installed]
  rfl

theorem callStartupHook_request (lexicon : Lexicon) (down : Downstream) (request : Request) :
    callStartupHook (pglogicalHooksSetup up .zeroed) ((request.options lexicon down).map PluginOption.defElem) =
      heard up request >>= fun hooksPrivate => .ok (hooksOf up hooksPrivate, []) := by
  have called (inParams : List DefElem) : callStartupHook (pglogicalHooksSetup up .zeroed) inParams =
      extensionStartupHook up inParams >>= fun result =>
        .ok ({ pglogicalHooksSetup up .zeroed with hooksPrivateData := some result.1 }, result.2) := rfl
  rw [called, extensionStartupHook_request, bind_assoc]
  rfl

/-- The startup callback on the options of a request. -/
theorem pgDecodeStartup_request (digits : ReadsDigits up.parseBool) (installed : up.Installed) (lexicon : Lexicon)
    {down : Downstream} (sized : Sized down) (request : Request) {session : Session} :
    pgDecodeStartup up ((request.options lexicon down).map PluginOption.defElem) = .ok session ↔
      SameEncoding up down ∧ ∃ hooksPrivate, heard up request = .ok hooksPrivate ∧
        session = ⟨agreed up down, hooksOf up hooksPrivate, []⟩ := by
  have setup : (agreed up down).client.hooksSetupFuncname = hooksSetupName := rfl
  rw [pgDecodeStartup, List.map_map, bind_eq_ok]
  constructor
  · rintro ⟨started, begun, done⟩
    obtain ⟨same, rfl⟩ := (pgDecodeStartup_iff digits lexicon sized request).mp begun
    rw [setup, if_pos (by decide), loadHooks_installed installed, ok_bind, callStartupHook_request, bind_assoc] at done
    obtain ⟨hooksPrivate, hears, done⟩ := bind_eq_ok.mp done
    cases done
    exact ⟨same, hooksPrivate, hears, rfl⟩
  · rintro ⟨same, hooksPrivate, hears, rfl⟩
    refine ⟨_, (pgDecodeStartup_iff digits lexicon sized request).mpr ⟨same, rfl⟩, ?_⟩
    rw [setup, if_pos (by decide), loadHooks_installed installed, ok_bind, callStartupHook_request, hears]
    rfl

/-- The walsender takes a request exactly if it can be said, the encodings are the same and the hook takes it. -/
theorem startReplication_iff (digits : ReadsDigits up.parseBool) (installed : up.Installed)
    {subscriber : Subscriber} (sized : Sized subscriber.down) (request : Request) {session : Session} :
    startReplication up subscriber request = .ok session ↔
      Sayable request ∧ SameEncoding up subscriber.down ∧ ∃ hooksPrivate, heard up request = .ok hooksPrivate ∧
        session = ⟨agreed up subscriber.down, hooksOf up hooksPrivate, []⟩ := by
  have escaped := any_escaped_request subscriber.lexicon subscriber.down request
  rw [startReplication, parseOptions_optionsText up.locale (regular_request subscriber.lexicon subscriber.down request)
    (options_ne_nil subscriber.lexicon subscriber.down request)]
  by_cases sayable : Sayable request
  · have plain : ¬ (request.options subscriber.lexicon subscriber.down).any (·.value.escaped) = true := by
      rw [escaped]
      rintro ⟨name, inside, written⟩
      exact sayable name inside written
    simp only [plain, sayable, true_and]
    exact pgDecodeStartup_request digits installed subscriber.lexicon sized request
  · have marked : (request.options subscriber.lexicon subscriber.down).any (·.value.escaped) = true := by
      rw [escaped]
      simpa [Sayable] using sayable
    simp [marked, sayable]

/-! ## The startup message -/

/-- A message that fits a buffer is written as it is encoded. -/
theorem writeStartupParams_fits {params : List Param} {before : Bytes}
    (fits : (before ++ encodeParams params).length < maxAllocSize) :
    Callbacks.writeStartupParams params before = .ok ((), before ++ encodeParams params) := by
  induction params generalizing before with
  | nil => simp [encodeParams, Callbacks.writeStartupParams]; rfl
  | cons pair params ih =>
    obtain ⟨k, v⟩ := pair
    rw [Startup.encodeParams_cons] at fits ⊢
    have later : (before ++ k.terminated ++ v.terminated ++ encodeParams params).length < maxAllocSize := by
      simpa only [List.append_assoc] using fits
    simp only [List.length_append] at later
    refine bind_ok.mpr ⟨(), before ++ k.terminated, appendBinaryStringInfo_ok.mpr ⟨by omega, rfl⟩,
      bind_ok.mpr ⟨(), before ++ k.terminated ++ v.terminated, appendBinaryStringInfo_ok.mpr ⟨?_, rfl⟩, ?_⟩⟩
    · rw [List.length_append]
      omega
    · rw [ih (by simpa only [List.append_assoc] using fits)]
      simp only [List.append_assoc]

theorem writeStartupMessage_fits {params : List Param} (fits : (encodeParams params).length + 2 < maxAllocSize) :
    Callbacks.writeStartupMessage params [] = .ok ((), 'S'.toUInt8 :: 1 :: encodeParams params) := by
  refine bind_ok.mpr ⟨(), ['S'.toUInt8], appendBinaryStringInfo_ok.mpr ⟨by decide, rfl⟩,
    bind_ok.mpr ⟨(), ['S'.toUInt8, 1], appendBinaryStringInfo_ok.mpr ⟨by decide, rfl⟩, ?_⟩⟩
  exact @writeStartupParams_fits params ['S'.toUInt8, 1] (by simpa using fits)

/-- Keys and values of bounded lengths. -/
def Short (param : Param) : Prop := param.1.strlen ≤ 64 ∧ param.2.strlen ≤ 64

theorem length_encodeParams_le {params : List Param} (short : ∀ param ∈ params, Short param) :
    (encodeParams params).length ≤ 130 * params.length := by
  induction params with
  | nil => simp [encodeParams]
  | cons pair params ih =>
    obtain ⟨⟨key, value⟩, later⟩ := List.forall_mem_cons.mp short
    have rest := ih later
    rw [Startup.encodeParams_cons, List.length_append, List.length_append, CString.length_terminated,
      CString.length_terminated, List.length_cons]
    omega

theorem strlen_ofBytes_le (bytes : Bytes) : (CString.ofBytes bytes).strlen ≤ bytes.length :=
  (List.takeWhile_prefix _).length_le

theorem length_decimal_le {n : ℕ} (small : n < 10 ^ 10) : (decimal n).length ≤ 10 := by
  unfold decimal
  split
  · decide
  · rw [List.length_map, List.length_reverse]
    exact (Nat.digits_length_le_iff (by decide) n).mpr small

theorem length_decimalInt_le (n : Int32) : (decimalInt n.toInt).length ≤ 11 := by
  have above := n.toInt_lt
  have below := n.le_toInt
  have digits := length_decimal_le (show n.toInt.natAbs < 10 ^ 10 by omega)
  unfold decimalInt
  split
  · rw [List.length_cons]
    omega
  · omega

/-- What the provider sends of its server is short. -/
structure Names (up : Upstream) : Prop where
  pgVersion : up.pgVersion.strlen ≤ 64
  databaseEncodingName : up.databaseEncodingName.strlen ≤ 64
  pgEncodingToChar : ∀ encoding, (up.pgEncodingToChar encoding).strlen ≤ 64

def startupKeys : List String :=
  ["max_proto_version", "min_proto_version", "coltypes", "pg_version_num", "pg_version", "pg_catversion",
    "database_encoding", "encoding", "forward_changeset_origins", "walsender_pid", "pglogical_output_version",
    "pglogical_output_version", "binary.internal_basetypes", "binary.binary_basetypes",
    "binary.basetypes_major_version", "binary.sizeof_int", "binary.sizeof_long", "binary.sizeof_datum",
    "binary.maxalign", "binary.bigendian", "binary.float4_byval", "binary.float8_byval", "binary.integer_datetimes",
    "binary.binary_pg_version", "no_txinfo", "hooks.startup_hook_enabled", "hooks.shutdown_hook_enabled",
    "hooks.row_filter_enabled", "hooks.transaction_filter_enabled"]

theorem map_fst_prepareStartupMessage {session : Session} (plain : session.extraStartupParams = []) :
    (prepareStartupMessage up session).map Prod.fst = startupKeys.map CString.ofString := by
  rw [prepareStartupMessage, plain, List.append_nil]
  rfl

/-- Every key has a name, and a short one. -/
theorem strlen_startupKeys : ∀ key ∈ startupKeys.map CString.ofString, 0 < key.strlen ∧ key.strlen ≤ 64 := by
  decide +kernel

theorem fst_mem_startupKeys {session : Session} (plain : session.extraStartupParams = []) {param : Param}
    (listed : param ∈ prepareStartupMessage up session) : param.1 ∈ startupKeys.map CString.ofString :=
  map_fst_prepareStartupMessage plain ▸ List.mem_map_of_mem listed

/-- The reader of a session can read the message. -/
theorem readable_prepareStartupMessage {session : Session} (plain : session.extraStartupParams = []) :
    Transfer.Readable (prepareStartupMessage up session) := by
  refine ⟨?_, fun param listed => ?_⟩
  · rw [prepareStartupMessage]
    exact List.cons_ne_nil _ _
  · exact Nat.pos_iff_ne_zero.mp (strlen_startupKeys _ (fst_mem_startupKeys plain listed)).1

theorem short_prepareStartupMessage (names : Names up) {session : Session} (plain : session.extraStartupParams = []) :
    ∀ param ∈ prepareStartupMessage up session, Short param := by
  have number (key : String) (val : Int32) : (addStartupMsgI key val).2.strlen ≤ 64 :=
    (strlen_ofBytes_le _).trans ((length_decimalInt_le val).trans (by omega))
  have boolean (key : String) (val : Bool) : (addStartupMsgB key val).2.strlen ≤ 64 := by
    cases val
    · exact (show (CString.ofString "f").strlen ≤ 64 by decide)
    · exact (show (CString.ofString "t").strlen ≤ 64 by decide)
  have one : (CString.ofString "1").strlen ≤ 64 := by decide
  have version : (CString.ofString "1.1.0").strlen ≤ 64 := by decide
  have values : ∀ param ∈ prepareStartupMessage up session, param.2.strlen ≤ 64 := by
    rw [prepareStartupMessage, plain, List.append_nil]
    simp only [List.forall_mem_cons, List.not_mem_nil, false_imp_iff, implies_true, number, boolean, addStartupMsgS,
      one, version, names.pgVersion, names.databaseEncodingName, names.pgEncodingToChar, and_self]
  exact fun param listed => ⟨(strlen_startupKeys _ (fst_mem_startupKeys plain listed)).2, values param listed⟩

theorem writeStartupMessage_session (names : Names up) {session : Session} (plain : session.extraStartupParams = []) :
    Callbacks.writeStartupMessage (prepareStartupMessage up session) [] =
      .ok ((), 'S'.toUInt8 :: 1 :: encodeParams (prepareStartupMessage up session)) := by
  have count : (prepareStartupMessage up session).length = 29 := by
    rw [prepareStartupMessage, plain]
    rfl
  have short := length_encodeParams_le (short_prepareStartupMessage names plain)
  refine writeStartupMessage_fits ?_
  rw [count] at short
  unfold maxAllocSize
  omega

/-! ## The subscriber's check -/

/-- The pairs are accepted one by one. -/
theorem callParams_eq_ok_iff {param : CString → CString → Except String Unit} {params : List Param} :
    (∃ rest, (Startup.callParams param params).2 = .ok rest) ↔ ∀ pair ∈ params, param pair.1 pair.2 = .ok () := by
  induction params with
  | nil => simp [Startup.callParams]
  | cons pair params ih =>
    rw [List.forall_mem_cons, ← ih, Startup.callParams]
    cases param pair.1 pair.2 with
    | error message => simp
    | ok => simp

theorem receiveStartup_iff {receiver : Receiver} {session : Session} (plain : session.extraStartupParams = []) :
    receiveStartup receiver ('S'.toUInt8 :: 1 :: encodeParams (prepareStartupMessage up session)) = .ok () ↔
      ∀ pair ∈ prepareStartupMessage up session, handleStartupParam receiver pair.1 pair.2 = .ok () := by
  obtain ⟨some, named⟩ := @readable_prepareStartupMessage up session plain
  have handed :
      Startup.handleStartup (handleStartupParam receiver) (1 :: encodeParams (prepareStartupMessage up session)) =
        Startup.callParams (handleStartupParam receiver) (prepareStartupMessage up session) :=
    Startup.handleStartupPairs_encodeParams some named
  have received : receiveStartup receiver ('S'.toUInt8 :: 1 :: encodeParams (prepareStartupMessage up session)) =
      (Startup.handleStartup (handleStartupParam receiver) (1 :: encodeParams (prepareStartupMessage up session))).2 >>=
        fun _ => .ok () := rfl
  rw [received, handed, ← callParams_eq_ok_iff, bind_eq_ok]
  simp

theorem parseBoolParam_letter {receiver : Receiver} (letters : ReadsLetters receiver.parseBool) (key : CString)
    (value : Bool) : Startup.parseBoolParam receiver key (.ofString (if value then "t" else "f")) = .ok value := by
  cases value with
  | false => simp only [Startup.parseBoolParam, Bool.false_eq_true, if_false, letters.letterF]
  | true => simp only [Startup.parseBoolParam, if_true, letters.letterT]

/-- The keys that the subscriber looks at. -/
def checkedKeys : List String :=
  ["encoding", "forward_changeset_origins", "hooks.startup_hook_enabled", "hooks.row_filter_enabled",
    "hooks.transaction_filter_enabled"]

theorem handleStartupParam_other {receiver : Receiver} {key : CString}
    (other : key ∉ checkedKeys.map CString.ofString) (value : CString) :
    handleStartupParam receiver key value = .ok () := by
  simp only [checkedKeys, List.map_cons, List.map_nil, List.mem_cons, List.not_mem_nil, or_false, not_or] at other
  obtain ⟨encoding, origins, startup, rowFilter, transactionFilter⟩ := other
  simp only [handleStartupParam, encoding, origins, startup, rowFilter, transactionFilter, if_false]
  rfl

theorem handleStartupParam_encoding {receiver : Receiver} {value : CString} :
    handleStartupParam receiver (.ofString "encoding") value = .ok () ↔ receiver.isDatabaseEncoding value = true := by
  have checked : handleStartupParam receiver (.ofString "encoding") value =
      if !receiver.isDatabaseEncoding value then
        .error s!"expected encoding={receiver.databaseEncodingName.toString} from upstream but got {value.toString}"
      else .ok () := by
    cases accepted : receiver.isDatabaseEncoding value with
    | false => simp only [handleStartupParam, if_true, accepted]; rfl
    | true => simp only [handleStartupParam, if_true, accepted]; rfl
  rw [checked]
  cases receiver.isDatabaseEncoding value with
  | false => simp
  | true => simp

theorem handleStartupParam_origins {receiver : Receiver} (letters : ReadsLetters receiver.parseBool) (value : Bool) :
    handleStartupParam receiver (addStartupMsgB "forward_changeset_origins" value).1
      (addStartupMsgB "forward_changeset_origins" value).2 = .ok () := by
  have read := parseBoolParam_letter letters (.ofString "forward_changeset_origins") value
  have checked : handleStartupParam receiver (.ofString "forward_changeset_origins")
      (.ofString (if value then "t" else "f")) = Startup.parseBoolParam receiver (.ofString "forward_changeset_origins")
        (.ofString (if value then "t" else "f")) >>= fun _ => .ok () := by
    rfl
  rw [addStartupMsgB, checked, read]
  rfl

theorem handleStartupParam_hook {receiver : Receiver} (letters : ReadsLetters receiver.parseBool) {key : String}
    (hook : key ∈ ["hooks.startup_hook_enabled", "hooks.row_filter_enabled", "hooks.transaction_filter_enabled"]) :
    handleStartupParam receiver (addStartupMsgB key true).1 (addStartupMsgB key true).2 = .ok () := by
  have enabled (key hook : String) : Startup.requireHook receiver (.ofString key) (.ofString "t") hook = .ok () := by
    have read := parseBoolParam_letter letters (.ofString key) true
    rw [if_pos rfl] at read
    rw [Startup.requireHook, read]
    rfl
  simp only [List.mem_cons, List.not_mem_nil, or_false] at hook
  rcases hook with rfl | rfl | rfl
  · change (Startup.requireHook receiver (.ofString _) (.ofString "t") "startup" >>= fun _ => .ok ()) = .ok ()
    rw [enabled, ok_bind]
  · change (Startup.requireHook receiver (.ofString _) (.ofString "t") "row filter" >>= fun _ => .ok ()) = .ok ()
    rw [enabled, ok_bind]
  · exact enabled "hooks.transaction_filter_enabled" "transaction filter"

/-- What the message says under the keys that the subscriber looks at. -/
theorem checked_prepareStartupMessage {session : Session} (plain : session.extraStartupParams = []) :
    (prepareStartupMessage up session).filter (fun param => decide (param.1 ∈ checkedKeys.map CString.ofString)) =
      [addStartupMsgS "encoding" (up.pgEncodingToChar session.started.fieldDatumEncoding),
        addStartupMsgB "forward_changeset_origins" session.started.data.forwardChangesetOrigins,
        addStartupMsgB "hooks.startup_hook_enabled" session.hooks.startupHook.isSome,
        addStartupMsgB "hooks.row_filter_enabled" session.hooks.rowFilterHook,
        addStartupMsgB "hooks.transaction_filter_enabled" session.hooks.txnFilterHook] := by
  rw [prepareStartupMessage, plain, List.append_nil]
  rfl

/-- The subscriber accepts what is said about its hooks, so that only the encoding is left to be checked. -/
theorem accepts_iff {receiver : Receiver} (letters : ReadsLetters receiver.parseBool) (down : Downstream)
    (hooksPrivate : HooksPrivate) :
    (∀ pair ∈ prepareStartupMessage up ⟨agreed up down, hooksOf up hooksPrivate, []⟩,
      handleStartupParam receiver pair.1 pair.2 = .ok ()) ↔
      receiver.isDatabaseEncoding (up.pgEncodingToChar up.getDatabaseEncoding) = true := by
  have checked (params : List Param) : (∀ pair ∈ params, handleStartupParam receiver pair.1 pair.2 = .ok ()) ↔
      ∀ pair ∈ params.filter (fun param => decide (param.1 ∈ checkedKeys.map CString.ofString)),
        handleStartupParam receiver pair.1 pair.2 = .ok () := by
    constructor
    · exact fun all pair listed => all pair (List.mem_of_mem_filter listed)
    · intro all pair listed
      by_cases known : pair.1 ∈ checkedKeys.map CString.ofString
      · exact all pair (List.mem_filter.mpr ⟨listed, decide_eq_true known⟩)
      · exact handleStartupParam_other known pair.2
  rw [checked, checked_prepareStartupMessage rfl]
  simp only [List.forall_mem_cons, List.not_mem_nil, false_imp_iff, implies_true, and_true,
    handleStartupParam_origins letters, true_and]
  constructor
  · exact fun all => handleStartupParam_encoding.mp all.1
  · exact fun same => ⟨handleStartupParam_encoding.mpr same, handleStartupParam_hook letters (by simp),
      handleStartupParam_hook letters (by simp), handleStartupParam_hook letters (by simp)⟩

/-! ## The handshake -/

/-- What is asked for can be said and is granted, and both sides name their encodings alike. -/
structure Accepted (up : Upstream) (subscriber : Subscriber) (request : Request) (hooksPrivate : HooksPrivate) :
    Prop where
  sayable : Sayable request
  encoding : SameEncoding up subscriber.down
  granted : heard up request = .ok hooksPrivate
  named : subscriber.receiver.isDatabaseEncoding (up.pgEncodingToChar up.getDatabaseEncoding) = true

/-- The servers represent values alike, as far as they compare them. -/
structure SameBinary (up : Upstream) (down : Downstream) : Prop where
  majorVersion : down.pgVersionNum / 100 = up.pgVersionNum.toNat / 100
  bigendian : down.bigendian = up.bigendian
  sizeofDatum : down.sizeofDatum = up.sizeofDatum.toNat
  sizeofInt : down.sizeofInt = up.sizeofInt.toNat
  sizeofLong : down.sizeofLong = up.sizeofLong.toNat
  /-- The option for `float8` is stored as the one for `float4`. -/
  floatByval : down.float8Byval = up.float4Byval
  integerDatetimes : down.integerDatetimes = up.integerDatetimes

structure Agreement (up : Upstream) (down : Downstream) (hooksPrivate : HooksPrivate) (session : Session) : Prop where
  /-- The startup message leaves the rest of the session to be read. -/
  readable : Transfer.Readable (prepareStartupMessage up session)
  native : session.started.data.proto = .native
  encoding : session.started.fieldDatumEncoding = up.getDatabaseEncoding
  binary : session.started.data.allowBinaryBasetypes = true ↔ down.pgVersionNum / 100 = up.pgVersionNum.toNat / 100
  internal : session.started.data.allowInternalBasetypes = true ↔ SameBinary up down
  txinfo : session.started.data.clientNoTxinfo = false
  heard : session.hooks.hooksPrivateData = some hooksPrivate
  filters : session.hooks.rowFilterHook = true ∧ session.hooks.txnFilterHook = true

theorem ofNat_eq_iff {n : ℕ} (small : n < 4294967296) {x : UInt32} : UInt32.ofNat n = x ↔ n = x.toNat := by
  rw [← UInt32.toNat_inj, UInt32.toNat_ofNat_of_lt' small]

theorem sameMajorVersion_iff {down : Downstream} (sized : Sized down) :
    UInt32.ofNat (down.pgVersionNum / 100) = up.majorVersion ↔
      down.pgVersionNum / 100 = up.pgVersionNum.toNat / 100 := by
  rw [ofNat_eq_iff (Nat.lt_of_le_of_lt (Nat.div_le_self ..) sized.pgVersionNum), OutputConfig.Server.majorVersion,
    UInt32.toNat_div]
  rfl

theorem size_iff {n : ℕ} (size : 0 < n ∧ n < 4294967296) {own : UInt32} :
    ¬ (UInt32.ofNat n ≠ 0 ∧ UInt32.ofNat n ≠ own) ↔ n = own.toNat := by
  have nonzero : UInt32.ofNat n ≠ 0 := fun zero => by
    have := (ofNat_eq_iff size.2).mp zero
    simp at this
    omega
  simp only [nonzero, ne_eq, not_false_eq_true, true_and, not_not, ofNat_eq_iff size.2]

theorem checkBinaryCompatibility_iff {down : Downstream} (sized : Sized down) :
    OutputConfig.checkBinaryCompatibility up.toServer (described down) = true ↔ SameBinary up down := by
  simp only [OutputConfig.checkBinaryCompatibility, described, OutputConfig.refuse_eq_true_iff,
    size_iff sized.sizeofDatum, size_iff sized.sizeofInt, size_iff sized.sizeofLong, ne_eq, not_not,
    sameMajorVersion_iff sized, true_and, Bool.false_eq_true, false_and, not_false_eq_true, and_true]
  constructor
  · rintro ⟨majorVersion, bigendian, datum, int, long, float, datetimes⟩
    exact ⟨majorVersion, bigendian, datum, int, long, float, datetimes⟩
  · rintro ⟨majorVersion, bigendian, datum, int, long, float, datetimes⟩
    exact ⟨majorVersion, bigendian, datum, int, long, float, datetimes⟩

theorem handshake_eq_ok_iff (digits : ReadsDigits up.parseBool) (installed : up.Installed) (names : Names up)
    {subscriber : Subscriber} (letters : ReadsLetters subscriber.receiver.parseBool) (sized : Sized subscriber.down)
    (request : Request) {session : Session} :
    handshake up subscriber request = .ok session ↔ ∃ hooksPrivate, Accepted up subscriber request hooksPrivate ∧
      session = ⟨agreed up subscriber.down, hooksOf up hooksPrivate, []⟩ := by
  rw [handshake, bind_eq_ok]
  constructor
  · rintro ⟨started, begun, done⟩
    obtain ⟨sayable, encoding, hooksPrivate, granted, rfl⟩ :=
      (startReplication_iff digits installed sized request).mp begun
    rw [writeStartupMessage_session names rfl, ok_bind] at done
    obtain ⟨⟨⟩, accepted, done⟩ := bind_eq_ok.mp done
    cases done
    exact ⟨hooksPrivate, ⟨sayable, encoding, granted,
      (accepts_iff letters _ _).mp ((receiveStartup_iff rfl).mp accepted)⟩, rfl⟩
  · rintro ⟨hooksPrivate, accepted, rfl⟩
    refine ⟨_, (startReplication_iff digits installed sized request).mpr
      ⟨accepted.sayable, accepted.encoding, hooksPrivate, accepted.granted, rfl⟩, ?_⟩
    rw [writeStartupMessage_session names rfl, ok_bind]
    exact bind_eq_ok.mpr ⟨(), (receiveStartup_iff rfl).mpr ((accepts_iff letters _ _).mpr accepted.named), rfl⟩

/-- Replication starts exactly if the names of the request can be said, the provider knows the subscriber's encoding
and has it itself, the hooks take the request, and the subscriber knows the provider's name of the encoding. The
session then has the native format, sends binary values to a server of its own version and internal ones to a server
that represents them alike, and has the filters of the request. -/
theorem handshake_agrees (digits : ReadsDigits up.parseBool) (installed : up.Installed) (names : Names up)
    {subscriber : Subscriber} (letters : ReadsLetters subscriber.receiver.parseBool) (sized : Sized subscriber.down)
    (request : Request) :
    ((∃ session, handshake up subscriber request = .ok session) ↔
      ∃ hooksPrivate, Accepted up subscriber request hooksPrivate) ∧
    ∀ session, handshake up subscriber request = .ok session → ∃ hooksPrivate,
      Accepted up subscriber request hooksPrivate ∧ Agreement up subscriber.down hooksPrivate session := by
  have ends (session : Session) :=
    @handshake_eq_ok_iff up digits installed names subscriber letters sized request session
  constructor
  · constructor
    · rintro ⟨session, done⟩
      obtain ⟨hooksPrivate, accepted, -⟩ := (ends _).mp done
      exact ⟨hooksPrivate, accepted⟩
    · rintro ⟨hooksPrivate, accepted⟩
      exact ⟨_, (ends _).mpr ⟨hooksPrivate, accepted, rfl⟩⟩
  · intro session done
    obtain ⟨hooksPrivate, accepted, rfl⟩ := (ends _).mp done
    have readable :
        Transfer.Readable (prepareStartupMessage up ⟨agreed up subscriber.down, hooksOf up hooksPrivate, []⟩) :=
      readable_prepareStartupMessage rfl
    refine ⟨hooksPrivate, accepted, readable, rfl, rfl, ?_, checkBinaryCompatibility_iff sized, rfl, rfl, rfl, rfl⟩
    rw [agreed, decide_eq_true_iff]
    exact sameMajorVersion_iff sized

/-- A provider with one replication set, whose hooks are installed. -/
def sampleUpstream : Upstream :=
  let upstream : Upstream := {
    OutputConfig.sampleServer with
    pgVersion := .ofString "9.6.1"
    catalogVersionNo := 201608131
    maximumAlignof := 8
    walsenderPid := 815
    databaseEncodingName := .ofString "UTF8"
    pgEncodingToChar _ := .ofString "UTF8"
    currentUser := .ofString "postgres"
    lookupFuncName _ := none
    getLocalNode := .ok 7
    getReplicationSets nodeid names := .ok (names.map fun name => ⟨9, nodeid, .ofBytes name, true, true, true, true⟩) }
  { upstream with
    lookupFuncName names := if names = hooksSetupName then some ⟨true, true, pglogicalHooksSetup upstream⟩ else none }

/-- A subscriber of an older version. -/
def sampleSubscriber : Subscriber := ⟨sampleLexicon, sampleDownstream, Startup.sampleReceiver⟩

def sampleRequest : Request := .apply [] [namestrcpy (.ofString "default")]

theorem handshake_agrees_sample : ∃ session hooksPrivate,
    handshake sampleUpstream sampleSubscriber sampleRequest = .ok session ∧
    Agreement sampleUpstream sampleDownstream hooksPrivate session := by
  have granted : heard sampleUpstream sampleRequest =
      .ok ⟨7, [], [⟨9, 7, .ofString "default", true, true, true, true⟩], none⟩ := by decide +kernel
  have accepted : Accepted sampleUpstream sampleSubscriber sampleRequest _ :=
    ⟨by unfold Sayable; decide +kernel, by unfold SameEncoding; decide +kernel, granted, by decide +kernel⟩
  obtain ⟨starts, agrees⟩ := @handshake_agrees sampleUpstream ⟨by decide, by decide⟩ rfl
    ⟨by decide, by decide, fun _ => (by decide : (CString.ofString "UTF8").strlen ≤ 64)⟩ sampleSubscriber
    ⟨by decide, by decide⟩ ⟨by decide, by decide, by decide, by decide, by decide, by decide⟩ sampleRequest
  obtain ⟨session, done⟩ := starts.mpr ⟨_, accepted⟩
  obtain ⟨hooksPrivate, -, agreement⟩ := agrees session done
  exact ⟨session, hooksPrivate, done, agreement⟩

end PGLogical.Handshake
