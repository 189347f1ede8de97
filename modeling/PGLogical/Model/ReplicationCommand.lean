import PGLogical.Model.Repset
import PGLogical.Wire.Decimal

/-! # The options of START_REPLICATION

The subscriber asks for replication sets, forwarded origins or one table by options of the replication
command. Lists of names become text (`stringlist_to_identifierstr`), text becomes a literal of the
command (`pglogical_start_replication`), the provider's scanner of replication commands reads the
literal and the startup hook splits the text. The head of the command, with the slot and the start
position, is left out.
-/

namespace PGLogical.ReplicationCommand

open Wire

/-! ## The subscriber -/

variable (lexicon : Lexicon)

def stringlistToIdentifierstr (strings : List Bytes) : Bytes :=
  [comma].intercalate (strings.map lexicon.quoteIdentifier)

def quoteQualifiedIdentifier (qualifier ident : Bytes) : Bytes :=
  lexicon.quoteIdentifier qualifier ++ ascii "." ++ lexicon.quoteIdentifier ident

/-- How the value of an option is put into the command. -/
inductive OptionValue where
  /-- By a format with the apostrophes in it. -/
  | formatted (text : Bytes)
  /-- By `quote_literal_cstr`. -/
  | literal (text : Bytes)
deriving DecidableEq

structure PluginOption where
  name : Bytes
  quoted : Bool
  value : OptionValue
deriving DecidableEq

def OptionValue.text : OptionValue → Bytes
  | .formatted text => apostrophe :: text ++ [apostrophe]
  | .literal text => quoteLiteralCstr text

def PluginOption.text (option : PluginOption) : Bytes :=
  (if option.quoted then quotationMark :: option.name ++ [quotationMark] else option.name) ++ ascii " " ++
    option.value.text

/-- What the subscriber says about itself. -/
structure Downstream where
  /-- `GetDatabaseEncodingName` -/
  encodingName : Bytes
  encodingPlain : apostrophe ∉ encodingName
  pgVersionNum : ℕ
  sizeofDatum : ℕ
  sizeofInt : ℕ
  sizeofLong : ℕ
  bigendian : Bool
  float4Byval : Bool
  float8Byval : Bool
  integerDatetimes : Bool
  myProcPid : ℤ

/-- An option whose value is formatted. -/
def formatOption (name : String) (quoted : Bool) (value : Bytes) : PluginOption :=
  ⟨ascii name, quoted, .formatted value⟩

/-- A flag printed with `%d`. -/
def flag (value : Bool) : Bytes := decimal value.toNat

def protocolOptions (down : Downstream) : List PluginOption :=
  [formatOption "expected_encoding" false down.encodingName,
    formatOption "min_proto_version" false (decimal 1),
    formatOption "max_proto_version" false (decimal 1),
    formatOption "startup_params_format" false (ascii "1"),
    formatOption "binary.want_internal_basetypes" true (ascii "1"),
    formatOption "binary.want_binary_basetypes" true (ascii "1"),
    formatOption "binary.basetypes_major_version" true (decimal (down.pgVersionNum / 100)),
    formatOption "binary.sizeof_datum" true (decimal down.sizeofDatum),
    formatOption "binary.sizeof_int" true (decimal down.sizeofInt),
    formatOption "binary.sizeof_long" true (decimal down.sizeofLong),
    formatOption "binary.bigendian" true (flag down.bigendian),
    formatOption "binary.float4_byval" true (flag down.float4Byval),
    formatOption "binary.float8_byval" true (flag down.float8Byval),
    formatOption "binary.integer_datetimes" true (flag down.integerDatetimes),
    formatOption "hooks.setup_function" true (ascii "pglogical.pglogical_hooks_setup")]

def versionOptions (down : Downstream) : List PluginOption :=
  [formatOption "relmeta_cache_size" true (ascii "-1"),
    formatOption "pg_version" false (decimal down.pgVersionNum),
    formatOption "pglogical_version" false (ascii "1.3.0"),
    formatOption "pglogical_version_num" false (decimal 10300),
    formatOption "pglogical_apply_pid" false (decimalInt down.myProcPid)]

def forwardOriginsName : Bytes := ascii "pglogical.forward_origins"
def replicateOnlyTableName : Bytes := ascii "pglogical.replicate_only_table"
def replicationSetNamesName : Bytes := ascii "pglogical.replication_set_names"

/-- An option that is left out for a NULL value. -/
def literalOption (name : Bytes) (value : Option Bytes) : List PluginOption :=
  value.toList.map fun text => ⟨name, true, .literal text⟩

/-- The options of the command, in order. -/
def startReplicationOptions (down : Downstream) (forwardOrigins replicationSets replicateOnlyTable : Option Bytes) :
    List PluginOption :=
  protocolOptions down ++ literalOption forwardOriginsName forwardOrigins ++
    literalOption replicateOnlyTableName replicateOnlyTable ++
    literalOption replicationSetNamesName replicationSets ++ versionOptions down

def optionsText (options : List PluginOption) : Bytes :=
  ascii "(" ++ (ascii ", ").intercalate (options.map PluginOption.text) ++ ascii ")"

/-- What a worker asks the provider for. -/
inductive Request where
  /-- The apply worker, in `pglogical_apply_main`. -/
  | apply (forwardOrigins replicationSets : List NameData)
  /-- The worker for one table, in `pglogical_sync_main`. -/
  | sync (nspname relname : NameData)

def nameBytes (name : NameData) : Bytes := name.str.val

def replicationOriginAll : Bytes := ascii "all"

def Request.options (down : Downstream) : Request → List PluginOption
  | .apply forwardOrigins replicationSets =>
      startReplicationOptions down (some (stringlistToIdentifierstr lexicon (forwardOrigins.map nameBytes)))
        (some (stringlistToIdentifierstr lexicon (replicationSets.map nameBytes))) none
  | .sync nspname relname =>
      startReplicationOptions down (some replicationOriginAll) none
        (some (quoteQualifiedIdentifier lexicon (nameBytes nspname) (nameBytes relname)))

/-! ## The scanner of replication commands -/

variable (locale : Wire.Locale)

/-- Numbers and log positions, which no option has, are not told apart from other characters. -/
inductive Token where
  | ident (name : Bytes)
  | keyword (word : Bytes)
  | sconst (text : Bytes)
  | other (b : UInt8)
deriving DecidableEq

def replicationKeywords : List Bytes :=
  ["BASE_BACKUP", "FAST", "IDENTIFY_SYSTEM", "LABEL", "NOWAIT", "PROGRESS", "MAX_RATE", "WAL", "TIMELINE",
    "START_REPLICATION", "CREATE_REPLICATION_SLOT", "DROP_REPLICATION_SLOT", "TIMELINE_HISTORY", "PHYSICAL",
    "LOGICAL", "SLOT", "TABLESPACE_MAP", "RESERVE_WAL"].map ascii

/-- The token that starts with `b`. A literal is text between apostrophes with apostrophes doubled, and
nothing else. -/
def scanToken (b : UInt8) (rest : Bytes) : Option (Token × Bytes) :=
  if b = apostrophe then (scanQuoted apostrophe rest).map fun read => (.sconst read.1, read.2)
  else if b = quotationMark then
    match rest.dropWhile (· ≠ quotationMark) with
    | [] => none
    | _ :: after => some (.ident (locale.truncateIdentifier (rest.takeWhile (· ≠ quotationMark))), after)
  else if isIdentStart b then
    let word := b :: rest.takeWhile isIdentCont
    let token := if word ∈ replicationKeywords then .keyword word else .ident (locale.downcaseTruncateIdentifier word)
    some (token, rest.dropWhile isIdentCont)
  else some (.other b, rest)

/-- Every token has a byte, so one round more than there are bytes is enough. -/
def scanTokens : ℕ → Bytes → Option (List Token)
  | 0, _ => none
  | rounds + 1, text =>
      match text.dropWhile isSqlSpace with
      | [] => some []
      | b :: rest =>
          match scanToken locale b rest with
          | none => none
          | some (token, rest) => (scanTokens rounds rest).map (token :: ·)

abbrev DefElem := Bytes × Option Bytes

def leftParenthesis : UInt8 := 40
def rightParenthesis : UInt8 := 41

/-- `plugin_opt_list` up to the closing parenthesis, which ends the command. -/
def pluginOptList : List Token → Option (List DefElem)
  | .ident name :: .sconst arg :: .other b :: rest =>
      if b = comma then (pluginOptList rest).map ((name, some arg) :: ·)
      else if b = rightParenthesis ∧ rest = [] then some [(name, some arg)] else none
  | .ident name :: .other b :: rest =>
      if b = comma then (pluginOptList rest).map ((name, none) :: ·)
      else if b = rightParenthesis ∧ rest = [] then some [(name, none)] else none
  | _ => none

/-- `plugin_options` -/
def pluginOptions : List Token → Option (List DefElem)
  | .other b :: rest => if b = leftParenthesis then pluginOptList rest else none
  | _ => none

/-- The options as the provider hands them to the output plugin, if the command has no syntax error. -/
def parseOptions (text : Bytes) : Option (List DefElem) := (scanTokens locale (text.length + 1) text).bind pluginOptions

/-! ## The startup hook -/

structure HooksPrivate where
  localNodeId : Oid
  forwardOrigins : List Bytes
  replicationSets : List PGLogicalRepSet
  replicateOnlyTable : Option (Bytes × Bytes)
deriving DecidableEq

/-- As text, for messages. -/
def messageText (text : Bytes) : String := String.ofList (text.map fun b => Char.ofNat b.toNat)

/-- `pg_strcasecmp` with a constant in lower case. -/
def sameName (constant name : Bytes) : Bool := name.map locale.downcase == constant

def checkForwardOrigin (originName : Bytes) : Except String Unit :=
  if originName ≠ replicationOriginAll then
    .error s!"Only \"all\" is allowed in forward origin name list at the moment, found \"{messageText originName}\""
  else .ok ()

variable (getReplicationSets : Oid → List Bytes → Except String (List PGLogicalRepSet))

/-- One round of the loop over the options. A table name without a dot makes `lsecond` read behind the
end of the list. -/
def startupOption (hooks : HooksPrivate) (elem : DefElem) : Except String HooksPrivate :=
  if sameName locale forwardOriginsName elem.1 then
    match elem.2 with
    | none => .error "pglogical.forward_origins may not be NULL"
    | some arg =>
      match splitIdentifierString locale arg comma with
      | none => .error s!"Could not parse forward origin name list {messageText arg}"
      | some forwardOriginNames => do
          forwardOriginNames.forM checkForwardOrigin
          return { hooks with forwardOrigins := forwardOriginNames }
  else if sameName locale replicationSetNamesName elem.1 then
    match elem.2 with
    | none => .error "pglogical.replication_set_names may not be NULL"
    | some arg =>
      match splitIdentifierString locale arg comma with
      | none => .error s!"Could not parse replication set name list {messageText arg}"
      | some replicationSetNames => do
          let replicationSets ← getReplicationSets hooks.localNodeId replicationSetNames
          return { hooks with replicationSets := replicationSets }
  else if sameName locale replicateOnlyTableName elem.1 then
    match elem.2 with
    | none => .error "pglogical.replicate_only_table may not be NULL"
    | some arg =>
      match splitIdentifierString locale arg 46 with
      | none => .error s!"Could not parse replicate_only_table {messageText arg}"
      | some (schemaname :: relname :: _) => .ok { hooks with replicateOnlyTable := some (schemaname, relname) }
      | some _ => .error "segmentation fault"
  else .ok hooks

def pglogicalStartupHook (localNodeId : Oid) (inParams : List DefElem) : Except String HooksPrivate :=
  inParams.foldlM (startupOption locale getReplicationSets) ⟨localNodeId, [], [], none⟩

end PGLogical.ReplicationCommand
