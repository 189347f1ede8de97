import PGLogical.Machine.Fallible
import PGLogical.Model.OutputConfig

/-! # Negotiation of the internal format

The internal format of values is a memory image, so it may be sent only to a client that asked for it
and that named, one by one, the properties of the server. The case of `binary.float8_byval` assigns the
fields of `binary.float4_byval`, and what was not named passes the check, so negotiation does what it is
for exactly where that parameter is not given and something that was given, or asked for, refuses the
format.
-/

namespace PGLogical.OutputConfig

open Wire
open ReplicationCommand (sameName)
open Machine (bind_eq_ok guard_eq_ok)

variable {server : Server} {options permuted : List DefElem} {α : Type}

/-! ## What is given -/

/-- The value that is given for a parameter, of the last option with its name. -/
def given (parse : DefElem → CString → Except String α) (options : List DefElem) (key : OutputPluginParamKey) :
    Option α :=
  (options.reverse.find? fun elem => decide (getParamKey elem.defname = key)).bind fun elem =>
    (getParamValue elem parse).toOption

theorem given_concat (parse : DefElem → CString → Except String α) (options : List DefElem) (elem : DefElem)
    (key : OutputPluginParamKey) : given parse (options ++ [elem]) key =
      if getParamKey elem.defname = key then (getParamValue elem parse).toOption else given parse options key := by
  unfold given
  rw [List.reverse_append, List.reverse_singleton, List.singleton_append, List.find?_cons]
  by_cases own : getParamKey elem.defname = key <;> simp [own]

def Omits (options : List DefElem) (key : OutputPluginParamKey) : Prop :=
  ∀ elem ∈ options, getParamKey elem.defname ≠ key

theorem given_of_omits {key : OutputPluginParamKey} (omits : Omits options key)
    (parse : DefElem → CString → Except String α) : given parse options key = none := by
  have absent : (options.reverse.find? fun elem => decide (getParamKey elem.defname = key)) = none := by
    rw [List.find?_eq_none]
    intro elem listed
    simpa using omits elem (List.mem_reverse.mp listed)
  rw [given, absent, Option.bind_none]

variable (server options)

def givenBool (key : OutputPluginParamKey) : Option Bool := given (parseParamBool server) options key

def givenUint32 (key : OutputPluginParamKey) : Option UInt32 := given (parseParamUint32 server) options key

/-- Every field from its own parameter. -/
def ownSettings : ClientInfo where
  clientPgVersion := (givenUint32 server options .pgVersion).getD 0
  clientMaxProtoVersion := ((getParam server options "max_proto_version" (parseParamUint32 server)).toOption).getD 0
  clientMinProtoVersion := ((getParam server options "min_proto_version" (parseParamUint32 server)).toOption).getD 0
  clientExpectedEncoding := given parseParamString options .expectedEncoding
  clientProtocolFormat := given parseParamString options .protocolFormat
  clientBinaryBasetypesMajorVersion := (givenUint32 server options .binaryBasetypesMajorVersion).getD 0
  clientWantInternalBasetypesSet := (givenBool server options .binaryWantInternalBasetypes).isSome
  clientWantInternalBasetypes := (givenBool server options .binaryWantInternalBasetypes).getD false
  clientWantBinaryBasetypesSet := (givenBool server options .binaryWantBinaryBasetypes).isSome
  clientWantBinaryBasetypes := (givenBool server options .binaryWantBinaryBasetypes).getD false
  clientBinaryBigendianSet := (givenBool server options .binaryBigendian).isSome
  clientBinaryBigendian := (givenBool server options .binaryBigendian).getD false
  clientBinarySizeofdatum := (givenUint32 server options .binarySizeofDatum).getD 0
  clientBinarySizeofint := (givenUint32 server options .binarySizeofInt).getD 0
  clientBinarySizeoflong := (givenUint32 server options .binarySizeofLong).getD 0
  clientBinaryFloat4byvalSet := (givenBool server options .binaryFloat4byval).isSome
  clientBinaryFloat4byval := (givenBool server options .binaryFloat4byval).getD false
  clientBinaryFloat8byvalSet := (givenBool server options .binaryFloat8byval).isSome
  clientBinaryFloat8byval := (givenBool server options .binaryFloat8byval).getD false
  clientBinaryIntdatetimesSet := (givenBool server options .binaryIntegerDatetimes).isSome
  clientBinaryIntdatetimes := (givenBool server options .binaryIntegerDatetimes).getD false
  clientNoTxinfo := (givenBool server options .noTxinfo).getD false
  hooksSetupFuncname := (given (parseParamQualifiedName server) options .hooksSetupFunction).getD []

/-- Every compatibility parameter is given, with the server's value. -/
structure Compatible : Prop where
  majorVersion : givenUint32 server options .binaryBasetypesMajorVersion = some server.majorVersion
  sizeofInt : givenUint32 server options .binarySizeofInt = some server.sizeofInt
  sizeofLong : givenUint32 server options .binarySizeofLong = some server.sizeofLong
  sizeofDatum : givenUint32 server options .binarySizeofDatum = some server.sizeofDatum
  bigendian : givenBool server options .binaryBigendian = some server.bigendian
  float4Byval : givenBool server options .binaryFloat4byval = some server.float4Byval
  float8Byval : givenBool server options .binaryFloat8byval = some server.float8Byval
  integerDatetimes : givenBool server options .binaryIntegerDatetimes = some server.integerDatetimes

/-- The format, if one is given, is `native`. -/
def UsesNative : Prop := (given parseParamString options .protocolFormat).getD nativeFormat = nativeFormat

def AskedFor : Prop := givenBool server options .binaryWantInternalBasetypes = some true

/-! ## Distinct parameters -/

def requiredParams : List String := ["startup_params_format", "max_proto_version", "min_proto_version"]

/-- Two names of one parameter. The required ones have their name in any case. -/
def SameParameter (first second : CString) : Prop :=
  getParamKey first = getParamKey second ∧ getParamKey first ≠ .unrecognised ∨
    ∃ name ∈ requiredParams, sameName server.locale (ascii name) first.val = true ∧
      sameName server.locale (ascii name) second.val = true

/-- No parameter is given by two different options. -/
def Distinct : Prop :=
  ∀ first ∈ options, ∀ second ∈ options, SameParameter server first.defname second.defname → first = second

/-- What negotiation is for. -/
structure Negotiated (started : Started) : Prop where
  internal : started.data.allowInternalBasetypes = true ↔
    UsesNative options ∧ AskedFor server options ∧ Compatible server options
  /-- No parameter has an influence on the settings of another. -/
  own : started.client = ownSettings server options
  order : Distinct server options → ∀ permuted, options.Perm permuted → pgDecodeStartup server permuted = .ok started

variable {server options}

/-- Where one item at most is looked for, its place does not matter. -/
theorem find?_perm {items others : List α} {p : α → Bool} (perm : items.Perm others)
    (unique : ∀ first ∈ items, ∀ second ∈ items, p first = true → p second = true → first = second) :
    items.find? p = others.find? p := by
  cases found : items.find? p with
  | none =>
    symm
    rw [List.find?_eq_none] at found ⊢
    exact fun item listed => found item (perm.mem_iff.mpr listed)
  | some item =>
    have holds := List.find?_some found
    have listed := List.mem_of_find?_eq_some found
    obtain ⟨other, again⟩ := Option.isSome_iff_exists.mp
      (List.find?_isSome.mpr ⟨item, perm.mem_iff.mp listed, holds⟩)
    rw [again, unique item listed other (perm.mem_iff.mpr (List.mem_of_find?_eq_some again)) holds
      (List.find?_some again)]

theorem given_perm (distinct : Distinct server options) (perm : options.Perm permuted)
    (parse : DefElem → CString → Except String α) {key : OutputPluginParamKey} (recognised : key ≠ .unrecognised) :
    given parse permuted key = given parse options key := by
  have reversed : options.reverse.Perm permuted.reverse :=
    (List.reverse_perm options).trans (perm.trans (List.reverse_perm permuted).symm)
  unfold given
  rw [find?_perm reversed]
  intro first inside second listed own same
  rw [decide_eq_true_eq] at own same
  exact distinct first (List.mem_reverse.mp inside) second (List.mem_reverse.mp listed)
    (.inl ⟨own.trans same.symm, own ▸ recognised⟩)

theorem getParam_perm (distinct : Distinct server options) (perm : options.Perm permuted) {name : String}
    (required : name ∈ requiredParams) (parse : DefElem → CString → Except String α) :
    getParam server permuted name parse = getParam server options name parse := by
  unfold getParam
  rw [find?_perm perm fun first inside second listed own same =>
    distinct first inside second listed (.inr ⟨name, required, own, same⟩)]

theorem ownSettings_perm (distinct : Distinct server options) (perm : options.Perm permuted) :
    ownSettings server permuted = ownSettings server options := by
  unfold ownSettings givenBool givenUint32
  simp only [given_perm distinct perm, ne_eq, reduceCtorEq, not_false_eq_true]
  rw [getParam_perm distinct perm (by decide), getParam_perm distinct perm (by decide)]

/-! ## Processing -/

/-- What the loop has assigned after some of the options. -/
def settingsAfter (server : Server) (maxProtoVersion minProtoVersion : UInt32) (options : List DefElem) : ClientInfo :=
  { ownSettings server options with
    clientMaxProtoVersion := maxProtoVersion, clientMinProtoVersion := minProtoVersion }

/-- One option, other than the one whose case is wrong. -/
theorem assigned_settings {elem : DefElem} {assign : ClientInfo → ClientInfo} {maxProto minProto : UInt32}
    (other : getParamKey elem.defname ≠ .binaryFloat8byval) (taken : assigned server elem = .ok assign) :
    assign (settingsAfter server maxProto minProto options) =
      settingsAfter server maxProto minProto (options ++ [elem]) := by
  unfold assigned at taken
  cases key : getParamKey elem.defname
  case binaryFloat8byval => exact absurd key other
  case unrecognised | maxProtocolVersion | minProtocolVersion =>
    rw [key] at taken
    cases taken
    simp [settingsAfter, ownSettings, givenBool, givenUint32, given_concat, key]
  all_goals
    rw [key] at taken
    obtain ⟨value, read, equal⟩ := bind_eq_ok.1 taken
    cases equal
    simp [settingsAfter, ownSettings, givenBool, givenUint32, given_concat, key, read, Except.toOption]

theorem foldlM_settings {first last : ClientInfo} {maxProto minProto : UInt32}
    (omits : Omits options .binaryFloat8byval) (start : first = settingsAfter server maxProto minProto [])
    (done : options.foldlM (processParameter server) first = .ok last) :
    last = settingsAfter server maxProto minProto options := by
  induction options using List.reverseRecOn generalizing last with
  | nil =>
    cases done
    exact start
  | append_singleton options elem ih =>
    rw [List.foldlM_append] at done
    obtain ⟨middle, early, done⟩ := bind_eq_ok.1 done
    rw [List.foldlM_cons] at done
    obtain ⟨after, round, done⟩ := bind_eq_ok.1 done
    cases done
    obtain ⟨assign, taken, equal⟩ := bind_eq_ok.1 round
    cases equal
    rw [ih (fun elem listed => omits elem (List.mem_append_left _ listed)) early]
    exact assigned_settings (omits elem (by simp)) taken

/-- Every option that is recognised has a value that can be read. -/
def Readable (server : Server) (options : List DefElem) : Prop :=
  ∀ elem ∈ options, ∃ assign, assigned server elem = .ok assign

theorem processParametersV1_readable {first client : ClientInfo}
    (done : processParametersV1 server options first = .ok client) : Readable server options := by
  obtain ⟨maxProto, -, done⟩ := bind_eq_ok.1 done
  obtain ⟨minProto, -, done⟩ := bind_eq_ok.1 done
  exact Machine.foldlM_assign_iff.mp ⟨client, done⟩

theorem processParametersV1_eq_ok {client : ClientInfo} (omits : Omits options .binaryFloat8byval)
    (done : processParametersV1 server options .zeroed = .ok client) : client = ownSettings server options := by
  obtain ⟨maxProto, maxRead, done⟩ := bind_eq_ok.1 done
  obtain ⟨minProto, minRead, done⟩ := bind_eq_ok.1 done
  rw [foldlM_settings omits rfl done, settingsAfter, ownSettings, maxRead, minRead]
  rfl

theorem processParametersV1_perm {client : ClientInfo} (omits : Omits options .binaryFloat8byval)
    (distinct : Distinct server options) (perm : options.Perm permuted)
    (done : processParametersV1 server options .zeroed = .ok client) :
    processParametersV1 server permuted .zeroed = .ok client := by
  have readable : Readable server permuted := fun elem listed =>
    processParametersV1_readable done elem (perm.mem_iff.mpr listed)
  have omitted : Omits permuted .binaryFloat8byval := fun elem listed => omits elem (perm.mem_iff.mpr listed)
  have settings := processParametersV1_eq_ok omits done
  obtain ⟨maxProto, maxRead, done⟩ := bind_eq_ok.1 done
  obtain ⟨minProto, minRead, done⟩ := bind_eq_ok.1 done
  obtain ⟨last, ended⟩ := Machine.foldlM_assign_iff.mpr readable
  have again : processParametersV1 server permuted .zeroed = .ok last := by
    unfold processParametersV1
    rw [getParam_perm distinct perm (by decide), getParam_perm distinct perm (by decide), maxRead, minRead]
    exact ended
  rw [again, processParametersV1_eq_ok omitted again, ownSettings_perm distinct perm, ← settings]

theorem processParameters_eq_ok {paramsFormat : UInt32} {first client : ClientInfo}
    (done : processParameters server options first = .ok (paramsFormat, client)) :
    getParam server options "startup_params_format" (parseParamUint32 server) = .ok paramsFormat ∧
      paramsFormat = pglogicalStartupParamFormatFlat ∧ processParametersV1 server options first = .ok client := by
  obtain ⟨format, read, done⟩ := bind_eq_ok.1 done
  split at done
  next flat =>
    obtain ⟨data, processed, equal⟩ := bind_eq_ok.1 done
    cases equal
    exact ⟨read, flat, processed⟩
  next => cases done

theorem processParameters_perm {result : UInt32 × ClientInfo} (omits : Omits options .binaryFloat8byval)
    (distinct : Distinct server options) (perm : options.Perm permuted)
    (done : processParameters server options .zeroed = .ok result) :
    processParameters server permuted .zeroed = .ok result := by
  obtain ⟨paramsFormat, client⟩ := result
  obtain ⟨read, flat, processed⟩ := processParameters_eq_ok done
  unfold processParameters
  rw [getParam_perm distinct perm (by decide), read]
  change (if paramsFormat = pglogicalStartupParamFormatFlat then _ else _) = _
  rw [if_pos flat, processParametersV1_perm omits distinct perm processed]
  rfl

/-! ## `binary.float8_byval` -/

theorem assigned_float8 {elem : DefElem} {assign : ClientInfo → ClientInfo} (taken : assigned server elem = .ok assign)
    (data : ClientInfo) : (assign data).clientBinaryFloat8byvalSet = data.clientBinaryFloat8byvalSet := by
  unfold assigned at taken
  split at taken
  case h_16 | h_17 | h_18 =>
    cases taken
    rfl
  all_goals
    obtain ⟨value, -, equal⟩ := bind_eq_ok.1 taken
    cases equal
    rfl

/-- Its own fields are never assigned. -/
theorem processParametersV1_float8 {first client : ClientInfo}
    (done : processParametersV1 server options first = .ok client) :
    client.clientBinaryFloat8byvalSet = first.clientBinaryFloat8byvalSet := by
  obtain ⟨maxProto, -, done⟩ := bind_eq_ok.1 done
  obtain ⟨minProto, -, done⟩ := bind_eq_ok.1 done
  have kept : ∀ {state next : ClientInfo} {elem : DefElem}, elem ∈ options →
      state.clientBinaryFloat8byvalSet = first.clientBinaryFloat8byvalSet →
      processParameter server state elem = .ok next →
      next.clientBinaryFloat8byvalSet = first.clientBinaryFloat8byvalSet := by
    intro state next elem _ unset round
    obtain ⟨assign, taken, equal⟩ := bind_eq_ok.1 round
    cases equal
    rw [assigned_float8 taken, unset]
  refine Machine.foldlM_invariant kept ?_ done
  rfl

/-- Where it is given, its value can be read. -/
theorem givenBool_float8 (readable : Readable server options) {elem : DefElem} (listed : elem ∈ options)
    (named : getParamKey elem.defname = .binaryFloat8byval) :
    (givenBool server options .binaryFloat8byval).isSome = true := by
  have present : (options.reverse.find? fun elem =>
      decide (getParamKey elem.defname = .binaryFloat8byval)).isSome = true :=
    List.find?_isSome.mpr ⟨elem, List.mem_reverse.mpr listed, decide_eq_true named⟩
  obtain ⟨last, found⟩ := Option.isSome_iff_exists.mp present
  have own : getParamKey last.defname = .binaryFloat8byval := by simpa using List.find?_some found
  obtain ⟨assign, taken⟩ := readable last (List.mem_reverse.mp (List.mem_of_find?_eq_some found))
  unfold assigned at taken
  rw [own] at taken
  obtain ⟨value, read, -⟩ := bind_eq_ok.1 taken
  rw [givenBool, given, found, Option.bind_some, read]
  rfl

/-! ## The comparison with the server -/

def Contradicts (given : Option Bool) (own : Bool) : Prop := ∃ value ∈ given, value ≠ own

/-- A size of zero is one that was not given. -/
def ContradictsSize (given : Option UInt32) (own : UInt32) : Prop := ∃ size ∈ given, size ≠ 0 ∧ size ≠ own

/-- The major version is missing or another one, or something that was given is not the server's. -/
def Refused (server : Server) (options : List DefElem) : Prop :=
  (givenUint32 server options .binaryBasetypesMajorVersion).getD 0 ≠ server.majorVersion ∨
    Contradicts (givenBool server options .binaryBigendian) server.bigendian ∨
    ContradictsSize (givenUint32 server options .binarySizeofDatum) server.sizeofDatum ∨
    ContradictsSize (givenUint32 server options .binarySizeofInt) server.sizeofInt ∨
    ContradictsSize (givenUint32 server options .binarySizeofLong) server.sizeofLong ∨
    Contradicts (givenBool server options .binaryFloat4byval) server.float4Byval ∨
    Contradicts (givenBool server options .binaryIntegerDatetimes) server.integerDatetimes

theorem contradicts_iff {given : Option Bool} {own : Bool} :
    Contradicts given own ↔ given.isSome = true ∧ given.getD false ≠ own := by
  cases given <;> simp [Contradicts]

theorem contradictsSize_iff {given : Option UInt32} {own : UInt32} :
    ContradictsSize given own ↔ given.getD 0 ≠ 0 ∧ given.getD 0 ≠ own := by
  cases given <;> simp [ContradictsSize]

theorem refuse_eq_true_iff {p : Prop} [Decidable p] {rest : Bool} :
    (if p then false else rest) = true ↔ ¬ p ∧ rest = true := by
  by_cases holds : p <;> simp [holds]

theorem checkBinaryCompatibility_own (omits : Omits options .binaryFloat8byval) :
    checkBinaryCompatibility server (ownSettings server options) = true ↔ ¬ Refused server options := by
  have float8 : givenBool server options .binaryFloat8byval = none := given_of_omits omits _
  unfold checkBinaryCompatibility Refused
  simp only [contradicts_iff, contradictsSize_iff, ownSettings, float8]
  simp only [refuse_eq_true_iff, not_or, Option.isSome_none, Bool.false_eq_true, false_and, not_false_eq_true,
    true_and, and_true]

theorem protocolOf_eq_ok {data : ClientInfo} {proto : Output.PGLogicalProtoType} {outputType : OutputPluginOutputType}
    (chosen : protocolOf data = .ok (proto, outputType)) :
    outputType = .binaryOutput ↔ data.clientProtocolFormat.getD nativeFormat = nativeFormat := by
  have other : jsonFormat ≠ nativeFormat := by decide
  unfold protocolOf at chosen
  split at chosen
  next none_given =>
    cases chosen
    simp [none_given]
  next format asked =>
    rw [asked, Option.getD_some]
    split_ifs at chosen with json native
    · cases chosen
      simp [json, other]
    · cases chosen
      simp [native]

theorem pgDecodeStartup_eq_ok {started : Started} (done : pgDecodeStartup server options = .ok started) :
    (∃ paramsFormat, processParameters server options .zeroed = .ok (paramsFormat, started.client)) ∧
      (started.data.allowInternalBasetypes = true ↔
        started.client.clientProtocolFormat.getD nativeFormat = nativeFormat ∧
          started.client.clientWantInternalBasetypes = true ∧
          checkBinaryCompatibility server started.client = true) := by
  unfold pgDecodeStartup at done
  obtain ⟨⟨paramsFormat, client⟩, processed, done⟩ := bind_eq_ok.1 done
  obtain ⟨-, done⟩ := guard_eq_ok.1 done
  obtain ⟨-, done⟩ := guard_eq_ok.1 done
  obtain ⟨-, done⟩ := guard_eq_ok.1 done
  obtain ⟨⟨proto, outputType⟩, chosen, done⟩ := bind_eq_ok.1 done
  obtain ⟨encoding, -, done⟩ := bind_eq_ok.1 done
  cases done
  refine ⟨⟨paramsFormat, processed⟩, ?_⟩
  rw [← protocolOf_eq_ok chosen]
  simp [and_assoc]

theorem pgDecodeStartup_perm {started : Started} (omits : Omits options .binaryFloat8byval)
    (distinct : Distinct server options) (perm : options.Perm permuted)
    (done : pgDecodeStartup server options = .ok started) : pgDecodeStartup server permuted = .ok started := by
  obtain ⟨⟨paramsFormat, processed⟩, -⟩ := pgDecodeStartup_eq_ok done
  rw [← done]
  unfold pgDecodeStartup
  rw [processed, processParameters_perm omits distinct perm processed]

/-- **Negotiation does what it is for exactly where `binary.float8_byval` is not given and the format is refused, or
not asked for.** -/
theorem negotiated_iff (server : Server) (options : List DefElem) (started : Started)
    (done : pgDecodeStartup server options = .ok started) :
    Negotiated server options started ↔ Omits options .binaryFloat8byval ∧
      (¬ UsesNative options ∨ ¬ AskedFor server options ∨ Refused server options) := by
  obtain ⟨⟨paramsFormat, processed⟩, internal⟩ := pgDecodeStartup_eq_ok done
  obtain ⟨-, -, processed⟩ := processParameters_eq_ok processed
  have asked : (ownSettings server options).clientWantInternalBasetypes = true ↔ AskedFor server options := by
    unfold AskedFor ownSettings
    cases givenBool server options .binaryWantInternalBasetypes <;> simp
  have incompatible (omits : Omits options .binaryFloat8byval) : ¬ Compatible server options := fun compatible => by
    have float8 := compatible.float8Byval
    rw [givenBool, given_of_omits omits] at float8
    cases float8
  constructor
  · intro negotiated
    have omits : Omits options .binaryFloat8byval := fun elem listed named => by
      have unset := processParametersV1_float8 processed
      have float8 := givenBool_float8 (processParametersV1_readable processed) listed named
      rw [negotiated.own, ownSettings, float8] at unset
      cases unset
    refine ⟨omits, ?_⟩
    by_contra enabled
    simp only [not_or, not_not] at enabled
    obtain ⟨native, wanted, accepted⟩ := enabled
    refine incompatible omits (negotiated.internal.mp (internal.mpr ?_)).2.2
    rw [negotiated.own]
    exact ⟨native, asked.mpr wanted, (checkBinaryCompatibility_own omits).mpr accepted⟩
  · rintro ⟨omits, refused⟩
    have own := processParametersV1_eq_ok omits processed
    refine ⟨?_, own, fun distinct permuted perm => pgDecodeStartup_perm omits distinct perm done⟩
    rw [internal, own, asked, checkBinaryCompatibility_own omits]
    constructor
    · rintro ⟨native, wanted, accepted⟩
      exact absurd refused (by simp only [not_or, not_not]; exact ⟨native, wanted, accepted⟩)
    · rintro ⟨-, -, compatible⟩
      exact absurd compatible (incompatible omits)

/-! ## A client of another version, and one that names its version only -/

/-- A 64-bit build of 9.6. -/
def sampleServer : Server where
  pgVersionNum := 90600
  sizeofDatum := 8
  sizeofInt := 4
  sizeofLong := 8
  bigendian := false
  float4Byval := true
  float8Byval := true
  integerDatetimes := true
  locale := ⟨fun _ => false, id, List.length⟩
  parseBool value := if value = CString.ofString "1" then some true else if value = CString.ofString "0" then some false
    else none
  pgCharToEncoding name := if name = CString.ofString "UTF8" then some 6 else none
  pgGetClientEncoding := 6
  getDatabaseEncoding := 6

/-- The required parameters, a request for the internal format and the major version. -/
def requestOptions (majorVersion : String) : List DefElem :=
  [("startup_params_format", "1"), ("min_proto_version", "1"), ("max_proto_version", "1"),
    ("binary.want_internal_basetypes", "1"), ("binary.basetypes_major_version", majorVersion)].map fun param =>
      ⟨CString.ofString param.1, some (CString.ofString param.2)⟩

theorem negotiated_older_client : ∃ started, pgDecodeStartup sampleServer (requestOptions "905") = .ok started ∧
    started.data.allowInternalBasetypes = false ∧ Negotiated sampleServer (requestOptions "905") started := by
  have computed : (pgDecodeStartup sampleServer (requestOptions "905")).toOption.map
      (fun started => started.data.allowInternalBasetypes) = some false := by decide
  obtain ⟨started, found, disabled⟩ := Option.map_eq_some_iff.mp computed
  have done := Machine.eq_ok_of_toOption found
  have omits : Omits (requestOptions "905") .binaryFloat8byval := by
    unfold Omits
    decide +kernel
  have older : Refused sampleServer (requestOptions "905") := .inl (by decide +kernel)
  exact ⟨started, done, disabled, (negotiated_iff sampleServer _ started done).mpr ⟨omits, .inr (.inr older)⟩⟩

/-- Nothing but the version is compared when nothing else is given. -/
theorem not_forall_negotiated : ¬∀ (server : Server) (options : List DefElem) (started : Started),
    pgDecodeStartup server options = .ok started → Negotiated server options started := by
  intro negotiated
  have computed : (pgDecodeStartup sampleServer (requestOptions "906")).toOption.map
      (fun started => started.data.allowInternalBasetypes) = some true := by decide
  obtain ⟨started, found, enabled⟩ := Option.map_eq_some_iff.mp computed
  obtain ⟨-, -, compatible⟩ := (negotiated sampleServer _ started
    (Machine.eq_ok_of_toOption found)).internal.mp enabled
  exact absurd compatible.sizeofInt (by decide +kernel)

end PGLogical.OutputConfig
