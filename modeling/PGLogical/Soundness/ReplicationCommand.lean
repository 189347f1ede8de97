import PGLogical.Machine.Fallible
import PGLogical.Model.ReplicationCommand

/-! # What the provider hears

The scanner reads every option back as it was written, but for one kind of literal. A text with a
backslash is quoted in the escape syntax of SQL, which the scanner of replication commands takes for
a name and a literal, so that the command has a syntax error. In all other cases the startup hook
splits the text into the names that were asked for.
-/

namespace PGLogical.ReplicationCommand

open Machine Wire

/-! ## Requests -/

/-- The names in a request. -/
def Request.names : Request → List NameData
  | .apply forwardOrigins replicationSets => forwardOrigins ++ replicationSets
  | .sync nspname relname => [nspname, relname]

/-- What the startup hook is to do for a request. -/
def Request.startup (getReplicationSets : Oid → List Bytes → Except String (List PGLogicalRepSet)) (localNodeId : Oid) :
    Request → Except String HooksPrivate
  | .apply forwardOrigins replicationSets => do
      (forwardOrigins.map nameBytes).forM checkForwardOrigin
      let replicationSets ← getReplicationSets localNodeId (replicationSets.map nameBytes)
      return ⟨localNodeId, forwardOrigins.map nameBytes, replicationSets, none⟩
  | .sync nspname relname => .ok ⟨localNodeId, [replicationOriginAll], [], some (nameBytes nspname, nameBytes relname)⟩

/-- The provider takes the command and its hook hears the names of the request. -/
def Hears (lexicon : Lexicon) (locale : Wire.Locale) (down : Downstream) (request : Request) : Prop :=
  ∃ inParams, parseOptions locale (optionsText (request.options lexicon down)) = some inParams ∧
    ∀ getReplicationSets localNodeId, pglogicalStartupHook locale getReplicationSets localNodeId inParams =
      request.startup getReplicationSets localNodeId

/-! ## Scanning the options -/

section Scanning

variable {locale : Wire.Locale}

/-- With enough rounds these are the tokens of a text. -/
def Scans (locale : Wire.Locale) (text : Bytes) (tokens : List Token) : Prop :=
  ∀ rounds, text.length < rounds → scanTokens locale rounds text = some tokens

theorem Scans.nil : Scans locale [] [] := by
  intro rounds enough
  obtain ⟨more, rfl⟩ : ∃ more, rounds = more + 1 := ⟨rounds - 1, by omega⟩
  rfl

theorem Scans.cons {b : UInt8} {text rest : Bytes} {token : Token} {tokens : List Token} (visible : isSqlSpace b = false)
    (first : scanToken locale b text = some (token, rest)) (shorter : rest.length ≤ text.length)
    (more : Scans locale rest tokens) : Scans locale (b :: text) (token :: tokens) := by
  intro rounds enough
  obtain ⟨rounds, rfl⟩ : ∃ fewer, rounds = fewer + 1 := ⟨rounds - 1, by omega⟩
  rw [List.length_cons] at enough
  have tail := more rounds (by omega)
  simp only [scanTokens, List.dropWhile_cons, visible, Bool.false_eq_true, if_false, first, tail]
  rfl

theorem Scans.space {text : Bytes} {tokens : List Token} (scans : Scans locale text tokens) :
    Scans locale (32 :: text) tokens := by
  intro rounds enough
  obtain ⟨rounds, rfl⟩ : ∃ fewer, rounds = fewer + 1 := ⟨rounds - 1, by omega⟩
  rw [List.length_cons] at enough
  have spaced : (32 :: text).dropWhile isSqlSpace = text.dropWhile isSqlSpace := by
    simp [isSqlSpace]
  have same := scans (rounds + 1) (by omega)
  rw [scanTokens] at same ⊢
  rw [spaced]
  exact same

theorem Scans.other {b : UInt8} {text : Bytes} {tokens : List Token}
    (single : isSqlSpace b = false ∧ b ≠ apostrophe ∧ b ≠ quotationMark ∧ isIdentStart b = false)
    (more : Scans locale text tokens) : Scans locale (b :: text) (.other b :: tokens) := by
  obtain ⟨visible, notApostrophe, notMark, notStart⟩ := single
  refine Scans.cons visible ?_ (le_refl _) more
  simp [scanToken, notApostrophe, notMark, notStart]

/-- What may follow an option. -/
def Ends (rest : Bytes) : Prop := ∃ b following, rest = b :: following ∧ (b = comma ∨ b = rightParenthesis)

theorem Ends.head {rest : Bytes} (ended : Ends rest) : rest.head? ≠ some apostrophe := by
  obtain ⟨b, following, rfl, rfl | rfl⟩ := ended <;> simp [comma, rightParenthesis, apostrophe]

theorem Scans.literal (text : Bytes) {rest : Bytes} {tokens : List Token} (ended : rest.head? ≠ some apostrophe)
    (more : Scans locale rest tokens) :
    Scans locale (apostrophe :: (doubled apostrophe text ++ apostrophe :: rest)) (.sconst text :: tokens) := by
  have read := scanQuoted_doubled text ended
  have shorter := scanQuoted_length read
  refine Scans.cons (by decide) ?_ (by omega) more
  rw [scanToken, if_pos rfl, read]
  rfl

theorem doubled_comm {mark other : UInt8} (different : mark ≠ other) (text : Bytes) :
    doubled mark (doubled other text) = doubled other (doubled mark text) := by
  induction text with
  | nil => rfl
  | cons b text ih =>
    by_cases first : b = mark
    · subst first
      simp [doubled, different, ih]
    · by_cases second : b = other
      · subst second
        simp [doubled, different.symm, ih]
      · simp [doubled, first, second, ih]

/-- A word in front of something that is no part of it. -/
theorem Scans.word {b : UInt8} {word rest : Bytes} {tokens : List Token} (start : isIdentStart b = true)
    (cont : ∀ c ∈ word, isIdentCont c = true) (stops : rest.takeWhile isIdentCont = [])
    (free : b :: word ∉ replicationKeywords) (more : Scans locale rest tokens) :
    Scans locale (b :: (word ++ rest)) (.ident (locale.downcaseTruncateIdentifier (b :: word)) :: tokens) := by
  have visible : isSqlSpace b = false := by
    simp only [isIdentStart, isLower, isUpper, underscore, isSqlSpace, Bool.or_eq_true, Bool.and_eq_true,
      decide_eq_true_eq, beq_iff_eq, Bool.or_eq_false_iff, beq_eq_false_iff_ne, ne_eq,
      UInt8.le_iff_toNat_le, ← UInt8.toNat_inj, UInt8.reduceToNat] at start ⊢
    omega
  have unmarked : b ≠ apostrophe ∧ b ≠ quotationMark := by
    constructor <;> rintro rfl <;> exact absurd start (by decide)
  have kept : rest.dropWhile isIdentCont = rest := by
    have split := List.takeWhile_append_dropWhile (p := isIdentCont) (l := rest)
    rwa [stops, List.nil_append] at split
  have first : scanToken locale b (word ++ rest) =
      some (.ident (locale.downcaseTruncateIdentifier (b :: word)), rest) := by
    simp only [scanToken, unmarked.1, unmarked.2, if_false, start, if_true,
      List.takeWhile_append_of_pos cont, List.dropWhile_append_of_pos cont, stops, kept, List.append_nil, free]
  exact Scans.cons visible first (by simp) more

theorem Scans.quotedName {name rest : Bytes} {tokens : List Token} (unmarked : quotationMark ∉ name)
    (short : name.length < identifierLimit) (more : Scans locale rest tokens) :
    Scans locale (quotationMark :: (name ++ quotationMark :: rest)) (.ident name :: tokens) := by
  have inside : ∀ b ∈ name, decide (b ≠ quotationMark) = true := by
    intro b member
    simpa using fun same : b = quotationMark => unmarked (same ▸ member)
  have first : scanToken locale quotationMark (name ++ quotationMark :: rest) = some (.ident name, rest) := by
    have other : quotationMark ≠ apostrophe := by decide
    simp only [scanToken, other, if_false, if_true, List.takeWhile_append_of_pos inside,
      List.dropWhile_append_of_pos inside]
    simp [Locale.truncateIdentifier_short _ short]
  exact Scans.cons (by decide) first (by simp; omega) more

/-! ## Scanning an option -/

def OptionValue.tokens : OptionValue → List Token
  | .formatted text => [.sconst text]
  | .literal text =>
      if backslash ∈ text then [.ident (ascii "e"), .sconst (doubled backslash text)] else [.sconst text]

def PluginOption.tokens (option : PluginOption) : List Token := .ident option.name :: option.value.tokens

/-- Names as the options have them: in lower case, and with a dot only between quotation marks. -/
def PluginOption.regular (option : PluginOption) : Bool :=
  option.name.all (fun b => isSafe b || option.quoted && b == 46) && decide (option.name.length < identifierLimit) &&
    (option.name.head?.any isLower) &&
    match option.value with
    | .formatted text => !text.contains apostrophe
    | .literal _ => true

theorem Scans.value (value : OptionValue) {rest : Bytes} {tokens : List Token} (ended : Ends rest)
    (plain : ∀ text, value = .formatted text → apostrophe ∉ text) (more : Scans locale rest tokens) :
    Scans locale (value.text ++ rest) (value.tokens ++ tokens) := by
  cases value with
  | formatted text =>
    have scans := Scans.literal text ended.head more
    rw [doubled_of_notMem (plain text rfl)] at scans
    simpa [OptionValue.text, OptionValue.tokens] using scans
  | literal text =>
    by_cases escaped : backslash ∈ text
    · have scans := Scans.literal (doubled backslash text) ended.head more
      rw [← doubled_comm (by decide) text] at scans
      have stops : (apostrophe :: (doubled backslash (doubled apostrophe text) ++ apostrophe :: rest)).takeWhile
          isIdentCont = [] := by
        have other : isIdentCont apostrophe = false := by decide
        simp [other]
      have word := Scans.word (b := 69) (by decide) (List.forall_mem_nil _) stops (by decide) scans
      have lower : locale.downcaseTruncateIdentifier [69] = ascii "e" := by
        have upper : isUpper 69 = true := by decide
        rw [Locale.downcaseTruncateIdentifier, Locale.truncateIdentifier_short _ (by simp [identifierLimit])]
        simp only [List.map_cons, List.map_nil, Locale.downcase, upper, if_true]
        decide
      rw [lower] at word
      simpa [OptionValue.text, OptionValue.tokens, quoteLiteralCstr, escaped] using word
    · have scans := Scans.literal text ended.head more
      have single : doubled backslash (doubled apostrophe text) = doubled apostrophe text :=
        doubled_of_notMem fun inside => escaped (mem_doubled.mp inside)
      simpa [OptionValue.text, OptionValue.tokens, quoteLiteralCstr, escaped, single] using scans

/-- A lower-case name without quotes is none of the scanner's keywords. -/
theorem notMem_replicationKeywords {name : Bytes} (lower : name.head?.any isLower = true) :
    name ∉ replicationKeywords := by
  intro inside
  have upper : ∀ word ∈ replicationKeywords, word.head?.any isLower = false := by decide
  rw [upper name inside] at lower
  cases lower

theorem Scans.option {option : PluginOption} {rest : Bytes} {tokens : List Token} (regular : option.regular = true)
    (ended : Ends rest) (more : Scans locale rest tokens) :
    Scans locale (option.text ++ rest) (option.tokens ++ tokens) := by
  obtain ⟨name, quoted, value⟩ := option
  simp only [PluginOption.regular, Bool.and_eq_true, decide_eq_true_eq] at regular
  obtain ⟨⟨⟨letters, short⟩, lower⟩, plain⟩ := regular
  have tail := Scans.space (Scans.value value ended (fun text equal => by subst equal; simpa using plain) more)
  cases quoted with
  | true =>
    have unmarked : quotationMark ∉ name := by
      intro inside
      have letter := List.all_eq_true.mp letters quotationMark inside
      revert letter
      decide
    have scans := Scans.quotedName unmarked short tail
    simpa [PluginOption.text, PluginOption.tokens, ascii] using scans
  | false =>
    have safe : ∀ b ∈ name, isSafe b = true := by simpa using letters
    have free := notMem_replicationKeywords lower
    cases name with
    | nil => cases lower
    | cons b word =>
      have start : isIdentStart b = true := by
        have letter : isLower b = true := by simpa using lower
        simp [isIdentStart, letter]
      have cont : ∀ c ∈ word, isIdentCont c = true := fun c inside => by
        have letter := safe c (List.mem_cons_of_mem _ inside)
        simp only [isSafe, Bool.or_eq_true] at letter
        simp only [isIdentCont, isIdentStart, Bool.or_eq_true]
        tauto
      have same : locale.downcaseTruncateIdentifier (b :: word) = b :: word := by
        rw [Locale.downcaseTruncateIdentifier, map_downcase_safe locale safe, Locale.truncateIdentifier_short _ short]
      have scans := Scans.word start cont
        (by simp [isIdentCont, isIdentStart, isLower, isUpper, isDigit, underscore]) free tail
      rw [same] at scans
      simpa [PluginOption.text, PluginOption.tokens, ascii] using scans

theorem single_punctuation {b : UInt8} (punctuation : b = comma ∨ b = leftParenthesis ∨ b = rightParenthesis) :
    isSqlSpace b = false ∧ b ≠ apostrophe ∧ b ≠ quotationMark ∧ isIdentStart b = false := by
  obtain rfl | rfl | rfl := punctuation <;> decide

theorem ascii_leftParenthesis : ascii "(" = [leftParenthesis] := by decide

theorem ascii_rightParenthesis : ascii ")" = [rightParenthesis] := by decide

def listTokens (options : List PluginOption) : List Token :=
  [Token.other comma].intercalate (options.map PluginOption.tokens) ++ [.other rightParenthesis]

theorem Scans.options {options : List PluginOption} (regular : ∀ option ∈ options, option.regular = true)
    (some_option : options ≠ []) :
    Scans locale ((ascii ", ").intercalate (options.map PluginOption.text) ++ ascii ")") (listTokens options) := by
  induction options with
  | nil => exact absurd rfl some_option
  | cons option options ih =>
    have first := regular option List.mem_cons_self
    cases options with
    | nil =>
      have closing : Scans locale [rightParenthesis] [.other rightParenthesis] :=
        Scans.other (single_punctuation (by simp)) .nil
      have scans := Scans.option first ⟨rightParenthesis, [], rfl, .inr rfl⟩ closing
      rw [ascii_rightParenthesis]
      simpa [listTokens] using scans
    | cons next options =>
      have tail := ih (fun other member => regular other (List.mem_cons_of_mem _ member)) (List.cons_ne_nil _ _)
      have separated : Scans locale (comma :: 32 :: ((ascii ", ").intercalate ((next :: options).map PluginOption.text) ++
          ascii ")")) (.other comma :: listTokens (next :: options)) :=
        Scans.other (single_punctuation (by simp)) (Scans.space tail)
      have scans := Scans.option first ⟨comma, _, rfl, .inl rfl⟩ separated
      have text : (ascii ", ").intercalate ((option :: next :: options).map PluginOption.text) ++ ascii ")" =
          option.text ++ comma :: 32 :: ((ascii ", ").intercalate ((next :: options).map PluginOption.text) ++
            ascii ")") := by
        rw [List.map_cons, List.map_cons, List.intercalate_cons_cons, List.append_assoc, List.append_assoc]
        rfl
      have tokens : listTokens (option :: next :: options) =
          option.tokens ++ .other comma :: listTokens (next :: options) := by
        rw [listTokens, List.map_cons, List.map_cons, List.intercalate_cons_cons, List.append_assoc, List.append_assoc]
        rfl
      rw [text, tokens]
      exact scans

end Scanning

/-! ## The options the provider has read -/

/-- A literal in the escape syntax. -/
def OptionValue.escaped : OptionValue → Bool
  | .formatted _ => false
  | .literal text => text.contains backslash

def OptionValue.content : OptionValue → Bytes
  | .formatted text => text
  | .literal text => text

def PluginOption.defElem (option : PluginOption) : DefElem := (option.name, some option.value.content)

theorem OptionValue.tokens_of_escaped {value : OptionValue} (escaped : value.escaped = true) :
    ∃ name text, value.tokens = [.ident name, .sconst text] := by
  cases value with
  | formatted text => cases escaped
  | literal text =>
    have inside : backslash ∈ text := by simpa [OptionValue.escaped] using escaped
    exact ⟨_, _, if_pos inside⟩

theorem OptionValue.tokens_of_plain {value : OptionValue} (plain : value.escaped = false) :
    value.tokens = [.sconst value.content] := by
  cases value with
  | formatted text => rfl
  | literal text =>
    have outside : backslash ∉ text := by simpa [OptionValue.escaped] using plain
    exact if_neg outside

theorem pluginOptList_tokens {options : List PluginOption} (some_option : options ≠ []) :
    pluginOptList (listTokens options) =
      if options.any (·.value.escaped) then none else some (options.map PluginOption.defElem) := by
  induction options with
  | nil => exact absurd rfl some_option
  | cons option options ih =>
    cases escaped : option.value.escaped with
    | true =>
      obtain ⟨name, text, tokens⟩ := OptionValue.tokens_of_escaped escaped
      cases options with
      | nil => simp [listTokens, PluginOption.tokens, tokens, pluginOptList, escaped]
      | cons next options =>
        simp [listTokens, PluginOption.tokens, tokens, pluginOptList, escaped, List.intercalate_cons_cons]
    | false =>
      have tokens := OptionValue.tokens_of_plain escaped
      cases options with
      | nil =>
        simp [listTokens, PluginOption.tokens, tokens, pluginOptList, escaped, PluginOption.defElem, comma,
          rightParenthesis]
      | cons next options =>
        have tail := ih (List.cons_ne_nil _ _)
        have split : listTokens (option :: next :: options) = .ident option.name :: .sconst option.value.content ::
            .other comma :: listTokens (next :: options) := by
          rw [listTokens, List.map_cons, List.map_cons, List.intercalate_cons_cons, PluginOption.tokens, tokens]
          simp [listTokens]
        have others : (option :: next :: options).any (·.value.escaped) = (next :: options).any (·.value.escaped) := by
          rw [List.any_cons, escaped, Bool.false_or]
        rw [split, pluginOptList, if_pos rfl, tail, others]
        cases (next :: options).any (·.value.escaped) <;> rfl

/-- The provider reads the options as they were meant, unless one is in the escape syntax. -/
theorem parseOptions_optionsText (locale : Wire.Locale) {options : List PluginOption}
    (regular : ∀ option ∈ options, option.regular = true) (some_option : options ≠ []) :
    parseOptions locale (optionsText options) =
      if options.any (·.value.escaped) then none else some (options.map PluginOption.defElem) := by
  have scans : Scans locale (optionsText options) (.other leftParenthesis :: listTokens options) := by
    rw [optionsText, List.append_assoc, ascii_leftParenthesis]
    exact Scans.other (single_punctuation (by simp)) (Scans.options regular some_option)
  rw [parseOptions, scans _ (Nat.lt_succ_self _), ← pluginOptList_tokens some_option]
  rfl

/-! ## The options a worker sends -/

theorem apostrophe_notMem_decimal (n : ℕ) : apostrophe ∉ decimal n := by
  intro inside
  exact absurd (isDigit_of_mem_decimal inside) (by decide)

theorem apostrophe_notMem_decimalInt (n : ℤ) : apostrophe ∉ decimalInt n := by
  unfold decimalInt
  split
  · rw [List.mem_cons, not_or]
    exact ⟨by decide, apostrophe_notMem_decimal _⟩
  · exact apostrophe_notMem_decimal _

theorem regular_formatOption {name : String} {quoted : Bool} {value : Bytes}
    (named : (⟨ascii name, quoted, .literal []⟩ : PluginOption).regular = true) (plain : apostrophe ∉ value) :
    (formatOption name quoted value).regular = true := by
  unfold PluginOption.regular at named ⊢
  rw [Bool.and_eq_true] at named ⊢
  exact ⟨named.1, by simpa [formatOption] using plain⟩

theorem regular_protocolOptions (down : Downstream) : ∀ option ∈ protocolOptions down, option.regular = true := by
  simp only [protocolOptions, List.forall_mem_cons]
  exact ⟨regular_formatOption (by decide) down.encodingPlain,
    regular_formatOption (by decide) (apostrophe_notMem_decimal _),
    regular_formatOption (by decide) (apostrophe_notMem_decimal _),
    regular_formatOption (by decide) (by decide),
    regular_formatOption (by decide) (by decide),
    regular_formatOption (by decide) (by decide),
    regular_formatOption (by decide) (apostrophe_notMem_decimal _),
    regular_formatOption (by decide) (apostrophe_notMem_decimal _),
    regular_formatOption (by decide) (apostrophe_notMem_decimal _),
    regular_formatOption (by decide) (apostrophe_notMem_decimal _),
    regular_formatOption (by decide) (apostrophe_notMem_decimal _),
    regular_formatOption (by decide) (apostrophe_notMem_decimal _),
    regular_formatOption (by decide) (apostrophe_notMem_decimal _),
    regular_formatOption (by decide) (apostrophe_notMem_decimal _),
    regular_formatOption (by decide) (by decide), by simp⟩

theorem regular_versionOptions (down : Downstream) : ∀ option ∈ versionOptions down, option.regular = true := by
  simp only [versionOptions, List.forall_mem_cons]
  exact ⟨regular_formatOption (by decide) (by decide),
    regular_formatOption (by decide) (apostrophe_notMem_decimal _),
    regular_formatOption (by decide) (by decide),
    regular_formatOption (by decide) (apostrophe_notMem_decimal _),
    regular_formatOption (by decide) (apostrophe_notMem_decimalInt _), by simp⟩

theorem regular_literalOption {name : Bytes} (named : (⟨name, true, .literal []⟩ : PluginOption).regular = true)
    (value : Option Bytes) : ∀ option ∈ literalOption name value, option.regular = true := by
  intro option inside
  obtain ⟨text, -, rfl⟩ := List.mem_map.mp inside
  exact named

theorem regular_options (down : Downstream) (forwardOrigins replicationSets replicateOnlyTable : Option Bytes) :
    ∀ option ∈ startReplicationOptions down forwardOrigins replicationSets replicateOnlyTable,
      option.regular = true := by
  simp only [startReplicationOptions, List.forall_mem_append]
  exact ⟨⟨⟨⟨regular_protocolOptions down, regular_literalOption (by decide) _⟩,
    regular_literalOption (by decide) _⟩, regular_literalOption (by decide) _⟩, regular_versionOptions down⟩

theorem any_escaped_literalOption (name : Bytes) (value : Option Bytes) :
    (literalOption name value).any (·.value.escaped) = true ↔ ∃ text ∈ value, backslash ∈ text := by
  cases value with
  | none => simp [literalOption]
  | some text => simp [literalOption, OptionValue.escaped]

/-- Only a literal can be in the escape syntax. -/
theorem any_escaped_options (down : Downstream) (forwardOrigins replicationSets replicateOnlyTable : Option Bytes) :
    (startReplicationOptions down forwardOrigins replicationSets replicateOnlyTable).any (·.value.escaped) = true ↔
      (∃ text ∈ forwardOrigins, backslash ∈ text) ∨ (∃ text ∈ replicateOnlyTable, backslash ∈ text) ∨
        ∃ text ∈ replicationSets, backslash ∈ text := by
  have protocol : (protocolOptions down).any (·.value.escaped) = false := rfl
  have version : (versionOptions down).any (·.value.escaped) = false := rfl
  rw [startReplicationOptions, List.any_append, List.any_append, List.any_append, List.any_append, protocol, version,
    Bool.false_or, Bool.or_false, Bool.or_eq_true, Bool.or_eq_true, any_escaped_literalOption,
    any_escaped_literalOption, any_escaped_literalOption, or_assoc]

/-! ## The startup hook -/

section Hook

variable {locale : Wire.Locale} (getReplicationSets : Oid → List Bytes → Except String (List PGLogicalRepSet))

theorem downcase_dot (locale : Wire.Locale) : locale.downcase 46 = 46 := rfl

variable (locale) in
/-- Names of options are compared as they are. -/
theorem sameName_regular {option : PluginOption} (regular : option.regular = true) (constant : Bytes) :
    sameName locale constant option.name = (option.name == constant) := by
  simp only [PluginOption.regular, Bool.and_eq_true] at regular
  have lower : option.name.map locale.downcase = option.name := by
    conv_rhs => rw [← List.map_id option.name]
    refine List.map_congr_left fun b inside => ?_
    have letter := List.all_eq_true.mp regular.1.1.1 b inside
    simp only [Bool.or_eq_true, Bool.and_eq_true, beq_iff_eq] at letter
    obtain safe | ⟨-, rfl⟩ := letter
    · exact isSafe_downcase locale safe
    · exact downcase_dot locale
  rw [sameName, lower]

variable (locale) in
/-- Options about other things leave the hook's data alone. -/
theorem startupOption_skip {options : List PluginOption} (regular : ∀ option ∈ options, option.regular = true)
    (foreign : ∀ name ∈ options.map PluginOption.name, name ≠ forwardOriginsName ∧ name ≠ replicationSetNamesName ∧
      name ≠ replicateOnlyTableName) (hooks : HooksPrivate) :
    (options.map PluginOption.defElem).foldlM (startupOption locale getReplicationSets) hooks = .ok hooks := by
  induction options with
  | nil => rfl
  | cons option options ih =>
    rw [List.map_cons, List.forall_mem_cons] at foreign
    obtain ⟨⟨notOrigins, notSets, notTable⟩, foreign⟩ := foreign
    have same := sameName_regular locale (regular option List.mem_cons_self)
    have skipped : startupOption locale getReplicationSets hooks option.defElem = .ok hooks := by
      simp [startupOption, PluginOption.defElem, same, notOrigins, notSets, notTable]
    rw [List.map_cons, List.foldlM_cons, skipped]
    exact ih (fun other member => regular other (List.mem_cons_of_mem _ member)) foreign

/-- A list of names that is split by the hook is the list that was sent. -/
theorem split_stringlist (lexicon : Lexicon) (names : List NameData) :
    splitIdentifierString locale (stringlistToIdentifierstr lexicon (names.map nameBytes)) comma =
      some (names.map nameBytes) := by
  refine splitIdentifierString_intercalate lexicon locale (by decide) (by decide) (by simp [Locale.isspace, comma]) ?_
  intro name inside
  obtain ⟨original, -, rfl⟩ := List.mem_map.mp inside
  exact original.short

theorem split_qualified (lexicon : Lexicon) (nspname relname : NameData) :
    splitIdentifierString locale (quoteQualifiedIdentifier lexicon (nameBytes nspname) (nameBytes relname)) 46 =
      some [nameBytes nspname, nameBytes relname] := by
  have short : ∀ name ∈ [nameBytes nspname, nameBytes relname], name.length < identifierLimit := by
    intro name inside
    obtain rfl | rfl : name = nameBytes nspname ∨ name = nameBytes relname := by simpa using inside
    · exact nspname.short
    · exact relname.short
  have split := splitIdentifierString_intercalate lexicon locale (by decide : isSafe 46 = false) (by decide)
    (by simp [Locale.isspace]) short
  rw [← split]
  simp [quoteQualifiedIdentifier, List.intercalate_cons_cons]
  rfl

theorem split_all (locale : Wire.Locale) :
    splitIdentifierString locale replicationOriginAll comma = some [replicationOriginAll] := by
  have short : ∀ name ∈ [replicationOriginAll], name.length < identifierLimit := by
    simp [replicationOriginAll, ascii, identifierLimit]
  have split := splitIdentifierString_intercalate ⟨locale, fun _ => none, false⟩ locale (by decide : isSafe comma = false)
    (by decide) (by simp [Locale.isspace, comma]) short
  rw [List.map_singleton, List.intercalate_singleton] at split
  exact split

variable (locale) in
theorem sameName_self {name : Bytes} (named : (⟨name, true, .literal []⟩ : PluginOption).regular = true)
    (constant : Bytes) : sameName locale constant name = (name == constant) := sameName_regular locale named constant

theorem startupOption_forwardOrigins (hooks : HooksPrivate) {text : Bytes} {names : List Bytes}
    (split : splitIdentifierString locale text comma = some names) :
    startupOption locale getReplicationSets hooks (forwardOriginsName, some text) =
      (names.forM checkForwardOrigin >>= fun _ => .ok { hooks with forwardOrigins := names }) := by
  have named : (⟨forwardOriginsName, true, .literal []⟩ : PluginOption).regular = true := by decide
  have same := sameName_self locale named forwardOriginsName
  rw [beq_self_eq_true] at same
  simp only [startupOption, same, if_true, split]
  rfl

theorem startupOption_replicationSets (hooks : HooksPrivate) {text : Bytes} {names : List Bytes}
    (split : splitIdentifierString locale text comma = some names) :
    startupOption locale getReplicationSets hooks (replicationSetNamesName, some text) =
      (getReplicationSets hooks.localNodeId names >>= fun sets => .ok { hooks with replicationSets := sets }) := by
  have named : (⟨replicationSetNamesName, true, .literal []⟩ : PluginOption).regular = true := by decide
  have same := sameName_self locale named replicationSetNamesName
  have notOrigins := sameName_self locale named forwardOriginsName
  rw [beq_self_eq_true] at same
  rw [beq_eq_false_iff_ne.mpr (by decide)] at notOrigins
  simp only [startupOption, same, notOrigins, Bool.false_eq_true, if_false, if_true, split]
  rfl

theorem startupOption_replicateOnlyTable (hooks : HooksPrivate) {text schemaname relname : Bytes}
    (split : splitIdentifierString locale text 46 = some [schemaname, relname]) :
    startupOption locale getReplicationSets hooks (replicateOnlyTableName, some text) =
      .ok { hooks with replicateOnlyTable := some (schemaname, relname) } := by
  have named : (⟨replicateOnlyTableName, true, .literal []⟩ : PluginOption).regular = true := by decide
  have same := sameName_self locale named replicateOnlyTableName
  have notOrigins := sameName_self locale named forwardOriginsName
  have notSets := sameName_self locale named replicationSetNamesName
  rw [beq_self_eq_true] at same
  rw [beq_eq_false_iff_ne.mpr (by decide)] at notOrigins notSets
  simp only [startupOption, same, notOrigins, notSets, Bool.false_eq_true, if_false, if_true, split]

theorem foreign_protocolOptions (down : Downstream) : ∀ name ∈ (protocolOptions down).map PluginOption.name,
    name ≠ forwardOriginsName ∧ name ≠ replicationSetNamesName ∧ name ≠ replicateOnlyTableName := by
  change ∀ name ∈ ["expected_encoding", "min_proto_version", "max_proto_version", "startup_params_format",
    "binary.want_internal_basetypes", "binary.want_binary_basetypes", "binary.basetypes_major_version",
    "binary.sizeof_datum", "binary.sizeof_int", "binary.sizeof_long", "binary.bigendian", "binary.float4_byval",
    "binary.float8_byval", "binary.integer_datetimes", "hooks.setup_function"].map ascii, _
  decide

theorem foreign_versionOptions (down : Downstream) : ∀ name ∈ (versionOptions down).map PluginOption.name,
    name ≠ forwardOriginsName ∧ name ≠ replicationSetNamesName ∧ name ≠ replicateOnlyTableName := by
  change ∀ name ∈ ["relmeta_cache_size", "pg_version", "pglogical_version", "pglogical_version_num",
    "pglogical_apply_pid"].map ascii, _
  decide

/-- The hook looks at the literals only. -/
theorem hook_options (down : Downstream) (localNodeId : Oid)
    (forwardOrigins replicationSets replicateOnlyTable : Option Bytes) :
    pglogicalStartupHook locale getReplicationSets localNodeId
        ((startReplicationOptions down forwardOrigins replicationSets replicateOnlyTable).map PluginOption.defElem) =
      ((literalOption forwardOriginsName forwardOrigins ++ literalOption replicateOnlyTableName replicateOnlyTable ++
        literalOption replicationSetNamesName replicationSets).map PluginOption.defElem).foldlM
          (startupOption locale getReplicationSets) ⟨localNodeId, [], [], none⟩ := by
  have protocol := startupOption_skip locale getReplicationSets (regular_protocolOptions down)
    (foreign_protocolOptions down)
  have version := startupOption_skip locale getReplicationSets (regular_versionOptions down)
    (foreign_versionOptions down)
  have split : startReplicationOptions down forwardOrigins replicationSets replicateOnlyTable =
      protocolOptions down ++ (literalOption forwardOriginsName forwardOrigins ++
        literalOption replicateOnlyTableName replicateOnlyTable ++
        literalOption replicationSetNamesName replicationSets) ++ versionOptions down := by
    simp only [startReplicationOptions, List.append_assoc]
  rw [pglogicalStartupHook, split, List.map_append, List.map_append, List.foldlM_append, List.foldlM_append, protocol]
  simp only [version]
  exact bind_pure _

end Hook

/-! ## What is heard -/

theorem hook_apply (lexicon : Lexicon) (locale : Wire.Locale) (down : Downstream)
    (forwardOrigins replicationSets : List NameData)
    (getReplicationSets : Oid → List Bytes → Except String (List PGLogicalRepSet)) (localNodeId : Oid) :
    pglogicalStartupHook locale getReplicationSets localNodeId
        (((Request.apply forwardOrigins replicationSets).options lexicon down).map PluginOption.defElem) =
      (Request.apply forwardOrigins replicationSets).startup getReplicationSets localNodeId := by
  rw [Request.options, hook_options]
  simp only [literalOption, Option.toList_some, Option.toList_none, List.map_cons, List.map_nil, List.append_nil,
    List.cons_append, List.nil_append, List.foldlM_cons, List.foldlM_nil, PluginOption.defElem, OptionValue.content]
  rw [startupOption_forwardOrigins _ _ (split_stringlist lexicon forwardOrigins)]
  simp only [startupOption_replicationSets _ _ (split_stringlist lexicon replicationSets), bind_assoc, Request.startup]
  rfl

theorem hook_sync (lexicon : Lexicon) (locale : Wire.Locale) (down : Downstream) (nspname relname : NameData)
    (getReplicationSets : Oid → List Bytes → Except String (List PGLogicalRepSet)) (localNodeId : Oid) :
    pglogicalStartupHook locale getReplicationSets localNodeId
        (((Request.sync nspname relname).options lexicon down).map PluginOption.defElem) =
      (Request.sync nspname relname).startup getReplicationSets localNodeId := by
  rw [Request.options, hook_options]
  simp only [literalOption, Option.toList_some, Option.toList_none, List.map_cons, List.map_nil, List.append_nil,
    List.cons_append, List.nil_append, List.foldlM_cons, List.foldlM_nil, PluginOption.defElem, OptionValue.content]
  rw [startupOption_forwardOrigins _ _ (split_all locale)]
  simp only [startupOption_replicateOnlyTable _ _ (split_qualified lexicon nspname relname)]
  rfl

/-- A quoted name has the bytes of the name. -/
theorem mem_quoteIdentifier (lexicon : Lexicon) {name : Bytes} {b : UInt8} (other : b ≠ quotationMark) :
    b ∈ lexicon.quoteIdentifier name ↔ b ∈ name := by
  unfold Lexicon.quoteIdentifier
  split
  · rfl
  · simp [other, mem_doubled]

theorem mem_intercalate {separator b : UInt8} {texts : List Bytes} (other : b ≠ separator) :
    b ∈ [separator].intercalate texts ↔ ∃ text ∈ texts, b ∈ text := by
  induction texts with
  | nil => simp
  | cons text texts ih =>
    cases texts with
    | nil => simp
    | cons next texts =>
      rw [List.intercalate_cons_cons, List.mem_append, List.mem_append, ih]
      simp [other]

theorem backslash_mem_stringlist {lexicon : Lexicon} {names : List NameData} :
    backslash ∈ stringlistToIdentifierstr lexicon (names.map nameBytes) ↔ ∃ name ∈ names, backslash ∈ nameBytes name := by
  rw [stringlistToIdentifierstr, mem_intercalate (by decide)]
  simp [mem_quoteIdentifier lexicon (by decide : backslash ≠ quotationMark)]

/-- A command is in the escape syntax exactly when a name has a backslash. -/
theorem any_escaped_request (lexicon : Lexicon) (down : Downstream) (request : Request) :
    (request.options lexicon down).any (·.value.escaped) = true ↔
      ∃ name ∈ request.names, backslash ∈ nameBytes name := by
  cases request with
  | apply forwardOrigins replicationSets =>
    rw [Request.options, any_escaped_options]
    simp [Request.names, backslash_mem_stringlist, or_and_right, exists_or]
  | sync nspname relname =>
    have all : backslash ∉ replicationOriginAll := by decide
    have dot : backslash ∉ ascii "." := by decide
    rw [Request.options, any_escaped_options]
    simp [Request.names, quoteQualifiedIdentifier, all, dot,
      mem_quoteIdentifier lexicon (by decide : backslash ≠ quotationMark)]

theorem regular_request (lexicon : Lexicon) (down : Downstream) (request : Request) :
    ∀ option ∈ request.options lexicon down, option.regular = true := by
  cases request with
  | apply forwardOrigins replicationSets => exact regular_options down _ _ _
  | sync nspname relname => exact regular_options down _ _ _

theorem options_ne_nil (lexicon : Lexicon) (down : Downstream) (request : Request) :
    request.options lexicon down ≠ [] := by
  cases request <;> exact List.cons_ne_nil _ _

/-- The provider hears the names of a request exactly when none of them has a backslash. -/
theorem hears_iff (lexicon : Lexicon) (locale : Wire.Locale) (down : Downstream) (request : Request) :
    Hears lexicon locale down request ↔ ∀ name ∈ request.names, backslash ∉ nameBytes name := by
  have parsed := parseOptions_optionsText locale (regular_request lexicon down request)
    (options_ne_nil lexicon down request)
  have escaped := any_escaped_request lexicon down request
  constructor
  · rintro ⟨inParams, read, -⟩ name inside written
    rw [parsed, if_pos (escaped.mpr ⟨name, inside, written⟩)] at read
    cases read
  · intro plain
    have unescaped : ¬ (request.options lexicon down).any (·.value.escaped) = true := by
      rw [escaped]
      rintro ⟨name, inside, written⟩
      exact plain name inside written
    rw [if_neg unescaped] at parsed
    refine ⟨_, parsed, fun getReplicationSets localNodeId => ?_⟩
    cases request with
    | apply forwardOrigins replicationSets => exact hook_apply ..
    | sync nspname relname => exact hook_sync ..

/-- A subscriber on a 64-bit little-endian server. -/
def sampleDownstream : Downstream where
  encodingName := ascii "UTF8"
  encodingPlain := by decide
  pgVersionNum := 90500
  sizeofDatum := 8
  sizeofInt := 4
  sizeofLong := 8
  bigendian := false
  float4Byval := true
  float8Byval := true
  integerDatetimes := true
  myProcPid := 4711

def sampleLexicon : Lexicon := ⟨⟨fun _ => false, id, List.length⟩, fun _ => none, false⟩

/-- A set whose name is a backslash: the command is refused. -/
theorem hears_backslash : ¬ Hears sampleLexicon sampleLexicon.toLocale sampleDownstream
    (.apply [] [namestrcpy (.ofBytes [backslash])]) := by
  rintro ⟨inParams, read, -⟩
  have refused : parseOptions sampleLexicon.toLocale (optionsText
      ((Request.apply [] [namestrcpy (.ofBytes [backslash])]).options sampleLexicon sampleDownstream)) = none := by
    decide +kernel
  rw [refused] at read
  cases read

end PGLogical.ReplicationCommand
