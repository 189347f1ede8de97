import PGLogical.Machine.Fallible
import PGLogical.Model.Connstr

/-! # Connection strings are read back

What `PQconninfoParamsToConnstr` writes for a list of options is read by libpq as these options and no
others, and `get_connstr` keeps the options of the string that it is given. The arrays that it fills have
room for every option and for the end.
-/

namespace PGLogical.Connstr

open Wire

variable {libpq : ConninfoKeywords} {locale : Wire.Locale}

/-! ## One value -/

theorem plainByte_plain (locale : Wire.Locale) {c : UInt8} (plain : plainByte c = true) :
    c ≠ apostrophe ∧ locale.isspace c = false ∧ c ≠ backslash := by
  simp only [plainByte, isLower, isUpper, isDigit, underscore, apostrophe, backslash, Wire.Locale.isspace, Bool.or_eq_true,
    Bool.and_eq_true, decide_eq_true_eq, beq_iff_eq, Bool.or_eq_false_iff, Bool.and_eq_false_iff,
    decide_eq_false_iff_not, UInt8.le_iff_toNat_le, ne_eq, ← UInt8.toNat_inj, UInt8.reduceToNat] at plain ⊢
  omega

theorem scanQuotedValue_escapeConnstrValue (value tail : Bytes) :
    scanQuotedValue (escapeConnstrValue value ++ apostrophe :: tail) = some (value, tail) := by
  induction value with
  | nil => exact scanQuotedValue_close tail
  | cons c value ih =>
    rw [escapeConnstrValue]
    by_cases special : c = apostrophe ∨ c = backslash
    · rw [if_pos special, List.cons_append, List.cons_append, scanQuotedValue_escape, ih]
      rfl
    · rw [if_neg special, List.cons_append, scanQuotedValue_cons (not_or.mp special), ih]
      rfl

/-- A value that is followed by nothing or by a blank. -/
theorem scanValue_append (locale : Wire.Locale) {value tail : Bytes} (nonempty : value ≠ [])
    (ended : ∀ c ∈ tail.head?, c = blank) :
    ∃ behind, scanValue locale.isspace (appendPQExpBufferConnstrValue value ++ tail) = some (value, behind) ∧
      behind.dropWhile locale.isspace = tail.dropWhile locale.isspace := by
  have isspace_blank : locale.isspace blank = true := rfl
  by_cases plain : value.all plainByte = true
  · rw [appendPQExpBufferConnstrValue, if_pos plain]
    have bytes := fun c inside => plainByte_plain locale (List.all_eq_true.mp plain c inside)
    have spaced : ∀ c ∈ tail.head?, locale.isspace c = true := fun c first => ended c first ▸ isspace_blank
    refine ⟨tail.drop 1, ?_, ?_⟩
    · obtain ⟨c, rest, rfl⟩ := List.exists_cons_of_ne_nil nonempty
      have unquoted := (bytes c List.mem_cons_self).1
      rw [List.cons_append, scanValue, if_neg unquoted, ← List.cons_append,
        scanPlainValue_append (fun c inside => (bytes c inside).2) spaced]
    · cases tail with
      | nil => rfl
      | cons c rest => rw [List.drop_one, List.tail_cons, List.dropWhile_cons_of_pos (spaced c rfl)]
  · rw [appendPQExpBufferConnstrValue, if_neg plain]
    refine ⟨tail, ?_, rfl⟩
    rw [List.cons_append, scanValue, if_pos rfl, List.append_assoc, List.singleton_append,
      scanQuotedValue_escapeConnstrValue]

/-- The value starts behind the equals sign at once. -/
theorem dropWhile_connstrValue {value : Bytes} (nonempty : value ≠ []) (tail : Bytes) :
    (appendPQExpBufferConnstrValue value ++ tail).dropWhile locale.isspace =
      appendPQExpBufferConnstrValue value ++ tail := by
  have starts : ∃ c rest, appendPQExpBufferConnstrValue value = c :: rest ∧ locale.isspace c = false := by
    by_cases plain : value.all plainByte = true
    · obtain ⟨c, rest, rfl⟩ := List.exists_cons_of_ne_nil nonempty
      rw [appendPQExpBufferConnstrValue, if_pos plain]
      exact ⟨c, rest, rfl, (plainByte_plain locale (List.all_eq_true.mp plain c List.mem_cons_self)).2.1⟩
    · rw [appendPQExpBufferConnstrValue, if_neg plain]
      exact ⟨apostrophe, _, rfl, rfl⟩
  obtain ⟨c, rest, shape, visible⟩ := starts
  rw [shape, List.cons_append, List.dropWhile_cons_of_neg (by simp [visible])]

/-! ## All of them -/

/-- Keywords of libpq, all different, with values that are not empty. -/
structure Settable (libpq : ConninfoKeywords) (pairs : List (Bytes × Bytes)) : Prop where
  known : ∀ pair ∈ pairs, pair.1 ∈ libpq.keywords
  nonempty : ∀ pair ∈ pairs, pair.2 ≠ []
  distinct : (pairs.map Prod.fst).Nodup

variable (locale) in
theorem scanPair_connstrPair {pair : Bytes × Bytes} (known : pair.1 ∈ libpq.keywords) (nonempty : pair.2 ≠ [])
    {tail : Bytes} (ended : ∀ c ∈ tail.head?, c = blank) :
    ∃ behind, scanPair locale.isspace (connstrPair pair ++ tail) = some (pair, behind) ∧
      behind.dropWhile locale.isspace = tail.dropWhile locale.isspace := by
  obtain ⟨behind, scanned, same⟩ := scanValue_append locale nonempty ended
  have named := fun c inside => isKeywordByte_visible locale ((libpq.lower pair.1 known).2 c inside)
  refine ⟨behind, ?_, same⟩
  rw [connstrPair, List.append_assoc, List.cons_append, scanPair_append named rfl, dropWhile_connstrValue nonempty,
    scanned]
  rfl

theorem dropWhile_connstrPair {pair : Bytes × Bytes} (known : pair.1 ∈ libpq.keywords) (tail : Bytes) :
    (connstrPair pair ++ tail).dropWhile locale.isspace = connstrPair pair ++ tail := by
  obtain ⟨c, rest, shape⟩ := List.exists_cons_of_ne_nil (libpq.lower pair.1 known).1
  have named := (libpq.lower pair.1 known).2 c (shape ▸ List.mem_cons_self)
  have visible := (isKeywordByte_visible locale named).2
  rw [connstrPair, shape, List.cons_append, List.cons_append, List.dropWhile_cons_of_neg (by simp [visible])]

theorem scanPairs_connstrPairs {pairs : List (Bytes × Bytes)} (known : ∀ pair ∈ pairs, pair.1 ∈ libpq.keywords)
    (nonempty : ∀ pair ∈ pairs, pair.2 ≠ []) {rounds : ℕ} (enough : pairs.length < rounds) :
    scanPairs locale.isspace rounds ([blank].intercalate (pairs.map connstrPair)) = some pairs := by
  induction pairs generalizing rounds with
  | nil =>
    cases rounds with
    | zero => exact absurd enough (Nat.not_lt_zero _)
    | succ rounds => rfl
  | cons pair pairs ih =>
    obtain ⟨known_here, known⟩ := List.forall_mem_cons.mp known
    obtain ⟨nonempty_here, nonempty⟩ := List.forall_mem_cons.mp nonempty
    cases rounds with
    | zero => exact absurd enough (Nat.not_lt_zero _)
    | succ rounds =>
      have rest := ih known nonempty (Nat.lt_of_succ_lt_succ enough)
      -- what follows the first pair, with the blank that separates it
      have split : ∃ tail, [blank].intercalate ((pair :: pairs).map connstrPair) = connstrPair pair ++ tail ∧
          (∀ c ∈ tail.head?, c = blank) ∧
          scanPairs locale.isspace rounds tail = some pairs := by
        cases pairs with
        | nil => exact ⟨[], by simp, by simp, rest⟩
        | cons next pairs =>
          refine ⟨blank :: [blank].intercalate ((next :: pairs).map connstrPair), ?_, by simp, ?_⟩
          · rw [List.map_cons, List.map_cons, List.intercalate_cons_cons, List.append_assoc]
            rfl
          · have visible : (blank :: [blank].intercalate ((next :: pairs).map connstrPair)).dropWhile locale.isspace =
                ([blank].intercalate ((next :: pairs).map connstrPair)).dropWhile locale.isspace :=
              List.dropWhile_cons_of_pos rfl
            rw [scanPairs_congr visible, rest]
      obtain ⟨tail, shape, ended, following⟩ := split
      obtain ⟨behind, scanned, same⟩ := scanPair_connstrPair locale known_here nonempty_here ended
      rw [shape, scanPairs_succ (dropWhile_connstrPair known_here tail) scanned, scanPairs_congr same, following]
      rfl

/-- Each keyword has its value, and nothing else is set. -/
structure SetsExactly (options : ConninfoOptions) (pairs : List (Bytes × Bytes)) : Prop where
  each : ∀ pair ∈ pairs, options pair.1 = some pair.2
  only : ∀ keyword ∉ pairs.map Prod.fst, options keyword = none

theorem setsExactly_assign {pairs : List (Bytes × Bytes)} (distinct : (pairs.map Prod.fst).Nodup) :
    SetsExactly (assign (fun _ => none) pairs) pairs :=
  ⟨fun _ inside => assign_of_mem distinct inside, fun _ other => assign_of_not_mem other⟩

theorem hasUriPrefix_connstrPairs {pairs : List (Bytes × Bytes)} (known : ∀ pair ∈ pairs, pair.1 ∈ libpq.keywords) :
    hasUriPrefix ([blank].intercalate (pairs.map connstrPair)) = false := by
  cases pairs with
  | nil => decide
  | cons pair pairs =>
    have here := (List.forall_mem_cons.mp known).1
    cases pairs with
    | nil =>
      rw [List.map_singleton, List.intercalate_singleton, connstrPair]
      exact hasUriPrefix_keyword libpq here _
    | cons next pairs =>
      rw [List.map_cons, List.map_cons, List.intercalate_cons_cons, List.append_assoc, connstrPair, List.append_assoc]
      exact hasUriPrefix_keyword libpq here _

variable (uriParse : Bytes → Option ConninfoOptions)

theorem pqconninfoParse_connstrPairs {pairs : List (Bytes × Bytes)} (known : ∀ pair ∈ pairs, pair.1 ∈ libpq.keywords)
    (nonempty : ∀ pair ∈ pairs, pair.2 ≠ []) :
    pqconninfoParse libpq locale uriParse ([blank].intercalate (pairs.map connstrPair)) =
      some (assign (fun _ => none) pairs) := by
  have enough : pairs.length < ([blank].intercalate (pairs.map connstrPair)).length + 1 := by
    have written : ∀ text ∈ pairs.map connstrPair, text ≠ [] := by
      intro text inside
      obtain ⟨pair, -, rfl⟩ := List.mem_map.mp inside
      simp [connstrPair]
    have few : (pairs.map connstrPair).length ≤ ([blank].intercalate (pairs.map connstrPair)).length :=
      length_le_intercalate written
    rw [List.length_map] at few
    exact Nat.lt_succ_of_le few
  rw [pqconninfoParse, hasUriPrefix_connstrPairs known, if_neg Bool.false_ne_true, conninfoParse,
    scanPairs_connstrPairs known nonempty enough]
  exact foldlM_conninfoStoreval known

/-! ## `get_connstr` -/

/-- The options that are stored. -/
def storedOption (dbname : Option Bytes) (option : PQconninfoOption) : Option (Bytes × Bytes) :=
  if dbname.isSome ∧ option.keyword = ascii "dbname" then none
  else match option.val with
    | some (c :: rest) => some (option.keyword, c :: rest)
    | _ => none

theorem storedOption_eq_some_iff {dbname : Option Bytes} {option : PQconninfoOption} {pair : Bytes × Bytes} :
    storedOption dbname option = some pair ↔ option.keyword = pair.1 ∧ option.val = some pair.2 ∧ pair.2 ≠ [] ∧
      ¬ (dbname.isSome ∧ option.keyword = ascii "dbname") := by
  unfold storedOption
  by_cases later : dbname.isSome ∧ option.keyword = ascii "dbname"
  · simp [later]
  · rw [if_neg later]
    obtain ⟨keyword, value⟩ := pair
    cases val : option.val with
    | none => simp
    | some bytes =>
      cases bytes with
      | nil =>
        simp only [reduceCtorEq, false_iff]
        rintro ⟨-, same, nonempty, -⟩
        exact nonempty (Option.some.inj same).symm
      | cons c rest =>
        simp only [Option.some.injEq, Prod.mk.injEq]
        constructor
        · rintro ⟨rfl, rfl⟩
          exact ⟨rfl, rfl, by simp, later⟩
        · rintro ⟨rfl, rfl, -, -⟩
          exact ⟨rfl, rfl⟩

theorem storeOption_eq {dbname : Option Bytes} {args : Arguments} {option : PQconninfoOption}
    (room : args.entries.length < args.size) : storeOption dbname args option =
      .ok ⟨args.size, args.entries ++ (storedOption dbname option).toList⟩ := by
  unfold storeOption storedOption
  split
  · simp
  · cases option.val with
    | none => simp
    | some bytes =>
      cases bytes with
      | nil => simp
      | cons c rest => exact if_pos room

theorem foldlM_storeOption {dbname : Option Bytes} {args : Arguments} {options : List PQconninfoOption}
    (room : args.entries.length + (options.filterMap (storedOption dbname)).length < args.size) :
    options.foldlM (storeOption dbname) args =
      .ok ⟨args.size, args.entries ++ options.filterMap (storedOption dbname)⟩ := by
  induction options generalizing args with
  | nil => simp [pure, Except.pure]
  | cons option options ih =>
    have front : args.entries.length < args.size := by omega
    rw [List.foldlM_cons, storeOption_eq front]
    have parts : (option :: options).filterMap (storedOption dbname) =
        (storedOption dbname option).toList ++ options.filterMap (storedOption dbname) := by
      rw [List.filterMap_cons]
      cases storedOption dbname option <;> rfl
    rw [parts, List.length_append, ← Nat.add_assoc] at room
    rw [parts, ← List.append_assoc]
    refine ih ?_
    rw [List.length_append]
    exact room

theorem length_storedOptions_le (dbname : Option Bytes) (options : List PQconninfoOption) :
    (options.filterMap (storedOption dbname)).length ≤ (options.filter PQconninfoOption.nonempty).length := by
  rw [List.length_filterMap_eq_countP, ← List.countP_eq_length_filter]
  refine List.countP_mono_left fun option _ stored => ?_
  obtain ⟨pair, same⟩ := Option.isSome_iff_exists.mp stored
  obtain ⟨-, val, nonempty, -⟩ := storedOption_eq_some_iff.mp same
  obtain ⟨c, rest, shape⟩ := List.exists_cons_of_ne_nil nonempty
  rw [PQconninfoOption.nonempty, val, shape]

/-- The pairs that end up in the arrays. -/
def mergedPairs (libpq : ConninfoKeywords) (parsed : ConninfoOptions) (dbname : Option Bytes) :
    List (Bytes × Bytes) :=
  (conninfoOptions libpq parsed).filterMap (storedOption dbname) ++
    dbname.toList.map fun dbname => (ascii "dbname", dbname)

section Merged

variable {parsed : ConninfoOptions} {dbname : Option Bytes}

theorem mem_storedOptions {pair : Bytes × Bytes} :
    pair ∈ (conninfoOptions libpq parsed).filterMap (storedOption dbname) ↔ pair.1 ∈ libpq.keywords ∧
      parsed pair.1 = some pair.2 ∧ pair.2 ≠ [] ∧ ¬ (dbname.isSome ∧ pair.1 = ascii "dbname") := by
  rw [List.mem_filterMap]
  constructor
  · rintro ⟨option, inside, stored⟩
    obtain ⟨keyword, known, rfl⟩ := List.mem_map.mp inside
    obtain ⟨rfl, stored⟩ := storedOption_eq_some_iff.mp stored
    exact ⟨known, stored⟩
  · rintro ⟨known, stored⟩
    exact ⟨⟨pair.1, parsed pair.1⟩, List.mem_map_of_mem known, storedOption_eq_some_iff.mpr ⟨rfl, stored⟩⟩

variable (parsed dbname) in
/-- They are stored in the order of the keywords. -/
theorem storedOptions_sublist (keywords : List Bytes) :
    (((keywords.map fun keyword => (⟨keyword, parsed keyword⟩ : PQconninfoOption)).filterMap
      (storedOption dbname)).map Prod.fst).Sublist keywords := by
  induction keywords with
  | nil => exact List.nil_sublist _
  | cons keyword keywords ih =>
    rw [List.map_cons, List.filterMap_cons]
    cases stored : storedOption dbname ⟨keyword, parsed keyword⟩ with
    | none => exact ih.cons keyword
    | some pair =>
      have same : keyword = pair.1 := (storedOption_eq_some_iff.mp stored).1
      rw [List.map_cons, ← same]
      exact ih.cons_cons keyword

theorem settable_mergedPairs (named : ∀ name ∈ dbname, name ≠ []) :
    Settable libpq (mergedPairs libpq parsed dbname) := by
  refine ⟨?_, ?_, ?_⟩
  · intro pair inside
    obtain stored | last := List.mem_append.mp inside
    · exact (mem_storedOptions.mp stored).1
    · obtain ⟨name, -, rfl⟩ := List.mem_map.mp last
      exact libpq.dbname
  · intro pair inside
    obtain stored | last := List.mem_append.mp inside
    · exact (mem_storedOptions.mp stored).2.2.1
    · obtain ⟨name, given, rfl⟩ := List.mem_map.mp last
      exact named name (Option.mem_toList.mp given)
  · have first := (storedOptions_sublist parsed dbname libpq.keywords).nodup libpq.nodup
    rw [mergedPairs, List.map_append]
    cases dbname with
    | none =>
      rw [Option.toList_none, List.map_nil, List.map_nil, List.append_nil]
      exact first
    | some name =>
      refine List.nodup_append.mpr ⟨first, List.nodup_singleton _, ?_⟩
      rintro keyword stored other last rfl
      obtain rfl := List.mem_singleton.mp last
      obtain ⟨pair, inside, same⟩ := List.mem_map.mp stored
      exact (mem_storedOptions.mp inside).2.2.2 ⟨rfl, same⟩

end Merged

/-- The arrays have room for what is stored, for the name of the database and for the end. -/
theorem getConnstr_of_connstr {given : Bytes} {parsed : ConninfoOptions} (dbname : Option Bytes)
    (form : isConnstr given = true) (valid : pqconninfoParse libpq locale uriParse given = some parsed) :
    getConnstr libpq locale uriParse (some given) dbname =
      .ok ([blank].intercalate ((mergedPairs libpq parsed dbname).map connstrPair)) := by
  have few := length_storedOptions_le dbname (conninfoOptions libpq parsed)
  have merged : mergeOptions libpq locale uriParse (some given) dbname =
      .ok (⟨argcount (conninfoOptions libpq parsed) + 1,
        (conninfoOptions libpq parsed).filterMap (storedOption dbname)⟩, dbname) := by
    rw [mergeOptions, Option.filter_some, if_pos form]
    dsimp only
    rw [valid]
    dsimp only
    rw [foldlM_storeOption (by simp only [argcount, List.length_nil]; omega)]
    rfl
  rw [getConnstr, merged]
  cases dbname with
  | none =>
    have room : ((conninfoOptions libpq parsed).filterMap (storedOption none)).length <
        argcount (conninfoOptions libpq parsed) + 1 := by
      rw [argcount]
      omega
    change pqconninfoParamsToConnstr _ = _
    rw [pqconninfoParamsToConnstr, if_pos room, mergedPairs, Option.toList_none, List.map_nil, List.append_nil]
  | some name =>
    have room : ((conninfoOptions libpq parsed).filterMap (storedOption (some name))).length + 1 <
        argcount (conninfoOptions libpq parsed) + 1 := by
      rw [argcount]
      omega
    change (Arguments.store _ _ _ >>= pqconninfoParamsToConnstr) = _
    rw [Arguments.store, if_pos (Nat.lt_of_succ_lt room)]
    change pqconninfoParamsToConnstr _ = _
    rw [pqconninfoParamsToConnstr, if_pos (by rw [List.length_append]; exact room)]
    rfl

/-- Without a connection string there is at most the name of a database. -/
theorem getConnstr_of_name {connstr : Option Bytes} (dbname : Option Bytes) (form : connstr.filter isConnstr = none) :
    getConnstr libpq locale uriParse connstr dbname =
      .ok ([blank].intercalate
        (((dbname.or connstr).toList.map fun name => (ascii "dbname", name)).map connstrPair)) := by
  have merged : mergeOptions libpq locale uriParse connstr dbname =
      .ok (⟨argcount [] + 1, []⟩, dbname.or connstr) := by
    rw [mergeOptions, form]
    cases dbname <;> rfl
  rw [getConnstr, merged]
  cases dbname.or connstr <;> rfl

/-- A string that only counts as a connection string because it has nothing in it. -/
theorem pqconninfoParse_of_name {given : Bytes} {parsed : ConninfoOptions} (form : isConnstr given = false)
    (valid : pqconninfoParse libpq locale uriParse given = some parsed) (keyword : Bytes) :
    parsed keyword = none := by
  rw [isConnstr, Bool.or_eq_false_iff, List.contains_eq_mem, decide_eq_false_iff_not] at form
  rw [pqconninfoParse, form.1, if_neg Bool.false_ne_true, conninfoParse] at valid
  obtain ⟨pairs, scanned, stored⟩ := Option.bind_eq_some_iff.mp valid
  obtain rfl := scanPairs_of_not_mem form.2 scanned
  obtain rfl := Option.some.inj stored
  rfl

/-- An empty name is written without quotes and read at the end of the string. -/
theorem pqconninfoParse_empty_name : pqconninfoParse libpq locale uriParse (connstrPair (ascii "dbname", [])) =
    some (assign (fun _ => none) [(ascii "dbname", [])]) := by
  have text : connstrPair (ascii "dbname", []) = ascii "dbname" ++ equalsSign :: [] := rfl
  have scanned : scanPairs locale.isspace 8 (connstrPair (ascii "dbname", [])) = some [(ascii "dbname", [])] := rfl
  rw [pqconninfoParse, text, hasUriPrefix_keyword libpq libpq.dbname, if_neg Bool.false_ne_true, ← text,
    conninfoParse]
  have length : (connstrPair (ascii "dbname", [])).length + 1 = 8 := rfl
  rw [length, scanned]
  exact foldlM_conninfoStoreval (by simpa using libpq.dbname)

/-! ## Both ways -/

variable (libpq locale)

/-- Filled arrays become a string that sets what is in them. -/
def ReadsBack (args : Arguments) : Prop :=
  ∃ text options, pqconninfoParamsToConnstr args = .ok text ∧
    pqconninfoParse libpq locale uriParse text = some options ∧ SetsExactly options args.entries

/-- The new string names the database that is given and has the other options of the old one. -/
structure Keeps (connstr dbname : Option Bytes) (options : ConninfoOptions) : Prop where
  named : ∀ name ∈ dbname, options (ascii "dbname") = some name
  others : ∀ given ∈ connstr, ∀ parsed, pqconninfoParse libpq locale uriParse given = some parsed →
    ∀ keyword ∈ libpq.keywords, ∀ value, value ≠ [] → parsed keyword = some value →
      (dbname.isSome → keyword ≠ ascii "dbname") → options keyword = some value

def KeepsOptions (connstr dbname : Option Bytes) : Prop :=
  ∃ text options, getConnstr libpq locale uriParse connstr dbname = .ok text ∧
    pqconninfoParse libpq locale uriParse text = some options ∧ Keeps libpq locale uriParse connstr dbname options

variable {libpq locale}

theorem keepsOptions_of_connstr {given : Bytes} {parsed : ConninfoOptions} {dbname : Option Bytes}
    (named : ∀ name ∈ dbname, name ≠ []) (form : isConnstr given = true)
    (valid : pqconninfoParse libpq locale uriParse given = some parsed) :
    KeepsOptions libpq locale uriParse (some given) dbname := by
  have settable : Settable libpq (mergedPairs libpq parsed dbname) := settable_mergedPairs named
  have sets := setsExactly_assign settable.distinct
  refine ⟨_, _, getConnstr_of_connstr uriParse dbname form valid,
    pqconninfoParse_connstrPairs uriParse settable.known settable.nonempty, ⟨?_, ?_⟩⟩
  · rintro name inside
    obtain rfl := Option.mem_def.mp inside
    exact sets.each (ascii "dbname", name) (List.mem_append_right _ (List.mem_singleton_self _))
  · rintro _ ⟨⟩ other read keyword known value nonempty set later
    obtain rfl := Option.some.inj (valid.symm.trans read)
    refine sets.each (keyword, value) (List.mem_append_left _ (mem_storedOptions.mpr ⟨known, set, nonempty, ?_⟩))
    exact fun replaced => later replaced.1 replaced.2

/-- An empty name can only stand in for an empty connection string. -/
theorem pqconninfoParse_name (name : Bytes) :
    pqconninfoParse libpq locale uriParse ([blank].intercalate ([(ascii "dbname", name)].map connstrPair)) =
      some (assign (fun _ => none) [(ascii "dbname", name)]) := by
  by_cases empty : name = []
  · subst empty
    rw [List.map_singleton, List.intercalate_singleton]
    exact pqconninfoParse_empty_name uriParse
  · refine pqconninfoParse_connstrPairs uriParse ?_ ?_
    · simpa using libpq.dbname
    · simpa using empty

theorem keepsOptions_of_name {connstr dbname : Option Bytes} (form : connstr.filter isConnstr = none) :
    KeepsOptions libpq locale uriParse connstr dbname := by
  have written : getConnstr libpq locale uriParse connstr dbname = _ := getConnstr_of_name uriParse dbname form
  have read : pqconninfoParse libpq locale uriParse
      ([blank].intercalate (((dbname.or connstr).toList.map fun name => (ascii "dbname", name)).map connstrPair)) =
        some (assign (fun _ => none) ((dbname.or connstr).toList.map fun name => (ascii "dbname", name))) := by
    cases dbname.or connstr with
    | none => exact pqconninfoParse_connstrPairs uriParse (by simp) (by simp)
    | some name => exact pqconninfoParse_name uriParse name
  refine ⟨_, _, written, read, ⟨?_, ?_⟩⟩
  · rintro name ⟨⟩
    have distinct : ([(ascii "dbname", name)].map Prod.fst).Nodup := List.nodup_singleton _
    exact (setsExactly_assign distinct).each (ascii "dbname", name) (List.mem_singleton_self _)
  · intro given inside parsed valid keyword _ value _ set
    have unset : isConnstr given = false := by
      obtain rfl := Option.mem_def.mp inside
      simpa [Option.filter] using form
    rw [pqconninfoParse_of_name uriParse unset valid keyword] at set
    cases set

/-- What is written for a list of options sets exactly these options, and `get_connstr` stays inside its
arrays, sets the database that it is given and keeps every other option that is not empty. -/
theorem connstr_round_trip (libpq : ConninfoKeywords) (locale : Wire.Locale) (uriParse : Bytes → Option ConninfoOptions) :
    (∀ args : Arguments, Settable libpq args.entries → args.entries.length < args.size →
      ReadsBack libpq locale uriParse args) ∧
    ∀ connstr dbname, (∀ given ∈ connstr, (pqconninfoParse libpq locale uriParse given).isSome) →
      (∀ name ∈ dbname, name ≠ []) → KeepsOptions libpq locale uriParse connstr dbname := by
  constructor
  · intro args settable terminated
    exact ⟨_, _, if_pos terminated, pqconninfoParse_connstrPairs uriParse settable.known settable.nonempty,
      setsExactly_assign settable.distinct⟩
  · intro connstr dbname valid named
    cases form : connstr.filter isConnstr with
    | none => exact keepsOptions_of_name uriParse form
    | some given =>
      obtain ⟨rfl, accepted⟩ := Option.filter_eq_some_iff.mp form
      obtain ⟨parsed, read⟩ := Option.isSome_iff_exists.mp (valid given rfl)
      exact keepsOptions_of_connstr uriParse named accepted read

def sampleKeywords : ConninfoKeywords where
  keywords := ["service", "user", "password", "connect_timeout", "dbname", "host", "hostaddr", "port",
    "client_encoding", "options", "application_name", "fallback_application_name", "sslmode"].map ascii
  nodup := by decide
  lower := by
    intro keyword known
    have lower : keyword ≠ [] ∧ keyword.all isKeywordByte = true := by
      revert keyword
      decide
    exact ⟨lower.1, List.all_eq_true.mp lower.2⟩
  dbname := by decide
  noRequiressl := by decide

def sampleUri (text : Bytes) : Option ConninfoOptions :=
  if text = ascii "postgresql://localhost/db" then
    some (assign (fun _ => none) [(ascii "host", ascii "localhost"), (ascii "dbname", ascii "db")])
  else none

def sampleLocale : Wire.Locale := ⟨fun _ => false, id, List.length⟩

theorem connstr_round_trip_sample :
    ReadsBack sampleKeywords sampleLocale sampleUri
      ⟨5, [(ascii "user", ascii "o'neil"), (ascii "password", ascii "a \\=b"), (ascii "port", ascii "5432")]⟩ ∧
    KeepsOptions sampleKeywords sampleLocale sampleUri (some (ascii "host=h user='o\\'neil' dbname=db"))
      (some (ascii "other db")) ∧
    KeepsOptions sampleKeywords sampleLocale sampleUri (some (ascii "postgresql://localhost/db")) none :=
  ⟨(connstr_round_trip _ _ _).1 _ ⟨by decide, by decide, by decide⟩ (by decide),
    (connstr_round_trip _ _ _).2 _ _ (by rintro _ ⟨⟩; decide +kernel) (by rintro _ ⟨⟩; decide),
    (connstr_round_trip _ _ _).2 _ _ (by rintro _ ⟨⟩; decide +kernel) (by rintro _ ⟨⟩)⟩

end PGLogical.Connstr
