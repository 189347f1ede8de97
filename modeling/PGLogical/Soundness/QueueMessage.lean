import PGLogical.Model.QueueMessage
import PGLogical.Machine.Fallible

/-! # Which queue messages are accepted

The loop over the iterator reads an object of strings whose keys are taken for names by their
beginning, so the key `""` names a schema and `"t"` a table. Names that are written out give the
exact format; the messages with other keys that get through are described, and are the only ones
on which the parsers and the format differ.
-/

namespace PGLogical.Queue

open Wire Machine

/-! ## Keys -/

/-- The name a key stands for: the first that it is the beginning of. -/
def standsFor (names : List CString) (key : CString) : Option CString :=
  names.find? fun name => key.val.isPrefixOf name.val

theorem strncmpEq_strlen (key name : CString) : strncmpEq key name key.strlen = key.val.isPrefixOf name.val := by
  have self : key.terminated.take key.strlen = key.val := by simp [CString.terminated, CString.strlen]
  rw [Bool.eq_iff_iff, List.isPrefixOf_iff_prefix, strncmpEq, beq_iff_eq, self, CString.terminated]
  constructor
  · intro same
    by_cases inside : key.strlen ≤ name.val.length
    · rw [List.take_append_of_le_length inside] at same
      exact List.prefix_iff_eq_take.mpr same
    · rw [List.take_of_length_le (by simp; omega)] at same
      have ends : (0 : UInt8) ∈ key.val := by simp [same]
      exact absurd ends key.property
  · intro front
    rw [List.take_append_of_le_length (by simpa [CString.strlen] using front.length_le)]
    exact List.prefix_iff_eq_take.mp front

theorem selects_eq (names : List CString) (key : CString) : selects names key = standsFor names key := by
  simp only [selects, standsFor, strncmpEq_strlen]

/-! ## The loop -/

/-- The pairs of an object of strings. -/
def strings (fields : List (CString × CString)) : List (CString × JsonbValue) :=
  fields.map fun field => (field.1, .scalar (.string field.2))

/-- What an object says about a name: the text of the last key that stands for it. -/
def given (names : List CString) : List (CString × CString) → CString → Option CString
  | [], _ => none
  | (key, text) :: rest, name =>
      (given names rest name).or (if standsFor names key = some name then some text else none)

def Known (names : List CString) (fields : List (CString × CString)) : Prop :=
  ∀ field ∈ fields, (standsFor names field.1).isSome

variable {names : List CString} {state last : ParseState}

/-- A key with its text has been read. -/
def ParseState.read (state : ParseState) (key name text : CString) : ParseState where
  level := state.level
  key := some key
  parseRes := some name
  results other := if some name = some other then some text else state.results other

theorem parseToken_key (outer : state.level = 1) {key name : CString} (stands : standsFor names key = some name) :
    parseToken names state (.key key) = .ok { state with parseRes := some name, key := some key } := by
  simp [parseToken, parseField, outer, selects_eq, stands]

theorem parseToken_endObject (outer : state.level = 1) : parseToken names state .endObject = .ok state.leave := by
  simp [parseToken, parseField, outer]

theorem foldlM_field (outer : state.level = 1) {key name : CString} (stands : standsFor names key = some name)
    (text : CString) (tokens : List JsonbIteratorToken) :
    (.key key :: .value (.string text) :: tokens).foldlM (parseToken names) state =
      tokens.foldlM (parseToken names) (state.read key name text) := by
  have value : parseToken names { state with parseRes := some name, key := some key } (.value (.string text)) =
      .ok (state.read key name text) := by
    simp [parseToken, parseField, outer, ParseState.read]
  rw [List.foldlM_cons, parseToken_key outer stands]
  exact congrArg (· >>= fun state => tokens.foldlM (parseToken names) state) value

/-- Known keys with strings are read to the end, the last text of each name winning. -/
theorem foldlM_strings {fields : List (CString × CString)} (known : Known names fields) (outer : state.level = 1) :
    ∃ last, (pairsTokens (strings fields)).foldlM (parseToken names) state = .ok last ∧ last.level = 1 ∧
      last.results = fun name => (given names fields name).or (state.results name) := by
  induction fields generalizing state with
  | nil => exact ⟨state, rfl, outer, rfl⟩
  | cons field fields ih =>
    obtain ⟨key, text⟩ := field
    obtain ⟨here, known⟩ := List.forall_mem_cons.mp known
    obtain ⟨name, stands⟩ := Option.isSome_iff_exists.mp here
    have behind : (state.read key name text).level = 1 := outer
    obtain ⟨last, done, level, results⟩ := ih known behind
    refine ⟨last, ?_, level, ?_⟩
    · rw [strings, List.map_cons, pairsTokens, valueTokens, List.cons_append, List.singleton_append,
        foldlM_field outer stands]
      exact done
    · rw [results]
      funext other
      rw [given, stands, Option.or_assoc, ParseState.read]
      by_cases same : some name = some other <;> simp [same]

/-- Nothing else gets through. -/
theorem strings_of_foldlM {pairs : List (CString × JsonbValue)} (outer : state.level = 1)
    (done : (pairsTokens pairs).foldlM (parseToken names) state = .ok last) :
    ∃ fields, pairs = strings fields ∧ Known names fields := by
  induction pairs generalizing state with
  | nil => exact ⟨[], rfl, List.forall_mem_nil _⟩
  | cons pair pairs ih =>
    obtain ⟨key, value⟩ := pair
    rw [pairsTokens, List.cons_append] at done
    cases stands : standsFor names key with
    | none =>
      rw [List.foldlM_cons] at done
      obtain ⟨behind, read, done⟩ := bind_eq_ok.1 done
      simp [parseToken, parseField, outer, selects_eq, stands] at read
    | some name =>
      cases value with
      | scalar v =>
        cases v with
        | string text =>
          rw [valueTokens, List.singleton_append, foldlM_field outer stands] at done
          have behind : (state.read key name text).level = 1 := outer
          obtain ⟨fields, rfl, known⟩ := ih behind done
          exact ⟨(key, text) :: fields, rfl, List.forall_mem_cons.mpr ⟨by simp [stands], known⟩⟩
        | null | numeric | bool =>
          rw [List.foldlM_cons, parseToken_key outer stands] at done
          simp [valueTokens, parseToken, parseField, outer, bind, Except.bind] at done
      | array elems | object pairs =>
        rw [List.foldlM_cons, parseToken_key outer stands] at done
        simp [valueTokens, parseToken, parseField, unexpectedContent, outer, bind, Except.bind] at done

theorem parseMessage_eq_ok_iff {message : Jsonb} {results : CString → Option CString} :
    parseMessage names message = .ok results ↔
      ∃ fields, message.root = .object (strings fields) ∧ Known names fields ∧ results = given names fields := by
  cases object : message.root with
  | scalar v => simp [parseMessage, Jsonb.rootIsObject, object, bind, Except.bind, throw, throwThe, MonadExceptOf.throw]
  | array elems =>
    simp [parseMessage, Jsonb.rootIsObject, object, bind, Except.bind, throw, throwThe, MonadExceptOf.throw]
  | object pairs =>
    have tokens : message.tokens = JsonbIteratorToken.beginObject :: (pairsTokens pairs ++ [.endObject]) := by
      rw [Jsonb.tokens, object]
      rfl
    have parsed : parseMessage names message =
        ((pairsTokens pairs ++ [JsonbIteratorToken.endObject]).foldlM (parseToken names) ⟨1, none, none, fun _ => none⟩ >>=
          fun state => .ok state.results) := by
      rw [parseMessage, Jsonb.rootIsObject, object, tokens, List.foldlM_cons]
      rfl
    rw [parsed, bind_eq_ok]
    constructor
    · rintro ⟨closed, done, same⟩
      cases same
      rw [List.foldlM_append] at done
      obtain ⟨last, done, closing⟩ := bind_eq_ok.1 done
      obtain ⟨fields, rfl, known⟩ := strings_of_foldlM rfl done
      obtain ⟨other, again, level, results⟩ := foldlM_strings known (rfl : (⟨1, none, none, fun _ => none⟩ :
        ParseState).level = 1)
      rw [done] at again
      cases again
      rw [List.foldlM_cons, parseToken_endObject level] at closing
      cases closing
      exact ⟨fields, rfl, known, by simp [ParseState.leave, results]⟩
    · rintro ⟨fields, same, known, rfl⟩
      cases same
      obtain ⟨last, done, level, results⟩ := foldlM_strings known (rfl : (⟨1, none, none, fun _ => none⟩ :
        ParseState).level = 1)
      refine ⟨last.leave, ?_, by simp [ParseState.leave, results]⟩
      have closed : [JsonbIteratorToken.endObject].foldlM (parseToken names) last = .ok last.leave :=
        bind_eq_ok.2 ⟨_, parseToken_endObject level, rfl⟩
      rw [List.foldlM_append, done]
      exact closed

/-! ## The format -/

/-- An object of exactly these strings, in any order. -/
def Jsonb.Holds (message : Jsonb) (expected : List (CString × CString)) : Prop :=
  ∃ fields, message.root = .object (strings fields) ∧ fields.Perm expected

def RelationMessage (message : Jsonb) (nspname relname : CString) : Prop :=
  message.Holds [(schemaName, nspname), (tableName, relname)]

def SequenceMessage (locale : Wire.Locale) (message : Jsonb) (nspname relname : CString) (value : Int64) : Prop :=
  ∃ text, message.Holds [(schemaName, nspname), (sequenceName, relname), (lastValue, text)] ∧
    Denotes locale text.val value.toInt

/-- Names that are not the beginning of one another. -/
def Separate (names : List CString) : Prop := ∀ name ∈ names, standsFor names name = some name

theorem Jsonb.distinct_strings {message : Jsonb} {fields : List (CString × CString)}
    (object : message.root = .object (strings fields)) : (fields.map Prod.fst).Nodup := by
  have distinct := message.distinct _ object
  rwa [strings, List.map_map] at distinct

theorem exists_of_given {fields : List (CString × CString)} {name text : CString}
    (told : given names fields name = some text) : ∃ key, (key, text) ∈ fields ∧ standsFor names key = some name := by
  induction fields with
  | nil => cases told
  | cons field fields ih =>
    obtain ⟨key, other⟩ := field
    rw [given, Option.or_eq_some_iff] at told
    obtain later | ⟨-, here⟩ := told
    · obtain ⟨key, inside, stands⟩ := ih later
      exact ⟨key, List.mem_cons_of_mem _ inside, stands⟩
    · split at here
      next stands =>
        cases here
        exact ⟨key, List.mem_cons_self, stands⟩
      next => cases here

/-- A key that stands for a name makes it given. -/
theorem given_of_standsFor {fields : List (CString × CString)} {key name text : CString}
    (inside : (key, text) ∈ fields) (stands : standsFor names key = some name) :
    ∃ text, given names fields name = some text := by
  induction fields with
  | nil => cases inside
  | cons field fields ih =>
    rw [given]
    obtain rfl | later := List.mem_cons.mp inside
    · cases given names fields name <;> simp [stands]
    · obtain ⟨text, told⟩ := ih later
      exact ⟨text, by rw [told, Option.some_or]⟩

section WrittenOut

variable {fields : List (CString × CString)} {name text : CString} (separate : Separate names)
  (written : ∀ field ∈ fields, field.1 ∈ names)

include separate written

theorem mem_of_given (told : given names fields name = some text) : (name, text) ∈ fields := by
  obtain ⟨key, inside, stands⟩ := exists_of_given told
  have self := separate key (written _ inside)
  cases stands.symm.trans self
  exact inside

/-- With names that are written out, each name has the text of its own key. -/
theorem given_iff_mem (distinct : (fields.map Prod.fst).Nodup) :
    given names fields name = some text ↔ (name, text) ∈ fields := by
  refine ⟨mem_of_given separate written, fun inside => ?_⟩
  obtain ⟨other, told⟩ := given_of_standsFor inside (separate name (written _ inside))
  have same := mem_of_given separate written told
  cases List.inj_on_of_nodup_map distinct inside same rfl
  exact told

end WrittenOut

/-- The format is what is read when all keys are written out. -/
theorem holds_iff {message : Jsonb} {expected : List (CString × CString)} (separate : Separate (expected.map Prod.fst))
    (distinct : (expected.map Prod.fst).Nodup) :
    message.Holds expected ↔ ∃ fields, message.root = .object (strings fields) ∧
      (∀ field ∈ fields, field.1 ∈ expected.map Prod.fst) ∧
      ∀ field ∈ expected, given (expected.map Prod.fst) fields field.1 = some field.2 := by
  constructor
  · rintro ⟨fields, object, same⟩
    have written : ∀ field ∈ fields, field.1 ∈ expected.map Prod.fst := fun field inside =>
      List.mem_map_of_mem (same.mem_iff.mp inside)
    refine ⟨fields, object, written, fun field inside => ?_⟩
    exact (given_iff_mem separate written (message.distinct_strings object)).mpr (same.mem_iff.mpr inside)
  · rintro ⟨fields, object, written, told⟩
    have once := message.distinct_strings object
    refine ⟨fields, object, (List.perm_ext_iff_of_nodup (.of_map _ once) (.of_map _ distinct)).mpr fun field => ?_⟩
    obtain ⟨key, text⟩ := field
    constructor
    · intro inside
      obtain ⟨⟨name, other⟩, listed, rfl⟩ := List.mem_map.mp (written _ inside)
      have there := (given_iff_mem separate written once).mp (told _ listed)
      cases List.inj_on_of_nodup_map once inside there rfl
      exact listed
    · exact fun inside => (given_iff_mem separate written once).mp (told _ inside)

/-- Keys that are read although some are only the beginning of a name. -/
structure Abbreviated (names : List CString) (fields : List (CString × CString)) : Prop where
  known : Known names fields
  every : ∀ name ∈ names, ∃ field ∈ fields, standsFor names field.1 = some name
  shortened : ∃ field ∈ fields, field.1 ∉ names

theorem strings_injective : Function.Injective strings := by
  refine List.map_injective_iff.mpr fun field other same => ?_
  obtain ⟨key, text⟩ := field
  cases same
  rfl

/-- What is read has the format unless keys are abbreviated. -/
theorem holds_iff_read {message : Jsonb} {expected : List (CString × CString)}
    (separate : Separate (expected.map Prod.fst)) (distinct : (expected.map Prod.fst).Nodup) :
    message.Holds expected ↔
      (∃ fields, message.root = .object (strings fields) ∧ Known (expected.map Prod.fst) fields ∧
        ∀ field ∈ expected, given (expected.map Prod.fst) fields field.1 = some field.2) ∧
      ¬ ∃ fields, message.root = .object (strings fields) ∧ Abbreviated (expected.map Prod.fst) fields := by
  rw [holds_iff separate distinct]
  constructor
  · rintro ⟨fields, object, written, told⟩
    refine ⟨⟨fields, object, fun field inside => ?_, told⟩, ?_⟩
    · simp [separate field.1 (written field inside)]
    · rintro ⟨others, again, abbreviated⟩
      obtain ⟨field, inside, short⟩ := abbreviated.shortened
      cases strings_injective (JsonbValue.object.inj (object.symm.trans again))
      exact short (written field inside)
  · rintro ⟨⟨fields, object, known, told⟩, full⟩
    refine ⟨fields, object, ?_, told⟩
    by_contra! shortened
    refine full ⟨fields, object, known, fun name listed => ?_, shortened⟩
    obtain ⟨field, inside, rfl⟩ := List.mem_map.mp listed
    obtain ⟨key, there, stands⟩ := exists_of_given (told field inside)
    exact ⟨_, there, stands⟩

/-! ## The two parsers -/

theorem required_eq_ok_iff {results : CString → Option CString} {name value : CString} {message : String} :
    required results name message = .ok value ↔ results name = some value := by
  unfold required
  cases results name <;> simp

theorem parseRelationMessage_eq_ok_iff {message : Jsonb} {nspname relname : CString} :
    parseRelationMessage message = .ok (nspname, relname) ↔
      ∃ fields, message.root = .object (strings fields) ∧ Known [schemaName, tableName] fields ∧
        given [schemaName, tableName] fields schemaName = some nspname ∧
        given [schemaName, tableName] fields tableName = some relname := by
  simp only [parseRelationMessage, bind_eq_ok, parseMessage_eq_ok_iff, required_eq_ok_iff]
  constructor
  · rintro ⟨results, ⟨fields, object, known, rfl⟩, schema, first, table, second, same⟩
    cases same
    exact ⟨fields, object, known, first, second⟩
  · rintro ⟨fields, object, known, first, second⟩
    exact ⟨_, ⟨fields, object, known, rfl⟩, _, first, _, second, rfl⟩

theorem parseSequenceMessage_eq_ok_iff {message : Jsonb} {nspname relname text : CString} :
    parseSequenceMessage message = .ok (nspname, relname, text) ↔
      ∃ fields, message.root = .object (strings fields) ∧ Known [schemaName, sequenceName, lastValue] fields ∧
        given [schemaName, sequenceName, lastValue] fields schemaName = some nspname ∧
        given [schemaName, sequenceName, lastValue] fields sequenceName = some relname ∧
        given [schemaName, sequenceName, lastValue] fields lastValue = some text := by
  simp only [parseSequenceMessage, bind_eq_ok, parseMessage_eq_ok_iff, required_eq_ok_iff]
  constructor
  · rintro ⟨results, ⟨fields, object, known, rfl⟩, schema, first, sequence, second, last, third, same⟩
    cases same
    exact ⟨fields, object, known, first, second, third⟩
  · rintro ⟨fields, object, known, first, second, third⟩
    exact ⟨_, ⟨fields, object, known, rfl⟩, _, first, _, second, _, third, rfl⟩

def RelationAbbreviated (message : Jsonb) : Prop :=
  ∃ fields, message.root = .object (strings fields) ∧ Abbreviated [schemaName, tableName] fields

/-- The value is the one given by the last key for it. -/
def SequenceAbbreviated (locale : Wire.Locale) (message : Jsonb) : Prop :=
  ∃ fields, message.root = .object (strings fields) ∧ Abbreviated [schemaName, sequenceName, lastValue] fields ∧
    ∃ text, given [schemaName, sequenceName, lastValue] fields lastValue = some text ∧
      ∃ value : Int64, Denotes locale text.val value.toInt

theorem separate_relation : Separate [schemaName, tableName] := by
  unfold Separate
  decide

theorem separate_sequence : Separate [schemaName, sequenceName, lastValue] := by
  unfold Separate
  decide

theorem relationMessage_iff {message : Jsonb} {nspname relname : CString} :
    RelationMessage message nspname relname ↔
      parseRelationMessage message = .ok (nspname, relname) ∧ ¬ RelationAbbreviated message := by
  have names : [(schemaName, nspname), (tableName, relname)].map Prod.fst = [schemaName, tableName] := rfl
  rw [RelationMessage, holds_iff_read (names ▸ separate_relation) (names ▸ by decide),
    parseRelationMessage_eq_ok_iff, names]
  simp [RelationAbbreviated]

/-- The parser of `handle_sequence`, with the text of the value. -/
theorem holds_sequence_iff {message : Jsonb} {nspname relname text : CString} :
    message.Holds [(schemaName, nspname), (sequenceName, relname), (lastValue, text)] ↔
      parseSequenceMessage message = .ok (nspname, relname, text) ∧ ¬ ∃ fields,
        message.root = .object (strings fields) ∧ Abbreviated [schemaName, sequenceName, lastValue] fields := by
  have names : [(schemaName, nspname), (sequenceName, relname), (lastValue, text)].map Prod.fst =
      [schemaName, sequenceName, lastValue] := rfl
  rw [holds_iff_read (names ▸ separate_sequence) (names ▸ by decide), parseSequenceMessage_eq_ok_iff, names]
  simp

/-- The same with the value that the text denotes. -/
theorem sequenceMessage_iff {locale : Wire.Locale} {message : Jsonb} {nspname relname : CString} {value : Int64} :
    SequenceMessage locale message nspname relname value ↔
      (∃ text, parseSequenceMessage message = .ok (nspname, relname, text) ∧ scanint8 locale text = .ok value) ∧
        ¬ SequenceAbbreviated locale message := by
  constructor
  · rintro ⟨text, holds, denotes⟩
    obtain ⟨parsed, full⟩ := holds_sequence_iff.mp holds
    refine ⟨⟨text, parsed, scanint8_eq_ok_iff.mpr denotes⟩, ?_⟩
    rintro ⟨fields, object, abbreviated, -⟩
    exact full ⟨fields, object, abbreviated⟩
  · rintro ⟨⟨text, parsed, read⟩, full⟩
    have denotes := scanint8_eq_ok_iff.mp read
    refine ⟨text, holds_sequence_iff.mpr ⟨parsed, ?_⟩, denotes⟩
    rintro ⟨fields, object, abbreviated⟩
    obtain ⟨others, again, -, -, -, told⟩ := parseSequenceMessage_eq_ok_iff.mp parsed
    cases strings_injective (JsonbValue.object.inj (object.symm.trans again))
    exact full ⟨fields, object, abbreviated, text, told, value, denotes⟩

/-! ## The handlers -/

/-- An error, with nothing done. -/
def Refused (m : ApplyM Unit) : Prop := ∀ effects, ∃ message, m effects = .error message effects

theorem refused_bind {α : Type} {m : Except String α} {k : α → ApplyM Unit}
    (behind : ∀ value, m = .ok value → Refused (k value)) : Refused (ofExcept m >>= k) := by
  intro effects
  cases m with
  | error message => exact ⟨message, rfl⟩
  | ok value => exact behind value rfl effects

variable (here : Subscriber)

/-- Messages about tables are read exactly in their format, and others have no effect. -/
structure RelationExact (message : Jsonb) : Prop where
  parses : ∀ nspname relname, parseRelationMessage message = .ok (nspname, relname) ↔
    RelationMessage message nspname relname
  refuses : (∀ nspname relname, ¬ RelationMessage message nspname relname) → ∀ queuedMessage : QueuedMessage,
    queuedMessage.message = message → Refused (handleTruncate here queuedMessage) ∧
      Refused (handleTableSync here queuedMessage)

/-- Likewise for sequences, with the value. -/
structure SequenceExact (message : Jsonb) : Prop where
  parses : ∀ nspname relname value,
    (∃ text, parseSequenceMessage message = .ok (nspname, relname, text) ∧ scanint8 here.locale text = .ok value) ↔
      SequenceMessage here.locale message nspname relname value
  refuses : (∀ nspname relname value, ¬ SequenceMessage here.locale message nspname relname value) →
    ∀ queuedMessage : QueuedMessage, queuedMessage.message = message → Refused (handleSequence here queuedMessage)

/-- An abbreviated message is read as if its keys were written out. -/
theorem RelationAbbreviated.parses {message : Jsonb} (abbreviated : RelationAbbreviated message) :
    ∃ nspname relname, parseRelationMessage message = .ok (nspname, relname) := by
  obtain ⟨fields, object, known, every, -⟩ := abbreviated
  obtain ⟨⟨key, _⟩, inside, stands⟩ := every schemaName (by simp)
  obtain ⟨⟨other, _⟩, there, means⟩ := every tableName (by simp)
  obtain ⟨nspname, schema⟩ := given_of_standsFor inside stands
  obtain ⟨relname, table⟩ := given_of_standsFor there means
  exact ⟨nspname, relname, parseRelationMessage_eq_ok_iff.mpr ⟨fields, object, known, schema, table⟩⟩

theorem SequenceAbbreviated.parses {locale : Wire.Locale} {message : Jsonb}
    (abbreviated : SequenceAbbreviated locale message) : ∃ nspname relname text value,
      parseSequenceMessage message = .ok (nspname, relname, text) ∧ scanint8 locale text = .ok value := by
  obtain ⟨fields, object, ⟨known, every, -⟩, text, told, value, denotes⟩ := abbreviated
  obtain ⟨⟨key, _⟩, inside, stands⟩ := every schemaName (by simp)
  obtain ⟨⟨other, _⟩, there, means⟩ := every sequenceName (by simp)
  obtain ⟨nspname, schema⟩ := given_of_standsFor inside stands
  obtain ⟨relname, sequence⟩ := given_of_standsFor there means
  exact ⟨nspname, relname, text, value,
    parseSequenceMessage_eq_ok_iff.mpr ⟨fields, object, known, schema, sequence, told⟩,
    scanint8_eq_ok_iff.mpr denotes⟩

theorem relationExact_iff (message : Jsonb) : RelationExact here message ↔ ¬ RelationAbbreviated message := by
  constructor
  · intro exact abbreviated
    obtain ⟨nspname, relname, parsed⟩ := abbreviated.parses
    exact (relationMessage_iff.mp ((exact.parses nspname relname).mp parsed)).2 abbreviated
  · intro full
    have parses : ∀ nspname relname, parseRelationMessage message = .ok (nspname, relname) ↔
        RelationMessage message nspname relname := fun nspname relname => by
      rw [relationMessage_iff, and_iff_left full]
    refine ⟨parses, fun foreign queuedMessage same => ?_⟩
    subst same
    exact ⟨refused_bind fun value parsed => absurd ((parses _ _).mp parsed) (foreign _ _),
      refused_bind fun value parsed => absurd ((parses _ _).mp parsed) (foreign _ _)⟩

theorem sequenceExact_iff (message : Jsonb) : SequenceExact here message ↔ ¬ SequenceAbbreviated here.locale message := by
  constructor
  · intro exact abbreviated
    obtain ⟨nspname, relname, text, value, parsed, denotes⟩ := abbreviated.parses
    exact (sequenceMessage_iff.mp ((exact.parses nspname relname value).mp ⟨text, parsed, denotes⟩)).2 abbreviated
  · intro full
    have parses : ∀ nspname relname value,
        (∃ text, parseSequenceMessage message = .ok (nspname, relname, text) ∧ scanint8 here.locale text = .ok value) ↔
          SequenceMessage here.locale message nspname relname value := fun nspname relname value => by
      rw [sequenceMessage_iff, and_iff_left full]
    refine ⟨parses, fun foreign queuedMessage same => ?_⟩
    subst same
    refine refused_bind fun (nspname, relname, text) parsed => refused_bind fun nspoid _ => ?_
    exact refused_bind fun value denotes => absurd ((parses _ _ value).mp ⟨text, parsed, denotes⟩) (foreign _ _ _)

/-- **Both parsers accept exactly their format unless keys are abbreviated**, and there they never do. -/
theorem messages_exact_iff (message : Jsonb) :
    (RelationExact here message ↔ ¬ RelationAbbreviated message) ∧
      (SequenceExact here message ↔ ¬ SequenceAbbreviated here.locale message) :=
  ⟨relationExact_iff here message, sequenceExact_iff here message⟩

/-- The fields of `{"s": "public", "t": "accounts"}`. -/
def shortFields : List (CString × CString) :=
  [(.ofString "s", .ofString "public"), (.ofString "t", .ofString "accounts")]

theorem shortFields_distinct (pairs : List (CString × JsonbValue))
    (object : JsonbValue.object (strings shortFields) = .object pairs) : (pairs.map Prod.fst).Nodup := by
  cases object
  rw [strings, List.map_map]
  decide

def shortKeys : Jsonb := ⟨.object (strings shortFields), shortFields_distinct⟩

/-- One letter is enough for each of the names. -/
theorem messages_exact_short_keys :
    parseRelationMessage shortKeys = .ok (.ofString "public", .ofString "accounts") ∧
      ¬ RelationMessage shortKeys (.ofString "public") (.ofString "accounts") := by
  constructor
  · have known : ∀ field ∈ shortFields, (standsFor [schemaName, tableName] field.1).isSome := by decide
    have schema : given [schemaName, tableName] shortFields schemaName = some (.ofString "public") := by
      decide
    have table : given [schemaName, tableName] shortFields tableName = some (.ofString "accounts") := by
      decide
    exact parseRelationMessage_eq_ok_iff.mpr ⟨shortFields, rfl, known, schema, table⟩
  · rintro ⟨fields, object, same⟩
    cases strings_injective (JsonbValue.object.inj object)
    have inside : (schemaName, CString.ofString "public") ∈ shortFields := same.mem_iff.mpr List.mem_cons_self
    revert inside
    decide

end PGLogical.Queue
