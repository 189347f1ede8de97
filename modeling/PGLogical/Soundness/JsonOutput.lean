import PGLogical.Soundness.Disclosure
import PGLogical.Wire.JsonValue

/-! # Messages of the JSON protocol are JSON

Every message is an object that says what it is. What the server's functions write is escaped, but the
names of the schema and the relation of a row are put between quotation marks as they are, so that they are
read back exactly if they have nothing in them that JSON escapes.
-/

namespace PGLogical.Json

open Wire Native

/-! ## What is assumed of the server -/

/-- `escape_json` writes the string that it is given, values become valid JSON, and a point in time has
nothing to escape. -/
structure JsonFunctions.Sound (functions : JsonFunctions) : Prop where
  escapeJson : ∀ s, parseJson (functions.escapeJson s) = some (.text s.val)
  datumToJson : ∀ typid datum value, functions.datumToJson typid datum = .ok value → (parseJson value).isSome
  timestamptzToStr : ∀ time, ∀ b ∈ (functions.timestamptzToStr time).val, isUnescaped b = true

/-! ## Messages -/

inductive JsonMessage where
  | begin (clientNoTxinfo : Bool) (txn : ReorderBufferTXN)
  | commit (clientNoTxinfo : Bool) (txn : ReorderBufferTXN) (commitLsn : UInt64)
  | row (rel : Relation) (change : RowChange rel.desc) (attList : Option Bitmapset)
  | startup (msg : List (CString × CString))

def JsonMessage.write (functions : JsonFunctions) (catalog : Catalog) : JsonMessage → Writer Unit
  | .begin clientNoTxinfo txn => pglogicalJsonWriteBegin functions clientNoTxinfo txn
  | .commit clientNoTxinfo txn commitLsn => pglogicalJsonWriteCommit clientNoTxinfo txn commitLsn
  | .row rel change attList => change.writeJson functions catalog rel attList
  | .startup msg => jsonWriteStartupMessage functions msg

def JsonMessage.action : JsonMessage → String
  | .begin _ _ => "B"
  | .commit _ _ _ => "C"
  | .row _ change _ => change.action
  | .startup _ => "S"

/-- What a reader is told besides the action. -/
def JsonMessage.Told (catalog : Catalog) (value : JsonValue) : JsonMessage → Prop
  | .begin _ _ => True
  | .commit _ _ _ => True
  | .row rel _ _ => ∃ nspname, catalog.getNamespaceName rel.relnamespace = some nspname ∧
      value.field (text "relation") = some (.array [.text nspname.str.val, .text rel.relname.str.val])
  | .startup msg => value.field (text "params") =
      some (.object (msg.map fun param => (param.1.val.map .byte, .text param.2.val)))

/-- The text is an object that gives back the action, the names and the parameters. -/
def JsonMessage.Faithful (catalog : Catalog) (message : JsonMessage) (message_text : Bytes) : Prop :=
  ∃ value, parseJson message_text = some value ∧ value.field (text "action") = some (.text (text message.action)) ∧
    message.Told catalog value

/-- The schema of a row is there, and neither name has a byte that JSON escapes. -/
def JsonMessage.PlainNames (catalog : Catalog) : JsonMessage → Prop
  | .row rel _ _ => ∃ nspname, catalog.getNamespaceName rel.relnamespace = some nspname ∧
      (∀ b ∈ nspname.str.val, isUnescaped b = true) ∧ ∀ b ∈ rel.relname.str.val, isUnescaped b = true
  | _ => True

/-! ## What the writers append -/

/-- If the writer succeeds, it has appended `data`. -/
def Puts (w : Writer Unit) (data : Bytes) : Prop := ∀ ⦃out after : Bytes⦄, w out = .ok ((), after) → after = out ++ data

theorem Puts.pure : Puts (Pure.pure ()) [] := by
  intro out after written
  cases written
  exact (List.append_nil _).symm

theorem Puts.binary (data : Bytes) : Puts (appendBinaryStringInfo data) data := by
  intro out after written
  exact (appendBinaryStringInfo_ok.1 written).2

theorem Puts.bind {w w' : Writer Unit} {data data' : Bytes} (first : Puts w data) (second : Puts w' data') :
    Puts (w >>= fun _ => w') (data ++ data') := by
  intro out after written
  obtain ⟨_, middle, one, two⟩ := bind_ok.1 written
  rw [second two, first one, List.append_assoc]

theorem Puts.ite {c : Prop} [Decidable c] {w w' : Writer Unit} {data data' : Bytes} (yes : c → Puts w data)
    (no : ¬ c → Puts w' data') : Puts (if c then w else w') (if c then data else data') := by
  by_cases holds : c
  · rw [if_pos holds, if_pos holds]
    exact yes holds
  · rw [if_neg holds, if_neg holds]
    exact no holds

theorem text_append (a b : String) : text (a ++ b) = text a ++ text b := by
  rw [text, String.toList_append, List.map_append]
  rfl

/-! ## Numbers -/

/-- Nothing that JSON escapes is in the text. -/
def Plain (data : Bytes) : Prop := ∀ b ∈ data, isUnescaped b = true

instance (data : Bytes) : Decidable (Plain data) := decidable_of_iff (data.all isUnescaped = true) List.all_eq_true

theorem Plain.append {data data' : Bytes} (first : Plain data) (second : Plain data') : Plain (data ++ data') := by
  intro b inside
  exact (List.mem_append.mp inside).elim (first b) (second b)

theorem exists_digitChar {base : ℕ} (digits : 1 < base) {n : ℕ} {c : Char} (inside : c ∈ Nat.toDigits base n) :
    ∃ digit < base, c = digit.digitChar := by
  induction n using Nat.strong_induction_on with
  | _ n ih =>
    rw [Nat.toDigits_eq_if digits] at inside
    split at inside
    next small => exact ⟨n, small, List.mem_singleton.mp inside⟩
    next large =>
      obtain front | last := List.mem_append.mp inside
      · exact ih (n / base) (Nat.div_lt_self (by omega) digits) front
      · exact ⟨n % base, Nat.mod_lt n (by omega), List.mem_singleton.mp last⟩

theorem plain_decimal (n : ℕ) : Plain (text (decimal n)) := by
  intro b inside
  rw [text, decimal, String.toList_ofList] at inside
  obtain ⟨c, digit, rfl⟩ := List.mem_map.mp inside
  obtain ⟨value, small, rfl⟩ := exists_digitChar (by decide) digit
  interval_cases value <;> decide

theorem plain_hex (n : ℕ) : Plain (text (hex n)) := by
  intro b inside
  rw [text, hex, String.toList_ofList, List.map_map] at inside
  obtain ⟨c, digit, rfl⟩ := List.mem_map.mp inside
  obtain ⟨value, small, rfl⟩ := exists_digitChar (by decide) digit
  interval_cases value <;> decide

theorem plain_lsnText (lsn : UInt64) : Plain (text (lsnText lsn)) := by
  rw [lsnText, text_append, text_append]
  exact ((plain_hex _).append (by decide)).append (plain_hex _)

/-! ## Objects of strings -/

/-- A member whose value is a string. -/
def stringMember (key : String) (value : Bytes) : Bytes :=
  quotationMark :: text key ++ [quotationMark] ++ colon :: (quotationMark :: value ++ [quotationMark])

theorem memberText_stringMember {key : String} {value : Bytes} (plain_key : Plain (text key)) (plain : Plain value) :
    MemberText (stringMember key value) ((text key).map .byte, .text value) :=
  ⟨⟨_, _, rfl, parseJson_text plain_key, parseJson_text plain⟩⟩

theorem intercalate_cons (chunk : Bytes) (chunks : List Bytes) :
    [comma].intercalate (chunk :: chunks) = chunk ++ chunks.flatMap (comma :: ·) := by
  induction chunks generalizing chunk with
  | nil => rw [List.intercalate_singleton, List.flatMap_nil, List.append_nil]
  | cons next chunks ih =>
    rw [List.intercalate_cons_cons, ih, List.flatMap_cons, List.append_assoc]
    rfl

/-- The fields of BEGIN and COMMIT behind the action. -/
def fieldsText (fields : List (String × Bytes)) : Bytes :=
  fields.flatMap fun field => comma :: 32 :: stringMember field.1 field.2

/-- The names of the fields. -/
def fieldNames : List String :=
  ["has_catalog_changes", "origin_id", "xid", "first_lsn", "origin_lsn", "commit_time", "final_lsn", "end_lsn"]

structure PlainField (field : String × Bytes) : Prop where
  named : field.1 ∈ fieldNames
  plain : Plain field.2

theorem plainField {name : String} {value : Bytes} (named : name ∈ fieldNames) (plain : Plain value) :
    PlainField (name, value) := ⟨named, plain⟩

theorem plain_fieldName {name : String} (inside : name ∈ fieldNames) :
    Plain (text name) ∧ (text name).map JsonUnit.byte ≠ (text "action").map JsonUnit.byte := by
  revert name
  unfold fieldNames
  decide +kernel

theorem parseJson_fields {action : String} (letter : Plain (text action)) {fields : List (String × Bytes)}
    (plain : ∀ field ∈ fields, PlainField field) :
    ∃ value, parseJson (leftBrace :: (stringMember "action" (text action) ++ fieldsText fields ++ [rightBrace])) =
      some value ∧ value.field (text "action") = some (.text (text action)) := by
  have action_key : Plain (text "action") := by decide
  have written : ∀ member ∈ (stringMember "action" (text action), ((text "action").map JsonUnit.byte,
      JsonValue.text (text action))) :: fields.map fun field => (32 :: stringMember field.1 field.2,
        ((text field.1).map JsonUnit.byte, JsonValue.text field.2)), MemberText member.1 member.2 := by
    rw [List.forall_mem_cons]
    refine ⟨memberText_stringMember action_key letter, ?_⟩
    intro member inside
    obtain ⟨field, listed, rfl⟩ := List.mem_map.mp inside
    exact (memberText_stringMember (plain_fieldName (plain field listed).named).1 (plain field listed).plain).space
  have parsed := parseJson_object _ written
  rw [List.map_cons, List.map_map, intercalate_cons, List.flatMap_map, List.map_cons, List.map_map] at parsed
  refine ⟨_, parsed, field_cons fun member inside => ?_⟩
  obtain ⟨field, listed, rfl⟩ := List.mem_map.mp inside
  exact (plain_fieldName (plain field listed).named).2

/-! ## BEGIN and COMMIT -/

variable (functions : JsonFunctions) (clientNoTxinfo : Bool) (txn : ReorderBufferTXN)

def originFields : List (String × Bytes) :=
  if txn.originId ≠ invalidRepOriginId then [("origin_id", text (decimal txn.originId.toNat))] else []

def commitTimeFields : List (String × Bytes) :=
  if txn.commitTime ≠ 0 then [("commit_time", (functions.timestamptzToStr txn.commitTime).val)] else []

def beginTxinfoFields : List (String × Bytes) :=
  if clientNoTxinfo then [] else
    ("xid", text (decimal txn.xid.toNat)) :: ("first_lsn", text (lsnText txn.firstLsn)) ::
      ("origin_lsn", text (lsnText txn.originLsn)) :: commitTimeFields functions txn

def beginFields : List (String × Bytes) :=
  ("has_catalog_changes", text (if txn.hasCatalogChanges then "t" else "f")) ::
    (originFields txn ++ beginTxinfoFields functions clientNoTxinfo txn)

def commitFields : List (String × Bytes) :=
  if clientNoTxinfo then [] else
    [("final_lsn", text (lsnText txn.finalLsn)), ("end_lsn", text (lsnText txn.endLsn))]

theorem fieldsText_append (fields others : List (String × Bytes)) :
    fieldsText (fields ++ others) = fieldsText fields ++ fieldsText others := List.flatMap_append

/-- A field, as it is formatted. -/
theorem text_field {opening key : String}
    (same : text opening = comma :: 32 :: (quotationMark :: text key ++ [quotationMark, colon, quotationMark]))
    (value : Bytes) : text opening ++ value ++ text "\"" = fieldsText [(key, value)] := by
  have mark : text "\"" = [quotationMark] := by decide
  rw [same, mark, fieldsText, List.flatMap_singleton, stringMember]
  simp

theorem puts_field {opening key : String}
    (same : text opening = comma :: 32 :: (quotationMark :: text key ++ [quotationMark, colon, quotationMark]))
    (value : String) : Puts (appendStringInfoString (opening ++ value ++ "\"")) (fieldsText [(key, text value)]) := by
  rw [← text_field same, ← text_append, ← text_append]
  exact Puts.binary _

theorem puts_originId : Puts (jsonWriteOriginId txn) (fieldsText (originFields txn)) := by
  unfold jsonWriteOriginId originFields
  split
  · exact puts_field (by decide) _
  · exact Puts.pure

theorem puts_commitTime : Puts (jsonWriteCommitTime functions txn) (fieldsText (commitTimeFields functions txn)) := by
  unfold jsonWriteCommitTime commitTimeFields
  split
  · have opening : text ", \"commit_time\":\"" =
        comma :: 32 :: (quotationMark :: text "commit_time" ++ [quotationMark, colon, quotationMark]) := by decide
    rw [← text_field opening]
    exact Puts.binary _
  · exact Puts.pure

theorem fieldsText_cons (field : String × Bytes) (fields : List (String × Bytes)) :
    fieldsText (field :: fields) = fieldsText [field] ++ fieldsText fields := fieldsText_append [field] fields

theorem puts_beginTxinfo : Puts (jsonWriteBeginTxinfo functions clientNoTxinfo txn)
    (fieldsText (beginTxinfoFields functions clientNoTxinfo txn)) := by
  have xid : Puts (appendStringInfoString (", \"xid\":\"" ++ decimal txn.xid.toNat ++ "\""))
      (fieldsText [("xid", text (decimal txn.xid.toNat))]) := puts_field (by decide) _
  have first_lsn : Puts (appendStringInfoString (", \"first_lsn\":\"" ++ lsnText txn.firstLsn ++ "\""))
      (fieldsText [("first_lsn", text (lsnText txn.firstLsn))]) := puts_field (by decide) _
  have origin_lsn : Puts (appendStringInfoString (", \"origin_lsn\":\"" ++ lsnText txn.originLsn ++ "\""))
      (fieldsText [("origin_lsn", text (lsnText txn.originLsn))]) := puts_field (by decide) _
  unfold jsonWriteBeginTxinfo beginTxinfoFields
  split
  · exact Puts.pure
  · rw [fieldsText_cons, fieldsText_cons ("first_lsn", _), fieldsText_cons ("origin_lsn", _)]
    exact xid.bind (first_lsn.bind (origin_lsn.bind (puts_commitTime functions txn)))

theorem puts_begin : Puts (pglogicalJsonWriteBegin functions clientNoTxinfo txn)
    (leftBrace :: (stringMember "action" (text "B") ++ fieldsText (beginFields functions clientNoTxinfo txn) ++
      [rightBrace])) := by
  have changes : Puts (appendStringInfoString (", \"has_catalog_changes\":\"" ++
      (if txn.hasCatalogChanges then "t" else "f") ++ "\""))
      (fieldsText [("has_catalog_changes", text (if txn.hasCatalogChanges then "t" else "f"))]) :=
    puts_field (by decide) _
  have written : Puts (pglogicalJsonWriteBegin functions clientNoTxinfo txn) _ :=
    (Puts.binary (text "\x7b")).bind ((Puts.binary (text "\"action\":\"B\"")).bind
      (changes.bind ((puts_originId txn).bind ((puts_beginTxinfo functions clientNoTxinfo txn).bind
        (Puts.binary (text "\x7d"))))))
  have shape : leftBrace :: (stringMember "action" (text "B") ++
      fieldsText (beginFields functions clientNoTxinfo txn) ++ [rightBrace]) =
        text "\x7b" ++ (text "\"action\":\"B\"" ++ (fieldsText [("has_catalog_changes", text (if
          txn.hasCatalogChanges then "t" else "f"))] ++ (fieldsText (originFields txn) ++
            (fieldsText (beginTxinfoFields functions clientNoTxinfo txn) ++ text "\x7d")))) := by
    have action : stringMember "action" (text "B") = text "\"action\":\"B\"" := by decide
    have braces : text "\x7b" = [leftBrace] ∧ text "\x7d" = [rightBrace] := by decide
    rw [beginFields, fieldsText_cons, fieldsText_append, action, braces.1, braces.2]
    simp
  rw [shape]
  exact written

theorem puts_commit (commitLsn : UInt64) : Puts (pglogicalJsonWriteCommit clientNoTxinfo txn commitLsn)
    (leftBrace :: (stringMember "action" (text "C") ++ fieldsText (commitFields clientNoTxinfo txn) ++
      [rightBrace])) := by
  have final_lsn : Puts (appendStringInfoString (", \"final_lsn\":\"" ++ lsnText txn.finalLsn ++ "\""))
      (fieldsText [("final_lsn", text (lsnText txn.finalLsn))]) := puts_field (by decide) _
  have end_lsn : Puts (appendStringInfoString (", \"end_lsn\":\"" ++ lsnText txn.endLsn ++ "\""))
      (fieldsText [("end_lsn", text (lsnText txn.endLsn))]) := puts_field (by decide) _
  have txinfo : Puts (jsonWriteCommitTxinfo clientNoTxinfo txn) (fieldsText (commitFields clientNoTxinfo txn)) := by
    unfold jsonWriteCommitTxinfo commitFields
    split
    · exact Puts.pure
    · rw [fieldsText_cons]
      exact final_lsn.bind end_lsn
  have written : Puts (pglogicalJsonWriteCommit clientNoTxinfo txn commitLsn) _ :=
    (Puts.binary (text "\x7b")).bind ((Puts.binary (text "\"action\":\"C\"")).bind
      (txinfo.bind (Puts.binary (text "\x7d"))))
  have shape : leftBrace :: (stringMember "action" (text "C") ++ fieldsText (commitFields clientNoTxinfo txn) ++
      [rightBrace]) = text "\x7b" ++ (text "\"action\":\"C\"" ++ (fieldsText (commitFields clientNoTxinfo txn) ++
        text "\x7d")) := by
    have action : stringMember "action" (text "C") = text "\"action\":\"C\"" := by decide
    have braces : text "\x7b" = [leftBrace] ∧ text "\x7d" = [rightBrace] := by decide
    rw [action, braces.1, braces.2]
    simp
  rw [shape]
  exact written

section PlainFields

variable {functions} {clientNoTxinfo} {txn}

theorem plain_commitFields {field : String × Bytes} (inside : field ∈ commitFields clientNoTxinfo txn) :
    PlainField field := by
  unfold commitFields at inside
  split at inside
  · cases inside
  · rw [List.mem_cons, List.mem_singleton] at inside
    obtain rfl | rfl := inside
    · exact plainField (by simp [fieldNames]) (plain_lsnText _)
    · exact plainField (by simp [fieldNames]) (plain_lsnText _)

theorem plain_originFields {field : String × Bytes} (inside : field ∈ originFields txn) : PlainField field := by
  unfold originFields at inside
  split at inside
  · obtain rfl := List.mem_singleton.mp inside
    exact plainField (by simp [fieldNames]) (plain_decimal _)
  · cases inside

theorem plain_beginFields (sound : functions.Sound) {field : String × Bytes}
    (inside : field ∈ beginFields functions clientNoTxinfo txn) : PlainField field := by
  have time : ∀ field ∈ commitTimeFields functions txn, PlainField field := by
    intro field inside
    unfold commitTimeFields at inside
    split at inside
    · obtain rfl := List.mem_singleton.mp inside
      exact plainField (by simp [fieldNames]) (sound.timestamptzToStr _)
    · cases inside
  obtain rfl | inside := List.mem_cons.mp inside
  · refine ⟨by simp [fieldNames], ?_⟩
    cases txn.hasCatalogChanges <;> decide
  obtain inside | inside := List.mem_append.mp inside
  · exact plain_originFields inside
  · unfold beginTxinfoFields at inside
    split at inside
    · cases inside
    · simp only [List.mem_cons] at inside
      obtain rfl | rfl | rfl | inside := inside
      · exact plainField (by simp [fieldNames]) (plain_decimal _)
      · exact plainField (by simp [fieldNames]) (plain_lsnText _)
      · exact plainField (by simp [fieldNames]) (plain_lsnText _)
      · exact time field inside

end PlainFields

/-! ## The startup message -/

def paramText (param : CString × CString) : Bytes :=
  functions.escapeJson param.1 ++ colon :: functions.escapeJson param.2

theorem puts_params (first : Bool) (msg : List (CString × CString)) : Puts (jsonWriteParams functions first msg)
    (if first then [comma].intercalate (msg.map (paramText functions))
      else msg.flatMap fun param => comma :: paramText functions param) := by
  induction msg generalizing first with
  | nil => cases first <;> exact Puts.pure
  | cons param rest ih =>
    have tail : Puts (do
        appendBinaryStringInfo (functions.escapeJson param.1)
        appendStringInfoString ":"
        appendBinaryStringInfo (functions.escapeJson param.2)
        jsonWriteParams functions false rest)
        (paramText functions param ++ rest.flatMap fun param => comma :: paramText functions param) := by
      have written := (Puts.binary (functions.escapeJson param.1)).bind ((Puts.binary (text ":")).bind
        ((Puts.binary (functions.escapeJson param.2)).bind (ih false)))
      have mark : text ":" = [colon] := by decide
      rw [mark, if_neg Bool.false_ne_true] at written
      rw [paramText, List.append_assoc, List.cons_append]
      exact written
    cases first with
    | true =>
      rw [if_pos rfl, List.map_cons, intercalate_cons, List.flatMap_map]
      exact tail
    | false =>
      have separated := (Puts.binary (text ",")).bind tail
      have mark : text "," = [comma] := by decide
      rw [if_neg Bool.false_ne_true, List.flatMap_cons, List.cons_append]
      rw [mark, List.singleton_append] at separated
      exact separated

/-- The member with the parameters, behind its comma. -/
def paramsMember (msg : List (CString × CString)) : Bytes :=
  32 :: (quotationMark :: text "params" ++ [quotationMark] ++ colon ::
    (32 :: leftBrace :: ([comma].intercalate (msg.map (paramText functions)) ++ [rightBrace])))

theorem puts_startup (msg : List (CString × CString)) : Puts (jsonWriteStartupMessage functions msg)
    (leftBrace :: ([comma].intercalate [stringMember "action" (text "S"), paramsMember functions msg] ++
      [rightBrace])) := by
  have written : Puts (jsonWriteStartupMessage functions msg) _ :=
    (Puts.binary (text "\x7b\"action\":\"S\", \"params\": \x7b")).bind ((puts_params functions true msg).bind
      (Puts.binary (text "\x7d\x7d")))
  have opening : text "\x7b\"action\":\"S\", \"params\": \x7b" = leftBrace :: (stringMember "action" (text "S") ++
      comma :: 32 :: (quotationMark :: text "params" ++ [quotationMark, colon, 32, leftBrace])) := by decide
  have closing : text "\x7d\x7d" = [rightBrace, rightBrace] := by decide
  have shape : leftBrace :: ([comma].intercalate [stringMember "action" (text "S"), paramsMember functions msg] ++
      [rightBrace]) = text "\x7b\"action\":\"S\", \"params\": \x7b" ++
        ([comma].intercalate (msg.map (paramText functions)) ++ text "\x7d\x7d") := by
    rw [opening, closing, intercalate_cons, paramsMember]
    simp
  rw [shape]
  exact written

theorem parseJson_startup {functions : JsonFunctions} (sound : functions.Sound) (msg : List (CString × CString)) :
    ∃ value, parseJson (leftBrace :: ([comma].intercalate [stringMember "action" (text "S"),
        paramsMember functions msg] ++ [rightBrace])) = some value ∧
      value.field (text "action") = some (.text (text "S")) ∧ value.field (text "params") =
        some (.object (msg.map fun param => (param.1.val.map .byte, .text param.2.val))) := by
  have params : ∀ member ∈ msg.map fun param => (paramText functions param, (param.1.val.map JsonUnit.byte,
      JsonValue.text param.2.val)), MemberText member.1 member.2 := by
    intro member inside
    obtain ⟨param, -, rfl⟩ := List.mem_map.mp inside
    exact ⟨⟨_, _, rfl, sound.escapeJson param.1, sound.escapeJson param.2⟩⟩
  have object := parseJson_object _ params
  rw [List.map_map, List.map_map] at object
  have keys : Plain (text "action") ∧ Plain (text "params") ∧ Plain (text "S") := by decide
  have action := memberText_stringMember keys.1 keys.2.2
  have last : MemberText (paramsMember functions msg) ((text "params").map .byte,
      .object (msg.map fun param => (param.1.val.map .byte, .text param.2.val))) :=
    MemberText.space ⟨⟨_, _, rfl, parseJson_text keys.2.1, parseJson_space object⟩⟩
  have parsed := parseJson_object [(_, _), (_, _)] (by
    simp only [List.forall_mem_cons]
    exact ⟨action, last, fun _ inside => by cases inside⟩)
  refine ⟨_, parsed, field_cons fun member inside => ?_, rfl⟩
  obtain rfl := List.mem_singleton.mp inside
  change (text "params").map JsonUnit.byte ≠ (text "action").map JsonUnit.byte
  decide

/-! ## Rows -/

theorem exists_columnValue {functions : JsonFunctions} (sound : functions.Sound) {att : FormPgAttribute}
    {value : Option Datum} {data : Bytes} (written : columnToJson functions att value = .ok data) :
    ∃ read, parseJson data = some read := by
  cases value with
  | none =>
    cases written
    exact ⟨.null, rfl⟩
  | some datum =>
    rw [columnToJson] at written
    cases flat : flatten functions datum with
    | error message =>
      rw [flat] at written
      cases written
    | ok datum =>
      rw [flat] at written
      exact Option.isSome_iff_exists.mp (sound.datumToJson _ _ _ written)

theorem exists_columnMembers {functions : JsonFunctions} (sound : functions.Sound)
    {columns : List (FormPgAttribute × Option Datum)} {data : Bytes}
    (written : columnsToJson functions columns = .ok data) :
    ∃ members : List (Bytes × (List JsonUnit × JsonValue)), data = [comma].intercalate (members.map Prod.fst) ∧
      members.length = columns.length ∧ ∀ member ∈ members, MemberText member.1 member.2 := by
  induction columns generalizing data with
  | nil =>
    cases written
    exact ⟨[], rfl, rfl, fun _ inside => by cases inside⟩
  | cons column columns ih =>
    rw [columnsToJson] at written
    cases here : columnToJson functions column.1 column.2 with
    | error message =>
      rw [here] at written
      cases written
    | ok value =>
      cases behind : columnsToJson functions columns with
      | error message =>
        rw [here, behind] at written
        cases written
      | ok others =>
        rw [here, behind] at written
        cases written
        obtain ⟨read, parsed⟩ := exists_columnValue sound here
        obtain ⟨members, rfl, length, rest⟩ := ih behind
        have first : MemberText (functions.escapeJson column.1.attname.str ++ colon :: value)
            (column.1.attname.str.val.map .byte, read) := ⟨⟨_, _, rfl, sound.escapeJson _, parsed⟩⟩
        refine ⟨(_, _) :: members, ?_, congrArg Nat.succ length, List.forall_mem_cons.mpr ⟨first, rest⟩⟩
        have marks : text ":" = [colon] ∧ text "," = [comma] := by decide
        cases members with
        | nil =>
          obtain rfl := List.length_eq_zero_iff.mp length.symm
          simp [marks.1]
        | cons member members =>
          have more : columns ≠ [] := fun none => by simp [none] at length
          simp [more, marks.1, marks.2, List.intercalate_cons_cons]

theorem exists_row {functions : JsonFunctions} (sound : functions.Sound) {desc : TupleDesc} {tuple : HeapTuple desc}
    {row : Bytes} (written : rowToJson functions tuple = .ok row) : ∃ read, parseJson row = some read := by
  rw [rowToJson] at written
  cases columns : columnsToJson functions (jsonColumns tuple) with
  | error message =>
    rw [columns] at written
    cases written
  | ok data =>
    rw [columns] at written
    cases written
    obtain ⟨members, rfl, -, texts⟩ := exists_columnMembers sound columns
    exact ⟨_, parseJson_object members texts⟩

/-- A tuple is a member of its own or nothing. -/
theorem exists_tupleMembers {functions : JsonFunctions} (sound : functions.Sound) (key : String) {opening : String}
    (same : text opening = comma :: quotationMark :: text key ++ [quotationMark, colon]) (plain : Plain (text key))
    {desc : TupleDesc} {tuple : Option (HeapTuple desc)} {out after : Bytes}
    (written : jsonWriteTuple? functions opening tuple out = .ok ((), after)) :
    ∃ members : List (Bytes × (List JsonUnit × JsonValue)), after = out ++ members.flatMap (comma :: ·.1) ∧
      ∀ member ∈ members, MemberText member.1 member.2 ∧ member.2.1 = (text key).map .byte := by
  cases tuple with
  | none =>
    cases written
    exact ⟨[], (List.append_nil _).symm, fun _ inside => by cases inside⟩
  | some tuple =>
    obtain ⟨_, middle, opened, rest⟩ := bind_ok.1 written
    obtain ⟨row, _, converted, appended⟩ := bind_ok.1 rest
    cases to_json : rowToJson functions tuple with
    | error message =>
      rw [to_json] at converted
      cases converted
    | ok json =>
      rw [to_json] at converted
      cases converted
      obtain ⟨read, parsed⟩ := exists_row sound to_json
      have member : MemberText (quotationMark :: text key ++ [quotationMark] ++ colon :: row)
          ((text key).map .byte, read) := ⟨⟨_, _, rfl, parseJson_text plain, parsed⟩⟩
      refine ⟨[(_, _)], ?_, List.forall_mem_singleton.mpr ⟨member, rfl⟩⟩
      rw [(appendBinaryStringInfo_ok.1 appended).2, (appendBinaryStringInfo_ok.1 opened).2, same]
      simp

/-! ## Changes -/

/-- The schema as the message names it. -/
def namespaceText (catalog : Catalog) (rel : Relation) : Bytes :=
  match catalog.getNamespaceName rel.relnamespace with
  | none => text "(null)"
  | some nspname => nspname.str.val

def relationMember (nspname relname : Bytes) : Bytes :=
  quotationMark :: text "relation" ++ [quotationMark] ++ colon :: (leftBracket :: ([comma].intercalate
    [quotationMark :: nspname ++ [quotationMark], quotationMark :: relname ++ [quotationMark]] ++ [rightBracket]))

def tupleKeys : List Bytes := [text "oldtuple", text "newtuple"]

/-- The text of a change around its names and its tuples. -/
def changeText (action : String) (nspname relname : Bytes) (tuples : List (Bytes × (List JsonUnit × JsonValue))) :
    Bytes :=
  leftBrace :: ([comma].intercalate (stringMember "action" (text action) :: relationMember nspname relname ::
    tuples.map Prod.fst) ++ [rightBrace])

theorem text_names (action : String) (nspname relname : Bytes) :
    text ("\"action\":\"" ++ action ++ "\",\"relation\":[\"") ++ nspname ++ text "\",\"" ++ relname ++ text "\"]" =
      stringMember "action" (text action) ++ comma :: relationMember nspname relname := by
  have front : text "\"action\":\"" = quotationMark :: text "action" ++ [quotationMark, colon, quotationMark] := by decide
  have key : text "\",\"relation\":[\"" = quotationMark :: comma :: (quotationMark :: text "relation" ++
      [quotationMark, colon, leftBracket, quotationMark]) := by decide
  have between : text "\",\"" = [quotationMark, comma, quotationMark] := by decide
  have behind : text "\"]" = [quotationMark, rightBracket] := by decide
  rw [text_append, text_append, front, key, between, behind, stringMember, relationMember, intercalate_cons]
  simp

theorem exists_changeText {functions : JsonFunctions} (sound : functions.Sound) {catalog : Catalog} {rel : Relation}
    {change : RowChange rel.desc} {attList : Option Bitmapset} {out after : Bytes}
    (written : change.writeJson functions catalog rel attList out = .ok ((), after)) :
    ∃ tuples, after = out ++ changeText change.action (namespaceText catalog rel) rel.relname.str.val tuples ∧
      ∀ member ∈ tuples, MemberText member.1 member.2 ∧ ∃ key ∈ tupleKeys, member.2.1 = key.map .byte := by
  have same : change.writeJson functions catalog rel attList =
      pglogicalJsonWriteChange functions catalog change.action rel (change.tuple? .old) (change.tuple? .new) := by
    cases change <;> rfl
  rw [same] at written
  obtain ⟨_, _, opened, written⟩ := bind_ok.1 written
  obtain ⟨_, _, named, written⟩ := bind_ok.1 written
  obtain ⟨_, _, old, written⟩ := bind_ok.1 written
  obtain ⟨_, _, new, closed⟩ := bind_ok.1 written
  obtain ⟨olds, rfl, old_texts⟩ := exists_tupleMembers sound "oldtuple" (by decide)
    (by decide) old
  obtain ⟨news, rfl, new_texts⟩ := exists_tupleMembers sound "newtuple" (by decide)
    (by decide) new
  refine ⟨olds ++ news, ?_, ?_⟩
  · have braces : text "\x7b" = [leftBrace] ∧ text "\x7d" = [rightBrace] := by decide
    have names : _ = _ ++ (_ ++ namespaceText catalog rel ++ _ ++ _ ++ _) := (appendBinaryStringInfo_ok.1 named).2
    rw [(appendBinaryStringInfo_ok.1 closed).2, names, text_names, (appendBinaryStringInfo_ok.1 opened).2, braces.1,
      braces.2, changeText, intercalate_cons]
    simp [List.flatMap_map]
  · intro member inside
    obtain inside | inside := List.mem_append.mp inside
    · obtain ⟨written, key⟩ := old_texts member inside
      exact ⟨written, _, by simp [tupleKeys], key⟩
    · obtain ⟨written, key⟩ := new_texts member inside
      exact ⟨written, _, by simp [tupleKeys], key⟩

/-! ## Names -/

theorem plain_keys : Plain (text "action") ∧ Plain (text "relation") ∧
    (text "action").map JsonUnit.byte ≠ (text "relation").map JsonUnit.byte := by decide

theorem tupleKeys_others {key : Bytes} (inside : key ∈ tupleKeys) :
    key.map JsonUnit.byte ≠ (text "action").map JsonUnit.byte ∧
      key.map JsonUnit.byte ≠ (text "relation").map JsonUnit.byte := by
  revert key
  unfold tupleKeys
  decide

theorem parseJson_changeText {action : String} (letter : Plain (text action)) {nspname relname : Bytes}
    (plain_nspname : Plain nspname) (plain_relname : Plain relname) {tuples : List (Bytes × (List JsonUnit × JsonValue))}
    (texts : ∀ member ∈ tuples, MemberText member.1 member.2 ∧ ∃ key ∈ tupleKeys, member.2.1 = key.map .byte) :
    ∃ value, parseJson (changeText action nspname relname tuples) = some value ∧
      value.field (text "action") = some (.text (text action)) ∧
      value.field (text "relation") = some (.array [.text nspname, .text relname]) := by
  have names := parseJson_array [(_, _), (_, _)] (by
    simp only [List.forall_mem_cons]
    exact ⟨parseJson_text plain_nspname, parseJson_text plain_relname, fun _ inside => by cases inside⟩)
  have relation : MemberText (relationMember nspname relname)
      ((text "relation").map .byte, .array [.text nspname, .text relname]) :=
    ⟨⟨_, _, rfl, parseJson_text plain_keys.2.1, names⟩⟩
  have parsed := parseJson_object ((_, _) :: (_, _) :: tuples) (by
    simp only [List.forall_mem_cons]
    exact ⟨memberText_stringMember plain_keys.1 letter, relation, fun member inside => (texts member inside).1⟩)
  refine ⟨_, parsed, field_cons fun member inside => ?_, ?_⟩
  · obtain rfl | inside := List.mem_cons.mp inside
    · exact plain_keys.2.2.symm
    · obtain ⟨listed, tuple, rfl⟩ := List.mem_map.mp inside
      obtain ⟨key, known, same⟩ := (texts listed tuple).2
      rw [same]
      exact (tupleKeys_others known).1
  · refine (field_cons_of_ne plain_keys.2.2 _).trans (field_cons fun member inside => ?_)
    obtain ⟨listed, tuple, rfl⟩ := List.mem_map.mp inside
    obtain ⟨key, known, same⟩ := (texts listed tuple).2
    rw [same]
    exact (tupleKeys_others known).2

theorem relationMember_append (nspname relname more : Bytes) : relationMember nspname relname ++ more =
    quotationMark :: text "relation" ++ [quotationMark] ++ colon :: leftBracket :: ([comma].intercalate
      ([nspname, relname].map fun name => quotationMark :: name ++ [quotationMark]) ++ rightBracket :: more) := by
  simp [relationMember]

theorem plain_of_readMembers {depth rounds : ℕ} {action : String} (letter : Plain (text action))
    (enough : (stringMember "action" (text action)).length < depth) {nspname relname more rest : Bytes}
    {members : List (List JsonUnit × JsonValue)} (read : readItems rightBrace (readMember (readValue depth)) rounds
      (stringMember "action" (text action) ++ comma :: (relationMember nspname relname ++ more)) = some (members, rest))
    (told : (JsonValue.object members).field (text "relation") = some (.array [.text nspname, .text relname])) :
    Plain nspname ∧ Plain relname := by
  obtain ⟨_, fewer, rfl, tail⟩ := readItems_pass ((memberText_stringMember plain_keys.1 letter).readsAs enough) read
  rw [field_cons_of_ne plain_keys.2.2] at told
  rw [relationMember_append] at tail
  obtain ⟨v, behind, others, value, rfl⟩ := key_of_readItems (parseJson_text plain_keys.2.1) tail
  obtain rfl := eq_of_field_cons told
  obtain ⟨depth, rfl⟩ := Nat.exists_eq_succ_of_ne_zero (Nat.ne_zero_of_lt enough)
  rw [readValue_array] at value
  obtain ⟨⟨elements, _⟩, list, same⟩ := Option.map_eq_some_iff.mp value
  cases same
  obtain ⟨_, items⟩ := readItems_of_readList (by decide) (by decide) list
  have plain : ∀ name ∈ [nspname, relname], Plain name := unescaped_of_readArray items
  exact ⟨plain nspname (by simp), plain relname (by simp)⟩

/-- The names can only be read back if there was nothing to escape in them. -/
theorem plain_of_parseJson_changeText {action : String} (letter : Plain (text action)) {nspname relname : Bytes}
    {tuples : List (Bytes × (List JsonUnit × JsonValue))} {value : JsonValue}
    (parsed : parseJson (changeText action nspname relname tuples) = some value)
    (told : value.field (text "relation") = some (.array [.text nspname, .text relname])) :
    Plain nspname ∧ Plain relname := by
  obtain ⟨⟨_, spaces⟩, read, same⟩ := Option.bind_eq_some_iff.mp parsed
  dsimp only at same
  split at same
  next =>
    cases same
    have enough : (stringMember "action" (text action)).length < (changeText action nspname relname tuples).length := by
      rw [changeText, intercalate_cons]
      simp only [List.length_cons, List.length_append]
      omega
    generalize (changeText action nspname relname tuples).length = depth at read enough
    rw [changeText, readValue_object, intercalate_cons, List.flatMap_cons, List.append_assoc, List.append_assoc,
      List.cons_append] at read
    obtain ⟨⟨members, _⟩, list, same⟩ := Option.map_eq_some_iff.mp read
    cases same
    obtain ⟨rounds, items⟩ := readItems_of_readList (by decide) (by decide) list
    exact plain_of_readMembers letter enough items told
  next => cases same

/-! ## Every message -/

theorem plain_action {desc : TupleDesc} (change : RowChange desc) : Plain (text change.action) := by
  have letters : Plain (text "I") ∧ Plain (text "U") ∧ Plain (text "D") := by decide
  cases change with
  | insert newtuple => exact letters.1
  | update oldtuple newtuple => exact letters.2.1
  | delete oldtuple => exact letters.2.2

section Messages

variable {functions : JsonFunctions} {catalog : Catalog} {message : JsonMessage} {out data : Bytes}

theorem faithful_of_plainNames (sound : functions.Sound)
    (written : message.write functions catalog out = .ok ((), out ++ data)) (plain : message.PlainNames catalog) :
    message.Faithful catalog data := by
  cases message with
  | begin clientNoTxinfo txn =>
    obtain rfl := List.append_cancel_left (puts_begin functions clientNoTxinfo txn written)
    have letter : Plain (text "B") := by decide
    obtain ⟨value, parsed, action⟩ := parseJson_fields letter fun _ inside => plain_beginFields sound inside
    exact ⟨value, parsed, action, trivial⟩
  | commit clientNoTxinfo txn commitLsn =>
    obtain rfl := List.append_cancel_left (puts_commit clientNoTxinfo txn commitLsn written)
    have letter : Plain (text "C") := by decide
    obtain ⟨value, parsed, action⟩ := parseJson_fields letter fun _ inside => plain_commitFields inside
    exact ⟨value, parsed, action, trivial⟩
  | row rel change attList =>
    obtain ⟨nspname, found, plain_nspname, plain_relname⟩ := plain
    obtain ⟨tuples, appended, texts⟩ := exists_changeText sound written
    obtain rfl := List.append_cancel_left appended
    have named : namespaceText catalog rel = nspname.str.val := by rw [namespaceText, found]
    obtain ⟨value, parsed, action, relation⟩ := parseJson_changeText (plain_action change) plain_nspname plain_relname texts
    exact ⟨value, by rw [named, parsed], action, nspname, found, relation⟩
  | startup msg =>
    obtain rfl := List.append_cancel_left (puts_startup functions msg written)
    exact parseJson_startup sound msg

theorem plainNames_of_faithful (sound : functions.Sound)
    (written : message.write functions catalog out = .ok ((), out ++ data)) (faithful : message.Faithful catalog data) :
    message.PlainNames catalog := by
  cases message with
  | begin clientNoTxinfo txn => trivial
  | commit clientNoTxinfo txn commitLsn => trivial
  | row rel change attList =>
    obtain ⟨value, parsed, -, nspname, found, relation⟩ := faithful
    obtain ⟨tuples, appended, -⟩ := exists_changeText sound written
    obtain rfl := List.append_cancel_left appended
    have named : namespaceText catalog rel = nspname.str.val := by rw [namespaceText, found]
    rw [named] at parsed
    exact ⟨nspname, found, plain_of_parseJson_changeText (plain_action change) parsed relation⟩
  | startup msg => trivial

/-- A message gives back what it is about exactly if it is not about a row, or about a row whose schema is
there and whose names need no escapes. -/
theorem json_message_faithful_iff (sound : functions.Sound)
    (written : message.write functions catalog out = .ok ((), out ++ data)) :
    message.Faithful catalog data ↔ message.PlainNames catalog :=
  ⟨plainNames_of_faithful sound written, faithful_of_plainNames sound written⟩

end Messages

/-- The functions of the server, with `int4` and a text type on the values of the sample. -/
def escapingFunctions : JsonFunctions where
  timestamptzToStr := fun _ => ⟨text "2000-01-01 00:00:00+00", by decide⟩
  escapeJson := fun s => Wire.escapeJson s.val
  datumToJson := fun _ datum => match datum with
    | .byval 7 => .ok (text "7")
    | .byref [24, 0, 0, 0, 104, 105] => .ok (text "\"hi\"")
    | _ => .error "could not determine data type"
  detoast := fun _ => .error "missing chunk number 0 for toast value"

theorem escapingFunctions_sound : escapingFunctions.Sound where
  escapeJson := by
    intro s
    have read := readString_of_scanString (scanString_escaped s.property [])
    obtain ⟨inside, same, shape⟩ := exists_stringText read
    rw [List.append_nil] at same
    have parsed := parseJson_string shape
    rw [← same] at parsed
    exact parsed
  datumToJson := by
    intro typid datum value written
    dsimp only [escapingFunctions] at written
    split at written
    · cases written
      rfl
    · cases written
      rfl
    · cases written
  timestamptzToStr := by
    intro time
    have plain : Plain (text "2000-01-01 00:00:00+00") := by decide
    exact plain

/-- What is sent when the row of the sample is inserted into a table of this name. -/
def sampleMessage (relname : String) : Bytes :=
  text ("\x7b\"action\":\"I\",\"relation\":[\"p\",\"" ++ relname ++
    "\"],\"newtuple\":\x7b\"id\":7,\"no\":\"hi\"\x7d\x7d")

theorem sample_row_faithful :
    (JsonMessage.row sampleRel (.insert sampleTuple) none).Faithful sampleCatalog (sampleMessage "t") := by
  have written : (JsonMessage.row sampleRel (.insert sampleTuple) none).write escapingFunctions sampleCatalog [] =
      .ok ((), [] ++ sampleMessage "t") := by decide +kernel
  have plain : Plain sampleSchema.str.val ∧ Plain sampleRel.relname.str.val := by decide
  exact (json_message_faithful_iff escapingFunctions_sound written).2 ⟨sampleSchema, rfl, plain.1, plain.2⟩

/-- The same table under a name with a quotation mark in it. -/
def quotedRel : Relation := { sampleRel with relname := namestrcpy (.ofBytes [97, 34, 98]) }

/-- Names with quotation marks are not read back. -/
theorem not_forall_json_message_faithful : ¬ ∀ (functions : JsonFunctions) (catalog : Catalog) (message : JsonMessage)
    (out data : Bytes), functions.Sound → message.write functions catalog out = .ok ((), out ++ data) →
      message.Faithful catalog data := by
  intro faithful
  have written : (JsonMessage.row quotedRel (.insert sampleTuple) none).write escapingFunctions sampleCatalog [] =
      .ok ((), [] ++ sampleMessage "a\"b") := by decide +kernel
  have message := faithful escapingFunctions sampleCatalog _ [] _ escapingFunctions_sound written
  obtain ⟨_, _, _, plain⟩ := plainNames_of_faithful escapingFunctions_sound written message
  exact absurd (plain 34 (by decide)) (by decide)

end PGLogical.Json
