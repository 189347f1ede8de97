import PGLogical.Machine.Fallible
import PGLogical.Model.MessageFormat
import PGLogical.Model.Proto
import PGLogical.Soundness.Wire
import PGLogical.Wire.Consumes

/-! # What the receiver's readers accept

A message that is read without an error has the layout of the documented format, field by field. The
flags, the terminators of the strings and the bytes behind the last field are the parts that no
reader looks at.
-/

namespace PGLogical.Format

open Wire Native

/-! ## The readers follow the layout -/

theorem consumes_lsn : Consumes pqGetmsgLsn fun lsn front => front = bigEndian 8 lsn.toNat := by
  refine consumes_int64.bind ?_
  rintro value front rfl
  exact .pure (List.append_nil _)

theorem consumes_oid : Consumes pqGetmsgOid fun oid front => front = bigEndian 4 oid.toNat := by
  refine (consumes_int 4).bind ?_
  rintro value front ⟨rfl, small⟩
  refine .pure ?_
  rw [List.append_nil, UInt32.toNat_ofNat_of_lt' (by simpa using small)]

theorem consumes_readBegin : Consumes pglogicalReadBegin fun _ front =>
    ∃ flags lsn commitTime xid, front = (Message.begin flags lsn commitTime xid).body := by
  refine consumes_byte.bind ?_
  rintro flags _ rfl
  refine consumes_lsn.bind ?_
  rintro lsn _ rfl
  refine consumes_int64.bind ?_
  rintro commitTime _ rfl
  refine consumes_oid.bind ?_
  rintro xid _ rfl
  refine .pure ⟨flags, lsn, commitTime.toUInt64, xid, ?_⟩
  simp [Message.body]

theorem consumes_readCommit : Consumes pglogicalReadCommit fun _ front =>
    ∃ flags commitLsn endLsn commitTime, front = (Message.commit flags commitLsn endLsn commitTime).body := by
  refine consumes_byte.bind ?_
  rintro flags _ rfl
  refine consumes_lsn.bind ?_
  rintro commitLsn _ rfl
  refine consumes_lsn.bind ?_
  rintro endLsn _ rfl
  refine consumes_int64.bind ?_
  rintro commitTime _ rfl
  refine .pure ⟨flags, commitLsn, endLsn, commitTime.toUInt64, ?_⟩
  simp [Message.body]

/-- A length of one byte. -/
theorem bigEndian_byte {byte : UInt8} {data : Bytes} (width : data.length = byte.toNat) :
    bigEndian 1 data.length = [byte] := by
  rw [width]
  simp [bigEndian]

theorem length_lt_byte {byte : UInt8} {data : Bytes} (width : data.length = byte.toNat) : data.length < 256 ^ 1 := by
  rw [width]
  exact byte.toNat_lt

theorem consumes_readOrigin : Consumes pglogicalReadOrigin fun _ front =>
    ∃ flags originLsn identifier, (Message.origin flags originLsn identifier).Fits ∧
      front = (Message.origin flags originLsn identifier).body := by
  refine consumes_byte.bind ?_
  rintro flags _ rfl
  refine consumes_lsn.bind ?_
  rintro originLsn _ rfl
  refine consumes_byte.bind ?_
  rintro len _ rfl
  refine (consumes_bytes _).bind ?_
  rintro _ identifier ⟨rfl, width⟩
  refine .pure ⟨flags, originLsn, identifier, length_lt_byte width, ?_⟩
  simp [Message.body, bigEndian_byte width]

/-! ### Tuples -/

/-- Data behind a length of four bytes. -/
def Sized (front : Bytes) : Prop := ∃ data : Bytes, data.length < 256 ^ 4 ∧ front = bigEndian 4 data.length ++ data

theorem consumes_readInternal (io : TypeFunctions) (att : FormPgAttribute) :
    Consumes (readInternal io att) fun _ => Sized := by
  refine (consumes_int 4).bind ?_
  rintro len _ ⟨rfl, small⟩
  refine (consumes_bytes len).bind ?_
  rintro _ data ⟨rfl, rfl⟩
  exact .pure ⟨data, small, by rw [List.append_nil]⟩

theorem consumes_readBinary (io : TypeFunctions) (att : FormPgAttribute) :
    Consumes (readBinary io att) fun _ => Sized := by
  refine (consumes_int 4).bind ?_
  rintro len _ ⟨rfl, small⟩
  refine (consumes_bytes len).bind ?_
  rintro _ data ⟨rfl, rfl⟩
  refine .call fun received _ => .ensure fun _ => .pure ⟨data, small, by rw [List.append_nil]⟩

theorem consumes_readText (io : TypeFunctions) (att : FormPgAttribute) :
    Consumes (readText io att) fun _ => Sized := by
  refine (consumes_int 4).bind ?_
  rintro len _ ⟨rfl, small⟩
  refine (consumes_cstring len).bind ?_
  rintro value data rfl
  have read : Consumes ((liftM (io.typinput att.atttypid att.atttypmod value) : Reader Datum) >>= pure) fun _ more =>
      Sized (bigEndian 4 data.length ++ (data ++ more)) :=
    .call fun _ _ => .pure ⟨data, small, by rw [List.append_nil]⟩
  rwa [bind_pure] at read

theorem consumes_readColumn (io : TypeFunctions) (att : FormPgAttribute) (attid : ℕ) (tuple : PGLogicalTupleData) :
    Consumes (readColumn io att attid tuple) fun _ front => ∃ field : Field, field.Fits ∧ front = field.encode := by
  have full : ∀ {r : Reader Datum} {k : Datum → PGLogicalTupleData} {code : UInt8} (kind : FieldKind),
      Consumes r (fun _ => Sized) → code = kind.code → Consumes (do return k (← r)) fun _ more =>
        ∃ field : Field, field.Fits ∧ [code] ++ more = field.encode := by
    rintro r k _ kind consumes rfl
    refine consumes.bind ?_
    rintro _ _ ⟨data, small, rfl⟩
    exact .pure ⟨.full kind data, small, by rw [List.append_nil]; rfl⟩
  refine consumes_byte.bind ?_
  rintro code _ rfl
  refine .ite (fun null => .pure ⟨.null, trivial, by rw [null]; rfl⟩) fun _ =>
    .ite (fun unchanged => .pure ⟨.unchanged, trivial, by rw [unchanged]; rfl⟩) fun _ =>
    .ite (fun internal => full .internal (consumes_readInternal io att) internal) fun _ =>
    .ite (fun binary => full .binary (consumes_readBinary io att) binary) fun _ =>
    .ite (fun text => full .text (consumes_readText io att) text) fun _ => .throw _

theorem consumes_readColumns (io : TypeFunctions) (desc : TupleDesc) (attmap : List ℕ) (tuple : PGLogicalTupleData) :
    Consumes (readColumns io desc attmap tuple) fun _ front =>
      ∃ fields : Tuple, fields.length = attmap.length ∧ (∀ field ∈ fields, field.Fits) ∧
        front = fields.flatMap Field.encode := by
  induction attmap generalizing tuple with
  | nil => exact .pure ⟨[], rfl, by simp, rfl⟩
  | cons attid rest ih =>
    unfold readColumns
    cases desc.attrs[attid]? with
    | none => exact .throw _
    | some att =>
      refine (consumes_readColumn io att attid tuple).bind ?_
      rintro tuple _ ⟨field, fits, rfl⟩
      refine (ih tuple).imp ?_
      rintro _ _ ⟨fields, width, allFit, rfl⟩
      refine ⟨field :: fields, by simp [width], ?_, by simp⟩
      intro one inside
      rcases List.mem_cons.mp inside with rfl | later
      · exact fits
      · exact allFit one later

theorem consumes_readTuple (io : TypeFunctions) {rel : PGLogicalRelation} (desc : TupleDesc)
    (tuple : PGLogicalTupleData) (mapped : rel.attmap.length = rel.natts) :
    Consumes (pglogicalReadTuple io rel desc tuple) fun _ front =>
      ∃ fields : Tuple, Tuple.Fits fields ∧ front = encodeTuple fields := by
  refine consumes_byte.bind ?_
  rintro action _ rfl
  refine .ensure fun isTuple => (consumes_int 2).bind ?_
  rintro natts _ ⟨rfl, small⟩
  refine .ensure fun agree => (consumes_readColumns ..).imp ?_
  rintro _ _ ⟨fields, width, allFit, rfl⟩
  have count : fields.length = natts := by
    rw [width, mapped]
    exact of_decide_eq_true agree
  refine ⟨fields, ⟨count ▸ small, allFit⟩, ?_⟩
  rw [encodeTuple, count, eq_of_beq isTuple]
  rfl

/-! ### Relations -/

/-- The arrays of a cache entry have as many elements as the entry says. -/
def ArraysSized (hash : PGLogicalRelationHash) : Prop :=
  ∀ relid, ∀ entry ∈ hash relid, entry.attnames.length = entry.natts ∧
    (entry.reloid ≠ invalidOid → entry.attmap.length = entry.natts)

theorem ArraysSized.cacheUpdate {hash : PGLogicalRelationHash} (sized : ArraysSized hash) (relid : Oid)
    (schemaname relname : CString) (attnames : List CString) :
    ArraysSized (pglogicalRelationCacheUpdate hash relid schemaname relname attnames) := by
  intro other entry present
  unfold pglogicalRelationCacheUpdate at present
  by_cases same : hash.key other = hash.key relid
  · rw [StringHash.enter_same _ same] at present
    cases present
    exact ⟨rfl, fun valid => absurd rfl valid⟩
  · rw [StringHash.enter_of_ne _ same] at present
    exact sized other entry present

theorem consumes_readName : Consumes readName fun _ front =>
    ∃ name : Bytes, name.length < 256 ^ 1 ∧ front = bigEndian 1 name.length ++ name := by
  refine consumes_byte.bind ?_
  rintro len _ rfl
  refine (consumes_cstring _).imp ?_
  rintro _ name width
  exact ⟨name, length_lt_byte width, by rw [bigEndian_byte width]⟩

theorem consumes_readAttr : Consumes readAttr fun _ front =>
    ∃ column : Column, column.name.length < 256 ^ 2 ∧ front = column.encode := by
  refine consumes_byte.bind ?_
  rintro block _ rfl
  refine .ensure fun isColumn => consumes_byte.bind ?_
  rintro flags _ rfl
  refine consumes_byte.bind ?_
  rintro blocktype _ rfl
  refine .ensure fun isName => (consumes_int 2).bind ?_
  rintro len _ ⟨rfl, small⟩
  refine (consumes_cstring len).imp ?_
  rintro _ name rfl
  refine ⟨⟨flags, name⟩, small, ?_⟩
  rw [Column.encode, eq_of_beq isColumn, eq_of_beq isName]
  rfl

theorem consumes_readAttrs (nattrs : ℕ) : Consumes (readAttrs nattrs) fun _ front =>
    ∃ columns : List Column, columns.length = nattrs ∧ (∀ column ∈ columns, column.name.length < 256 ^ 2) ∧
      front = columns.flatMap Column.encode := by
  induction nattrs with
  | zero => exact .pure ⟨[], rfl, by simp, rfl⟩
  | succ nattrs ih =>
    refine consumes_readAttr.bind ?_
    rintro _ _ ⟨column, small, rfl⟩
    refine ih.bind ?_
    rintro _ _ ⟨columns, count, allSmall, rfl⟩
    refine .pure ⟨column :: columns, by rw [List.length_cons, count], ?_, by simp⟩
    intro one inside
    rcases List.mem_cons.mp inside with rfl | later
    · exact small
    · exact allSmall one later

theorem consumes_readRel {hash : PGLogicalRelationHash} (sized : ArraysSized hash) :
    Consumes (pglogicalReadRel hash) fun result front => ArraysSized result.2 ∧
    ∃ flags relid nspname relname columns, (Message.relation flags relid nspname relname columns).Fits ∧
      front = (Message.relation flags relid nspname relname columns).body := by
  refine consumes_byte.bind ?_
  rintro flags _ rfl
  refine consumes_oid.bind ?_
  rintro relid _ rfl
  refine consumes_readName.bind ?_
  rintro _ _ ⟨nspname, shortNsp, rfl⟩
  refine consumes_readName.bind ?_
  rintro _ _ ⟨relname, shortRel, rfl⟩
  have attrs : Consumes pglogicalReadAttrs fun _ front => ∃ columns : List Column, columns.length < 256 ^ 2 ∧
      (∀ column ∈ columns, column.name.length < 256 ^ 2) ∧
      front = 'A'.toUInt8 :: (bigEndian 2 columns.length ++ columns.flatMap Column.encode) := by
    refine consumes_byte.bind ?_
    rintro block _ rfl
    refine .ensure fun isAttrs => (consumes_int 2).bind ?_
    rintro nattrs _ ⟨rfl, small⟩
    refine (consumes_readAttrs nattrs).imp ?_
    rintro _ _ ⟨columns, rfl, allSmall, rfl⟩
    refine ⟨columns, small, allSmall, ?_⟩
    rw [eq_of_beq isAttrs]
    rfl
  refine attrs.bind ?_
  rintro _ _ ⟨columns, few, allSmall, rfl⟩
  refine .pure ⟨sized.cacheUpdate _ _ _ _, flags, relid, nspname, relname, columns, ⟨shortNsp, shortRel, few, allSmall⟩, ?_⟩
  simp [Message.body]

/-! ### Rows -/

variable {session : Session} {hash : PGLogicalRelationHash}

theorem ArraysSized.relationOpen (sized : ArraysSized hash) {relid : Oid} {rel : PGLogicalRelation}
    {table : LocalRelation} {hash' : PGLogicalRelationHash}
    (opened : pglogicalRelationOpen session.catalog hash relid = .ok (rel, table, hash')) :
    rel.attmap.length = rel.natts ∧ ArraysSized hash' := by
  unfold pglogicalRelationOpen at opened
  cases found : hash relid with
  | none =>
    rw [found] at opened
    cases opened
  | some entry =>
    obtain ⟨names, mapped⟩ := sized relid entry found
    simp only [found] at opened
    split at opened
    · obtain ⟨here, _, opened⟩ := Machine.bind_eq_ok.mp opened
      obtain ⟨attmap, looked, opened⟩ := Machine.bind_eq_ok.mp opened
      cases opened
      have width : attmap.length = entry.natts := (Machine.length_of_mapM_eq_ok looked).trans names
      refine ⟨width, fun other known present => ?_⟩
      by_cases same : hash.key other = hash.key relid
      · rw [StringHash.enter_same _ same] at present
        cases present
        exact ⟨names, fun _ => width⟩
      · rw [StringHash.enter_of_ne _ same] at present
        exact sized other known present
    · next valid =>
      obtain ⟨here, _, opened⟩ := Machine.bind_eq_ok.mp opened
      cases opened
      exact ⟨mapped valid, sized⟩

section Rows

variable (session) (sized : ArraysSized hash) (scratch : PGLogicalTupleData)

include sized

theorem consumes_readInsert : Consumes (pglogicalReadInsert session hash scratch) fun result front =>
    ArraysSized result.2.2 ∧ ∃ flags relid new, (Message.insert flags relid new).Fits ∧
      front = (Message.insert flags relid new).body := by
  refine consumes_byte.bind ?_
  rintro flags _ rfl
  refine consumes_oid.bind ?_
  rintro relid _ rfl
  refine consumes_byte.bind ?_
  rintro action _ rfl
  refine .ensure fun isNew => .call ?_
  rintro ⟨rel, table, hash'⟩ opened
  obtain ⟨mapped, sized'⟩ := sized.relationOpen opened
  refine (consumes_readTuple session.io table.desc scratch mapped).bind ?_
  rintro _ _ ⟨new, fits, rfl⟩
  refine .pure ⟨sized', flags, relid, new, fits, ?_⟩
  simp [Message.body, eq_of_beq isNew]

theorem consumes_readDelete : Consumes (pglogicalReadDelete session hash scratch) fun result front =>
    ArraysSized result.2.2 ∧ ∃ flags relid kind old, (Message.delete flags relid kind old).Fits ∧
      front = (Message.delete flags relid kind old).body := by
  refine consumes_byte.bind ?_
  rintro flags _ rfl
  refine consumes_oid.bind ?_
  rintro relid _ rfl
  refine consumes_byte.bind ?_
  rintro action _ rfl
  refine .ensure fun isOld => .call ?_
  rintro ⟨rel, table, hash'⟩ opened
  obtain ⟨mapped, sized'⟩ := sized.relationOpen opened
  obtain ⟨kind, rfl⟩ : ∃ kind : OldTuple, action = kind.code := by
    rcases Bool.or_eq_true_iff.mp isOld with key | full
    · exact ⟨.key, eq_of_beq key⟩
    · exact ⟨.full, eq_of_beq full⟩
  refine (consumes_readTuple session.io table.desc scratch mapped).bind ?_
  rintro _ _ ⟨old, fits, rfl⟩
  refine .pure ⟨sized', flags, relid, kind, old, fits, ?_⟩
  simp [Message.body]

theorem consumes_readUpdate : Consumes (pglogicalReadUpdate session hash scratch scratch) fun result front =>
    ArraysSized result.2.2.2 ∧ ∃ flags relid old new, (Message.update flags relid old new).Fits ∧
      front = (Message.update flags relid old new).body := by
  refine consumes_byte.bind ?_
  rintro flags _ rfl
  refine consumes_oid.bind ?_
  rintro relid _ rfl
  refine consumes_byte.bind ?_
  rintro action _ rfl
  refine .ensure fun _ => .call ?_
  rintro ⟨rel, table, hash'⟩ opened
  obtain ⟨mapped, sized'⟩ := sized.relationOpen opened
  refine .ite (fun isOld => ?_) fun _ => ?_
  · obtain ⟨kind, rfl⟩ : ∃ kind : OldTuple, action = kind.code := by
      rcases Bool.or_eq_true_iff.mp isOld with key | full
      · exact ⟨.key, eq_of_beq key⟩
      · exact ⟨.full, eq_of_beq full⟩
    refine (consumes_readTuple session.io table.desc scratch mapped).bind ?_
    rintro _ _ ⟨old, oldFits, rfl⟩
    refine consumes_byte.bind ?_
    rintro action _ rfl
    refine .ensure fun isNew => ?_
    refine (consumes_readTuple session.io table.desc scratch mapped).bind ?_
    rintro _ _ ⟨new, fits, rfl⟩
    refine .pure ⟨sized', flags, relid, some (kind, old), new, ⟨?_, fits⟩, ?_⟩
    · rintro _ ⟨⟩
      exact oldFits
    · simp [Message.body, encodeOld, eq_of_beq isNew]
  · refine .ensure fun isNew => ?_
    refine (consumes_readTuple session.io table.desc scratch mapped).bind ?_
    rintro _ _ ⟨new, fits, rfl⟩
    refine .pure ⟨sized', flags, relid, none, new, ⟨?_, fits⟩, ?_⟩
    · rintro _ ⟨⟩
    · simp [Message.body, encodeOld, eq_of_beq isNew]

end Rows

/-! ### Startup -/

theorem ensure_ok {condition : Bool} {message : String} {input rest : Bytes} {done : Unit}
    (passed : ensure condition message input = .ok (done, rest)) : condition = true ∧ rest = input := by
  cases condition with
  | false => cases passed
  | true =>
    cases passed
    exact ⟨rfl, rfl⟩

/-- The loop ends only at the end of the message. -/
theorem readStartupParams_ok {fuel : ℕ} {input rest : Bytes} {params : List (CString × CString)}
    (read : readStartupParams fuel input = .ok (params, rest)) :
    rest = [] ∧ input = params.flatMap fun param => param.1.terminated ++ param.2.terminated := by
  induction fuel generalizing input params with
  | zero => cases read
  | succ fuel ih =>
    obtain ⟨k, afterKey, readKey, loop⟩ := bind_ok.mp read
    obtain ⟨_, keySplit, rfl⟩ := consumes_string readKey
    obtain ⟨_, _, named, loop⟩ := bind_ok.mp loop
    cases (ensure_ok named).2
    obtain ⟨_, _, got, loop⟩ := bind_ok.mp loop
    cases got
    obtain ⟨_, _, followed, loop⟩ := bind_ok.mp loop
    cases (ensure_ok followed).2
    obtain ⟨v, afterValue, readValue, loop⟩ := bind_ok.mp loop
    obtain ⟨_, valueSplit, rfl⟩ := consumes_string readValue
    obtain ⟨_, _, got, loop⟩ := bind_ok.mp loop
    cases got
    cases afterValue with
    | nil =>
      cases loop
      exact ⟨rfl, by simp [keySplit, valueSplit]⟩
    | cons byte more =>
      obtain ⟨tail, _, readTail, loop⟩ := bind_ok.mp
        (show (readStartupParams fuel >>= fun tail => pure ((k, v) :: tail)) (byte :: more) = .ok (params, rest) from loop)
      cases loop
      obtain ⟨ended, text⟩ := ih readTail
      exact ⟨ended, by simp [keySplit, valueSplit, text]⟩

theorem readStartup_ok {input rest : Bytes} {params : List (CString × CString)}
    (read : readStartup input = .ok (params, rest)) :
    rest = [] ∧ input = (Message.startup params).body := by
  obtain ⟨version, _, readVersion, afterVersion⟩ := bind_ok.mp read
  obtain ⟨_, split, rfl⟩ := consumes_byte readVersion
  obtain ⟨_, _, checked, afterCheck⟩ := bind_ok.mp afterVersion
  obtain ⟨isOne, rfl⟩ := ensure_ok checked
  obtain ⟨_, _, got, loop⟩ := bind_ok.mp afterCheck
  cases got
  obtain ⟨ended, text⟩ := readStartupParams_ok loop
  refine ⟨ended, ?_⟩
  rw [split, text, eq_of_beq isOne]
  rfl

/-! ### The dispatch -/

/-- How an accepted message is laid out, and that a startup message is read to its end. -/
structure LaidOut (bytes rest : Bytes) (message : Message) : Prop where
  fits : message.Fits
  split : bytes = message.encode ++ rest
  ended : ∀ params, message = .startup params → rest = []

theorem LaidOut.intro {message : Message} {action : UInt8} {rest : Bytes} (fits : message.Fits)
    (typed : action = message.type.toUInt8) (ended : ∀ params, message = .startup params → rest = []) :
    LaidOut ([action] ++ (message.body ++ rest)) rest message :=
  ⟨fits, by rw [typed]; rfl, ended⟩

variable {scratch : PGLogicalTupleData}

/-- A message that is read without an error is laid out as documented, up to the bytes behind it. -/
theorem readMessage_laidOut (sized : ArraysSized hash) {bytes rest : Bytes}
    {result : Native.Message × PGLogicalRelationHash}
    (accepted : readMessage session hash scratch bytes = .ok (result, rest)) :
    ArraysSized result.2 ∧ ∃ message, LaidOut bytes rest message := by
  obtain ⟨action, tail, first, read⟩ := bind_ok.mp accepted
  obtain ⟨_, rfl, rfl⟩ := consumes_byte first
  split at read
  · next typed =>
    obtain ⟨_, _, now, later⟩ := bind_ok.mp read
    cases later
    obtain ⟨_, rfl, flags, lsn, commitTime, xid, rfl⟩ := consumes_readBegin now
    exact ⟨sized, .begin flags lsn commitTime xid, .intro trivial typed nofun⟩
  split at read
  · next typed =>
    obtain ⟨_, _, now, later⟩ := bind_ok.mp read
    cases later
    obtain ⟨_, rfl, flags, commitLsn, endLsn, commitTime, rfl⟩ := consumes_readCommit now
    exact ⟨sized, .commit flags commitLsn endLsn commitTime, .intro trivial typed nofun⟩
  split at read
  · next typed =>
    obtain ⟨_, _, now, later⟩ := bind_ok.mp read
    cases later
    obtain ⟨_, rfl, flags, originLsn, identifier, fits, rfl⟩ := consumes_readOrigin now
    exact ⟨sized, .origin flags originLsn identifier, .intro fits typed nofun⟩
  split at read
  · next typed =>
    obtain ⟨_, _, now, later⟩ := bind_ok.mp read
    cases later
    obtain ⟨_, rfl, sized', flags, relid, nspname, relname, columns, fits, rfl⟩ := consumes_readRel sized now
    exact ⟨sized', .relation flags relid nspname relname columns, .intro fits typed nofun⟩
  split at read
  · next typed =>
    obtain ⟨_, _, now, later⟩ := bind_ok.mp read
    cases later
    obtain ⟨_, rfl, sized', flags, relid, new, fits, rfl⟩ := consumes_readInsert session sized scratch now
    exact ⟨sized', .insert flags relid new, .intro fits typed nofun⟩
  split at read
  · next typed =>
    obtain ⟨_, _, now, later⟩ := bind_ok.mp read
    cases later
    obtain ⟨_, rfl, sized', flags, relid, old, new, fits, rfl⟩ := consumes_readUpdate session sized scratch now
    exact ⟨sized', .update flags relid old new, .intro fits typed nofun⟩
  split at read
  · next typed =>
    obtain ⟨_, _, now, later⟩ := bind_ok.mp read
    cases later
    obtain ⟨_, rfl, sized', flags, relid, kind, old, fits, rfl⟩ := consumes_readDelete session sized scratch now
    exact ⟨sized', .delete flags relid kind old, .intro fits typed nofun⟩
  split at read
  · next typed =>
    obtain ⟨params, _, now, later⟩ := bind_ok.mp read
    cases later
    obtain ⟨rfl, rfl⟩ := readStartup_ok now
    refine ⟨sized, .startup params, trivial, ?_, fun _ _ => rfl⟩
    rw [typed]
    simp [Message.encode, Message.type, Message.body]
  · cases read

/-! ## No encoding starts another one -/

theorem code_inj {kind kind' : FieldKind} (same : kind.code = kind'.code) : kind = kind' := by
  cases kind <;> cases kind' <;> first | rfl | exact absurd same (by decide)

theorem oldCode_inj {kind kind' : OldTuple} (same : kind.code = kind'.code) : kind = kind' := by
  cases kind <;> cases kind' <;> first | rfl | exact absurd same (by decide)

theorem field_inj {field field' : Field} {rest rest' : Bytes} (fits : field.Fits) (fits' : field'.Fits)
    (same : field.encode ++ rest = field'.encode ++ rest') : field = field' ∧ rest = rest' := by
  have null : ∀ kind : FieldKind, kind.code ≠ 'n'.toUInt8 := fun kind => by cases kind <;> decide
  have unchanged : ∀ kind : FieldKind, kind.code ≠ 'u'.toUInt8 := fun kind => by cases kind <;> decide
  cases field <;> cases field' <;>
    simp only [Field.encode, List.cons_append, List.nil_append, List.append_assoc, List.cons.injEq, true_and] at same
  · exact ⟨rfl, same⟩
  · exact absurd same.1 (by decide)
  · exact absurd same.1.symm (null _)
  · exact absurd same.1 (by decide)
  · exact ⟨rfl, same⟩
  · exact absurd same.1.symm (unchanged _)
  · exact absurd same.1 (null _)
  · exact absurd same.1 (unchanged _)
  · obtain ⟨rfl, behind⟩ := sized_inj fits fits' same.2
    cases code_inj same.1
    exact ⟨rfl, behind⟩

theorem tuple_inj {tuple tuple' : Tuple} {rest rest' : Bytes} (fits : Tuple.Fits tuple) (fits' : Tuple.Fits tuple')
    (same : encodeTuple tuple ++ rest = encodeTuple tuple' ++ rest') : tuple = tuple' ∧ rest = rest' := by
  simp only [encodeTuple, List.cons_append, List.append_assoc, List.cons.injEq, true_and] at same
  obtain ⟨count, same⟩ := number_inj fits.1 fits'.1 same
  exact items_inj field_inj count fits.2 fits'.2 same

theorem column_inj {column column' : Column} {rest rest' : Bytes} (fits : column.name.length < 256 ^ 2)
    (fits' : column'.name.length < 256 ^ 2) (same : column.encode ++ rest = column'.encode ++ rest') :
    column = column' ∧ rest = rest' := by
  simp only [Column.encode, List.cons_append, List.append_assoc, List.cons.injEq, true_and] at same
  obtain ⟨flags, same⟩ := same
  obtain ⟨name, behind⟩ := sized_inj fits fits' same
  refine ⟨?_, behind⟩
  cases column
  cases column'
  simp_all

theorem params_inj {params params' : List (CString × CString)}
    (same : (params.flatMap fun param => param.1.terminated ++ param.2.terminated) =
      params'.flatMap fun param => param.1.terminated ++ param.2.terminated) : params = params' := by
  induction params generalizing params' with
  | nil =>
    cases params' with
    | nil => rfl
    | cons param more => simp [CString.terminated] at same
  | cons param more ih =>
    cases params' with
    | nil => simp [CString.terminated] at same
    | cons param' more' =>
      simp only [List.flatMap_cons, List.append_assoc] at same
      obtain ⟨key, same⟩ := CString.terminated_inj same
      obtain ⟨value, same⟩ := CString.terminated_inj same
      rw [ih same, Prod.ext key value]

theorem uint64_inj {a b : UInt64} {rest rest' : Bytes}
    (same : bigEndian 8 a.toNat ++ rest = bigEndian 8 b.toNat ++ rest') : a = b ∧ rest = rest' := by
  obtain ⟨value, behind⟩ := number_inj a.toNat_lt b.toNat_lt same
  exact ⟨UInt64.toNat_inj.mp value, behind⟩

theorem uint32_inj {a b : UInt32} {rest rest' : Bytes}
    (same : bigEndian 4 a.toNat ++ rest = bigEndian 4 b.toNat ++ rest') : a = b ∧ rest = rest' := by
  obtain ⟨value, behind⟩ := number_inj a.toNat_lt b.toNat_lt same
  exact ⟨UInt32.toNat_inj.mp value, behind⟩

theorem old_inj {old old' : Option (OldTuple × Tuple)} {new new' : Bytes}
    (fits : ∀ tuple ∈ old, Tuple.Fits tuple.2) (fits' : ∀ tuple ∈ old', Tuple.Fits tuple.2)
    (same : encodeOld old ++ 'N'.toUInt8 :: new = encodeOld old' ++ 'N'.toUInt8 :: new') :
    old = old' ∧ new = new' := by
  have codes : ∀ kind : OldTuple, kind.code ≠ 'N'.toUInt8 := fun kind => by cases kind <;> decide
  cases old with
  | none =>
    cases old' with
    | none => exact ⟨rfl, (List.cons.inj same).2⟩
    | some tuple' => exact absurd (List.cons.inj same).1.symm (codes tuple'.1)
  | some tuple =>
    cases old' with
    | none => exact absurd (List.cons.inj same).1 (codes tuple.1)
    | some tuple' =>
      obtain ⟨code, same⟩ := List.cons.inj same
      obtain ⟨fields, same⟩ := tuple_inj (fits tuple rfl) (fits' tuple' rfl) same
      have kind : tuple.1 = tuple'.1 := oldCode_inj code
      exact ⟨congrArg some (Prod.ext kind fields), (List.cons.inj same).2⟩

/-- A message and what follows it are determined by the bytes. -/
theorem message_inj {message message' : Message} {rest : Bytes} (laidOut : LaidOut message'.encode rest message)
    (fits' : message'.Fits) : message = message' ∧ rest = [] := by
  obtain ⟨fits, split, ended⟩ := laidOut
  have type : message'.type.toUInt8 = message.type.toUInt8 := (List.cons.inj split).1
  have body : message.body ++ rest = message'.body ++ [] := by
    rw [List.append_nil]
    exact (List.cons.inj split).2.symm
  clear split
  cases message <;> cases message' <;> simp only [Message.type] at type <;> first
    | exact absurd type (by decide)
    | simp only [Message.body, List.cons_append, List.append_assoc, List.cons.injEq] at body
  case begin.begin =>
    obtain ⟨flags, body⟩ := body
    obtain ⟨lsn, body⟩ := uint64_inj body
    obtain ⟨commitTime, body⟩ := uint64_inj body
    obtain ⟨xid, body⟩ := uint32_inj body
    exact ⟨by rw [flags, lsn, commitTime, xid], body⟩
  case commit.commit =>
    obtain ⟨flags, body⟩ := body
    obtain ⟨commitLsn, body⟩ := uint64_inj body
    obtain ⟨endLsn, body⟩ := uint64_inj body
    obtain ⟨commitTime, body⟩ := uint64_inj body
    exact ⟨by rw [flags, commitLsn, endLsn, commitTime], body⟩
  case origin.origin =>
    obtain ⟨flags, body⟩ := body
    obtain ⟨originLsn, body⟩ := uint64_inj body
    obtain ⟨identifier, body⟩ := sized_inj fits fits' body
    exact ⟨by rw [flags, originLsn, identifier], body⟩
  case relation.relation =>
    obtain ⟨flags, body⟩ := body
    obtain ⟨relid, body⟩ := uint32_inj body
    obtain ⟨nspname, body⟩ := sized_inj fits.1 fits'.1 body
    obtain ⟨relname, body⟩ := sized_inj fits.2.1 fits'.2.1 body
    obtain ⟨count, body⟩ := number_inj fits.2.2.1 fits'.2.2.1 (List.cons.inj body).2
    obtain ⟨columns, body⟩ := items_inj column_inj count fits.2.2.2 fits'.2.2.2 body
    exact ⟨by rw [flags, relid, nspname, relname, columns], body⟩
  case insert.insert =>
    obtain ⟨flags, body⟩ := body
    obtain ⟨relid, body⟩ := uint32_inj body
    obtain ⟨new, body⟩ := tuple_inj fits fits' (List.cons.inj body).2
    exact ⟨by rw [flags, relid, new], body⟩
  case update.update =>
    obtain ⟨flags, body⟩ := body
    obtain ⟨relid, body⟩ := uint32_inj body
    obtain ⟨old, body⟩ := old_inj fits.1 fits'.1 body
    obtain ⟨new, body⟩ := tuple_inj fits.2 fits'.2 body
    exact ⟨by rw [flags, relid, old, new], body⟩
  case delete.delete =>
    obtain ⟨flags, body⟩ := body
    obtain ⟨relid, body⟩ := uint32_inj body
    obtain ⟨kind, body⟩ := List.cons.inj body
    obtain ⟨old, body⟩ := tuple_inj fits fits' body
    exact ⟨by rw [flags, relid, oldCode_inj kind, old], body⟩
  case startup.startup params params' =>
    have atEnd := ended _ rfl
    rw [atEnd, List.append_nil, List.append_nil] at body
    exact ⟨congrArg Message.startup (params_inj body.2), atEnd⟩

/-! ## What is not checked -/

theorem arraysSized_empty : ArraysSized (.create false) := by
  intro relid entry present
  cases present

/-- An accepted message is laid out as documented, up to unread bytes. It is well formed exactly if there
are none, no reserved flag is set and the strings are terminated at their lengths. -/
theorem accepted_message_wellFormed_iff (session : Session) (hash : PGLogicalRelationHash)
    (scratch : PGLogicalTupleData) (bytes rest : Bytes) (result : Native.Message × PGLogicalRelationHash)
    (sized : ArraysSized hash) (accepted : readMessage session hash scratch bytes = .ok (result, rest)) :
    ∃ message : Message, message.Fits ∧ bytes = message.encode ++ rest ∧
      (WellFormed bytes ↔ rest = [] ∧ message.FlagsClear ∧ message.Terminated) := by
  obtain ⟨-, message, laidOut⟩ := readMessage_laidOut sized accepted
  refine ⟨message, laidOut.fits, laidOut.split, ?_, ?_⟩
  · rintro ⟨message', fits', flags, terminated, rfl⟩
    obtain ⟨rfl, ended⟩ := message_inj laidOut fits'
    exact ⟨ended, flags, terminated⟩
  · rintro ⟨rfl, flags, terminated⟩
    exact ⟨message, laidOut.fits, flags, terminated, by rw [laidOut.split, List.append_nil]⟩

def sampleScratch : PGLogicalTupleData := ⟨fun _ => .byval 0, fun _ => false, fun _ => false⟩

/-- A BEGIN with clear flags and nothing behind it. -/
theorem accepted_begin_wellFormed :
    ∃ message : Message, message.Fits ∧
      [66, 0, 0, 0, 0, 0, 0, 0, 0, 100, 0, 0, 0, 0, 0, 0, 0, 5, 0, 0, 0, 7] = message.encode ++ [] ∧
      (WellFormed [66, 0, 0, 0, 0, 0, 0, 0, 0, 100, 0, 0, 0, 0, 0, 0, 0, 5, 0, 0, 0, 7] ↔
        [] = ([] : Bytes) ∧ message.FlagsClear ∧ message.Terminated) :=
  accepted_message_wellFormed_iff ⟨sampleTypes, sampleSession⟩ (.create false) sampleScratch
    [66, 0, 0, 0, 0, 0, 0, 0, 0, 100, 0, 0, 0, 0, 0, 0, 0, 5, 0, 0, 0, 7] [] (.begin 100 5 7, .create false)
    arraysSized_empty rfl

/-- A BEGIN with a reserved flag and a byte behind it is accepted. -/
theorem malformed_begin_accepted :
    (∃ result, readMessage ⟨sampleTypes, sampleSession⟩ (.create false) sampleScratch
      [66, 1, 0, 0, 0, 0, 0, 0, 0, 100, 0, 0, 0, 0, 0, 0, 0, 5, 0, 0, 0, 7, 9] = .ok (result, [9])) ∧
    ¬ WellFormed [66, 1, 0, 0, 0, 0, 0, 0, 0, 100, 0, 0, 0, 0, 0, 0, 0, 5, 0, 0, 0, 7, 9] := by
  refine ⟨⟨(.begin 100 5 7, .create false), rfl⟩, ?_⟩
  rintro ⟨message, fits, -, -, encoded⟩
  have laidOut : LaidOut message.encode [9] (.begin 1 100 5 7) :=
    ⟨trivial, by rw [← encoded]; decide, nofun⟩
  cases (message_inj laidOut fits).2

end PGLogical.Format
