import PGLogical.Model.ProtoNative

/-! # The JSON protocol

The second output format. A row is written by the server's `row_to_json`, whole: the writers are
given the column list and do not look at it. There is no RELATION and no ORIGIN message. The texts
that the server's functions produce are a parameter, `JsonFunctions`.
-/

namespace PGLogical.Json

open Wire Native

/-- What a transaction is announced with in either format. -/
structure ReorderBufferTXN extends Native.ReorderBufferTXN where
  hasCatalogChanges : Bool
  originId : UInt16
  firstLsn : UInt64
  originLsn : UInt64
deriving DecidableEq

def invalidRepOriginId : UInt16 := 0

def maxDateLen : ℕ := 128

/-- Functions of the server that yield text. A TOAST pointer can be followed only while its chunks are
there. -/
structure JsonFunctions where
  /-- A static buffer of the server. -/
  timestamptzToStr : Int64 → { text : Bytes // text.length ≤ maxDateLen }
  escapeJson : CString → Bytes
  datumToJson : Oid → Datum → Except String Bytes
  detoast : Bytes → Except String Bytes

/-- The bytes of a constant of the source. -/
def text (s : String) : Bytes := s.toList.map fun c => UInt8.ofNat c.toNat

def appendStringInfoString (s : String) : Writer Unit := appendBinaryStringInfo (text s)

/-- `%u` -/
def decimal (n : ℕ) : String := String.ofList (Nat.toDigits 10 n)

/-- `%X` -/
def hex (n : ℕ) : String := String.ofList ((Nat.toDigits 16 n).map Char.toUpper)

/-- `%X/%X` -/
def lsnText (lsn : UInt64) : String := hex (lsn.toNat / 2 ^ 32) ++ "/" ++ hex (lsn.toNat % 2 ^ 32)

def jsonWriteOriginId (txn : ReorderBufferTXN) : Writer Unit :=
  if txn.originId ≠ invalidRepOriginId then
    appendStringInfoString (", \"origin_id\":\"" ++ decimal txn.originId.toNat ++ "\"")
  else pure ()

def jsonWriteCommitTime (functions : JsonFunctions) (txn : ReorderBufferTXN) : Writer Unit :=
  if txn.commitTime ≠ 0 then
    appendBinaryStringInfo
      (text ", \"commit_time\":\"" ++ (functions.timestamptzToStr txn.commitTime).val ++ text "\"")
  else pure ()

/-- The part of BEGIN that a client can do without. -/
def jsonWriteBeginTxinfo (functions : JsonFunctions) (clientNoTxinfo : Bool) (txn : ReorderBufferTXN) : Writer Unit :=
  if clientNoTxinfo then pure ()
  else do
    appendStringInfoString (", \"xid\":\"" ++ decimal txn.xid.toNat ++ "\"")
    appendStringInfoString (", \"first_lsn\":\"" ++ lsnText txn.firstLsn ++ "\"")
    appendStringInfoString (", \"origin_lsn\":\"" ++ lsnText txn.originLsn ++ "\"")
    jsonWriteCommitTime functions txn

def pglogicalJsonWriteBegin (functions : JsonFunctions) (clientNoTxinfo : Bool) (txn : ReorderBufferTXN) :
    Writer Unit := do
  appendStringInfoString "\x7b"
  appendStringInfoString "\"action\":\"B\""
  appendStringInfoString (", \"has_catalog_changes\":\"" ++ (if txn.hasCatalogChanges then "t" else "f") ++ "\"")
  jsonWriteOriginId txn
  jsonWriteBeginTxinfo functions clientNoTxinfo txn
  appendStringInfoString "\x7d"

def jsonWriteCommitTxinfo (clientNoTxinfo : Bool) (txn : ReorderBufferTXN) : Writer Unit :=
  if clientNoTxinfo then pure ()
  else do
    appendStringInfoString (", \"final_lsn\":\"" ++ lsnText txn.finalLsn ++ "\"")
    appendStringInfoString (", \"end_lsn\":\"" ++ lsnText txn.endLsn ++ "\"")

def pglogicalJsonWriteCommit (clientNoTxinfo : Bool) (txn : ReorderBufferTXN) (_commitLsn : UInt64) :
    Writer Unit := do
  appendStringInfoString "\x7b"
  appendStringInfoString "\"action\":\"C\""
  jsonWriteCommitTxinfo clientNoTxinfo txn
  appendStringInfoString "\x7d"

/-- The columns `row_to_json` visits: all but the dropped ones. -/
def jsonColumns {desc : TupleDesc} (tuple : HeapTuple desc) : List (FormPgAttribute × Option Datum) :=
  (desc.attrs.zip tuple.values).filter (!·.1.attisdropped)

/-- `heap_copy_tuple_as_datum` leaves no pointer into a TOAST table. -/
def flatten (functions : JsonFunctions) : Datum → Except String Datum
  | .byval word => .ok (.byval word)
  | .byref bytes => .ok (.byref bytes)
  | .externalOndisk pointer => .byref <$> functions.detoast pointer
  | .externalIndirect target => .ok (.byref target)

def columnToJson (functions : JsonFunctions) (att : FormPgAttribute) : Option Datum → Except String Bytes
  | none => .ok (text "null")
  | some datum => do functions.datumToJson att.atttypid (← flatten functions datum)

/-- `composite_to_json` -/
def columnsToJson (functions : JsonFunctions) : List (FormPgAttribute × Option Datum) → Except String Bytes
  | [] => .ok []
  | (att, value) :: rest => do
      let value ← columnToJson functions att value
      let others ← columnsToJson functions rest
      let comma := if rest.isEmpty then [] else text ","
      return functions.escapeJson att.attname.str ++ text ":" ++ value ++ comma ++ others

def rowToJson (functions : JsonFunctions) {desc : TupleDesc} (tuple : HeapTuple desc) : Except String Bytes := do
  return text "\x7b" ++ (← columnsToJson functions (jsonColumns tuple)) ++ text "\x7d"

def jsonWriteTuple (functions : JsonFunctions) {desc : TupleDesc} (tuple : HeapTuple desc) : Writer Unit := do
  appendBinaryStringInfo (← rowToJson functions tuple)

/-- A tuple under its key, if there is one. -/
def jsonWriteTuple? (functions : JsonFunctions) {desc : TupleDesc} (key : String) :
    Option (HeapTuple desc) → Writer Unit
  | none => pure ()
  | some tuple => do
      appendStringInfoString key
      jsonWriteTuple functions tuple

/-- Names are written as they are; the name of a schema that is gone prints as a NULL pointer does. -/
def pglogicalJsonWriteChange (functions : JsonFunctions) (catalog : Catalog) (change : String) (rel : Relation)
    (oldtuple newtuple : Option (HeapTuple rel.desc)) : Writer Unit := do
  appendStringInfoString "\x7b"
  let nspname := match catalog.getNamespaceName rel.relnamespace with
    | none => text "(null)"
    | some nspname => nspname.str.val
  appendBinaryStringInfo (text ("\"action\":\"" ++ change ++ "\",\"relation\":[\"") ++ nspname ++ text "\",\"" ++
    rel.relname.str.val ++ text "\"]")
  jsonWriteTuple? functions ",\"oldtuple\":" oldtuple
  jsonWriteTuple? functions ",\"newtuple\":" newtuple
  appendStringInfoString "\x7d"

def pglogicalJsonWriteInsert (functions : JsonFunctions) (catalog : Catalog) (rel : Relation)
    (newtuple : HeapTuple rel.desc) (_attList : Option Bitmapset) : Writer Unit :=
  pglogicalJsonWriteChange functions catalog "I" rel none (some newtuple)

def pglogicalJsonWriteUpdate (functions : JsonFunctions) (catalog : Catalog) (rel : Relation)
    (oldtuple : Option (HeapTuple rel.desc)) (newtuple : HeapTuple rel.desc) (_attList : Option Bitmapset) :
    Writer Unit :=
  pglogicalJsonWriteChange functions catalog "U" rel oldtuple (some newtuple)

def pglogicalJsonWriteDelete (functions : JsonFunctions) (catalog : Catalog) (rel : Relation)
    (oldtuple : HeapTuple rel.desc) (_attList : Option Bitmapset) : Writer Unit :=
  pglogicalJsonWriteChange functions catalog "D" rel (some oldtuple) none

/-- The loop over the parameters; all but the first follow a comma. -/
def jsonWriteParams (functions : JsonFunctions) : Bool → List (CString × CString) → Writer Unit
  | _, [] => pure ()
  | first, (defname, arg) :: rest => do
      if !first then appendStringInfoString ","
      appendBinaryStringInfo (functions.escapeJson defname)
      appendStringInfoString ":"
      appendBinaryStringInfo (functions.escapeJson arg)
      jsonWriteParams functions false rest

def jsonWriteStartupMessage (functions : JsonFunctions) (msg : List (CString × CString)) : Writer Unit := do
  appendStringInfoString "\x7b\"action\":\"S\", \"params\": \x7b"
  jsonWriteParams functions true msg
  appendStringInfoString "\x7d\x7d"

end PGLogical.Json
