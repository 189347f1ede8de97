import PGLogical.Model.Relation

/-! # The native protocol, writing side

The output plugin writes one message per decoded event. A relation is described once, by name and
column names; row messages refer to it by its identifier and carry the live, listed columns in
table order, each as NULL, as an unchanged TOAST pointer, or as a value in one of three formats.
-/

namespace PGLogical.Native

open Wire

/-- The negotiated transfer mode, from `PGLogicalOutputData`. -/
structure PGLogicalOutputData where
  allowInternalBasetypes : Bool
  allowBinaryBasetypes : Bool
deriving DecidableEq

/-- What a decoded transaction is announced with. -/
structure ReorderBufferTXN where
  xid : UInt32
  finalLsn : UInt64
  endLsn : UInt64
  commitTime : Int64
deriving DecidableEq

/-- The system catalogs a writer looks names and types up in. -/
structure Catalog where
  getNamespaceName : Oid → Option NameData
  typeForm : Oid → Option FormPgType
  io : TypeFunctions

def firstNormalObjectId : Oid := 16384

/-- Make the executive decision about which protocol to use. -/
def decideDatumTransfer (att : FormPgAttribute) (typclass : FormPgType)
    (allowInternalBasetypes allowBinaryBasetypes : Bool) : Char :=
  if allowInternalBasetypes ∧ typclass.typtype = 'b' ∧ att.atttypid < firstNormalObjectId ∧
      typclass.typelem = invalidOid then 'i'
  else if allowBinaryBasetypes ∧ typclass.typreceive ≠ invalidOid ∧
      (att.atttypid < firstNormalObjectId ∨ typclass.typtype ≠ 'c') ∧
      (att.atttypid < firstNormalObjectId ∨ typclass.typelem = invalidOid) then 'b'
  else 't'

/-- Internal format. Only a base type of variable C-string length is left without a case. -/
def writeInternal (io : TypeFunctions) (att : FormPgAttribute) (datum : Datum) : Writer Unit := do
  pqSendbyte 'i'.toUInt8
  if att.attbyval then
    pqSendint att.attlen.toNat 4
    appendBinaryStringInfo (io.storeAttByval datum.word att.attlen.toNat)
  else if 0 < att.attlen then
    pqSendint att.attlen.toNat 4
    appendBinaryStringInfo (datum.data.take att.attlen.toNat)
  else if att.attlen = -1 then
    pqSendint datum.data.length 4
    appendBinaryStringInfo datum.data
  else
    throw "unsupported tuple type"

def writeBinary (io : TypeFunctions) (att : FormPgAttribute) (datum : Datum) : Writer Unit := do
  pqSendbyte 'b'.toUInt8
  let outputbytes ← io.typsend att.atttypid datum
  pqSendint outputbytes.length 4
  appendBinaryStringInfo outputbytes

def writeText (io : TypeFunctions) (att : FormPgAttribute) (datum : Datum) : Writer Unit := do
  pqSendbyte 't'.toUInt8
  let outputstr ← io.typoutput att.atttypid datum
  pqSendint (outputstr.strlen + 1) 4
  appendBinaryStringInfo outputstr.terminated

/-- The body of the second loop of `pglogical_write_tuple`. -/
def writeColumn (catalog : Catalog) (data : PGLogicalOutputData) (att : FormPgAttribute) :
    Option Datum → Writer Unit
  | none => pqSendbyte 'n'.toUInt8
  | some datum =>
      if att.attlen = -1 ∧ datum.isExternalOndisk then pqSendbyte 'u'.toUInt8
      else match catalog.typeForm att.atttypid with
        | none => throw s!"cache lookup failed for type {att.atttypid}"
        | some typclass =>
            match decideDatumTransfer att typclass data.allowInternalBasetypes data.allowBinaryBasetypes with
            | 'i' => writeInternal catalog.io att datum
            | 'b' => writeBinary catalog.io att datum
            | _ => writeText catalog.io att datum

def writeColumns (catalog : Catalog) (data : PGLogicalOutputData) :
    List (FormPgAttribute × Option Datum) → Writer Unit
  | [] => pure ()
  | (att, value) :: rest => do
      writeColumn catalog data att value
      writeColumns catalog data rest

def pglogicalWriteTuple (catalog : Catalog) (data : PGLogicalOutputData) {desc : TupleDesc}
    (tuple : HeapTuple desc) (attList : Option Bitmapset) : Writer Unit := do
  pqSendbyte 'T'.toUInt8
  let nliveatts := (desc.sentAttributes attList).length
  pqSendint nliveatts 2
  enlargeStringInfo (tuple.tLen + nliveatts * (1 + 4))
  writeColumns catalog data (tuple.sentColumns attList)

def isReplicaIdentity : UInt8 := 1

/-- A column definition: its replica identity flag and its terminated name. -/
def writeAttr (identityKey : Bitmapset) (att : FormPgAttribute) : Writer Unit := do
  pqSendbyte 'C'.toUInt8
  pqSendbyte (if att.member ∈ identityKey then isReplicaIdentity else 0)
  pqSendbyte 'N'.toUInt8
  pqSendint (att.attname.str.strlen + 1) 2
  pqSendbytes att.attname.str.terminated

def writeAttrs (identityKey : Bitmapset) : List FormPgAttribute → Writer Unit
  | [] => pure ()
  | att :: rest => do
      writeAttr identityKey att
      writeAttrs identityKey rest

def pglogicalWriteAttrs (rel : Relation) (attList : Option Bitmapset) : Writer Unit := do
  pqSendbyte 'A'.toUInt8
  pqSendint (rel.desc.sentAttributes attList).length 2
  writeAttrs rel.identityKey (rel.desc.sentAttributes attList)

/-- A name with its one-byte length, terminator included. -/
def writeName (name : NameData) : Writer Unit := do
  pqSendbyte (UInt8.ofNat (name.str.strlen + 1))
  pqSendbytes name.str.terminated

def pglogicalWriteRel (catalog : Catalog) (rel : Relation) (attList : Option Bitmapset) : Writer Unit := do
  pqSendbyte 'R'.toUInt8
  pqSendbyte 0
  pqSendint rel.relid.toNat 4
  match catalog.getNamespaceName rel.relnamespace with
  | none => throw s!"cache lookup failed for namespace {rel.relnamespace}"
  | some nspname =>
      writeName nspname
      writeName rel.relname
      pglogicalWriteAttrs rel attList

def pglogicalWriteBegin (txn : ReorderBufferTXN) : Writer Unit := do
  pqSendbyte 'B'.toUInt8
  pqSendbyte 0
  pqSendint64 txn.finalLsn.toInt64
  pqSendint64 txn.commitTime
  pqSendint txn.xid.toNat 4

def pglogicalWriteCommit (txn : ReorderBufferTXN) (commitLsn : UInt64) : Writer Unit := do
  pqSendbyte 'C'.toUInt8
  pqSendbyte 0
  pqSendint64 commitLsn.toInt64
  pqSendint64 txn.endLsn.toInt64
  pqSendint64 txn.commitTime

def pglogicalWriteOrigin (origin : CString) (originLsn : UInt64) : Writer Unit := do
  pqSendbyte 'O'.toUInt8
  pqSendbyte 0
  pqSendint64 originLsn.toInt64
  pqSendbyte (UInt8.ofNat (origin.strlen + 1))
  pqSendbytes origin.terminated

/-- What the three row messages start with: the action, the flags and the relation. -/
def writeRowHeader (action : Char) (rel : Relation) : Writer Unit := do
  pqSendbyte action.toUInt8
  pqSendbyte 0
  pqSendint rel.relid.toNat 4

def pglogicalWriteInsert (catalog : Catalog) (data : PGLogicalOutputData) (rel : Relation)
    (newtuple : HeapTuple rel.desc) (attList : Option Bitmapset) : Writer Unit := do
  writeRowHeader 'I' rel
  pqSendbyte 'N'.toUInt8
  pglogicalWriteTuple catalog data newtuple attList

/-- The old key is there only when logical decoding delivers one. -/
def writeOldKey (catalog : Catalog) (data : PGLogicalOutputData) (rel : Relation)
    (attList : Option Bitmapset) : Option (HeapTuple rel.desc) → Writer Unit
  | none => pure ()
  | some oldtuple => do
      pqSendbyte 'K'.toUInt8
      pglogicalWriteTuple catalog data oldtuple attList

def pglogicalWriteUpdate (catalog : Catalog) (data : PGLogicalOutputData) (rel : Relation)
    (oldtuple : Option (HeapTuple rel.desc)) (newtuple : HeapTuple rel.desc)
    (attList : Option Bitmapset) : Writer Unit := do
  writeRowHeader 'U' rel
  writeOldKey catalog data rel attList oldtuple
  pqSendbyte 'N'.toUInt8
  pglogicalWriteTuple catalog data newtuple attList

def pglogicalWriteDelete (catalog : Catalog) (data : PGLogicalOutputData) (rel : Relation)
    (oldtuple : HeapTuple rel.desc) (attList : Option Bitmapset) : Writer Unit := do
  writeRowHeader 'D' rel
  pqSendbyte 'K'.toUInt8
  pglogicalWriteTuple catalog data oldtuple attList

end PGLogical.Native
