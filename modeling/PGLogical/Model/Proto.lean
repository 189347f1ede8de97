import PGLogical.Model.Relcache

/-! # The native protocol, reading side

The apply worker reads a message from the buffer it arrived in. Tuples are converted to the column
positions of the local table on the way. Assertions are not compiled into a production build and
have no counterpart here.
-/

namespace PGLogical.Native

open Wire

/-- The arrays a tuple is read into, by local column position. -/
structure PGLogicalTupleData where
  values : ℕ → Datum
  nulls : ℕ → Bool
  changed : ℕ → Bool

/-- What a message carries once it has been read. -/
inductive Message where
  | begin (remoteLsn : UInt64) (committime : Int64) (remoteXid : UInt32)
  | commit (commitLsn endLsn : UInt64) (committime : Int64)
  | origin (originLsn : UInt64) (origin : CString)
  | relation (relid : Oid)
  | insert (rel : PGLogicalRelation) (newtup : PGLogicalTupleData)
  | update (rel : PGLogicalRelation) (oldtup : Option PGLogicalTupleData) (newtup : PGLogicalTupleData)
  | delete (rel : PGLogicalRelation) (oldtup : PGLogicalTupleData)
  | startup (params : List (CString × CString))

/-- What the readers consult besides the message. -/
structure Session where
  io : TypeFunctions
  catalog : LocalCatalog

def pqGetmsgOid : Reader Oid := return UInt32.ofNat (← pqGetmsgint 4)

def pqGetmsgLsn : Reader UInt64 := return (← pqGetmsgint64).toUInt64

def chr (byte : UInt8) : Char := Char.ofNat byte.toNat

def pglogicalReadBegin : Reader (UInt64 × Int64 × UInt32) := do
  let _flags ← pqGetmsgbyte
  let remoteLsn ← pqGetmsgLsn
  let committime ← pqGetmsgint64
  let remoteXid ← pqGetmsgOid
  return (remoteLsn, committime, remoteXid)

def pglogicalReadCommit : Reader (UInt64 × UInt64 × Int64) := do
  let _flags ← pqGetmsgbyte
  let commitLsn ← pqGetmsgLsn
  let endLsn ← pqGetmsgLsn
  let committime ← pqGetmsgint64
  return (commitLsn, endLsn, committime)

/-- The name is copied with its length, then used as a C string. -/
def pglogicalReadOrigin : Reader (UInt64 × CString) := do
  let _flags ← pqGetmsgbyte
  let originLsn ← pqGetmsgLsn
  let len ← pqGetmsgbyte
  let copied ← pqGetmsgbytes len.toNat
  return (originLsn, CString.ofBytes copied)

def PGLogicalTupleData.set (tuple : PGLogicalTupleData) (attid : ℕ) (value : Datum) : PGLogicalTupleData :=
  { values := Function.update tuple.values attid value
    nulls := Function.update tuple.nulls attid false
    changed := Function.update tuple.changed attid true }

def readInternal (io : TypeFunctions) (att : FormPgAttribute) : Reader Datum := do
  let len ← pqGetmsgint 4
  let data ← pqGetmsgbytes len
  return if att.attbyval then .byval (io.fetchAtt data len) else .byref data

def readBinary (io : TypeFunctions) (att : FormPgAttribute) : Reader Datum := do
  let len ← pqGetmsgint 4
  let data ← pqGetmsgbytes len
  let (value, cursor) ← io.typreceive att.atttypid att.atttypmod data
  ensure (len == cursor) "incorrect binary data format"
  return value

def readText (io : TypeFunctions) (att : FormPgAttribute) : Reader Datum := do
  let len ← pqGetmsgint 4
  let data ← pqGetmsgCString len
  io.typinput att.atttypid att.atttypmod data

/-- The body of the loop of `pglogical_read_tuple`. -/
def readColumn (io : TypeFunctions) (att : FormPgAttribute) (attid : ℕ) (tuple : PGLogicalTupleData) :
    Reader PGLogicalTupleData := do
  let kind ← pqGetmsgbyte
  if kind = 'n'.toUInt8 then
    return { tuple with
      values := Function.update tuple.values attid (.byval 0xdeadbeef)
      changed := Function.update tuple.changed attid true }
  else if kind = 'u'.toUInt8 then
    return { tuple with values := Function.update tuple.values attid (.byval 0xfbadbeef) }
  else if kind = 'i'.toUInt8 then
    return tuple.set attid (← readInternal io att)
  else if kind = 'b'.toUInt8 then
    return tuple.set attid (← readBinary io att)
  else if kind = 't'.toUInt8 then
    return tuple.set attid (← readText io att)
  else
    throw s!"unknown data representation type '{chr kind}'"

/-- The loop itself, over the column map. A position outside the descriptor does not occur. -/
def readColumns (io : TypeFunctions) (desc : TupleDesc) : List ℕ → PGLogicalTupleData → Reader PGLogicalTupleData
  | [], tuple => pure tuple
  | attid :: rest, tuple =>
      match desc.attrs[attid]? with
      | none => throw "attribute position out of range"
      | some att => do
          let tuple ← readColumn io att attid tuple
          readColumns io desc rest tuple

def pglogicalReadTuple (io : TypeFunctions) (rel : PGLogicalRelation) (desc : TupleDesc) (tuple : PGLogicalTupleData) :
    Reader PGLogicalTupleData := do
  let action ← pqGetmsgbyte
  ensure (action == 'T'.toUInt8) s!"expected TUPLE, got {chr action}"
  let natts ← pqGetmsgint 2
  ensure (rel.natts == natts) s!"tuple natts mismatch, {rel.natts} vs {natts}"
  readColumns io desc rel.attmap { tuple with nulls := fun _ => true, changed := fun _ => false }

/-- One column definition; the flags are not looked at. -/
def readAttr : Reader CString := do
  let blocktype ← pqGetmsgbyte
  ensure (blocktype == 'C'.toUInt8) s!"expected COLUMN, got {chr blocktype}"
  let _flags ← pqGetmsgbyte
  let blocktype ← pqGetmsgbyte
  ensure (blocktype == 'N'.toUInt8) s!"expected NAME, got {chr blocktype}"
  let len ← pqGetmsgint 2
  pqGetmsgCString len

def readAttrs : ℕ → Reader (List CString)
  | 0 => pure []
  | nattrs + 1 => do
      let attr ← readAttr
      return attr :: (← readAttrs nattrs)

def pglogicalReadAttrs : Reader (List CString) := do
  let blocktype ← pqGetmsgbyte
  ensure (blocktype == 'A'.toUInt8) s!"expected ATTRS, got {chr blocktype}"
  let nattrs ← pqGetmsgint 2
  readAttrs nattrs

def readName : Reader CString := do
  let len ← pqGetmsgbyte
  pqGetmsgCString len.toNat

def pglogicalReadRel (hash : PGLogicalRelationHash) : Reader (Oid × PGLogicalRelationHash) := do
  let _flags ← pqGetmsgbyte
  let relid ← pqGetmsgOid
  let schemaname ← readName
  let relname ← readName
  let attrnames ← pglogicalReadAttrs
  return (relid, pglogicalRelationCacheUpdate hash relid schemaname relname attrnames)

def pglogicalReadInsert (session : Session) (hash : PGLogicalRelationHash) (newtup : PGLogicalTupleData) :
    Reader (PGLogicalRelation × PGLogicalTupleData × PGLogicalRelationHash) := do
  let _flags ← pqGetmsgbyte
  let relid ← pqGetmsgOid
  let action ← pqGetmsgbyte
  ensure (action == 'N'.toUInt8) s!"expected new tuple but got {action}"
  let (rel, table, hash) ← pglogicalRelationOpen session.catalog hash relid
  let newtup ← pglogicalReadTuple session.io rel table.desc newtup
  return (rel, newtup, hash)

/-- The old tuple is returned only when the message has one (`hasoldtup`). -/
def pglogicalReadUpdate (session : Session) (hash : PGLogicalRelationHash) (oldtup newtup : PGLogicalTupleData) :
    Reader (PGLogicalRelation × Option PGLogicalTupleData × PGLogicalTupleData × PGLogicalRelationHash) := do
  let _flags ← pqGetmsgbyte
  let relid ← pqGetmsgOid
  let action ← pqGetmsgbyte
  ensure (action == 'K'.toUInt8 || action == 'O'.toUInt8 || action == 'N'.toUInt8)
    s!"expected action 'N', 'O' or 'K', got {chr action}"
  let (rel, table, hash) ← pglogicalRelationOpen session.catalog hash relid
  if action == 'K'.toUInt8 || action == 'O'.toUInt8 then
    let oldtup ← pglogicalReadTuple session.io rel table.desc oldtup
    let action ← pqGetmsgbyte
    ensure (action == 'N'.toUInt8) s!"expected action 'N', got {chr action}"
    let newtup ← pglogicalReadTuple session.io rel table.desc newtup
    return (rel, some oldtup, newtup, hash)
  else
    ensure (action == 'N'.toUInt8) s!"expected action 'N', got {chr action}"
    let newtup ← pglogicalReadTuple session.io rel table.desc newtup
    return (rel, none, newtup, hash)

def pglogicalReadDelete (session : Session) (hash : PGLogicalRelationHash) (oldtup : PGLogicalTupleData) :
    Reader (PGLogicalRelation × PGLogicalTupleData × PGLogicalRelationHash) := do
  let _flags ← pqGetmsgbyte
  let relid ← pqGetmsgOid
  let action ← pqGetmsgbyte
  ensure (action == 'K'.toUInt8 || action == 'O'.toUInt8) s!"expected action 'O' or 'K' {chr action}"
  let (rel, table, hash) ← pglogicalRelationOpen session.catalog hash relid
  let oldtup ← pglogicalReadTuple session.io rel table.desc oldtup
  return (rel, oldtup, hash)

/-- The loop of `handle_startup`. A pair takes at least two bytes, so the fuel is never used up while
there is input left. -/
def readStartupParams : ℕ → Reader (List (CString × CString))
  | 0 => throw "invalid string in message"
  | fuel + 1 => do
      let k ← pqGetmsgstring
      ensure (k.strlen != 0) "invalid startup message: key has zero length"
      ensure (!(← get).isEmpty) s!"invalid startup message: key '{k.toString}' has no following value"
      let v ← pqGetmsgstring
      if (← get).isEmpty then return [(k, v)]
      else return (k, v) :: (← readStartupParams fuel)

def readStartup : Reader (List (CString × CString)) := do
  let msgver ← pqGetmsgbyte
  ensure (msgver == 1) s!"Expected startup message version 1, but got {msgver}"
  readStartupParams (← get).length

/-- The dispatch of `replication_handler`, up to the point where a message has been read. The tuple
arrays are stack memory of the handlers, so their initial contents are arbitrary. -/
def readMessage (session : Session) (hash : PGLogicalRelationHash) (scratch : PGLogicalTupleData) :
    Reader (Message × PGLogicalRelationHash) := do
  let action ← pqGetmsgbyte
  if action = 'B'.toUInt8 then
    let (remoteLsn, committime, remoteXid) ← pglogicalReadBegin
    return (.begin remoteLsn committime remoteXid, hash)
  else if action = 'C'.toUInt8 then
    let (commitLsn, endLsn, committime) ← pglogicalReadCommit
    return (.commit commitLsn endLsn committime, hash)
  else if action = 'O'.toUInt8 then
    let (originLsn, origin) ← pglogicalReadOrigin
    return (.origin originLsn origin, hash)
  else if action = 'R'.toUInt8 then
    let (relid, hash) ← pglogicalReadRel hash
    return (.relation relid, hash)
  else if action = 'I'.toUInt8 then
    let (rel, newtup, hash) ← pglogicalReadInsert session hash scratch
    return (.insert rel newtup, hash)
  else if action = 'U'.toUInt8 then
    let (rel, oldtup, newtup, hash) ← pglogicalReadUpdate session hash scratch scratch
    return (.update rel oldtup newtup, hash)
  else if action = 'D'.toUInt8 then
    let (rel, oldtup, hash) ← pglogicalReadDelete session hash scratch
    return (.delete rel oldtup, hash)
  else if action = 'S'.toUInt8 then
    return (.startup (← readStartup), hash)
  else
    throw s!"unknown action of type {chr action}"

end PGLogical.Native
