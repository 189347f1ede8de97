import PGLogical.Wire.StringInfo

/-! # The documented message format

The layout of the native protocol's messages, from `doc/protocol.txt`, with the fields as they stand in
the message: flags as sent, and names as the bytes of the given length. `Documented` has the rules
that the documentation makes about them: reserved flags are not set, and strings are terminated.
-/

namespace PGLogical.Format

open Wire

inductive FieldKind where
  | internal
  | binary
  | text
deriving DecidableEq

def FieldKind.code : FieldKind → UInt8
  | .internal => 'i'.toUInt8
  | .binary => 'b'.toUInt8
  | .text => 't'.toUInt8

/-- A tuple field value, abbreviated or full. -/
inductive Field where
  | null
  | unchanged
  | full (kind : FieldKind) (data : Bytes)

def Field.encode : Field → Bytes
  | .null => ['n'.toUInt8]
  | .unchanged => ['u'.toUInt8]
  | .full kind data => kind.code :: (bigEndian 4 data.length ++ data)

abbrev Tuple := List Field

def encodeTuple (tuple : Tuple) : Bytes :=
  'T'.toUInt8 :: (bigEndian 2 tuple.length ++ tuple.flatMap Field.encode)

/-- A column delimiter and the column name block behind it. -/
structure Column where
  flags : UInt8
  name : Bytes

def Column.encode (column : Column) : Bytes :=
  'C'.toUInt8 :: column.flags :: 'N'.toUInt8 :: (bigEndian 2 column.name.length ++ column.name)

/-- The kind of an old tuple: the key, or all of it. -/
inductive OldTuple where
  | key
  | full
deriving DecidableEq

def OldTuple.code : OldTuple → UInt8
  | .key => 'K'.toUInt8
  | .full => 'O'.toUInt8

inductive Message where
  | begin (flags : UInt8) (lsn commitTime : UInt64) (xid : UInt32)
  | commit (flags : UInt8) (commitLsn endLsn commitTime : UInt64)
  | origin (flags : UInt8) (originLsn : UInt64) (identifier : Bytes)
  | relation (flags : UInt8) (relidentifier : UInt32) (nspname relname : Bytes) (columns : List Column)
  | insert (flags : UInt8) (relidentifier : UInt32) (new : Tuple)
  | update (flags : UInt8) (relidentifier : UInt32) (old : Option (OldTuple × Tuple)) (new : Tuple)
  | delete (flags : UInt8) (relidentifier : UInt32) (kind : OldTuple) (old : Tuple)
  | startup (params : List (CString × CString))

def Message.type : Message → Char
  | .begin .. => 'B'
  | .commit .. => 'C'
  | .origin .. => 'O'
  | .relation .. => 'R'
  | .insert .. => 'I'
  | .update .. => 'U'
  | .delete .. => 'D'
  | .startup .. => 'S'

def encodeOld : Option (OldTuple × Tuple) → Bytes
  | none => []
  | some (kind, tuple) => kind.code :: encodeTuple tuple

/-- What follows the message type. -/
def Message.body : Message → Bytes
  | .begin flags lsn commitTime xid =>
      flags :: (bigEndian 8 lsn.toNat ++ (bigEndian 8 commitTime.toNat ++ bigEndian 4 xid.toNat))
  | .commit flags commitLsn endLsn commitTime =>
      flags :: (bigEndian 8 commitLsn.toNat ++ (bigEndian 8 endLsn.toNat ++ bigEndian 8 commitTime.toNat))
  | .origin flags originLsn identifier =>
      flags :: (bigEndian 8 originLsn.toNat ++ (bigEndian 1 identifier.length ++ identifier))
  | .relation flags relidentifier nspname relname columns =>
      flags :: (bigEndian 4 relidentifier.toNat ++ (bigEndian 1 nspname.length ++ (nspname ++
        (bigEndian 1 relname.length ++ (relname ++
          'A'.toUInt8 :: (bigEndian 2 columns.length ++ columns.flatMap Column.encode))))))
  | .insert flags relidentifier new =>
      flags :: (bigEndian 4 relidentifier.toNat ++ 'N'.toUInt8 :: encodeTuple new)
  | .update flags relidentifier old new =>
      flags :: (bigEndian 4 relidentifier.toNat ++ (encodeOld old ++ 'N'.toUInt8 :: encodeTuple new))
  | .delete flags relidentifier kind old =>
      flags :: (bigEndian 4 relidentifier.toNat ++ kind.code :: encodeTuple old)
  | .startup params => 1 :: params.flatMap fun param => param.1.terminated ++ param.2.terminated

def Message.encode (message : Message) : Bytes := message.type.toUInt8 :: message.body

/-! ## Lengths fit their fields -/

def Field.Fits : Field → Prop
  | .null => True
  | .unchanged => True
  | .full _ data => data.length < 256 ^ 4

def Tuple.Fits (tuple : Tuple) : Prop := tuple.length < 256 ^ 2 ∧ ∀ field ∈ tuple, field.Fits

def Message.Fits : Message → Prop
  | .begin .. => True
  | .commit .. => True
  | .origin _ _ identifier => identifier.length < 256 ^ 1
  | .relation _ _ nspname relname columns =>
      nspname.length < 256 ^ 1 ∧ relname.length < 256 ^ 1 ∧ columns.length < 256 ^ 2 ∧
        ∀ column ∈ columns, column.name.length < 256 ^ 2
  | .insert _ _ new => Tuple.Fits new
  | .update _ _ old new => (∀ tuple ∈ old, Tuple.Fits tuple.2) ∧ Tuple.Fits new
  | .delete _ _ _ old => Tuple.Fits old
  | .startup _ => True

/-! ## The rules -/

/-- The only flag defined is the column flag 0x1, the identity key. -/
def Message.FlagsClear : Message → Prop
  | .begin flags .. => flags = 0
  | .commit flags .. => flags = 0
  | .origin flags .. => flags = 0
  | .relation flags _ _ _ columns => flags = 0 ∧ ∀ column ∈ columns, column.flags = 0 ∨ column.flags = 1
  | .insert flags .. => flags = 0
  | .update flags .. => flags = 0
  | .delete flags .. => flags = 0
  | .startup _ => True

/-- A string with its terminator and nothing behind it. -/
def IsTerminated (data : Bytes) : Prop := ∃ s : CString, data = s.terminated

def Field.Terminated : Field → Prop
  | .null => True
  | .unchanged => True
  | .full .internal _ => True
  | .full .binary _ => True
  | .full .text data => IsTerminated data

/-- The length of an origin identifier may be zero. -/
def Message.Terminated : Message → Prop
  | .begin .. => True
  | .commit .. => True
  | .origin _ _ identifier => identifier = [] ∨ IsTerminated identifier
  | .relation _ _ nspname relname columns =>
      IsTerminated nspname ∧ IsTerminated relname ∧ ∀ column ∈ columns, IsTerminated column.name
  | .insert _ _ new => ∀ field ∈ new, field.Terminated
  | .update _ _ old new => (∀ tuple ∈ old, ∀ field ∈ tuple.2, field.Terminated) ∧ ∀ field ∈ new, field.Terminated
  | .delete _ _ _ old => ∀ field ∈ old, field.Terminated
  | .startup _ => True

/-- Exactly one message of the documented format. -/
def WellFormed (bytes : Bytes) : Prop :=
  ∃ message : Message, message.Fits ∧ message.FlagsClear ∧ message.Terminated ∧ bytes = message.encode

end PGLogical.Format
