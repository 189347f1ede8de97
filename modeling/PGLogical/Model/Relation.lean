import PGLogical.Model.Basic
import PGLogical.Wire.StringInfo
import Mathlib.Data.Finset.Basic

/-! # Relations, tuples and types

The part of PostgreSQL's relation descriptors, tuples and type catalog that the output plugin and
the apply worker look at. What the server guarantees about them (unique column names, consecutive
attribute numbers, at most 1600 columns, datums that fit their column) is carried by the
structures. Type input and output functions are a parameter, `TypeFunctions`.
-/

namespace PGLogical

open Wire (Bytes CString)

def namedatalen : ℕ := 64

/-- An identifier: a C string that fits a `NameData`. -/
structure NameData where
  str : CString
  short : str.strlen < namedatalen
deriving DecidableEq

/-- What does not fit is cut off. -/
def namestrcpy (s : CString) : NameData where
  str := ⟨s.val.take (namedatalen - 1), fun inside => s.property (List.mem_of_mem_take inside)⟩
  short := by
    have length := List.length_take_le (namedatalen - 1) s.val
    exact Nat.lt_of_le_of_lt length (by decide)

/-- A datum as `heap_deform_tuple` yields it. The TOAST pointers of a varlena are told apart
because the writer does. -/
inductive Datum where
  | byval (word : UInt64)
  /-- The bytes at the pointer; for a varlena `VARSIZE_ANY` of them. -/
  | byref (bytes : Bytes)
  | externalOndisk (pointer : Bytes)
  /-- A pointer to a varlena in memory. -/
  | externalIndirect (target : Bytes)
deriving DecidableEq

def Datum.word : Datum → UInt64
  | .byval word => word
  | _ => 0

/-- The bytes at a pass-by-reference datum, with an indirect pointer followed. -/
def Datum.data : Datum → Bytes
  | .byval _ => []
  | .byref bytes => bytes
  | .externalOndisk pointer => pointer
  | .externalIndirect target => target

def Datum.isExternalOndisk : Datum → Bool
  | .externalOndisk _ => true
  | _ => false

/-- A set of attribute numbers; the NULL pointer is `none` where it has a meaning of its own. -/
abbrev Bitmapset := Finset ℤ

def firstLowInvalidHeapAttributeNumber : ℤ := -8

structure FormPgAttribute where
  attname : NameData
  atttypid : Oid
  attlen : ℤ
  attnum : ℤ
  atttypmod : ℤ
  attbyval : Bool
  attisdropped : Bool
  byvalLen : attbyval = true → attlen = 1 ∨ attlen = 2 ∨ attlen = 4 ∨ attlen = 8
deriving DecidableEq

def FormPgAttribute.int4 (attname : NameData) (attnum : ℤ) : FormPgAttribute :=
  ⟨attname, 23, 4, attnum, -1, true, false, by decide⟩

def FormPgAttribute.text (attname : NameData) (attnum : ℤ) : FormPgAttribute :=
  ⟨attname, 25, -1, attnum, -1, false, false, by decide⟩

/-- The attribute number as a member of a `Bitmapset`. -/
def FormPgAttribute.member (att : FormPgAttribute) : ℤ := att.attnum - firstLowInvalidHeapAttributeNumber

/-- The datums a column of this attribute can hold. -/
def FormPgAttribute.Holds (att : FormPgAttribute) : Datum → Prop
  | .byval word => att.attbyval = true ∧ word.toNat < 256 ^ att.attlen.toNat
  | .byref bytes => att.attbyval = false ∧ (0 < att.attlen → (bytes.length : ℤ) = att.attlen)
  | .externalOndisk _ => att.attbyval = false ∧ att.attlen = -1
  | .externalIndirect _ => att.attbyval = false ∧ att.attlen = -1

instance FormPgAttribute.decidableHolds (att : FormPgAttribute) : DecidablePred att.Holds
  | .byval _ => inferInstanceAs (Decidable (_ ∧ _))
  | .byref _ => inferInstanceAs (Decidable (_ ∧ _))
  | .externalOndisk _ => inferInstanceAs (Decidable (_ ∧ _))
  | .externalIndirect _ => inferInstanceAs (Decidable (_ ∧ _))

/-- Two attributes have the same type, so that a datum of one is a datum of the other. -/
structure FormPgAttribute.SameType (a b : FormPgAttribute) : Prop where
  atttypid : a.atttypid = b.atttypid
  attlen : a.attlen = b.attlen
  atttypmod : a.atttypmod = b.atttypmod
  attbyval : a.attbyval = b.attbyval

def maxHeapAttributeNumber : ℕ := 1600

structure TupleDesc where
  attrs : List FormPgAttribute
  natts : attrs.length ≤ maxHeapAttributeNumber
  numbered : attrs.map FormPgAttribute.attnum = (List.range attrs.length).map fun i : ℕ => (i : ℤ) + 1
  named : (attrs.map FormPgAttribute.attname).Nodup
deriving DecidableEq

/-- A table of the provider as `RelationGetDescr` and its neighbours show it. -/
structure Relation where
  relid : Oid
  relnamespace : Oid
  relname : NameData
  desc : TupleDesc
  /-- `RelationGetIndexAttrBitmap` for the replica identity. -/
  identityKey : Bitmapset
deriving DecidableEq

/-- A heap tuple of a table after `heap_deform_tuple`; a NULL is `none`. -/
structure HeapTuple (desc : TupleDesc) where
  tLen : ℕ
  values : List (Option Datum)
  length : values.length = desc.attrs.length
  holds : ∀ column ∈ desc.attrs.zip values, ∀ datum ∈ column.2, column.1.Holds datum

/-- The columns of `pg_type` that decide how a datum travels. -/
structure FormPgType where
  typtype : Char
  typelem : Oid
  typreceive : Oid
deriving DecidableEq

/-- The functions of the types involved, by type. `typreceive` also returns how much of its input it
consumed. `SameValue` says when two datums stand for one value of the type, since a datum read from
text need not have the representation of the one that was written. -/
structure TypeFunctions where
  typoutput : Oid → Datum → Except String CString
  typinput : Oid → ℤ → CString → Except String Datum
  typsend : Oid → Datum → Except String Bytes
  typreceive : Oid → ℤ → Bytes → Except String (Datum × ℕ)
  storeAttByval : UInt64 → ℕ → Bytes
  fetchAtt : Bytes → ℕ → UInt64
  storeLength : ∀ word attlen, (storeAttByval word attlen).length = attlen
  SameValue : Datum → Datum → Prop
  sameRefl : ∀ datum, SameValue datum datum
  sameIndirect : ∀ target, SameValue (.byref target) (.externalIndirect target)

/-- The input functions undo the output functions on a datum of a column. -/
structure TypeFunctions.Inverse (io : TypeFunctions) (att : FormPgAttribute) (datum : Datum) : Prop where
  text : ∀ s, io.typoutput att.atttypid datum = .ok s →
    ∃ read, io.typinput att.atttypid att.atttypmod s = .ok read ∧ io.SameValue read datum
  binary : ∀ bytes, io.typsend att.atttypid datum = .ok bytes →
    ∃ read, io.typreceive att.atttypid att.atttypmod bytes = .ok (read, bytes.length) ∧ io.SameValue read datum
  byval : ∀ word, datum = .byval word →
    io.fetchAtt (io.storeAttByval word att.attlen.toNat) att.attlen.toNat = word

/-- Whether the writers send a column: it is live, and listed if there is a list. -/
def FormPgAttribute.sent (attList : Option Bitmapset) (att : FormPgAttribute) : Bool :=
  !att.attisdropped && (match attList with
    | none => true
    | some members => decide (att.member ∈ members))

/-- The columns the loops of the writers visit, in order. -/
def TupleDesc.sentAttributes (desc : TupleDesc) (attList : Option Bitmapset) : List FormPgAttribute :=
  desc.attrs.filter (·.sent attList)

def HeapTuple.sentColumns {desc : TupleDesc} (tuple : HeapTuple desc) (attList : Option Bitmapset) :
    List (FormPgAttribute × Option Datum) :=
  (desc.attrs.zip tuple.values).filter (·.1.sent attList)

theorem TupleDesc.length_sentAttributes (desc : TupleDesc) (attList : Option Bitmapset) :
    (desc.sentAttributes attList).length ≤ maxHeapAttributeNumber :=
  le_trans (List.length_filter_le ..) desc.natts

theorem TupleDesc.nodup_sentNames (desc : TupleDesc) (attList : Option Bitmapset) :
    ((desc.sentAttributes attList).map FormPgAttribute.attname).Nodup :=
  desc.named.sublist (List.filter_sublist.map _)

/-- Both loops of the tuple writer visit the columns of the RELATION message. -/
theorem HeapTuple.map_sentColumns {desc : TupleDesc} (tuple : HeapTuple desc) (attList : Option Bitmapset) :
    (tuple.sentColumns attList).map Prod.fst = desc.sentAttributes attList := by
  have attrs : (desc.attrs.zip tuple.values).map Prod.fst = desc.attrs :=
    List.map_fst_zip (le_of_eq tuple.length.symm)
  rw [sentColumns, TupleDesc.sentAttributes]
  nth_rewrite 2 [← attrs]
  rw [List.filter_map]
  rfl

theorem HeapTuple.holds_sentColumns {desc : TupleDesc} (tuple : HeapTuple desc) (attList : Option Bitmapset)
    {column : FormPgAttribute × Option Datum} (member : column ∈ tuple.sentColumns attList) :
    ∀ datum ∈ column.2, column.1.Holds datum :=
  tuple.holds column (List.mem_filter.mp member).1

end PGLogical
