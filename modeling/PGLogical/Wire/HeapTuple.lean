import PGLogical.Wire.StringInfo

/-! # Heap tuples

A stored row is a null bitmap and the bytes of the attributes that are not NULL, each one aligned
as its column says. Nothing in the bytes tells where an attribute starts: `heap_getattr` walks from
the first one with the lengths and alignments of a descriptor. A varlena carries its length in its
first byte or first four bytes, those of a little-endian server here, and only the four-byte form is
aligned. Walking with the descriptor a tuple was formed with ends at the stored value.
-/

namespace Wire

/-- The codes `c`, `s`, `i` and `d` of `attalign`. -/
inductive AttAlign where
  | char
  | short
  | int
  | double
deriving DecidableEq

def AttAlign.width : AttAlign → ℕ
  | .char => 1
  | .short => 2
  | .int => 4
  | .double => 8

def attAlignNominal (off : ℕ) (align : AttAlign) : ℕ :=
  (off + align.width - 1) / align.width * align.width

theorem le_attAlignNominal (off : ℕ) (align : AttAlign) : off ≤ attAlignNominal off align := by
  cases align <;> simp only [attAlignNominal, AttAlign.width] <;> omega

@[simp] theorem attAlignNominal_zero (align : AttAlign) : attAlignNominal 0 align = 0 := by
  cases align <;> rfl

/-- The part of a column's definition that decides where its values are. -/
structure AttLayout where
  attlen : ℤ
  attalign : AttAlign
  attbyval : Bool
  byvalLen : attbyval = true → attlen ∈ [1, 2, 4, 8]
deriving DecidableEq

/-- A variable-length value is never passed by value. -/
theorem AttLayout.byref (att : AttLayout) (varlena : att.attlen = -1) : att.attbyval = false := by
  cases byval : att.attbyval with
  | false => rfl
  | true =>
    have := by simpa using att.byvalLen byval
    omega

/-! ## Little-endian words -/

def littleEndian (width value : ℕ) : Bytes := (bigEndian width value).reverse

def ofLittleEndian (bytes : Bytes) : ℕ := ofBigEndian bytes.reverse

@[simp] theorem length_littleEndian (width value : ℕ) : (littleEndian width value).length = width := by
  simp [littleEndian]

theorem ofLittleEndian_littleEndian (width value : ℕ) :
    ofLittleEndian (littleEndian width value) = value % 256 ^ width := by
  rw [ofLittleEndian, littleEndian, List.reverse_reverse, ofBigEndian_bigEndian]

/-! ## Varlenas -/

/-- The bytes behind the tag of a TOAST pointer. -/
def vartagSize (tag : UInt8) : ℕ :=
  if tag = 18 then 16 else if tag = 1 ∨ tag = 2 ∨ tag = 3 then 8 else 0

/-- The size in the header of the varlena that starts here, unless the header is cut off. -/
def varsizeAny : Bytes → Option ℕ
  | [] => none
  | header :: rest =>
    if header = 1 then rest.head?.map fun tag => 2 + vartagSize tag
    else if header.toNat % 2 = 1 then some (header.toNat / 2)
    else match rest with
      | b₁ :: b₂ :: b₃ :: _ =>
          some ((header.toNat + 256 * b₁.toNat + 65536 * b₂.toNat + 16777216 * b₃.toNat) / 4)
      | _ => none

theorem varsizeAny_append {bytes : Bytes} {size : ℕ} (sized : varsizeAny bytes = some size) (rest : Bytes) :
    varsizeAny (bytes ++ rest) = some size := by
  match bytes, sized with
  | header :: tail, sized =>
    simp only [varsizeAny, List.cons_append] at sized ⊢
    split_ifs at sized ⊢ with external short
    · cases tail with
      | nil => simp at sized
      | cons tag _ => simpa using sized
    · exact sized
    · match tail, sized with
      | _ :: _ :: _ :: _, sized => exact sized

/-- The bytes of a whole varlena, header included. -/
abbrev Varlena := { bytes : Bytes // varsizeAny bytes = some bytes.length }

theorem Varlena.length_pos (v : Varlena) : 0 < v.val.length := by
  obtain ⟨_ | ⟨header, tail⟩, sized⟩ := v
  · simp [varsizeAny] at sized
  · simp

/-- A one-byte header, whose low bit is set; that of a TOAST pointer is one of them. -/
def shortHeader : Bytes → Bool
  | [] => false
  | header :: _ => header.toNat % 2 = 1

/-- The varlena at an offset. -/
def varlenaAt (data : Bytes) (off : ℕ) : Option Bytes :=
  (varsizeAny (data.drop off)).bind fun size =>
    if size ≤ (data.drop off).length then some ((data.drop off).take size) else none

theorem varlenaAt_of_drop {data rest : Bytes} {off : ℕ} (value : Varlena) (here : data.drop off = value.val ++ rest) :
    varlenaAt data off = some value.val := by
  simp [varlenaAt, here, varsizeAny_append value.property]

/-! ## Fetching -/

/-- `att_align_pointer`: before a varlena, a byte that is not zero is its header and not padding. -/
def attAlignPointer (data : Bytes) (off : ℕ) (att : AttLayout) : Option ℕ :=
  if att.attlen = -1 then
    data[off]?.map fun byte => if byte = 0 then attAlignNominal off att.attalign else off
  else some (attAlignNominal off att.attalign)

/-- `att_addlength_pointer`, the offset behind the attribute at `off`. -/
def attAddlengthPointer (data : Bytes) (off : ℕ) (att : AttLayout) : Option ℕ :=
  if 0 < att.attlen then some (off + att.attlen.toNat)
  else if att.attlen = -1 then (varsizeAny (data.drop off)).map (off + ·)
  else if 0 ∈ data.drop off then some (off + ((CString.ofBytes (data.drop off)).strlen + 1))
  else none

/-- A tuple from `t_bits` and `t_hoff` on. -/
structure HeapTupleData where
  isnull : List Bool
  data : Bytes
deriving DecidableEq

/-- The walk of `nocachegetattr` to the attribute `n` further on. No result stands for a read
behind the descriptor or the tuple. -/
def nocachegetattr (data : Bytes) : List AttLayout → List Bool → ℕ → ℕ → Option (AttLayout × ℕ)
  | att :: _, _ :: _, 0, off => (attAlignPointer data off att).map fun start => (att, start)
  | _ :: atts, true :: isnull, n + 1, off => nocachegetattr data atts isnull n off
  | att :: atts, false :: isnull, n + 1, off =>
      (attAlignPointer data off att).bind fun start =>
        (attAddlengthPointer data start att).bind fun next => nocachegetattr data atts isnull n next
  | _, _, _, _ => none

inductive Fetched where
  | null
  | byval (word : Bytes)
  | pointer (off : ℕ)
deriving DecidableEq

def fetchatt (data : Bytes) (att : AttLayout) (off : ℕ) : Fetched :=
  if att.attbyval then .byval ((data.drop off).take att.attlen.toNat) else .pointer off

/-- Attributes are counted from one; those the tuple does not have are NULL, whatever the descriptor. -/
def heapGetattr (tuple : HeapTupleData) (attnum : ℕ) (desc : List AttLayout) : Option Fetched :=
  match tuple.isnull[attnum - 1]? with
  | none => some .null
  | some true => some .null
  | some false =>
      (nocachegetattr tuple.data desc tuple.isnull (attnum - 1) 0).map fun found => fetchatt tuple.data found.1 found.2

/-! ## Forming -/

/-- What `heap_fill_tuple` leaves before a value at `off`. -/
def fillPadding (off : ℕ) (att : AttLayout) (value : Bytes) : ℕ :=
  if att.attlen = -1 ∧ shortHeader value then 0 else attAlignNominal off att.attalign - off

def heapFillTuple : ℕ → List (AttLayout × Option Bytes) → Bytes
  | _, [] => []
  | off, (_, none) :: columns => heapFillTuple off columns
  | off, (att, some value) :: columns =>
      List.replicate (fillPadding off att value) 0 ++
        (value ++ heapFillTuple (off + fillPadding off att value + value.length) columns)

def heapFormTuple (columns : List (AttLayout × Option Bytes)) : HeapTupleData :=
  ⟨columns.map fun column => column.2.isNone, heapFillTuple 0 columns⟩

/-- The bytes a column can hold. -/
def AttLayout.Stores (att : AttLayout) (value : Bytes) : Prop :=
  if 0 < att.attlen then (value.length : ℤ) = att.attlen
  else if att.attlen = -1 then varsizeAny value = some value.length
  else ∃ str : CString, value = str.terminated

/-! ## Walking a tuple with its own descriptor -/

variable {att : AttLayout} {value data rest : Bytes} {off : ℕ}

/-- The walk skips the padding in front of a value, and none where there is none. -/
theorem attAlignPointer_fill (stores : att.Stores value)
    (here : data.drop off = List.replicate (fillPadding off att value) 0 ++ (value ++ rest)) :
    attAlignPointer data off att = some (off + fillPadding off att value) := by
  have reaches := le_attAlignNominal off att.attalign
  by_cases varlena : att.attlen = -1
  · have sized : varsizeAny value = some value.length := by simpa [AttLayout.Stores, varlena] using stores
    obtain _ | ⟨header, tail⟩ := value
    · simp [varsizeAny] at sized
    have first : data[off]? = (data.drop off).head? := by simp
    by_cases short : shortHeader (header :: tail) = true
    · have unpadded : fillPadding off att (header :: tail) = 0 := by simp [fillPadding, varlena, short]
      have nonzero : header ≠ 0 := by
        rintro rfl
        simp [shortHeader] at short
      rw [attAlignPointer, if_pos varlena, first, here, unpadded]
      simp [nonzero]
    · have padded : fillPadding off att (header :: tail) = attAlignNominal off att.attalign - off := by
        simp [fillPadding, short]
      rw [attAlignPointer, if_pos varlena, first, here, padded]
      cases gap : attAlignNominal off att.attalign - off with
      | zero =>
        have aligned : attAlignNominal off att.attalign = off := by omega
        simp [aligned]
      | succ _ =>
        simp only [List.replicate_succ, List.cons_append, List.head?_cons, Option.map_some, if_pos]
        congr 1
        omega
  · rw [attAlignPointer, if_neg varlena, fillPadding, if_neg (by simp [varlena])]
    congr 1
    omega

theorem attAddlengthPointer_fill (stores : att.Stores value) (here : data.drop off = value ++ rest) :
    attAddlengthPointer data off att = some (off + value.length) := by
  simp only [AttLayout.Stores] at stores
  simp only [attAddlengthPointer, here]
  split_ifs at stores ⊢ with fixed varlena terminated
  · congr 1
    omega
  · rw [varsizeAny_append stores, Option.map_some]
  · obtain ⟨str, rfl⟩ := stores
    rw [CString.ofBytes_terminated, CString.length_terminated]
  · obtain ⟨str, rfl⟩ := stores
    simp [CString.terminated] at terminated

/-- The attribute is found, and its bytes are those that were stored. -/
theorem nocachegetattr_fill (columns : List (AttLayout × Option Bytes))
    (stores : ∀ column ∈ columns, ∀ bytes ∈ column.2, column.1.Stores bytes) (n : ℕ)
    (column : columns[n]? = some (att, some value)) (here : data.drop off = heapFillTuple off columns) :
    ∃ start rest, nocachegetattr data (columns.map Prod.fst) (columns.map fun column => column.2.isNone) n off =
      some (att, start) ∧ data.drop start = value ++ rest := by
  induction columns generalizing n off with
  | nil => simp at column
  | cons first columns ih =>
    obtain ⟨first, _ | bytes⟩ := first
    · cases n with
      | zero => simp at column
      | succ n => exact ih (fun c inside => stores c (.tail _ inside)) n column here
    · have fits := stores _ (.head _) bytes rfl
      have aligned := attAlignPointer_fill fits here
      have start : data.drop (off + fillPadding off first bytes) =
          bytes ++ heapFillTuple (off + fillPadding off first bytes + bytes.length) columns := by
        rw [← List.drop_drop, here, heapFillTuple, List.drop_left' (by simp)]
      cases n with
      | zero =>
        simp only [List.getElem?_cons_zero, Option.some.injEq, Prod.mk.injEq] at column
        obtain ⟨rfl, rfl⟩ := column
        exact ⟨_, _, by simp [nocachegetattr, aligned], start⟩
      | succ n =>
        have next := attAddlengthPointer_fill fits start
        have behind : data.drop (off + fillPadding off first bytes + bytes.length) =
            heapFillTuple (off + fillPadding off first bytes + bytes.length) columns := by
          rw [← List.drop_drop, start, List.drop_left]
        obtain ⟨at', rest, found, stored⟩ := ih (fun c inside => stores c (.tail _ inside)) n column behind
        exact ⟨at', rest, by simpa [nocachegetattr, aligned, next] using found, stored⟩

/-! ## A walk never goes back -/

variable {start next : ℕ}

theorem le_attAlignPointer (aligned : attAlignPointer data off att = some start) : off ≤ start := by
  have := le_attAlignNominal off att.attalign
  rw [attAlignPointer] at aligned
  split_ifs at aligned with varlena
  · obtain ⟨byte, -, rfl⟩ := Option.map_eq_some_iff.mp aligned
    split_ifs <;> omega
  · have := Option.some.inj aligned
    omega

theorem le_attAddlengthPointer (ends : attAddlengthPointer data off att = some next) : off ≤ next := by
  rw [attAddlengthPointer] at ends
  split_ifs at ends with fixed varlena string
  · have := Option.some.inj ends
    omega
  · obtain ⟨size, -, rfl⟩ := Option.map_eq_some_iff.mp ends
    omega
  · have := Option.some.inj ends
    omega

theorem nocachegetattr_le {atts : List AttLayout} {isnull : List Bool} {n : ℕ}
    (found : nocachegetattr data atts isnull n off = some (att, start)) : off ≤ start := by
  induction atts generalizing isnull n off with
  | nil => simp [nocachegetattr] at found
  | cons first atts ih =>
    obtain _ | ⟨null, isnull⟩ := isnull
    · simp [nocachegetattr] at found
    · cases n with
      | zero =>
        simp only [nocachegetattr, Option.map_eq_some_iff, Prod.mk.injEq] at found
        obtain ⟨at', aligned, -, rfl⟩ := found
        exact le_attAlignPointer aligned
      | succ n =>
        cases null with
        | true => exact ih found
        | false =>
          simp only [nocachegetattr, Option.bind_eq_some_iff] at found
          obtain ⟨at', aligned, next, ends, found⟩ := found
          have skipped := le_attAlignPointer aligned
          have passed := le_attAddlengthPointer ends
          have := ih found
          omega

end Wire
