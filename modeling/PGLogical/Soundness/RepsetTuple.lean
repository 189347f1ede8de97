import PGLogical.Model.RepsetTuple
import Mathlib.Tactic.IntervalCases

/-! # Reading memberships through the descriptor of the replicated table

`heap_getattr` ends at the stored column list and row filter whenever the walk over the first columns
of the replicated table happens to take the steps that a walk over the catalog's columns takes. Which
tables these are depends on which of the two values a membership has: without any, every table; with
one of them, those whose two leading columns fill the eight bytes of the identifiers; with both, those
that in addition go on with two varlenas, the second aligned like the catalog's.

That no other layout does is seen on five rows. Their identifiers have no zero byte and are the
header of a long varlena wherever a walk stops in them, so that a wrong step shows.
-/

namespace PGLogical

open Wire

variable {attalign : FormPgAttribute → AttAlign}

/-! ## The scan and a single row -/

def RepSetTableRow.stored (row : RepSetTableRow) : Option Bytes × Option Bytes :=
  (row.attList.map (·.val), row.rowFilter.map (·.val))

/-- What the scan should obtain. -/
def storedMemberships (table : Relation) (catalog : List RepSetTableRow) (subs : List PGLogicalRepSet) :
    List (PGLogicalRepSet × Option Bytes × Option Bytes) :=
  (catalog.filter fun row => decide (row.reloid = table.relid)).flatMap fun row =>
    (subs.filter fun repset => decide (row.setid = repset.id)).map fun repset => (repset, row.stored)

/-- Every table with these columns gets its memberships as they are stored, if they all have a
column list or not, and a row filter or not, as the two flags say. -/
def ReadsUnchanged (attalign : FormPgAttribute → AttAlign) (desc : TupleDesc) (attList rowFilter : Bool) : Prop :=
  ∀ (table : Relation) (catalog : List RepSetTableRow) (subs : List PGLogicalRepSet), table.desc = desc →
    (∀ row ∈ catalog, row.attList.isSome = attList ∧ row.rowFilter.isSome = rowFilter) →
    scanMemberships attalign table (catalog.map RepSetTableRow.tuple) subs = some (storedMemberships table catalog subs)

def Obtains (desc : List AttLayout) (row : RepSetTableRow) : Prop :=
  getMembership desc row.tuple = some row.stored

theorem heapFillTuple_columns (row : RepSetTableRow) : row.tuple.data =
    littleEndian 4 row.setid.toNat ++ (littleEndian 4 row.reloid.toNat ++
      heapFillTuple 8 [(RepSetTableRow.varlenaLayout, row.attList.map (·.val)),
        (RepSetTableRow.varlenaLayout, row.rowFilter.map (·.val))]) := by
  simp [RepSetTableRow.tuple, heapFormTuple, RepSetTableRow.columns, heapFillTuple, fillPadding,
    RepSetTableRow.oidLayout, attAlignNominal, AttAlign.width]

theorem ofNat_littleEndian (oid : Oid) : UInt32.ofNat (ofLittleEndian (littleEndian 4 oid.toNat)) = oid := by
  have small := oid.toNat_lt
  rw [ofLittleEndian_littleEndian, Nat.mod_eq_of_lt (by omega), UInt32.ofNat_toNat]

@[simp] theorem getstructSetid_tuple (row : RepSetTableRow) : getstructSetid row.tuple = row.setid := by
  rw [getstructSetid, heapFillTuple_columns, List.take_left' (length_littleEndian ..), ofNat_littleEndian]

@[simp] theorem getstructReloid_tuple (row : RepSetTableRow) : getstructReloid row.tuple = row.reloid := by
  rw [getstructReloid, heapFillTuple_columns, List.drop_left' (length_littleEndian ..),
    List.take_left' (length_littleEndian ..), ofNat_littleEndian]

theorem mapM_eq_some_map {α β : Type} {f : α → Option β} {g : α → β} {xs : List α}
    (each : ∀ x ∈ xs, f x = some (g x)) : xs.mapM f = some (xs.map g) := by
  induction xs with
  | nil => rfl
  | cons x xs ih =>
    rw [List.mapM_cons, each x (.head _), ih fun y inside => each y (.tail _ inside)]
    rfl

/-- The rows of a table, each with the subscribed sets it is in. -/
def matchedRows (table : Relation) (catalog : List RepSetTableRow) (subs : List PGLogicalRepSet) :
    List (RepSetTableRow × PGLogicalRepSet) :=
  (catalog.filter fun row => decide (row.reloid = table.relid)).flatMap fun row =>
    (subs.filter fun repset => decide (row.setid = repset.id)).map fun repset => (row, repset)

theorem storedMemberships_eq (table : Relation) (catalog : List RepSetTableRow) (subs : List PGLogicalRepSet) :
    storedMemberships table catalog subs =
      (matchedRows table catalog subs).map fun pair => (pair.2, pair.1.stored) := by
  simp [storedMemberships, matchedRows, List.map_flatMap, Function.comp_def]

theorem scanMemberships_eq (table : Relation) (catalog : List RepSetTableRow) (subs : List PGLogicalRepSet) :
    scanMemberships attalign table (catalog.map RepSetTableRow.tuple) subs =
      (matchedRows table catalog subs).mapM fun pair =>
        (getMembership (table.desc.layout attalign) pair.1.tuple).map fun found => (pair.2, found) := by
  have pairs : ((catalog.map RepSetTableRow.tuple).filter fun tuple =>
        decide (getstructReloid tuple = table.relid)).flatMap (fun tuple =>
      (subs.filter fun repset => decide (getstructSetid tuple = repset.id)).map fun repset => (tuple, repset)) =
      (matchedRows table catalog subs).map fun pair => (pair.1.tuple, pair.2) := by
    simp [matchedRows, List.filter_map, List.flatMap_map, List.map_flatMap, Function.comp_def]
  rw [scanMemberships, pairs, List.mapM_map]
  rfl

/-- The scan is right about every catalog if each row is read right. -/
theorem readsUnchanged_iff_obtains (desc : TupleDesc) (attList rowFilter : Bool) :
    ReadsUnchanged attalign desc attList rowFilter ↔
      ∀ row : RepSetTableRow, row.attList.isSome = attList → row.rowFilter.isSome = rowFilter →
        Obtains (desc.layout attalign) row := by
  constructor
  · intro unchanged row attSet filterSet
    let table : Relation := ⟨row.reloid, 0, ⟨CString.ofBytes [], by decide⟩, desc, ∅⟩
    let repset : PGLogicalRepSet := ⟨row.setid, 0, CString.ofBytes [], true, true, true, true⟩
    have scanned := unchanged table [row] [repset] rfl (by simpa using ⟨attSet, filterSet⟩)
    rw [scanMemberships_eq, storedMemberships_eq] at scanned
    cases found : getMembership (desc.layout attalign) row.tuple with
    | none => simp [matchedRows, table, repset, found] at scanned
    | some values => simpa [matchedRows, table, repset, found, Obtains] using scanned
  · rintro obtained table catalog subs rfl kind
    rw [scanMemberships_eq, storedMemberships_eq]
    refine mapM_eq_some_map fun pair inside => ?_
    have row : pair.1 ∈ catalog := by
      simp only [matchedRows, List.mem_flatMap, List.mem_filter, List.mem_map] at inside
      obtain ⟨row, ⟨member, -⟩, repset, -, rfl⟩ := inside
      exact member
    rw [obtained pair.1 (kind _ row).1 (kind _ row).2, Option.map_some]

/-! ## A walk over a membership row -/

section Row

variable {row : RepSetTableRow} {desc : List AttLayout} {v : Varlena}

theorem obtains_iff : Obtains desc row ↔
    (heapGetattr row.tuple 3 desc).bind (datumGetVarlena row.tuple) = some (row.attList.map (·.val)) ∧
      (heapGetattr row.tuple 4 desc).bind (datumGetVarlena row.tuple) = some (row.rowFilter.map (·.val)) := by
  simp only [Obtains, getMembership, RepSetTableRow.stored, anumRepsetTableAttList, anumRepsetTableRowFilter]
  cases (heapGetattr row.tuple 3 desc).bind (datumGetVarlena row.tuple) <;>
    cases (heapGetattr row.tuple 4 desc).bind (datumGetVarlena row.tuple) <;> simp

theorem isnull_tuple (row : RepSetTableRow) :
    row.tuple.isnull = [false, false, row.attList.isNone, row.rowFilter.isNone] := by
  simp [RepSetTableRow.tuple, heapFormTuple, RepSetTableRow.columns]

/-- A NULL is read as such through any descriptor. -/
theorem heapGetattr_null {n : ℕ} (null : row.tuple.isnull[n]? = some true) :
    (heapGetattr row.tuple (n + 1) desc).bind (datumGetVarlena row.tuple) = some none := by
  simp [heapGetattr, null, datumGetVarlena]

/-- A value is obtained when the walk ends at a varlena like it and the column is not by value. -/
theorem heapGetattr_eq_iff {n : ℕ} (present : row.tuple.isnull[n]? = some false) :
    (heapGetattr row.tuple (n + 1) desc).bind (datumGetVarlena row.tuple) = some (some v.val) ↔
      ∃ att start, nocachegetattr row.tuple.data desc row.tuple.isnull n 0 = some (att, start) ∧
        att.attbyval = false ∧ varlenaAt row.tuple.data start = some v.val := by
  simp only [heapGetattr, Nat.add_sub_cancel, present]
  cases nocachegetattr row.tuple.data desc row.tuple.isnull n 0 with
  | none => simp
  | some found =>
    obtain ⟨att, start⟩ := found
    cases byval : att.attbyval <;> simp [fetchatt, byval, datumGetVarlena]

/-! ## Layouts that lead to the stored values -/

/-- Where a walk over two columns of fixed length ends. -/
def leadEnd (c₁ c₂ : AttLayout) : ℕ := attAlignNominal c₁.attlen.toNat c₂.attalign + c₂.attlen.toNat

/-- After two columns of fixed length, a value of the column `c` is taken from behind the two
identifiers. Before a varlena there is no padding to skip, since the identifiers need not be zero. -/
structure Lands (c₁ c₂ c : AttLayout) : Prop where
  fixed₁ : 0 < c₁.attlen
  fixed₂ : 0 < c₂.attlen
  byref : c.attbyval = false
  start : if c.attlen = -1 then leadEnd c₁ c₂ = 8 else attAlignNominal (leadEnd c₁ c₂) c.attalign = 8

/-- The layouts through which memberships are read as stored, by which values these have. -/
def Readable : List AttLayout → Bool → Bool → Prop
  | _, false, false => True
  | c₁ :: c₂ :: c₃ :: _, true, false => Lands c₁ c₂ c₃
  | c₁ :: c₂ :: _ :: c₄ :: _, false, true => Lands c₁ c₂ c₄
  | c₁ :: c₂ :: c₃ :: c₄ :: _, true, true =>
      Lands c₁ c₂ c₃ ∧ c₃.attlen = -1 ∧ c₄.attlen = -1 ∧ c₄.attalign = .int
  | _, _, _ => False

variable {c₁ c₂ c : AttLayout} {atts : List AttLayout} {isnull : List Bool} {data : Bytes} {n start : ℕ}

theorem nocachegetattr_lead (fixed₁ : 0 < c₁.attlen) (fixed₂ : 0 < c₂.attlen) :
    nocachegetattr data (c₁ :: c₂ :: atts) (false :: false :: isnull) (n + 2) 0 =
      nocachegetattr data atts isnull n (leadEnd c₁ c₂) := by
  have varlena₁ : c₁.attlen ≠ -1 := by omega
  have varlena₂ : c₂.attlen ≠ -1 := by omega
  simp [nocachegetattr, attAlignPointer, attAddlengthPointer, fixed₁, fixed₂, varlena₁, varlena₂, leadEnd]

theorem nocachegetattr_second {att c' : AttLayout} {off : ℕ} :
    nocachegetattr data (c :: c' :: atts) (false :: false :: isnull) 1 off = some (att, start) ↔
      c' = att ∧ ∃ at₃ next, attAlignPointer data off c = some at₃ ∧ attAddlengthPointer data at₃ c = some next ∧
        attAlignPointer data next c' = some start := by
  simp only [nocachegetattr, Option.bind_eq_some_iff, Option.map_eq_some_iff, Prod.mk.injEq]
  constructor
  · rintro ⟨at₃, aligned, next, ends, _, found, rfl, rfl⟩
    exact ⟨rfl, at₃, next, aligned, ends, found⟩
  · rintro ⟨rfl, at₃, next, aligned, ends, found⟩
    exact ⟨at₃, aligned, next, ends, start, found, rfl, rfl⟩

theorem attAlignNominal_eight (align : AttAlign) : attAlignNominal 8 align = 8 := by
  cases align <;> rfl

/-- At the end of the identifiers every alignment is met. -/
theorem attAlignPointer_eight (att : AttLayout) (inside : 8 < data.length) :
    attAlignPointer data 8 att = some 8 := by
  simp [attAlignPointer, attAlignNominal_eight, List.getElem?_eq_getElem inside]

theorem Lands.aligns (lands : Lands c₁ c₂ c) (inside : 8 < data.length) :
    attAlignPointer data (leadEnd c₁ c₂) c = some 8 := by
  have start := lands.start
  split_ifs at start with varlena
  · rw [start, attAlignPointer_eight c inside]
  · rw [attAlignPointer, if_neg varlena, start]

theorem stores_columns (row : RepSetTableRow) : ∀ column ∈ row.columns, ∀ bytes ∈ column.2, column.1.Stores bytes := by
  intro column member bytes value
  simp only [RepSetTableRow.columns, List.mem_cons, List.not_mem_nil, or_false] at member
  obtain rfl | rfl | rfl | rfl := member
  · obtain rfl : littleEndian 4 row.setid.toNat = bytes := by simpa using value
    simp [AttLayout.Stores, RepSetTableRow.oidLayout]
  · obtain rfl : littleEndian 4 row.reloid.toNat = bytes := by simpa using value
    simp [AttLayout.Stores, RepSetTableRow.oidLayout]
  · obtain ⟨v, -, rfl⟩ := Option.map_eq_some_iff.mp value
    simpa [AttLayout.Stores, RepSetTableRow.varlenaLayout] using v.property
  · obtain ⟨v, -, rfl⟩ := Option.map_eq_some_iff.mp value
    simpa [AttLayout.Stores, RepSetTableRow.varlenaLayout] using v.property

/-- The catalog's own descriptor, from the end of the identifiers on. -/
theorem nocachegetattr_catalog (row : RepSetTableRow) (n : ℕ)
    (present : row.columns[n + 2]? = some (RepSetTableRow.varlenaLayout, some v.val)) :
    ∃ start rest, nocachegetattr row.tuple.data [RepSetTableRow.varlenaLayout, RepSetTableRow.varlenaLayout]
      [row.attList.isNone, row.rowFilter.isNone] n 8 = some (RepSetTableRow.varlenaLayout, start) ∧
      row.tuple.data.drop start = v.val ++ rest := by
  have filled : row.tuple.data.drop 0 = heapFillTuple 0 row.columns := rfl
  obtain ⟨start, rest, found, stored⟩ := nocachegetattr_fill row.columns (stores_columns row) (n + 2) present filled
  refine ⟨start, rest, ?_, stored⟩
  rw [← found]
  simp only [RepSetTableRow.columns, List.map_cons, List.map_nil, Option.isNone_some, Option.isNone_map]
  rw [nocachegetattr_lead (by decide) (by decide)]
  rfl

/-- The first value that is not NULL lies right behind the identifiers. -/
theorem drop_eight (first : row.attList = some v ∨ row.attList = none ∧ row.rowFilter = some v) :
    ∃ rest, row.tuple.data.drop 8 = v.val ++ rest := by
  have walked : ∃ start rest, attAlignPointer row.tuple.data 8 RepSetTableRow.varlenaLayout = some start ∧
      row.tuple.data.drop start = v.val ++ rest := by
    obtain attSet | ⟨attNull, filterSet⟩ := first
    · have found := nocachegetattr_catalog (v := v) row 0 (by simp [RepSetTableRow.columns, attSet])
      simpa [attSet, nocachegetattr] using found
    · have found := nocachegetattr_catalog (v := v) row 1 (by simp [RepSetTableRow.columns, filterSet])
      simpa [attNull, filterSet, nocachegetattr] using found
  obtain ⟨start, rest, aligned, stored⟩ := walked
  have eight : start = 8 := by
    simp only [attAlignPointer, RepSetTableRow.varlenaLayout, if_pos, attAlignNominal_eight, ite_self,
      Option.map_eq_some_iff] at aligned
    obtain ⟨_, -, rfl⟩ := aligned
    rfl
  exact ⟨rest, eight ▸ stored⟩

theorem eight_lt_length (first : row.attList = some v ∨ row.attList = none ∧ row.rowFilter = some v) :
    8 < row.tuple.data.length := by
  obtain ⟨rest, stored⟩ := drop_eight first
  have behind := congrArg List.length stored
  have := Varlena.length_pos v
  simp only [List.length_drop, List.length_append] at behind
  omega

/-- A walk that lands behind the identifiers obtains the first value. -/
theorem Lands.obtains (lands : Lands c₁ c₂ c)
    (first : row.attList = some v ∨ row.attList = none ∧ row.rowFilter = some v) :
    ∃ start, attAlignPointer row.tuple.data (leadEnd c₁ c₂) c = some start ∧ c.attbyval = false ∧
      varlenaAt row.tuple.data start = some v.val := by
  obtain ⟨rest, stored⟩ := drop_eight first
  exact ⟨8, lands.aligns (eight_lt_length first), lands.byref, varlenaAt_of_drop v stored⟩

end Row

/-- A readable layout serves every membership of its kind. -/
theorem Readable.obtains {desc : List AttLayout} {row : RepSetTableRow}
    (readable : Readable desc row.attList.isSome row.rowFilter.isSome) : Obtains desc row := by
  rw [obtains_iff]
  have nulls := isnull_tuple row
  cases attSet : row.attList with
  | none =>
    refine ⟨heapGetattr_null (by simp [nulls, attSet]), ?_⟩
    cases filterSet : row.rowFilter with
    | none => exact heapGetattr_null (by simp [nulls, filterSet])
    | some filter =>
      rw [attSet, filterSet] at readable
      obtain _ | ⟨c₁, _ | ⟨c₂, _ | ⟨c₃, _ | ⟨c₄, rest⟩⟩⟩⟩ := desc
      iterate 4 exact readable.elim
      have lands : Lands c₁ c₂ c₄ := readable
      obtain ⟨start, aligned, byref, stored⟩ := lands.obtains (.inr ⟨attSet, filterSet⟩)
      refine (heapGetattr_eq_iff (by simp [nulls, filterSet])).mpr ⟨c₄, start, ?_, byref, stored⟩
      rw [nulls, nocachegetattr_lead lands.fixed₁ lands.fixed₂]
      simp [nocachegetattr, attSet, aligned]
  | some attList =>
    cases filterSet : row.rowFilter with
    | none =>
      refine ⟨?_, heapGetattr_null (by simp [nulls, filterSet])⟩
      rw [attSet, filterSet] at readable
      obtain _ | ⟨c₁, _ | ⟨c₂, _ | ⟨c₃, rest⟩⟩⟩ := desc
      iterate 3 exact readable.elim
      have lands : Lands c₁ c₂ c₃ := readable
      obtain ⟨start, aligned, byref, stored⟩ := lands.obtains (.inl attSet)
      refine (heapGetattr_eq_iff (by simp [nulls, attSet])).mpr ⟨c₃, start, ?_, byref, stored⟩
      rw [nulls, nocachegetattr_lead lands.fixed₁ lands.fixed₂]
      simp [nocachegetattr, aligned]
    | some filter =>
      rw [attSet, filterSet] at readable
      obtain _ | ⟨c₁, _ | ⟨c₂, _ | ⟨c₃, _ | ⟨c₄, others⟩⟩⟩⟩ := desc
      iterate 4 exact readable.elim
      obtain ⟨lands, varlena₃, varlena₄, align₄⟩ := readable
      obtain ⟨start, aligned, byref, stored⟩ := lands.obtains (.inl attSet)
      refine ⟨(heapGetattr_eq_iff (by simp [nulls, attSet])).mpr ⟨c₃, start, ?_, byref, stored⟩, ?_⟩
      · rw [nulls, nocachegetattr_lead lands.fixed₁ lands.fixed₂]
        simp [nocachegetattr, aligned]
      · -- From the end of the identifiers the two descriptors agree.
        obtain ⟨start, rest, found, stored⟩ := nocachegetattr_catalog (v := filter) row 1
          (by simp [RepSetTableRow.columns, filterSet])
        rw [attSet, filterSet] at found
        obtain ⟨-, at₃, next, aligned, ends, found⟩ := nocachegetattr_second.mp found
        have eight : leadEnd c₁ c₂ = 8 := by simpa [varlena₃] using lands.start
        have inside := eight_lt_length (.inl attSet)
        obtain rfl : at₃ = 8 := by simpa [attAlignPointer_eight _ inside, eq_comm] using aligned
        refine (heapGetattr_eq_iff (by simp [nulls, filterSet])).mpr
          ⟨c₄, start, ?_, c₄.byref varlena₄, varlenaAt_of_drop filter stored⟩
        rw [nulls, nocachegetattr_lead lands.fixed₁ lands.fixed₂, eight, attSet, filterSet]
        refine nocachegetattr_second.mpr ⟨rfl, 8, next, attAlignPointer_eight c₃ inside, ?_, ?_⟩
        · simpa [attAddlengthPointer, varlena₃, RepSetTableRow.varlenaLayout] using ends
        · simpa [attAlignPointer, varlena₄, align₄, RepSetTableRow.varlenaLayout] using found

/-! ## Rows that tell layouts apart -/

/-- A walk that stops inside the first eight bytes cannot go on from there to the ninth, except over
a column of fixed length. -/
structure Telling (data : Bytes) : Prop where
  header : ∀ off ≤ 8, ∀ size, varsizeAny (data.drop off) = some size → 8 < off + size
  string : ∀ off ≤ 8, 8 ≤ off + (CString.ofBytes (data.drop off)).strlen
  nonzero : ∀ off < 8, data[off]? = some 255

section Telling

variable {data : Bytes} {att c : AttLayout} {off start next n : ℕ}

/-- Identifiers of ones, with a value behind them. -/
theorem telling_of_ones {row : RepSetTableRow} {v : Varlena} (setid : row.setid = 0xffffffff)
    (reloid : row.reloid = 0xffffffff) (first : row.attList = some v ∨ row.attList = none ∧ row.rowFilter = some v) :
    Telling row.tuple.data := by
  obtain ⟨rest, behind⟩ := drop_eight first
  have ids : row.tuple.data = [255, 255, 255, 255, 255, 255, 255, 255] ++ (v.val ++ rest) := by
    rw [← behind, heapFillTuple_columns, setid, reloid]
    rfl
  have positive := Varlena.length_pos v
  rw [ids]
  refine ⟨fun off bound size sized => ?_, fun off bound => ?_, fun off bound => ?_⟩
  · obtain rfl | inside := Nat.eq_or_lt_of_le bound
    · rw [← ids, behind, varsizeAny_append v.property] at sized
      cases sized
      omega
    · have : size = 127 := by
        interval_cases off <;> simpa [varsizeAny, eq_comm] using sized
      omega
  · interval_cases off <;> simp [CString.ofBytes, CString.strlen] <;> omega
  · interval_cases off <;> rfl

theorem Telling.fixed (telling : Telling data) (aligned : attAlignPointer data off att = some start)
    (ends : attAddlengthPointer data start att = some next) (bound : next ≤ 8) :
    0 < att.attlen ∧ next = attAlignNominal off att.attalign + att.attlen.toNat := by
  rw [attAddlengthPointer] at ends
  split_ifs at ends with fixed varlena string
  · have : attAlignNominal off att.attalign = start := by
      simpa [attAlignPointer, show att.attlen ≠ -1 by omega] using aligned
    have := Option.some.inj ends
    exact ⟨fixed, by omega⟩
  · obtain ⟨size, sized, rfl⟩ := Option.map_eq_some_iff.mp ends
    have := telling.header start (by omega) size sized
    omega
  · have := Option.some.inj ends
    have := telling.string start (by omega)
    omega

theorem Telling.lands (telling : Telling data) (aligned : attAlignPointer data off c = some 8) :
    if c.attlen = -1 then off = 8 else attAlignNominal off c.attalign = 8 := by
  rw [attAlignPointer] at aligned
  split_ifs at aligned ⊢ with varlena
  · obtain ⟨byte, here, ends⟩ := Option.map_eq_some_iff.mp aligned
    have := le_attAlignNominal off c.attalign
    by_cases inside : off < 8
    · obtain rfl : 255 = byte := by simpa [telling.nonzero off inside] using here
      simpa using ends
    · split_ifs at ends <;> omega
  · exact Option.some.inj aligned

/-- The first columns of a descriptor whose walk ends behind the identifiers. -/
theorem Telling.lead {desc : List AttLayout} {isnull : List Bool} (telling : Telling data)
    (found : nocachegetattr data desc (false :: false :: isnull) (n + 2) 0 = some (c, 8)) :
    ∃ c₁ c₂ atts, desc = c₁ :: c₂ :: atts ∧ 0 < c₁.attlen ∧ 0 < c₂.attlen ∧
      nocachegetattr data atts isnull n (leadEnd c₁ c₂) = some (c, 8) := by
  match desc, found with
  | c₁ :: c₂ :: atts, found =>
    simp only [nocachegetattr, Option.bind_eq_some_iff] at found
    obtain ⟨at₁, aligned₁, next₁, ends₁, at₂, aligned₂, next₂, ends₂, found⟩ := found
    have bound₂ := nocachegetattr_le found
    obtain ⟨fixed₂, rfl⟩ := telling.fixed aligned₂ ends₂ bound₂
    have := le_attAlignNominal next₁ c₂.attalign
    obtain ⟨fixed₁, rfl⟩ := telling.fixed aligned₁ ends₁ (by omega)
    refine ⟨c₁, c₂, atts, rfl, fixed₁, fixed₂, ?_⟩
    simpa [leadEnd] using found
  | [c₁], found =>
    simp [nocachegetattr] at found

end Telling

/-! ### The rows -/

def ones : Oid := 0xffffffff

/-- The column list `{a}`. -/
def listA : Varlena :=
  ⟨[53, 1, 0, 0, 0, 0, 0, 0, 0, 25, 0, 0, 0, 1, 0, 0, 0, 1, 0, 0, 0, 20, 0, 0, 0, 97], by decide⟩

/-- The column list `{ab}`. -/
def listAB : Varlena :=
  ⟨[55, 1, 0, 0, 0, 0, 0, 0, 0, 25, 0, 0, 0, 1, 0, 0, 0, 1, 0, 0, 0, 24, 0, 0, 0, 97, 98], by decide⟩

/-- A row filter that fits a one-byte header, as long as the node tree of a boolean column. What is in
the text does not matter to a walk. -/
def shortFilter : Varlena := ⟨239 :: List.replicate 118 120, by decide +kernel⟩

/-- A row filter that does not fit, as long as the node tree of a boolean constant. -/
def longFilter : Varlena := ⟨[92, 2, 0, 0] ++ List.replicate 147 120, by decide +kernel⟩

/-- A value of these rows is at one place only. -/
theorem varlenaAt_unique {data value : Bytes} {start off : ℕ}
    (unique : ∀ off < data.length, varlenaAt data off = some value → off = start)
    (found : varlenaAt data off = some value) : off = start := by
  refine unique off ?_ found
  by_contra outside
  simp [varlenaAt, List.drop_eq_nil_of_le (not_lt.mp outside), varsizeAny] at found

def listRow : RepSetTableRow := ⟨ones, ones, some listA, none⟩

def filterRow : RepSetTableRow := ⟨ones, ones, none, some shortFilter⟩

/-- The filter is at 34, not aligned. -/
def bothRow : RepSetTableRow := ⟨ones, ones, some listA, some shortFilter⟩

/-- The filter is at 35. -/
def longerRow : RepSetTableRow := ⟨ones, ones, some listAB, some shortFilter⟩

/-- The filter has a four-byte header and is at 36, behind two bytes of padding. -/
def paddedRow : RepSetTableRow := ⟨ones, ones, some listA, some longFilter⟩

section Rows

variable {row : RepSetTableRow} {desc atts : List AttLayout} {v w : Varlena} {c₁ c₂ c₃ c₄ : AttLayout} {next : ℕ}

theorem lands_of_list (setid : row.setid = ones) (reloid : row.reloid = ones) (attSet : row.attList = some v)
    (unique : ∀ off < row.tuple.data.length, varlenaAt row.tuple.data off = some v.val → off = 8)
    (obtains : Obtains desc row) : ∃ c₁ c₂ c₃ atts, desc = c₁ :: c₂ :: c₃ :: atts ∧ Lands c₁ c₂ c₃ := by
  have telling := telling_of_ones setid reloid (.inl attSet)
  have nulls := isnull_tuple row
  have obtained := (obtains_iff.mp obtains).1
  rw [attSet] at obtained
  obtain ⟨c, start, found, byref, stored⟩ := (heapGetattr_eq_iff (by simp [nulls, attSet])).mp obtained
  obtain rfl := varlenaAt_unique unique stored
  rw [nulls] at found
  obtain ⟨c₁, c₂, atts, rfl, fixed₁, fixed₂, found⟩ := telling.lead found
  match atts, found with
  | c₃ :: atts, found =>
    simp only [nocachegetattr, Option.map_eq_some_iff, Prod.mk.injEq] at found
    obtain ⟨_, aligned, rfl, rfl⟩ := found
    exact ⟨c₁, c₂, c₃, atts, rfl, fixed₁, fixed₂, byref, telling.lands aligned⟩

set_option maxRecDepth 10000 in
theorem lands_of_filter (obtains : Obtains desc filterRow) :
    ∃ c₁ c₂ c₃ c₄ atts, desc = c₁ :: c₂ :: c₃ :: c₄ :: atts ∧ Lands c₁ c₂ c₄ := by
  have telling : Telling filterRow.tuple.data := telling_of_ones rfl rfl (.inr ⟨rfl, rfl⟩)
  have nulls : filterRow.tuple.isnull = [false, false, true, false] := rfl
  have unique : ∀ off < filterRow.tuple.data.length,
      varlenaAt filterRow.tuple.data off = some shortFilter.val → off = 8 := by decide
  obtain ⟨c, start, found, byref, stored⟩ := (heapGetattr_eq_iff rfl).mp (obtains_iff.mp obtains).2
  obtain rfl := varlenaAt_unique unique stored
  rw [nulls] at found
  obtain ⟨c₁, c₂, atts, rfl, fixed₁, fixed₂, found⟩ := telling.lead found
  match atts, found with
  | c₃ :: c₄ :: atts, found =>
    simp only [nocachegetattr, Option.map_eq_some_iff, Prod.mk.injEq] at found
    obtain ⟨_, aligned, rfl, rfl⟩ := found
    exact ⟨c₁, c₂, c₃, c₄, atts, rfl, fixed₁, fixed₂, byref, telling.lands aligned⟩
  | [c₃], found => simp [nocachegetattr] at found

/-- The steps of the walk from the column list to the row filter. -/
theorem steps_to_filter (start : ℕ) (lands : Lands c₁ c₂ c₃) (attSet : row.attList = some v)
    (filterSet : row.rowFilter = some w)
    (unique : ∀ off < row.tuple.data.length, varlenaAt row.tuple.data off = some w.val → off = start)
    (obtains : Obtains (c₁ :: c₂ :: c₃ :: atts) row) :
    ∃ c₄ next, atts.head? = some c₄ ∧ attAddlengthPointer row.tuple.data 8 c₃ = some next ∧
      attAlignPointer row.tuple.data next c₄ = some start := by
  have nulls := isnull_tuple row
  have obtained := (obtains_iff.mp obtains).2
  rw [filterSet] at obtained
  obtain ⟨c, place, found, -, stored⟩ := (heapGetattr_eq_iff (by simp [nulls, filterSet])).mp obtained
  obtain rfl := varlenaAt_unique unique stored
  rw [nulls, nocachegetattr_lead lands.fixed₁ lands.fixed₂, attSet, filterSet] at found
  match atts, found with
  | c₄ :: atts, found =>
    obtain ⟨rfl, at₃, next, aligned, ends, found⟩ := nocachegetattr_second.mp found
    obtain rfl : 8 = at₃ := by simpa [lands.aligns (eight_lt_length (.inl attSet))] using aligned
    exact ⟨c₄, next, rfl, ends, found⟩
  | [], found => simp [nocachegetattr] at found

set_option maxRecDepth 10000 in
/-- No column starts at both places of the filter when the walk reaches it from one place. -/
theorem not_same_start (c₄ : AttLayout) (next : ℕ) (here : attAlignPointer bothRow.tuple.data next c₄ = some 34)
    (there : attAlignPointer longerRow.tuple.data next c₄ = some 35) : False := by
  have bound := le_attAlignPointer here
  by_cases varlena : c₄.attlen = -1
  · have table : ∀ align : AttAlign, ∀ next < 35,
        ¬((bothRow.tuple.data[next]?.map fun byte => if byte = 0 then attAlignNominal next align else next) = some 34 ∧
          (longerRow.tuple.data[next]?.map fun byte => if byte = 0 then attAlignNominal next align else next) =
            some 35) := by
      intro align
      cases align <;> decide
    rw [attAlignPointer, if_pos varlena] at here there
    exact table c₄.attalign next (by omega) ⟨here, there⟩
  · rw [attAlignPointer, if_neg varlena] at here there
    rw [here] at there
    simp at there

set_option maxRecDepth 10000 in
/-- The column list is stepped over by its own length, or by one that does not depend on it. -/
theorem varlena_of_steps {next' : ℕ} (ends : attAddlengthPointer bothRow.tuple.data 8 c₃ = some next)
    (ends' : attAddlengthPointer longerRow.tuple.data 8 c₃ = some next')
    (here : attAlignPointer bothRow.tuple.data next c₄ = some 34)
    (there : attAlignPointer longerRow.tuple.data next' c₄ = some 35) : c₃.attlen = -1 := by
  by_contra varlena
  have same : attAddlengthPointer bothRow.tuple.data 8 c₃ = attAddlengthPointer longerRow.tuple.data 8 c₃ := by
    have string : (CString.ofBytes (bothRow.tuple.data.drop 8)).strlen =
        (CString.ofBytes (longerRow.tuple.data.drop 8)).strlen := by decide
    have terminated : (0 : UInt8) ∈ bothRow.tuple.data.drop 8 := by decide
    have terminated' : (0 : UInt8) ∈ longerRow.tuple.data.drop 8 := by decide
    rw [attAddlengthPointer, attAddlengthPointer, if_neg varlena, if_neg varlena, if_pos terminated,
      if_pos terminated', string]
  rw [ends, ends'] at same
  obtain rfl := Option.some.inj same
  exact not_same_start c₄ next here there

set_option maxRecDepth 10000 in
theorem layout_of_padding (here : attAlignPointer bothRow.tuple.data 34 c₄ = some 34)
    (padded : attAlignPointer paddedRow.tuple.data 34 c₄ = some 36) : c₄.attlen = -1 ∧ c₄.attalign = .int := by
  by_cases varlena : c₄.attlen = -1
  · refine ⟨varlena, ?_⟩
    have zero : paddedRow.tuple.data[34]? = some 0 := by decide
    rw [attAlignPointer, if_pos varlena, zero, Option.map_some, if_pos rfl] at padded
    cases align : c₄.attalign <;> simp [align, attAlignNominal, AttAlign.width] at padded ⊢
  · rw [attAlignPointer, if_neg varlena] at here padded
    rw [here] at padded
    simp at padded

set_option maxRecDepth 10000 in
theorem readable_of_both (both : Obtains desc bothRow) (longer : Obtains desc longerRow)
    (padded : Obtains desc paddedRow) : Readable desc true true := by
  have atList : ∀ off < bothRow.tuple.data.length, varlenaAt bothRow.tuple.data off = some listA.val → off = 8 := by
    decide
  obtain ⟨c₁, c₂, c₃, atts, rfl, lands⟩ := lands_of_list rfl rfl rfl atList both
  obtain ⟨c₄, next, column, ends, here⟩ := steps_to_filter 34 lands rfl rfl (by decide) both
  obtain ⟨_, _, column', ends', there⟩ := steps_to_filter 35 lands rfl rfl (by decide) longer
  obtain ⟨_, _, column'', ends'', padding⟩ := steps_to_filter 36 lands rfl rfl (by decide) padded
  obtain rfl := Option.some.inj (column.symm.trans column')
  obtain rfl := Option.some.inj (column.symm.trans column'')
  have varlena := varlena_of_steps ends ends' here there
  have size : varsizeAny (bothRow.tuple.data.drop 8) = some 26 := by decide
  have size' : varsizeAny (paddedRow.tuple.data.drop 8) = some 26 := by decide
  obtain rfl : 34 = next := by simpa [attAddlengthPointer, varlena, size] using ends
  obtain rfl : 34 = _ := by simpa [attAddlengthPointer, varlena, size'] using ends''
  cases atts with
  | nil => cases column
  | cons _ _ =>
    cases column
    exact ⟨lands, varlena, layout_of_padding here padding⟩

end Rows

/-- Memberships are read as they are stored exactly through the descriptors of these tables. -/
theorem readsUnchanged_iff (attalign : FormPgAttribute → AttAlign) (desc : TupleDesc) (attList rowFilter : Bool) :
    ReadsUnchanged attalign desc attList rowFilter ↔ Readable (desc.layout attalign) attList rowFilter := by
  rw [readsUnchanged_iff_obtains]
  constructor
  · intro obtained
    cases attList with
    | false =>
      cases rowFilter with
      | false => simp [Readable]
      | true =>
        obtain ⟨c₁, c₂, c₃, c₄, atts, same, lands⟩ := lands_of_filter (obtained filterRow rfl rfl)
        rw [same]
        exact lands
    | true =>
      cases rowFilter with
      | false =>
        have unique : ∀ off < listRow.tuple.data.length,
            varlenaAt listRow.tuple.data off = some listA.val → off = 8 := by decide +kernel
        obtain ⟨c₁, c₂, c₃, atts, same, lands⟩ := lands_of_list rfl rfl rfl unique (obtained listRow rfl rfl)
        rw [same]
        exact lands
      | true =>
        exact readable_of_both (obtained bothRow rfl rfl) (obtained longerRow rfl rfl) (obtained paddedRow rfl rfl)
  · rintro readable row rfl rfl
    exact readable.obtains

/-! ## A table with a flag in the second column -/

def memoName (name : String) (short : (CString.ofString name).strlen < namedatalen) : NameData :=
  ⟨CString.ofString name, short⟩

/-- The columns of `memo (id int4, done bool, title text, body text)`. -/
def memoDesc : TupleDesc where
  attrs := [.int4 (memoName "id" (by decide)) 1,
    ⟨memoName "done" (by decide), 16, 1, 2, -1, true, false, by simp⟩,
    .text (memoName "title" (by decide)) 3,
    .text (memoName "body" (by decide)) 4]
  natts := by decide
  numbered := by decide
  named := by decide

/-- `typalign` of the types of the table. -/
def memoAlign (att : FormPgAttribute) : AttAlign := if att.atttypid = 16 then .char else .int

def memoTable : Relation := ⟨16400, 2200, memoName "memo" (by decide), memoDesc, {9}⟩

def memoSet : PGLogicalRepSet := ⟨1144, 9, CString.ofString "default", true, true, true, true⟩

/-- The table is in the set with the column list `{id}`. -/
def memoRow : RepSetTableRow where
  setid := 1144
  reloid := 16400
  attList := some ⟨[55, 1, 0, 0, 0, 0, 0, 0, 0, 25, 0, 0, 0, 1, 0, 0, 0, 1, 0, 0, 0, 24, 0, 0, 0, 105, 100], by decide⟩
  rowFilter := none

/-- The walk over the table's columns stops inside the table's identifier, whose second byte it takes
for the header of a varlena of 220 MB. -/
theorem not_forall_readsUnchanged : ¬∀ (attalign : FormPgAttribute → AttAlign) (desc : TupleDesc)
    (attList rowFilter : Bool), ReadsUnchanged attalign desc attList rowFilter := by
  intro unchanged
  have scanned := unchanged memoAlign memoDesc true false memoTable [memoRow] [memoSet] rfl (by simp [memoRow])
  have lost : scanMemberships memoAlign memoTable [memoRow.tuple] [memoSet] = none := by decide
  rw [List.map_singleton, lost] at scanned
  simp at scanned

end PGLogical
