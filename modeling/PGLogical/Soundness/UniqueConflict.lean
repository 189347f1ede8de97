import PGLogical.Soundness.RowTriggers

/-! # Unique indexes and conflicts

A tuple conflicts with a row if both are in a unique index and have equal keys there. The search
returns the first index with an equal key and stops, so that it neither sees a second row nor is
independent of the order of the indexes, and it does not ask whether the tuple would be in a partial
index at all. It does what it should exactly if at most one index has an equal key, and the tuple
satisfies the predicate of that one.
-/

namespace PGLogical.Apply

open Native (PGLogicalTupleData)

/-! ## The first hit of a search -/

section Search

variable {α β : Type} {f : α → Option β} {items : List α}

theorem findSome?_of_mem {item : α} {result : β} (member : item ∈ items) (hit : f item = some result) :
    ∃ order, items.Perm order ∧ order.findSome? f = some result := by
  obtain ⟨before, after, rfl⟩ := List.append_of_mem member
  exact ⟨item :: (before ++ after), List.perm_middle, by simp [hit]⟩

/-- The first hit is the same in every order exactly if all hits are the same. -/
theorem findSome?_perm_iff :
    (∀ order, items.Perm order → order.findSome? f = items.findSome? f) ↔
      ∀ item ∈ items, ∀ other ∈ items, ∀ result result', f item = some result → f other = some result' →
        result = result' := by
  constructor
  · intro same item member other member' result result' hit hit'
    obtain ⟨order, perm, first⟩ := findSome?_of_mem member hit
    obtain ⟨order', perm', first'⟩ := findSome?_of_mem member' hit'
    rw [same order perm] at first
    rw [same order' perm', first] at first'
    exact Option.some.inj first'
  · intro unique order perm
    cases first : items.findSome? f with
    | none =>
      rw [List.findSome?_eq_none_iff] at first ⊢
      exact fun item member => first item (perm.mem_iff.mpr member)
    | some result =>
      obtain ⟨before, item, after, split, hit, -⟩ := List.findSome?_eq_some_iff.mp first
      have member : item ∈ items := by simp [split]
      cases again : order.findSome? f with
      | none =>
        rw [List.findSome?_eq_none_iff] at again
        rw [again item (perm.mem_iff.mp member)] at hit
        cases hit
      | some result' =>
        obtain ⟨before', other, after', split', hit', -⟩ := List.findSome?_eq_some_iff.mp again
        have member' : other ∈ items := perm.mem_iff.mpr (by simp [split'])
        rw [unique item member other member' result result' hit hit']

end Search

/-! ## The search of the handler -/

/-- The key columns are equal, and none is NULL. -/
def EqualKeys (index : IndexInfo) (new stored : Row) : Prop :=
  ∀ attnum ∈ index.indkey, keyMatches index stored (attnum, new attnum) = true

/-- The indexes that are looked at. -/
def IndexInfo.Eligible (index : IndexInfo) : Prop := index.unique = true ∧ index.expressions = false

/-- Inserting the tuple would violate the index because of the row. -/
def Violates (tuple : PGLogicalTupleData) (index : IndexInfo) (stored : StoredRow) : Prop :=
  index.Eligible ∧ index.predicate (argument tuple) = true ∧ index.predicate stored.row = true ∧
    EqualKeys index (argument tuple) stored.row

variable {heap : List StoredRow} {tuple : PGLogicalTupleData} {index : IndexInfo} {indexes : List IndexInfo}
variable {stored : StoredRow}

/-- What the loop finds in one index. -/
def hit (heap : List StoredRow) (tuple : PGLogicalTupleData) (index : IndexInfo) : Option StoredRow :=
  if !index.unique || index.expressions then none
  else if (buildIndexScanKey index tuple).2 then none
  else findIndexTuple index heap (buildIndexScanKey index tuple).1

theorem findConflict_eq (heap : List StoredRow) (tuple : PGLogicalTupleData) (indexes : List IndexInfo) :
    pglogicalTupleFindConflict indexes heap tuple =
      .ok (indexes.findSome? fun index => (hit heap tuple index).map fun stored => (index.indexrelid, stored)) := by
  unfold pglogicalTupleFindConflict
  induction indexes with
  | nil => rfl
  | cons index rest ih =>
    rw [findConflict, List.findSome?_cons, hit]
    split_ifs
    · exact ih
    · exact ih
    · cases findIndexTuple index heap (buildIndexScanKey index tuple).1 with
      | none => exact ih
      | some stored => rfl

theorem scanMatches_eq (index : IndexInfo) (tuple : PGLogicalTupleData) (row : Row) :
    scanMatches index (buildIndexScanKey index tuple).1 row = true ↔ EqualKeys index (argument tuple) row := by
  have pairs : index.indkey.zip (index.indkey.map (argument tuple)) =
      index.indkey.map fun attnum => (attnum, argument tuple attnum) := by
    induction index.indkey with
    | nil => rfl
    | cons attnum rest ih => simp [ih]
  simp [scanMatches, buildIndexScanKey, pairs, EqualKeys]

/-- A key with a NULL equals no key. -/
theorem not_hasnulls (equal : EqualKeys index (argument tuple) stored.row) : (buildIndexScanKey index tuple).2 = false := by
  simp only [buildIndexScanKey, List.any_map, List.any_eq_false]
  intro attnum member isNull
  have same := equal attnum member
  rw [Function.comp_apply, Option.isNone_iff_eq_none] at isNull
  simp [keyMatches, isNull] at same

theorem hit_eq_some (found : hit heap tuple index = some stored) :
    index.Eligible ∧ stored ∈ heap ∧ index.predicate stored.row = true ∧ EqualKeys index (argument tuple) stored.row := by
  unfold hit at found
  split_ifs at found with skipped nulls
  have matched := List.find?_some found
  rw [Bool.and_eq_true, scanMatches_eq] at matched
  refine ⟨?_, List.mem_of_find?_eq_some found, matched⟩
  simpa [IndexInfo.Eligible] using skipped

/-- A row with an equal key is found, or another one in its place. -/
theorem exists_hit (eligible : index.Eligible) (member : stored ∈ heap) (inIndex : index.predicate stored.row = true)
    (equal : EqualKeys index (argument tuple) stored.row) : ∃ found, hit heap tuple index = some found := by
  have looked : hit heap tuple index = findIndexTuple index heap (buildIndexScanKey index tuple).1 := by
    simp [hit, eligible.1, eligible.2, not_hasnulls equal]
  rw [looked]
  refine Option.isSome_iff_exists.mp (List.find?_isSome.mpr ⟨stored, member, ?_⟩)
  rw [Bool.and_eq_true, scanMatches_eq]
  exact ⟨inIndex, equal⟩

/-! ## What it should do -/

/-- The table as PostgreSQL keeps it: its unique indexes hold no two rows with equal keys, and equality in an
index column is an equivalence. -/
structure UniqueTable (indexes : List IndexInfo) (heap : List StoredRow) : Prop where
  oids : (indexes.map IndexInfo.indexrelid).Nodup
  symmetric : ∀ index ∈ indexes, ∀ attnum a b, index.equal attnum a b = true → index.equal attnum b a = true
  transitive : ∀ index ∈ indexes, ∀ attnum a b c, index.equal attnum a b = true → index.equal attnum b c = true →
    index.equal attnum a c = true
  unique : ∀ index ∈ indexes, index.unique = true → ∀ a ∈ heap, ∀ b ∈ heap, index.predicate a.row = true →
    index.predicate b.row = true → EqualKeys index a.row b.row → a = b

/-- The tuple conflicts with two different rows. -/
def Multiple (indexes : List IndexInfo) (heap : List StoredRow) (tuple : PGLogicalTupleData) : Prop :=
  ∃ index ∈ indexes, ∃ other ∈ indexes, ∃ a ∈ heap, ∃ b ∈ heap,
    a.tSelf ≠ b.tSelf ∧ Violates tuple index a ∧ Violates tuple other b

structure Detects (indexes : List IndexInfo) (heap : List StoredRow) (tuple : PGLogicalTupleData) : Prop where
  error_iff : (∃ message, pglogicalTupleFindConflict indexes heap tuple = .error message) ↔ Multiple indexes heap tuple
  found_iff : (∃ found, pglogicalTupleFindConflict indexes heap tuple = .ok (some found)) ↔
    (∃ index ∈ indexes, ∃ stored ∈ heap, Violates tuple index stored) ∧ ¬ Multiple indexes heap tuple
  found_violates : ∀ oid stored, pglogicalTupleFindConflict indexes heap tuple = .ok (some (oid, stored)) →
    ∃ index ∈ indexes, index.indexrelid = oid ∧ stored ∈ heap ∧ Violates tuple index stored
  order_irrelevant : ∀ order, indexes.Perm order →
    pglogicalTupleFindConflict order heap tuple = pglogicalTupleFindConflict indexes heap tuple

/-- A unique index has a row with the key of the tuple. -/
def Hits (heap : List StoredRow) (tuple : PGLogicalTupleData) (index : IndexInfo) : Prop :=
  index.Eligible ∧ ∃ stored ∈ heap, index.predicate stored.row = true ∧ EqualKeys index (argument tuple) stored.row

/-- At most one index has, and the tuple belongs into it. -/
structure SingleHit (indexes : List IndexInfo) (heap : List StoredRow) (tuple : PGLogicalTupleData) : Prop where
  single : ∀ index ∈ indexes, ∀ other ∈ indexes, Hits heap tuple index → Hits heap tuple other → index = other
  belongs : ∀ index ∈ indexes, Hits heap tuple index → index.predicate (argument tuple) = true

theorem Violates.hits (member : stored ∈ heap) (violates : Violates tuple index stored) : Hits heap tuple index :=
  ⟨violates.1, stored, member, violates.2.2⟩

theorem Hits.exists_hit (hits : Hits heap tuple index) : ∃ found, hit heap tuple index = some found := by
  obtain ⟨eligible, stored, member, inIndex, equal⟩ := hits
  exact Apply.exists_hit eligible member inIndex equal

theorem hits_of_hit (found : hit heap tuple index = some stored) : Hits heap tuple index := by
  obtain ⟨eligible, member, inIndex, equal⟩ := hit_eq_some found
  exact ⟨eligible, stored, member, inIndex, equal⟩

theorem keyMatches_eq_true {row : Row} {attnum : ℕ} {value : Option Datum} :
    keyMatches index row (attnum, value) = true ↔
      ∃ wanted held, value = some wanted ∧ row attnum = some held ∧ index.equal attnum wanted held = true := by
  cases value with
  | none => simp [keyMatches]
  | some wanted =>
    cases held : row attnum with
    | none => simp [keyMatches, held]
    | some datum => simp [keyMatches, held]

/-- Two rows with the key of the tuple have the same key. -/
theorem UniqueTable.eq_of_equalKeys (table : UniqueTable indexes heap) (listed : index ∈ indexes)
    (eligible : index.Eligible) {a b : StoredRow} (memberA : a ∈ heap) (memberB : b ∈ heap)
    (inA : index.predicate a.row = true) (inB : index.predicate b.row = true)
    (equalA : EqualKeys index (argument tuple) a.row) (equalB : EqualKeys index (argument tuple) b.row) : a = b := by
  refine table.unique index listed eligible.1 a memberA b memberB inA inB fun attnum member => ?_
  obtain ⟨wanted, held, value, here, same⟩ := keyMatches_eq_true.mp (equalA attnum member)
  obtain ⟨wanted', held', value', there, same'⟩ := keyMatches_eq_true.mp (equalB attnum member)
  rw [value] at value'
  cases value'
  refine keyMatches_eq_true.mpr ⟨held, held', here, there, ?_⟩
  exact table.transitive index listed attnum held wanted held' (table.symmetric index listed attnum wanted held same) same'

theorem UniqueTable.index_eq (table : UniqueTable indexes heap) {other : IndexInfo} (listed : index ∈ indexes)
    (listed' : other ∈ indexes) (same : index.indexrelid = other.indexrelid) : index = other :=
  List.inj_on_of_nodup_map table.oids listed listed' same

theorem SingleHit.not_multiple (table : UniqueTable indexes heap) (single : SingleHit indexes heap tuple) :
    ¬ Multiple indexes heap tuple := by
  rintro ⟨index, listed, other, listed', a, memberA, b, memberB, different, violatesA, violatesB⟩
  have same := single.single index listed other listed' (violatesA.hits memberA) (violatesB.hits memberB)
  subst same
  obtain ⟨eligible, -, inA, equalA⟩ := violatesA
  obtain ⟨-, -, inB, equalB⟩ := violatesB
  have equal := table.eq_of_equalKeys listed eligible memberA memberB inA inB equalA equalB
  exact different (congrArg StoredRow.tSelf equal)

theorem SingleHit.detects (table : UniqueTable indexes heap) (single : SingleHit indexes heap tuple) :
    Detects indexes heap tuple where
  error_iff := by
    refine iff_of_false ?_ (single.not_multiple table)
    rintro ⟨message, raised⟩
    rw [findConflict_eq] at raised
    cases raised
  found_iff := by
    simp only [single.not_multiple table, not_false_eq_true, and_true, findConflict_eq, Except.ok.injEq]
    constructor
    · rintro ⟨found, first⟩
      obtain ⟨before, index, after, split, mapped, -⟩ := List.findSome?_eq_some_iff.mp first
      obtain ⟨stored, found, -⟩ := Option.map_eq_some_iff.mp mapped
      have listed : index ∈ indexes := by simp [split]
      obtain ⟨eligible, member, inIndex, equal⟩ := hit_eq_some found
      exact ⟨index, listed, stored, member, eligible, single.belongs index listed (hits_of_hit found), inIndex, equal⟩
    · rintro ⟨index, listed, stored, member, violates⟩
      obtain ⟨found, isHit⟩ := (violates.hits member).exists_hit
      exact Option.isSome_iff_exists.mp (List.findSome?_isSome_iff.mpr ⟨index, listed, by simp [isHit]⟩)
  found_violates := by
    intro oid stored returned
    rw [findConflict_eq, Except.ok.injEq] at returned
    obtain ⟨before, index, after, split, mapped, -⟩ := List.findSome?_eq_some_iff.mp returned
    obtain ⟨found, isHit, same⟩ := Option.map_eq_some_iff.mp mapped
    cases same
    have listed : index ∈ indexes := by simp [split]
    obtain ⟨eligible, member, inIndex, equal⟩ := hit_eq_some isHit
    exact ⟨index, listed, rfl, member, eligible, single.belongs index listed (hits_of_hit isHit), inIndex, equal⟩
  order_irrelevant := by
    intro order perm
    rw [findConflict_eq, findConflict_eq]
    refine congrArg Except.ok (findSome?_perm_iff.mpr ?_ order perm)
    intro index listed other listed' result result' isHit isHit'
    obtain ⟨stored, found, -⟩ := Option.map_eq_some_iff.mp isHit
    obtain ⟨stored', found', -⟩ := Option.map_eq_some_iff.mp isHit'
    have same := single.single index listed other listed' (hits_of_hit found) (hits_of_hit found')
    subst same
    rw [isHit] at isHit'
    exact Option.some.inj isHit'

theorem Detects.singleHit (table : UniqueTable indexes heap) (detects : Detects indexes heap tuple) :
    SingleHit indexes heap tuple := by
  have orders : ∀ order, indexes.Perm order → (order.findSome? fun index =>
      (hit heap tuple index).map fun stored => (index.indexrelid, stored)) =
      indexes.findSome? fun index => (hit heap tuple index).map fun stored => (index.indexrelid, stored) := by
    intro order perm
    have same := detects.order_irrelevant order perm
    rw [findConflict_eq, findConflict_eq] at same
    exact Except.ok.inj same
  constructor
  · intro index listed other listed' hits hits'
    obtain ⟨stored, found⟩ := hits.exists_hit
    obtain ⟨stored', found'⟩ := hits'.exists_hit
    have pair := findSome?_perm_iff.mp orders index listed other listed' (index.indexrelid, stored)
      (other.indexrelid, stored') (by simp [found]) (by simp [found'])
    exact table.index_eq listed listed' (congrArg Prod.fst pair)
  · intro index listed hits
    obtain ⟨stored, found⟩ := hits.exists_hit
    obtain ⟨order, perm, first⟩ := findSome?_of_mem (f := fun index => (hit heap tuple index).map fun stored =>
      (index.indexrelid, stored)) listed (by rw [found]; rfl)
    have returned : pglogicalTupleFindConflict indexes heap tuple = .ok (some (index.indexrelid, stored)) := by
      rw [findConflict_eq, ← orders order perm, first]
    obtain ⟨violated, listed', same, -, violates⟩ := detects.found_violates _ _ returned
    rw [← table.index_eq listed' listed same]
    exact violates.2.1

theorem detects_iff (table : UniqueTable indexes heap) :
    Detects indexes heap tuple ↔ SingleHit indexes heap tuple :=
  ⟨Detects.singleHit table, SingleHit.detects table⟩

/-! ## Two indexes -/

def noteLocalIndex : IndexInfo := ⟨16391, true, false, [1], fun _ wanted value => decide (wanted = value), fun _ => true⟩

def noteRows : List StoredRow := [noteRow 0 1 7, noteRow 1 2 8]

/-- The id of one row and the other column of the other row. -/
def noteBoth : PGLogicalTupleData :=
  ⟨fun attnum => if attnum = 0 then .byval 1 else .byval 8, fun attnum => decide (2 ≤ attnum), fun _ => true⟩

theorem uniqueTable_note : UniqueTable [noteIndex, noteLocalIndex] noteRows where
  oids := by decide
  symmetric := by
    intro index listed attnum a b equal
    simp only [List.mem_cons, List.not_mem_nil, or_false] at listed
    rcases listed with rfl | rfl
    · simpa [noteIndex, eq_comm] using equal
    · simpa [noteLocalIndex, eq_comm] using equal
  transitive := by
    intro index listed attnum a b c first second
    simp only [List.mem_cons, List.not_mem_nil, or_false] at listed
    rcases listed with rfl | rfl
    · simp_all [noteIndex]
    · simp_all [noteLocalIndex]
  unique := by
    intro index listed _ a memberA b memberB _ _ equal
    simp only [List.mem_cons, List.not_mem_nil, or_false] at listed
    simp only [noteRows, List.mem_cons, List.not_mem_nil, or_false] at memberA memberB
    rcases listed with rfl | rfl
    · rcases memberA with rfl | rfl <;> rcases memberB with rfl | rfl
      · rfl
      · exact absurd (equal 0 (by decide)) (by decide)
      · exact absurd (equal 0 (by decide)) (by decide)
      · rfl
    · rcases memberA with rfl | rfl <;> rcases memberB with rfl | rfl
      · rfl
      · exact absurd (equal 1 (by decide)) (by decide)
      · exact absurd (equal 1 (by decide)) (by decide)
      · rfl

theorem detects_iff_note : UniqueTable [noteIndex, noteLocalIndex] noteRows ∧
    (Detects [noteIndex, noteLocalIndex] noteRows noteBoth ↔
      SingleHit [noteIndex, noteLocalIndex] noteRows noteBoth) :=
  ⟨uniqueTable_note, detects_iff uniqueTable_note⟩

/-- Two rows are in conflict and no error is raised. -/
theorem not_forall_detects :
    ¬ ∀ (indexes : List IndexInfo) (heap : List StoredRow) (tuple : PGLogicalTupleData),
      UniqueTable indexes heap → Detects indexes heap tuple := by
  intro all
  have detects := all [noteIndex, noteLocalIndex] noteRows noteBoth uniqueTable_note
  have first : Violates noteBoth noteIndex (noteRow 0 1 7) := by
    refine ⟨⟨rfl, rfl⟩, rfl, rfl, fun attnum member => ?_⟩
    rw [List.mem_singleton.mp member]
    decide
  have second : Violates noteBoth noteLocalIndex (noteRow 1 2 8) := by
    refine ⟨⟨rfl, rfl⟩, rfl, rfl, fun attnum member => ?_⟩
    rw [List.mem_singleton.mp member]
    decide
  have multiple : Multiple [noteIndex, noteLocalIndex] noteRows noteBoth :=
    ⟨noteIndex, by simp, noteLocalIndex, by simp, noteRow 0 1 7, by simp [noteRows], noteRow 1 2 8, by simp [noteRows],
      by decide, first, second⟩
  obtain ⟨message, raised⟩ := detects.error_iff.mpr multiple
  have returned : pglogicalTupleFindConflict [noteIndex, noteLocalIndex] noteRows noteBoth =
      .ok (some (16390, noteRow 0 1 7)) := rfl
  rw [returned] at raised
  cases raised

end PGLogical.Apply
