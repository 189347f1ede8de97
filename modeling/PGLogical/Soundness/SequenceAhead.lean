import PGLogical.Machine.Run
import PGLogical.Soundness.SequenceTracking

/-! # Sequences ahead of the provider

What subscribers are told of a sequence should lie beyond the provider's value. Both passes add the
cache to that value without a look at the sequence's direction or bound, so they do for ascending
sequences that are far enough from their bound and for no descending one. Which passes leave a record
ahead is an equivalence, for one pass and then for runs of both kinds of pass with any consumption
in between.
-/

namespace PGLogical.Sequences

open Wire (CString)
open Repsets (Server TargetRel)
open Machine (run Permitted bind_eq_ok guard_eq_ok eq_ok_of_toOption)

/-! ## One record -/

/-- What a sequence may take as its value, and where it goes. -/
structure SequenceRange where
  minValue : Int64
  maxValue : Int64
  ascending : Bool

def SequenceRange.Contains (range : SequenceRange) (value : Int64) : Prop :=
  range.minValue ≤ value ∧ value ≤ range.maxValue

instance decidableContains (range : SequenceRange) : DecidablePred range.Contains :=
  fun value => inferInstanceAs (Decidable (range.minValue ≤ value ∧ value ≤ range.maxValue))

/-- At least half of the smallest cache beyond the provider's value, or at the bound. -/
def SequenceRange.Beyond (range : SequenceRange) (lastValue value : Int64) : Prop :=
  if range.ascending then lastValue.toInt + 500 ≤ value.toInt ∨ value = range.maxValue
  else value.toInt ≤ lastValue.toInt - 500 ∨ value = range.minValue

/-- The sequence has gone through the whole buffer. -/
def SequenceRange.Consumed (range : SequenceRange) (seq : SeqStateTuple) (lastValue : Int64) : Prop :=
  if range.ascending then seq.lastValue.toInt + seq.cacheSize.toInt ≤ lastValue.toInt
  else lastValue.toInt ≤ seq.lastValue.toInt - seq.cacheSize.toInt

def cacheBounded (seq : SeqStateTuple) : Prop := 1000 ≤ seq.cacheSize.toInt ∧ seq.cacheSize.toInt ≤ 1000000

instance decidableCacheBounded (seq : SeqStateTuple) : Decidable (cacheBounded seq) :=
  inferInstanceAs (Decidable (_ ∧ _))

/-- The cache after a pass over all sequences, as an integer. -/
def grownCache (seq : SeqStateTuple) (lastValue : Int64) : ℤ :=
  if seq.lastValue.toInt + seq.cacheSize.toInt ≤ lastValue.toInt then min 1000000 (seq.cacheSize.toInt * 2)
  else seq.cacheSize.toInt

/-- All sums of sixty-four bits that a pass computes, as integers. -/
def sums (single : Bool) (seq : SeqStateTuple) (lastValue : Int64) : List ℤ :=
  if single then [lastValue.toInt + seq.cacheSize.toInt]
  else (lastValue.toInt + 500) ::
    if lastValue.toInt + 500 ≤ seq.lastValue.toInt then []
    else [seq.lastValue.toInt + seq.cacheSize.toInt / 2, seq.lastValue.toInt + seq.cacheSize.toInt,
      lastValue.toInt + grownCache seq lastValue]

def inInt64 (n : ℤ) : Prop := -2 ^ 63 ≤ n ∧ n < 2 ^ 63

/-- A pass has left the record of a sequence ahead. -/
structure Ahead (range : SequenceRange) (single : Bool) (lastValue : Int64) (old new : SeqStateTuple) : Prop where
  valid : range.Contains new.lastValue
  beyond : range.Beyond lastValue new.lastValue
  sums : ∀ n ∈ sums single old lastValue, inInt64 n
  cache : cacheBounded new
  grows : old.cacheSize < new.cacheSize → range.Consumed old lastValue

/-- There is room for the cache behind the values that are looked at. -/
def HasRoom (range : SequenceRange) (single : Bool) (old : SeqStateTuple) (lastValue : Int64) : Prop :=
  range.ascending = true ∧
    if single then lastValue.toInt + old.cacheSize.toInt ≤ range.maxValue.toInt
    else lastValue.toInt + 500 < 2 ^ 63 ∧ (old.lastValue.toInt < lastValue.toInt + 500 →
      old.lastValue.toInt + old.cacheSize.toInt < 2 ^ 63 ∧
        lastValue.toInt + grownCache old lastValue ≤ range.maxValue.toInt)

/-- "Not enough of the sequence was consumed yet for us to care." -/
def SeqStateTuple.Kept (single : Bool) (old : SeqStateTuple) (lastValue : Int64) : Prop :=
  single = false ∧ lastValue + (sequenceReplicationMinCache / 2).toInt64 ≤ old.lastValue

instance decidableKept (single : Bool) (old : SeqStateTuple) (lastValue : Int64) :
    Decidable (old.Kept single lastValue) :=
  inferInstanceAs (Decidable (_ ∧ _))

/-- What a pass makes of a record. -/
def SeqStateTuple.pass (single : Bool) (old : SeqStateTuple) (lastValue : Int64) : SeqStateTuple :=
  if old.Kept single lastValue then old
  else if single then { old with lastValue := lastValue + old.cacheSize.toInt64 }
  else old.advance lastValue

theorem toInt_add_of_inInt64 {a b : Int64} (fits : inInt64 (a.toInt + b.toInt)) :
    (a + b).toInt = a.toInt + b.toInt := by
  obtain ⟨lower, upper⟩ := fits
  rw [Int64.toInt_add]
  exact Int.bmod_eq_of_le_mul_two (by omega) (by omega)

theorem toInt_add_cache {a : Int64} {cache : Int32} (fits : inInt64 (a.toInt + cache.toInt)) :
    (a + cache.toInt64).toInt = a.toInt + cache.toInt := by
  rw [toInt_add_of_inInt64 (by rwa [Int32.toInt_toInt64]), Int32.toInt_toInt64]

/-- Doubling and capping a cache within its bounds. -/
theorem toInt_doubled {cache : Int32} (lower : 1000 ≤ cache.toInt) (upper : cache.toInt ≤ 1000000) :
    (min sequenceReplicationMaxCache (cache * 2)).toInt = min 1000000 (cache.toInt * 2) := by
  have twice : (cache * 2).toInt = cache.toInt * 2 := by
    rw [Int32.toInt_mul]
    exact Int.bmod_eq_of_le_mul_two (by simp; omega) (by simp; omega)
  have most : sequenceReplicationMaxCache.toInt = 1000000 := by decide
  change (if sequenceReplicationMaxCache ≤ cache * 2 then sequenceReplicationMaxCache else cache * 2).toInt = _
  split
  next capped =>
    rw [Int32.le_iff_toInt_le, most, twice] at capped
    rw [most, min_eq_left capped]
  next free =>
    rw [Int32.le_iff_toInt_le, most, twice] at free
    rw [twice, min_eq_right (by omega)]

theorem toInt_halfCache : (sequenceReplicationMinCache / 2).toInt64.toInt = 500 := by decide

/-- Where the sums stay in range, the cache grows as the integer does, and the value moves behind it. -/
theorem toInt_advance {old : SeqStateTuple} {lastValue : Int64} (bounded : cacheBounded old)
    (buffer : inInt64 (old.lastValue.toInt + old.cacheSize.toInt))
    (sum : inInt64 (lastValue.toInt + grownCache old lastValue)) :
    (old.advance lastValue).cacheSize.toInt = grownCache old lastValue ∧
      (old.advance lastValue).lastValue.toInt = lastValue.toInt + grownCache old lastValue := by
  have test : old.lastValue + old.cacheSize.toInt64 ≤ lastValue ↔
      old.lastValue.toInt + old.cacheSize.toInt ≤ lastValue.toInt := by
    rw [Int64.le_iff_toInt_le, toInt_add_cache buffer]
  have cache : (old.advance lastValue).cacheSize.toInt = grownCache old lastValue := by
    unfold SeqStateTuple.advance grownCache
    simp only [test]
    split
    · exact toInt_doubled bounded.1 bounded.2
    · rfl
  refine ⟨cache, ?_⟩
  change (lastValue + (old.advance lastValue).cacheSize.toInt64).toInt = _
  rw [toInt_add_cache (by rwa [cache]), cache]

theorem grownCache_bounded {old : SeqStateTuple} (bounded : cacheBounded old) (lastValue : Int64) :
    1000 ≤ grownCache old lastValue ∧ grownCache old lastValue ≤ 1000000 ∧
      (old.cacheSize.toInt < grownCache old lastValue →
        old.lastValue.toInt + old.cacheSize.toInt ≤ lastValue.toInt) := by
  obtain ⟨lower, upper⟩ := bounded
  unfold grownCache
  split
  next whole => exact ⟨by omega, by omega, fun _ => whole⟩
  next => exact ⟨lower, upper, fun grown => absurd grown (lt_irrefl _)⟩

theorem pass_kept {single : Bool} {old : SeqStateTuple} {lastValue : Int64} (kept : old.Kept single lastValue) :
    old.pass single lastValue = old := if_pos kept

theorem pass_renewed {old : SeqStateTuple} {lastValue : Int64} (taken : ¬ old.Kept false lastValue) :
    old.pass false lastValue = old.advance lastValue := by
  rw [SeqStateTuple.pass, if_neg taken, if_neg Bool.false_ne_true]

theorem not_kept_single (old : SeqStateTuple) (lastValue : Int64) : ¬ old.Kept true lastValue :=
  fun kept => Bool.noConfusion kept.1

theorem kept_iff {old : SeqStateTuple} {lastValue : Int64} (half : inInt64 (lastValue.toInt + 500)) :
    old.Kept false lastValue ↔ lastValue.toInt + 500 ≤ old.lastValue.toInt := by
  rw [SeqStateTuple.Kept, Int64.le_iff_toInt_le, toInt_add_of_inInt64 (by rwa [toInt_halfCache]), toInt_halfCache]
  exact and_iff_right rfl

/-- A pass over all sequences: by its integers. -/
theorem pass_all {old : SeqStateTuple} {lastValue : Int64} (bounded : cacheBounded old)
    (fits : ∀ n ∈ sums false old lastValue, inInt64 n) :
    if lastValue.toInt + 500 ≤ old.lastValue.toInt then old.pass false lastValue = old
    else (old.pass false lastValue).cacheSize.toInt = grownCache old lastValue ∧
      (old.pass false lastValue).lastValue.toInt = lastValue.toInt + grownCache old lastValue := by
  have test : old.Kept false lastValue ↔ lastValue.toInt + 500 ≤ old.lastValue.toInt :=
    kept_iff (fits _ (by simp [sums]))
  split
  next far => exact pass_kept (test.mpr far)
  next behind =>
    rw [pass_renewed (mt test.mp behind)]
    exact toInt_advance bounded (fits _ (by simp [sums, behind])) (fits _ (by simp [sums, behind]))

theorem pass_single {old : SeqStateTuple} {lastValue : Int64}
    (fits : ∀ n ∈ sums true old lastValue, inInt64 n) :
    (old.pass true lastValue).lastValue.toInt = lastValue.toInt + old.cacheSize.toInt := by
  rw [SeqStateTuple.pass, if_neg (not_kept_single old lastValue), if_pos rfl]
  exact toInt_add_cache (fits _ (by simp [sums]))

/-- The integers of a pass that leaves the record where it is, or puts it behind the value. -/
theorem ahead_of_room {range : SequenceRange} {single : Bool} {old : SeqStateTuple} {lastValue : Int64}
    (bounded : cacheBounded old) (stored : range.Contains old.lastValue) (current : range.Contains lastValue)
    (room : HasRoom range single old lastValue) : Ahead range single lastValue old (old.pass single lastValue) := by
  obtain ⟨ascending, room⟩ := room
  obtain ⟨lower, upper⟩ := bounded
  have least := range.minValue.le_toInt
  have most := range.maxValue.toInt_lt
  have storedLeast := old.lastValue.le_toInt
  have current' := Int64.le_iff_toInt_le.mp current.1
  cases single with
  | true =>
    simp only [if_true] at room
    have fits : ∀ n ∈ sums true old lastValue, inInt64 n := by
      simp only [sums, if_true, List.mem_singleton, forall_eq, inInt64]
      omega
    have value := pass_single fits
    refine ⟨⟨Int64.le_iff_toInt_le.mpr (by omega), Int64.le_iff_toInt_le.mpr (by omega)⟩, ?_, fits, ⟨lower, upper⟩,
      fun grown => (Int32.lt_irrefl grown).elim⟩
    rw [SequenceRange.Beyond, if_pos ascending, value]
    exact .inl (by omega)
  | false =>
    simp only [Bool.false_eq_true, if_false] at room
    obtain ⟨half, room⟩ := room
    obtain ⟨cacheLower, cacheUpper, whole⟩ := grownCache_bounded ⟨lower, upper⟩ lastValue
    have fits : ∀ n ∈ sums false old lastValue, inInt64 n := by
      simp only [sums, Bool.false_eq_true, if_false, List.forall_mem_cons, inInt64]
      refine ⟨by omega, ?_⟩
      split
      · simp
      next behind =>
        have sums := room (by omega)
        simp only [List.forall_mem_cons, List.not_mem_nil, false_implies, implies_true, and_true]
        omega
    have pass := pass_all ⟨lower, upper⟩ fits
    split at pass
    next far =>
      rw [pass]
      refine ⟨stored, ?_, fits, ⟨lower, upper⟩, fun grown => (Int32.lt_irrefl grown).elim⟩
      rw [SequenceRange.Beyond, if_pos ascending]
      exact .inl far
    next behind =>
      obtain ⟨cache, value⟩ := pass
      obtain ⟨-, bound⟩ := room (by omega)
      refine ⟨⟨Int64.le_iff_toInt_le.mpr (by omega), Int64.le_iff_toInt_le.mpr (by omega)⟩, ?_, fits,
        ⟨by omega, by omega⟩, fun grown => ?_⟩
      · rw [SequenceRange.Beyond, if_pos ascending, value]
        exact .inl (by omega)
      · rw [SequenceRange.Consumed, if_pos ascending]
        exact whole (by rw [← cache]; exact Int32.lt_iff_toInt_lt.mp grown)

/-- A record that is at least as far as the provider is not ahead of a descending sequence. -/
theorem not_beyond_of_descending {range : SequenceRange} {lastValue value : Int64} (descending : range.ascending = false)
    (current : range.Contains lastValue) (further : lastValue.toInt < value.toInt) : ¬ range.Beyond lastValue value := by
  rw [SequenceRange.Beyond, descending]
  rintro (behind | bound)
  · omega
  · have least := Int64.le_iff_toInt_le.mp current.1
    rw [bound] at further
    omega

/-- **A pass leaves a record ahead exactly when there is room.** -/
theorem ahead_iff {range : SequenceRange} {single : Bool} {old : SeqStateTuple} {lastValue : Int64}
    (bounded : cacheBounded old) (stored : range.Contains old.lastValue) (current : range.Contains lastValue) :
    Ahead range single lastValue old (old.pass single lastValue) ↔ HasRoom range single old lastValue := by
  refine ⟨fun ahead => ?_, ahead_of_room bounded stored current⟩
  obtain ⟨lower, upper⟩ := bounded
  have valid := Int64.le_iff_toInt_le.mp ahead.valid.2
  have ascends : lastValue.toInt < (old.pass single lastValue).lastValue.toInt → range.ascending = true := by
    intro further
    by_contra other
    exact not_beyond_of_descending (by simpa using other) current further ahead.beyond
  cases single with
  | true =>
    have value := pass_single ahead.sums
    refine ⟨ascends (by omega), ?_⟩
    rw [if_pos rfl]
    omega
  | false =>
    obtain ⟨cacheLower, -, -⟩ := grownCache_bounded ⟨lower, upper⟩ lastValue
    have half : inInt64 (lastValue.toInt + 500) := ahead.sums _ (by simp [sums])
    have pass := pass_all ⟨lower, upper⟩ ahead.sums
    split at pass
    next far =>
      rw [pass] at ascends
      refine ⟨ascends (by omega), ?_⟩
      rw [if_neg Bool.false_ne_true]
      exact ⟨half.2, fun behind => by omega⟩
    next behind =>
      obtain ⟨-, value⟩ := pass
      have buffer : inInt64 (old.lastValue.toInt + old.cacheSize.toInt) := ahead.sums _ (by simp [sums, behind])
      refine ⟨ascends (by omega), ?_⟩
      rw [if_neg Bool.false_ne_true]
      exact ⟨half.2, fun _ => ⟨buffer.2, by omega⟩⟩

/-! ## One sequence in the catalogs -/

/-- What the sequences hold at the time of the pass. -/
def Pass.values : Pass → Contents
  | .all contents => contents
  | .one _ contents => contents

def Pass.single : Pass → Bool
  | .all _ => false
  | .one .. => true

/-- The pass looks at the sequence. -/
def Pass.Covers (seqoid : Oid) : Pass → Prop
  | .all _ => True
  | .one other _ => other = seqoid

instance decidableCovers (seqoid : Oid) : DecidablePred (Pass.Covers seqoid)
  | .all _ => isTrue trivial
  | .one other _ => inferInstanceAs (Decidable (other = seqoid))

variable {Node : Type} {server : Server Node} {contents : Contents} {catalog next : Catalog Node}

def sequenceRecord (catalog : Catalog Node) (seqoid : Oid) : Option SeqStateTuple :=
  catalog.sequenceState.find? fun seq => decide (seq.seqoid = seqoid)

/-- Schema and name, as messages have them. -/
abbrev SequenceName := CString × CString

def qualifiedName (server : Server Node) (target : TargetRel) : SequenceName :=
  (server.getNamespaceName target.rel.relnamespace, target.rel.relname.str)

/-- The value in the last message about a sequence. -/
def lastQueued (catalog : Catalog Node) (name : SequenceName) : Option Int64 :=
  ((catalog.sequenceQueue.filter fun message => decide ((message.schemaName, message.sequenceName) = name)).getLast?).map
    SequenceMessage.lastValue

/-- What passes do not change. -/
structure Same (catalog next : Catalog Node) : Prop where
  nodes : next.nodes = catalog.nodes
  relations : next.relations = catalog.relations
  seqoids : next.sequenceState.map SeqStateTuple.seqoid = catalog.sequenceState.map SeqStateTuple.seqoid

/-- Nothing has happened to one sequence. -/
structure Untouched (seqoid : Oid) (name : SequenceName) (catalog next : Catalog Node) : Prop extends Same catalog next where
  record : sequenceRecord next seqoid = sequenceRecord catalog seqoid
  queued : lastQueued next name = lastQueued catalog name

theorem Same.trans {middle : Catalog Node} (first : Same catalog middle) (second : Same middle next) :
    Same catalog next :=
  ⟨second.nodes.trans first.nodes, second.relations.trans first.relations, second.seqoids.trans first.seqoids⟩

theorem Same.heapOpen (same : Same catalog next) (seqoid : Oid) :
    next.heapOpen server seqoid = catalog.heapOpen server seqoid := by
  rw [Catalog.heapOpen, Catalog.heapOpen, same.relations]

theorem Untouched.refl (seqoid : Oid) (name : SequenceName) (catalog : Catalog Node) :
    Untouched seqoid name catalog catalog := ⟨⟨rfl, rfl, rfl⟩, rfl, rfl⟩

theorem Untouched.trans {seqoid : Oid} {name : SequenceName} {middle : Catalog Node}
    (first : Untouched seqoid name catalog middle) (second : Untouched seqoid name middle next) :
    Untouched seqoid name catalog next :=
  ⟨first.toSame.trans second.toSame, second.record.trans first.record, second.queued.trans first.queued⟩

/-- The record is renewed and its value is queued under the sequence's name. -/
def renew (server : Server Node) (catalog : Catalog Node) (sets : List CString) (target : TargetRel)
    (newseq : SeqStateTuple) : Catalog Node :=
  (catalog.updateSequenceState newseq).queueSequence sets (server.getNamespaceName target.rel.relnamespace) target
    newseq.lastValue

theorem updateSequenceState_seqoids (catalog : Catalog Node) (newseq : SeqStateTuple) :
    (catalog.updateSequenceState newseq).sequenceState.map SeqStateTuple.seqoid =
      catalog.sequenceState.map SeqStateTuple.seqoid := by
  simp only [Catalog.updateSequenceState, List.map_map]
  refine List.map_congr_left fun other _ => ?_
  simp only [Function.comp_apply]
  split
  next same => exact same.symm
  next => rfl

theorem same_renew (catalog : Catalog Node) (sets : List CString) (target : TargetRel) (newseq : SeqStateTuple) :
    Same catalog (renew server catalog sets target newseq) :=
  ⟨rfl, rfl, updateSequenceState_seqoids catalog newseq⟩

theorem record_renew (catalog : Catalog Node) (sets : List CString) (target : TargetRel) (newseq : SeqStateTuple)
    (seqoid : Oid) : sequenceRecord (renew server catalog sets target newseq) seqoid =
      if newseq.seqoid = seqoid then (sequenceRecord catalog seqoid).map fun _ => newseq
      else sequenceRecord catalog seqoid := by
  change (catalog.sequenceState.map _).find? _ = _
  unfold sequenceRecord
  induction catalog.sequenceState with
  | nil => simp
  | cons seq rest ih =>
    by_cases own : seq.seqoid = newseq.seqoid
    · by_cases wanted : newseq.seqoid = seqoid
      · simp [own, wanted]
      · simp [own, wanted, ih]
    · by_cases wanted : seq.seqoid = seqoid
      · have other : newseq.seqoid ≠ seqoid := fun same => own (wanted.trans same.symm)
        simp [wanted, other, other.symm]
      · simp [own, wanted, ih]

theorem lastQueued_renew (catalog : Catalog Node) (sets : List CString) (target : TargetRel) (newseq : SeqStateTuple)
    (name : SequenceName) : lastQueued (renew server catalog sets target newseq) name =
      if qualifiedName server target = name then some newseq.lastValue else lastQueued catalog name := by
  change ((List.filter _ (catalog.sequenceQueue ++ [_])).getLast?).map _ = _
  rw [List.filter_append]
  by_cases own : qualifiedName server target = name
  · simp [qualifiedName] at own
    simp [own, qualifiedName]
  · simp [qualifiedName] at own
    simp [own, qualifiedName, lastQueued]

theorem sequenceGetLastValue_eq_ok {seqoid : Oid} {lastValue : Int64}
    (read : catalog.sequenceGetLastValue server contents seqoid = .ok lastValue) :
    contents seqoid = some lastValue := by
  unfold Catalog.sequenceGetLastValue at read
  obtain ⟨-, -, read⟩ := bind_eq_ok.1 read
  split at read
  next found =>
    cases read
    exact found
  next => cases read

/-- A round over one record leaves it, or renews it as a pass does. -/
theorem synchronizeOne_eq_ok {nodeid : Oid} {ret after : Bool} {oldseq : SeqStateTuple}
    (done : synchronizeOne server contents nodeid (ret, catalog) oldseq = .ok (after, next)) :
    ∃ target lastValue, catalog.heapOpen server oldseq.seqoid = .ok target ∧ contents oldseq.seqoid = some lastValue ∧
      (oldseq.Kept false lastValue ∧ next = catalog ∨
        ¬ oldseq.Kept false lastValue ∧
          ∃ sets, next = renew server catalog sets target (oldseq.pass false lastValue)) := by
  unfold synchronizeOne at done
  obtain ⟨target, opened, done⟩ := bind_eq_ok.1 done
  obtain ⟨lastValue, read, done⟩ := bind_eq_ok.1 done
  refine ⟨target, lastValue, opened, sequenceGetLastValue_eq_ok read, ?_⟩
  split at done
  next far =>
    cases done
    exact .inl ⟨⟨rfl, far⟩, rfl⟩
  next behind =>
    obtain ⟨repsets, -, done⟩ := bind_eq_ok.1 done
    cases done
    have taken : ¬ oldseq.Kept false lastValue := fun kept => behind kept.2
    refine .inr ⟨taken, repsets.map PGLogicalRepSet.name, ?_⟩
    rw [pass_renewed taken]
    rfl

/-- `synchronize_sequence` renews the record that it is asked for. -/
theorem synchronizeSequence_eq_ok {seqoid : Oid}
    (done : synchronizeSequence server contents catalog seqoid = .ok next) :
    ∃ target old lastValue sets, catalog.heapOpen server seqoid = .ok target ∧
      sequenceRecord catalog seqoid = some old ∧ contents seqoid = some lastValue ∧
      next = renew server catalog sets target (old.pass true lastValue) := by
  unfold synchronizeSequence at done
  obtain ⟨localNode, -, done⟩ := bind_eq_ok.1 done
  obtain ⟨target, opened, done⟩ := bind_eq_ok.1 done
  obtain ⟨-, done⟩ := guard_eq_ok.1 done
  split at done
  · cases done
  next old found =>
    obtain ⟨lastValue, read, done⟩ := bind_eq_ok.1 done
    obtain ⟨repsets, -, done⟩ := bind_eq_ok.1 done
    cases done
    refine ⟨target, old, lastValue, repsets.map PGLogicalRepSet.name, opened, found, sequenceGetLastValue_eq_ok read, ?_⟩
    rw [SeqStateTuple.pass, if_neg (not_kept_single old lastValue), if_pos rfl]
    rfl

/-- A sequence under its own name, which no other tracked sequence has. -/
structure Watched (server : Server Node) (seqoid : Oid) (name : SequenceName) (catalog : Catalog Node) : Prop where
  once : (catalog.sequenceState.map SeqStateTuple.seqoid).Nodup
  own : ∀ target, catalog.heapOpen server seqoid = .ok target → qualifiedName server target = name
  others : ∀ other ∈ catalog.sequenceState.map SeqStateTuple.seqoid, other ≠ seqoid →
    ∀ target, catalog.heapOpen server other = .ok target → qualifiedName server target ≠ name

theorem Watched.same {seqoid : Oid} {name : SequenceName} (watched : Watched server seqoid name catalog)
    (same : Same catalog next) : Watched server seqoid name next where
  once := same.seqoids ▸ watched.once
  own target opened := watched.own target (same.heapOpen seqoid ▸ opened)
  others other listed differs target opened :=
    watched.others other (same.seqoids ▸ listed) differs target (same.heapOpen other ▸ opened)

/-- What a pass has done to one sequence. -/
structure Passed (single : Bool) (contents : Contents) (seqoid : Oid) (name : SequenceName)
    (catalog next : Catalog Node) : Prop extends Same catalog next where
  renewed : ∃ old lastValue, sequenceRecord catalog seqoid = some old ∧ contents seqoid = some lastValue ∧
    sequenceRecord next seqoid = some (old.pass single lastValue) ∧
    lastQueued next name =
      if old.Kept single lastValue then lastQueued catalog name else some (old.pass single lastValue).lastValue

/-- Other rounds before and behind it do not matter. -/
theorem Passed.between {single : Bool} {seqoid : Oid} {name : SequenceName} {first second : Catalog Node}
    (passed : Passed single contents seqoid name first second) (early : Untouched seqoid name catalog first)
    (late : Untouched seqoid name second next) : Passed single contents seqoid name catalog next where
  toSame := early.toSame.trans (passed.toSame.trans late.toSame)
  renewed := by
    obtain ⟨old, lastValue, found, value, renewed, queued⟩ := passed.renewed
    refine ⟨old, lastValue, early.record ▸ found, value, late.record.trans renewed, ?_⟩
    rw [late.queued, ← early.queued]
    exact queued

theorem pass_seqoid (single : Bool) (old : SeqStateTuple) (lastValue : Int64) :
    (old.pass single lastValue).seqoid = old.seqoid := by
  unfold SeqStateTuple.pass
  split
  · rfl
  · split <;> rfl

theorem seqoid_of_sequenceRecord {seqoid : Oid} {old : SeqStateTuple} (found : sequenceRecord catalog seqoid = some old) :
    old.seqoid = seqoid := by
  unfold sequenceRecord at found
  simpa using List.find?_some found

section Watching

variable {seqoid : Oid} {name : SequenceName} (watched : Watched server seqoid name catalog)

include watched

/-- The record of another sequence is renewed. -/
theorem untouched_renew {other : SeqStateTuple} (tracked : other.seqoid ∈ catalog.sequenceState.map SeqStateTuple.seqoid)
    (differs : other.seqoid ≠ seqoid) {target : TargetRel} (opened : catalog.heapOpen server other.seqoid = .ok target)
    {newseq : SeqStateTuple} (same : newseq.seqoid = other.seqoid) (sets : List CString) :
    Untouched seqoid name catalog (renew server catalog sets target newseq) where
  toSame := same_renew catalog sets target newseq
  record := by rw [record_renew, same, if_neg differs]
  queued := by rw [lastQueued_renew, if_neg (watched.others _ tracked differs target opened)]

/-- The sequence's own record is renewed. -/
theorem passed_renew {single : Bool} {old : SeqStateTuple} {lastValue : Int64}
    (found : sequenceRecord catalog seqoid = some old) (value : contents seqoid = some lastValue)
    (taken : ¬ old.Kept single lastValue) {target : TargetRel}
    (opened : catalog.heapOpen server seqoid = .ok target) (sets : List CString) :
    Passed single contents seqoid name catalog
      (renew server catalog sets target (old.pass single lastValue)) where
  toSame := same_renew catalog sets target _
  renewed := by
    refine ⟨old, lastValue, found, value, ?_, ?_⟩
    · rw [record_renew, pass_seqoid, if_pos (seqoid_of_sequenceRecord found), found, Option.map_some]
    · rw [lastQueued_renew, if_pos (watched.own target opened), if_neg taken]

theorem synchronizeOne_other {nodeid : Oid} {ret after : Bool} {oldseq : SeqStateTuple}
    (tracked : oldseq.seqoid ∈ catalog.sequenceState.map SeqStateTuple.seqoid) (differs : oldseq.seqoid ≠ seqoid)
    (done : synchronizeOne server contents nodeid (ret, catalog) oldseq = .ok (after, next)) :
    Untouched seqoid name catalog next := by
  obtain ⟨target, lastValue, opened, -, ⟨-, rfl⟩ | ⟨-, sets, rfl⟩⟩ := synchronizeOne_eq_ok done
  · exact .refl seqoid name _
  · exact untouched_renew watched tracked differs opened (pass_seqoid false oldseq lastValue) sets

/-- The rounds before and behind the one of the sequence. -/
theorem foldlM_others {nodeid : Oid} {ret after : Bool} {rows : List SeqStateTuple}
    (tracked : ∀ seq ∈ rows, seq.seqoid ∈ catalog.sequenceState.map SeqStateTuple.seqoid ∧ seq.seqoid ≠ seqoid)
    (done : rows.foldlM (synchronizeOne server contents nodeid) (ret, catalog) = .ok (after, next)) :
    Untouched seqoid name catalog next := by
  have round : ∀ {state further : Bool × Catalog Node} {oldseq : SeqStateTuple}, oldseq ∈ rows →
      Untouched seqoid name catalog state.2 → synchronizeOne server contents nodeid state oldseq = .ok further →
      Untouched seqoid name catalog further.2 := by
    intro state further oldseq listed untouched taken
    obtain ⟨inside, differs⟩ := tracked oldseq listed
    rw [← untouched.seqoids] at inside
    exact untouched.trans (synchronizeOne_other (watched.same untouched.toSame) inside differs taken)
  exact Machine.foldlM_invariant round (.refl seqoid name catalog) done

/-- A pass over all sequences treats one as if it were alone. -/
theorem synchronizeSequences_passed {old : SeqStateTuple} (found : sequenceRecord catalog seqoid = some old)
    (configured : ∃ localNode, catalog.nodes.findLocalNode = .ok (some localNode)) {ret : Bool}
    (done : synchronizeSequences server contents catalog = .ok (ret, next)) :
    Passed false contents seqoid name catalog next := by
  obtain ⟨localNode, configured⟩ := configured
  have own := seqoid_of_sequenceRecord found
  obtain ⟨before, behind, split⟩ := List.append_of_mem (List.mem_of_find?_eq_some found)
  have keys : (before.map SeqStateTuple.seqoid ++ old.seqoid :: behind.map SeqStateTuple.seqoid).Nodup := by
    have once := watched.once
    rwa [split, List.map_append, List.map_cons] at once
  have other : ∀ seq ∈ before ++ behind,
      seq.seqoid ∈ catalog.sequenceState.map SeqStateTuple.seqoid ∧ seq.seqoid ≠ seqoid := by
    intro seq listed
    have inside : seq ∈ catalog.sequenceState := by
      rw [split]
      simp only [List.mem_append, List.mem_cons] at listed ⊢
      tauto
    refine ⟨List.mem_map_of_mem inside, fun same => ?_⟩
    have fresh := (List.nodup_cons.mp (List.nodup_middle.mp keys)).1
    rw [← List.map_append, own, ← same] at fresh
    exact fresh (List.mem_map_of_mem listed)
  unfold Sequences.synchronizeSequences at done
  rw [configured, split] at done
  change (before ++ old :: behind).foldlM (synchronizeOne server contents localNode.node.id) (true, catalog) =
    .ok (ret, next) at done
  rw [List.foldlM_append] at done
  obtain ⟨⟨_, first⟩, front, done⟩ := bind_eq_ok.1 done
  rw [List.foldlM_cons] at done
  obtain ⟨⟨_, second⟩, round, rest⟩ := bind_eq_ok.1 done
  have early := foldlM_others watched (fun seq listed => other seq (List.mem_append_left _ listed)) front
  have watchedFirst := watched.same early.toSame
  have foundFirst : sequenceRecord first seqoid = some old := early.record.trans found
  have middle : Passed false contents seqoid name first second := by
    obtain ⟨target, lastValue, opened, value, ⟨kept, rfl⟩ | ⟨taken, sets, rfl⟩⟩ := synchronizeOne_eq_ok round
    · rw [own] at value
      exact ⟨⟨rfl, rfl, rfl⟩, old, lastValue, foundFirst, value, by rw [pass_kept kept, foundFirst],
        (if_pos kept).symm⟩
    · rw [own] at value opened
      exact passed_renew watchedFirst foundFirst value taken opened sets
  have late : Untouched seqoid name second next := by
    refine foldlM_others (watchedFirst.same middle.toSame) (fun seq listed => ?_) rest
    obtain ⟨tracked, differs⟩ := other seq (List.mem_append_right _ listed)
    exact ⟨by rwa [middle.seqoids, early.seqoids], differs⟩
  exact middle.between early late

end Watching

/-! ## Runs -/

/-- A tracked sequence on a node. -/
structure Tracked (server : Server Node) (range : SequenceRange) (seqoid : Oid) (name : SequenceName)
    (catalog : Catalog Node) : Prop extends Watched server seqoid name catalog where
  configured : ∃ localNode, catalog.nodes.findLocalNode = .ok (some localNode)
  recorded : ∃ old, sequenceRecord catalog seqoid = some old ∧ cacheBounded old ∧ range.Contains old.lastValue

/-- No message, or one with the recorded value, is the last about the sequence. -/
def QueuesRecord (catalog : Catalog Node) (name : SequenceName) (seq : SeqStateTuple) : Prop :=
  lastQueued catalog name = none ∨ lastQueued catalog name = some seq.lastValue

/-- A pass that looks at the sequence leaves its record ahead, and its last message has that value. -/
def LeavesAhead (server : Server Node) (range : SequenceRange) (seqoid : Oid) (name : SequenceName)
    (catalog : Catalog Node) (pass : Pass) : Prop :=
  ∀ next, stepPass server catalog pass = some next → pass.Covers seqoid →
    ∃ old new lastValue, sequenceRecord catalog seqoid = some old ∧ sequenceRecord next seqoid = some new ∧
      pass.values seqoid = some lastValue ∧ Ahead range pass.single lastValue old new ∧ QueuesRecord next name new

/-- Whenever a pass looks at the sequence there is room, and no message has another value than the record where
the pass does not send one. -/
def PassHasRoom (range : SequenceRange) (seqoid : Oid) (name : SequenceName) (catalog : Catalog Node)
    (pass : Pass) : Prop :=
  pass.Covers seqoid → ∀ old, sequenceRecord catalog seqoid = some old → ∀ lastValue,
    pass.values seqoid = some lastValue → HasRoom range pass.single old lastValue ∧
      (pass.single = false → lastValue.toInt + 500 ≤ old.lastValue.toInt → QueuesRecord catalog name old)

variable {range : SequenceRange} {seqoid : Oid} {name : SequenceName} {pass : Pass}

theorem stepPass_passed (tracked : Tracked server range seqoid name catalog)
    (taken : stepPass server catalog pass = some next) (covers : pass.Covers seqoid) :
    Passed pass.single pass.values seqoid name catalog next := by
  obtain ⟨old, found, -⟩ := tracked.recorded
  cases pass with
  | all contents =>
    obtain ⟨⟨ret, after⟩, done, rfl⟩ := Option.map_eq_some_iff.mp taken
    exact synchronizeSequences_passed tracked.toWatched found tracked.configured (eq_ok_of_toOption done)
  | one reloid contents =>
    cases covers
    obtain ⟨target, old, lastValue, sets, opened, found, value, rfl⟩ :=
      synchronizeSequence_eq_ok (eq_ok_of_toOption taken)
    exact passed_renew tracked.toWatched found value (not_kept_single old lastValue) opened sets

/-- The pass is about another sequence. -/
theorem stepPass_untouched (watched : Watched server seqoid name catalog)
    (taken : stepPass server catalog pass = some next) (elsewhere : ¬ pass.Covers seqoid) :
    Untouched seqoid name catalog next := by
  cases pass with
  | all contents => exact absurd trivial elsewhere
  | one reloid contents =>
    obtain ⟨target, old, lastValue, sets, opened, found, value, rfl⟩ :=
      synchronizeSequence_eq_ok (eq_ok_of_toOption taken)
    have own := seqoid_of_sequenceRecord found
    have listed : old.seqoid ∈ catalog.sequenceState.map SeqStateTuple.seqoid :=
      List.mem_map_of_mem (List.mem_of_find?_eq_some found)
    exact untouched_renew watched listed (own ▸ elsewhere) (own.symm ▸ opened) (pass_seqoid true old lastValue) sets

/-- What is queued after a pass that leaves the record ahead. -/
theorem queuesRecord_iff {single : Bool} {old : SeqStateTuple} {lastValue : Int64}
    (fits : ∀ n ∈ sums single old lastValue, inInt64 n) (queued : lastQueued next name =
      if old.Kept single lastValue then lastQueued catalog name else some (old.pass single lastValue).lastValue) :
    QueuesRecord next name (old.pass single lastValue) ↔
      (single = false → lastValue.toInt + 500 ≤ old.lastValue.toInt → QueuesRecord catalog name old) := by
  cases single with
  | true =>
    rw [if_neg (not_kept_single old lastValue)] at queued
    exact iff_of_true (.inr queued) fun impossible => Bool.noConfusion impossible
  | false =>
    rw [← kept_iff (fits _ (by simp [sums]))]
    split at queued
    next kept =>
      rw [pass_kept kept, QueuesRecord, queued]
      exact ⟨fun agrees _ _ => agrees, fun agrees => agrees rfl kept⟩
    next taken => exact iff_of_true (.inr queued) fun _ kept => absurd kept taken

/-- One pass, in its own catalogs. -/
theorem leavesAhead_iff (tracked : Tracked server range seqoid name catalog)
    (values : ∀ lastValue ∈ pass.values seqoid, range.Contains lastValue)
    (taken : stepPass server catalog pass = some next) :
    LeavesAhead server range seqoid name catalog pass ↔ PassHasRoom range seqoid name catalog pass := by
  by_cases covers : pass.Covers seqoid
  · obtain ⟨old, lastValue, found, value, renewed, queued⟩ := (stepPass_passed tracked taken covers).renewed
    obtain ⟨recorded, same, bounded, stored⟩ := tracked.recorded
    cases found.symm.trans same
    have room : Ahead range pass.single lastValue old (old.pass pass.single lastValue) ↔
        HasRoom range pass.single old lastValue := ahead_iff bounded stored (values lastValue value)
    constructor
    · intro leaves _ other same otherValue sameValue
      cases found.symm.trans same
      cases value.symm.trans sameValue
      obtain ⟨_, new, _, same, final, sameValue, ahead, agrees⟩ := leaves next taken covers
      cases found.symm.trans same
      cases value.symm.trans sameValue
      cases renewed.symm.trans final
      exact ⟨room.mp ahead, (queuesRecord_iff ahead.sums queued).mp agrees⟩
    · intro fits after again _
      cases taken.symm.trans again
      obtain ⟨room', agrees⟩ := fits covers old found lastValue value
      have ahead := room.mpr room'
      exact ⟨old, _, lastValue, found, renewed, value, ahead, (queuesRecord_iff ahead.sums queued).mpr agrees⟩
  · exact iff_of_true (fun _ _ inside => absurd inside covers) fun inside => absurd inside covers

theorem Tracked.step (tracked : Tracked server range seqoid name catalog)
    (leaves : LeavesAhead server range seqoid name catalog pass) (taken : stepPass server catalog pass = some next) :
    Tracked server range seqoid name next := by
  by_cases covers : pass.Covers seqoid
  · have passed := stepPass_passed tracked taken covers
    obtain ⟨old, new, lastValue, -, final, -, ahead, -⟩ := leaves next taken covers
    exact ⟨tracked.same passed.toSame, passed.nodes ▸ tracked.configured, new, final, ahead.cache, ahead.valid⟩
  · have untouched := stepPass_untouched tracked.toWatched taken covers
    exact ⟨tracked.same untouched.toSame, untouched.nodes ▸ tracked.configured, untouched.record ▸ tracked.recorded⟩

/-- All passes leave the sequence ahead exactly when there is room at each of them. -/
theorem sequences_stay_ahead_iff (server : Server Node) (range : SequenceRange) (seqoid : Oid) (name : SequenceName)
    (catalog last : Catalog Node) (passes : List Pass) (tracked : Tracked server range seqoid name catalog)
    (values : ∀ pass ∈ passes, ∀ lastValue ∈ pass.values seqoid, range.Contains lastValue)
    (done : run (stepPass server) catalog passes = some last) :
    Permitted (stepPass server) (LeavesAhead server range seqoid name) catalog passes ↔
      Permitted (stepPass server) (PassHasRoom range seqoid name) catalog passes :=
  Machine.Permitted.iff_of_run
    (fun inside (tracked : Tracked server range seqoid name _) taken => leavesAhead_iff tracked (values _ inside) taken)
    (fun tracked leaves taken => tracked.step leaves taken) tracked done

instance decidableHasRoom (range : SequenceRange) (single : Bool) (old : SeqStateTuple) (lastValue : Int64) :
    Decidable (HasRoom range single old lastValue) :=
  inferInstanceAs (Decidable (_ ∧ ite _ _ _))

instance decidableQueuesRecord (catalog : Catalog Node) (name : SequenceName) (seq : SeqStateTuple) :
    Decidable (QueuesRecord catalog name seq) :=
  inferInstanceAs (Decidable (_ ∨ _))

instance decidablePassHasRoom (range : SequenceRange) (seqoid : Oid) (name : SequenceName) (catalog : Catalog Node)
    (pass : Pass) : Decidable (PassHasRoom range seqoid name catalog pass) :=
  -- looked up among the members and not among all integers of 64 bits
  have (old : SeqStateTuple) : Decidable (∀ lastValue ∈ pass.values seqoid, HasRoom range pass.single old lastValue ∧
      (pass.single = false → lastValue.toInt + 500 ≤ old.lastValue.toInt → QueuesRecord catalog name old)) :=
    Option.decidableForallMem _
  inferInstanceAs (Decidable (pass.Covers seqoid → ∀ old ∈ sequenceRecord catalog seqoid,
    ∀ lastValue ∈ pass.values seqoid, HasRoom range pass.single old lastValue ∧
      (pass.single = false → lastValue.toInt + 500 ≤ old.lastValue.toInt → QueuesRecord catalog name old)))

/-- The catalogs after `ticket_seq` was added, with a `last_value` of 7. -/
def ticketTracked : Catalog Unit :=
  (run (step Nodes.sampleEnv Repsets.sampleServer) .empty (ticketRelations ++
    [.replicationSetAddSequence ticketContents defaultSet 16500 true])).get (by decide +kernel)

def ticketRange : SequenceRange := ⟨1, 9223372036854775807, true⟩

theorem tracked_ticketTracked :
    Tracked Repsets.sampleServer ticketRange 16500 (qualifiedName Repsets.sampleServer ticketSeq) ticketTracked where
  once := by decide
  own target opened := by
    have here : ticketTracked.heapOpen Repsets.sampleServer 16500 = .ok ticketSeq := by decide
    cases here.symm.trans opened
    rfl
  others other listed differs := by
    have only : ticketTracked.sequenceState.map SeqStateTuple.seqoid = [16500] := by decide +kernel
    rw [only] at listed
    exact absurd (List.mem_singleton.mp listed) differs
  configured := by
    have found : (ticketTracked.nodes.findLocalNode.toOption.join).isSome := by decide +kernel
    obtain ⟨localNode, found⟩ := Option.isSome_iff_exists.mp found
    exact ⟨localNode, eq_ok_of_toOption (Option.join_eq_some_iff.mp found)⟩
  recorded := ⟨⟨16500, 1000, 7⟩, by decide +kernel, by decide, by decide⟩

/-- The cache grows when 2000 is reached, and a pass on demand follows. -/
def ticketPasses : List Pass :=
  [.all ticketContents, .all fun _ => some 400, .all fun _ => some 2000, .one 16500 fun _ => some 2001]

theorem sequences_stay_ahead_ticket : Permitted (stepPass Repsets.sampleServer)
    (LeavesAhead Repsets.sampleServer ticketRange 16500 (qualifiedName Repsets.sampleServer ticketSeq)) ticketTracked
    ticketPasses := by
  have values : ∀ pass ∈ ticketPasses, ∀ lastValue ∈ pass.values 16500, ticketRange.Contains lastValue := by
    simp only [ticketPasses, ticketContents, Pass.values, List.forall_mem_cons, Option.mem_some_iff, forall_eq']
    decide
  exact (sequences_stay_ahead_iff Repsets.sampleServer ticketRange 16500 _ ticketTracked _ ticketPasses
    tracked_ticketTracked values (Option.some_get (by decide)).symm).mpr (by decide)

/-- 807 below its bound there is no room behind an ascending sequence. -/
theorem not_forall_sequences_stay_ahead : ¬∀ (server : Server Unit) (range : SequenceRange) (seqoid : Oid)
    (name : SequenceName) (catalog last : Catalog Unit) (passes : List Pass), Tracked server range seqoid name catalog →
      (∀ pass ∈ passes, ∀ lastValue ∈ pass.values seqoid, range.Contains lastValue) →
      run (stepPass server) catalog passes = some last →
      Permitted (stepPass server) (LeavesAhead server range seqoid name) catalog passes := by
  intro ahead
  have values : ∀ lastValue ∈ (Pass.all fun _ => some 9223372036854775000).values 16500,
      ticketRange.Contains lastValue := by
    rintro lastValue ⟨⟩
    decide
  have taken : (stepPass Repsets.sampleServer ticketTracked (.all fun _ => some 9223372036854775000)).isSome := by
    decide
  obtain ⟨leaves, -⟩ := ahead Repsets.sampleServer ticketRange 16500 _ ticketTracked _
    [.all fun _ => some 9223372036854775000] tracked_ticketTracked (List.forall_mem_singleton.mpr values)
    (Machine.run_cons_eq_some_iff.mpr ⟨_, (Option.some_get taken).symm, rfl⟩)
  have room := (leavesAhead_iff tracked_ticketTracked values (Option.some_get taken).symm).mp leaves
  exact absurd room (by decide)

end PGLogical.Sequences
