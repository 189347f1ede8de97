import PGLogical.Soundness.NodeRefs
import Mathlib.Data.Nat.Digits.Lemmas

/-! # Slot names that belong to one subscription

The apply worker of a subscription uses the stored name for its slot on the provider and for its
local origin, and a sync worker that name with a suffix of its table. The name joins three
shortened names with underscores; as names may contain underscores, or characters that become
underscores, different names can be joined to one.
-/

namespace PGLogical.Nodes

open Wire (Bytes CString)
open Machine (run Permitted map_eq_ok)
open Catalog

/-! ## Joined names -/

/-- Two pairs of strings are one string when joined with an underscore: they are the same pair, or
one pair splits it at an underscore inside a part of the other. -/
def Splits (p s p' s' : Bytes) : Prop :=
  (p = p' ∧ s = s') ∨ (∃ x, p' = p ++ 95 :: x ∧ s = x ++ 95 :: s') ∨ ∃ x, p = p' ++ 95 :: x ∧ s' = x ++ 95 :: s

theorem join_eq_iff {p s p' s' : Bytes} : p ++ 95 :: s = p' ++ 95 :: s' ↔ Splits p s p' s' := by
  rw [List.append_eq_append_iff]
  constructor
  · rintro (⟨x, rfl, tail⟩ | ⟨x, rfl, tail⟩)
    · cases x with
      | nil => exact .inl ⟨(List.append_nil p).symm, List.tail_eq_of_cons_eq tail⟩
      | cons c x =>
        obtain ⟨rfl, rfl⟩ := List.cons.inj tail
        exact .inr (.inl ⟨x, rfl, rfl⟩)
    · cases x with
      | nil => exact .inl ⟨List.append_nil p', (List.tail_eq_of_cons_eq tail).symm⟩
      | cons c x =>
        obtain ⟨rfl, rfl⟩ := List.cons.inj tail
        exact .inr (.inr ⟨x, rfl, rfl⟩)
  · rintro (⟨rfl, rfl⟩ | ⟨x, rfl, rfl⟩ | ⟨x, rfl, rfl⟩)
    · exact .inl ⟨[], (List.append_nil p).symm, rfl⟩
    · exact .inl ⟨95 :: x, rfl, rfl⟩
    · exact .inr ⟨95 :: x, rfl, rfl⟩

instance Splits.decidable (p s p' s' : Bytes) : Decidable (Splits p s p' s') := decidable_of_iff _ join_eq_iff

/-! ## Hexadecimal suffixes -/

def hexValue (c : UInt8) : ℕ := if c < 58 then c.toNat - 48 else c.toNat - 87

def unhex8 (digits : Bytes) : UInt32 := UInt32.ofNat (Nat.ofDigits 16 (digits.reverse.map hexValue))

@[simp] theorem length_hex8 (word : UInt32) : (hex8 word).length = 8 := by simp [hex8]

theorem hexValue_hexDigit {value : ℕ} (small : value < 16) : hexValue (hexDigit value) = value := by
  revert value
  decide

theorem unhex8_hex8 (word : UInt32) : unhex8 (hex8 word) = word := by
  have digits : (hex8 word).reverse.map hexValue = (List.range 8).map fun k => word.toNat / 16 ^ k % 16 := by
    rw [hex8, ← List.map_reverse, List.reverse_reverse, List.map_map]
    refine List.map_congr_left fun k _ => hexValue_hexDigit (Nat.mod_lt _ (by decide))
  have bound : word.toNat < 16 ^ 8 := word.toNat_lt
  rw [unhex8, digits, Wire.ofDigits_range, Nat.mod_eq_of_lt bound, UInt32.ofNat_toNat]

/-- The joined name is another one with the suffix of a sync worker. -/
instance Splits.decidableSuffix (p s p' s' : Bytes) :
    Decidable (∃ hash, Splits p (s ++ 95 :: hex8 hash) p' s') :=
  decidable_of_iff (Splits p (s ++ 95 :: hex8 (unhex8 ((p' ++ 95 :: s').drop ((p ++ 95 :: s).length + 1)))) p' s')
    ⟨fun split => ⟨_, split⟩, fun ⟨hash, split⟩ => by
      have joined := join_eq_iff.mpr split
      have suffix : (p' ++ 95 :: s').drop ((p ++ 95 :: s).length + 1) = hex8 hash := by
        rw [← joined, show p ++ 95 :: (s ++ 95 :: hex8 hash) = (p ++ 95 :: s ++ [95]) ++ hex8 hash by simp]
        exact List.drop_left' (by simp [Nat.add_assoc])
      rw [suffix, unhex8_hex8]
      exact split⟩

/-! ## Names of workers -/

variable {env : Environment} {catalog next : Catalog}

/-- A part of a slot name: shortened, with invalid characters replaced. -/
def namePart (env : Environment) (name : NameData) : Bytes := (shortenHash env.hashAny name.str.val 16).map replaceInvalid

/-- The slot and origin of a subscription's apply worker, or of the sync worker of a table with this hash. -/
def workerSlotName (slotName : NameData) : Option UInt32 → Bytes
  | none => slotName.str.val
  | some hash => syncSlotName slotName hash

theorem length_shortenHash_le (hashAny : Bytes → UInt32) (str : Bytes) : (shortenHash hashAny str 16).length ≤ 16 := by
  unfold shortenHash
  split
  · assumption
  · rw [List.length_take]
    omega

/-- Nothing is cut off, since the parts are short enough. -/
theorem genSlotName_val (provider name : NameData) :
    (genSlotName env.hashAny env.databaseName provider name).str.val =
      ((CString.ofString "pgl_").val ++ namePart env env.databaseName ++ [95]) ++
        (namePart env provider ++ 95 :: namePart env name) := by
  have database := length_shortenHash_le env.hashAny env.databaseName.str.val
  have node := length_shortenHash_le env.hashAny provider.str.val
  have sub := length_shortenHash_le env.hashAny name.str.val
  have pgl : (CString.ofString "pgl_").val.length = 4 := by decide
  have short : (slotNameParts env.hashAny env.databaseName provider name).length ≤ namedatalen - 1 := by
    simp only [slotNameParts, List.length_append, List.length_singleton, pgl, namedatalen]
    omega
  have kept : (CString.ofString "pgl_").val.map replaceInvalid = (CString.ofString "pgl_").val := by decide
  have underscore : replaceInvalid 95 = 95 := by decide
  simp only [genSlotName, List.take_of_length_le short]
  simp only [slotNameParts, List.map_append, List.map_cons, kept, underscore, namePart, List.append_assoc,
    List.cons_append, List.nil_append]

/-- Some worker of one subscription has the name of a worker of the other one. -/
def NamesMeet (env : Environment) (provider name provider' name' : NameData) : Prop :=
  Splits (namePart env provider) (namePart env name) (namePart env provider') (namePart env name') ∨
    (∃ hash, Splits (namePart env provider) (namePart env name ++ 95 :: hex8 hash) (namePart env provider')
      (namePart env name')) ∨
    ∃ hash, Splits (namePart env provider') (namePart env name' ++ 95 :: hex8 hash) (namePart env provider)
      (namePart env name)

instance NamesMeet.decidable (env : Environment) (provider name provider' name' : NameData) :
    Decidable (NamesMeet env provider name provider' name') := inferInstanceAs (Decidable (_ ∨ _ ∨ _))

/-- The names of two subscriptions' workers are equal exactly when the joined names split so. -/
theorem workerSlotName_eq_iff {provider name provider' name' : NameData} :
    (∃ worker worker', workerSlotName (genSlotName env.hashAny env.databaseName provider name) worker =
      workerSlotName (genSlotName env.hashAny env.databaseName provider' name') worker') ↔
      NamesMeet env provider name provider' name' := by
  have slots : ∀ {provider name provider' name' : NameData} {s s' : Bytes},
      (genSlotName env.hashAny env.databaseName provider name).str.val ++ s =
        (genSlotName env.hashAny env.databaseName provider' name').str.val ++ s' ↔
      Splits (namePart env provider) (namePart env name ++ s) (namePart env provider') (namePart env name' ++ s') := by
    intro provider name provider' name' s s'
    rw [genSlotName_val, genSlotName_val, ← join_eq_iff]
    simp only [List.append_assoc, List.cons_append, List.nil_append, List.append_cancel_left_eq, List.cons.injEq,
      true_and]
  constructor
  · rintro ⟨worker, worker', same⟩
    cases worker with
    | none =>
      cases worker' with
      | none =>
        refine .inl ?_
        simpa using slots.mp (show _ ++ [] = _ ++ [] by simpa [workerSlotName] using same)
      | some hash =>
        refine .inr (.inr ⟨hash, ?_⟩)
        simpa using slots.mp (show _ ++ 95 :: hex8 hash = _ ++ [] by simpa [workerSlotName, syncSlotName] using same.symm)
    | some hash =>
      cases worker' with
      | none =>
        refine .inr (.inl ⟨hash, ?_⟩)
        simpa using slots.mp (show _ ++ 95 :: hex8 hash = _ ++ [] by simpa [workerSlotName, syncSlotName] using same)
      | some hash' =>
        refine .inl ?_
        simp only [workerSlotName, syncSlotName, List.append_assoc, List.singleton_append] at same
        have stored := (List.append_inj' same (by simp)).1
        simpa using slots.mp (show _ ++ [] = _ ++ [] by simpa using stored)
  · rintro (split | ⟨hash, split⟩ | ⟨hash, split⟩)
    · refine ⟨none, none, ?_⟩
      simpa [workerSlotName] using slots.mpr (show Splits _ (_ ++ []) _ (_ ++ []) by simpa using split)
    · refine ⟨some hash, none, ?_⟩
      simpa [workerSlotName, syncSlotName] using
        slots.mpr (show Splits _ (_ ++ 95 :: hex8 hash) _ (_ ++ []) by simpa using split)
    · refine ⟨none, some hash, ?_⟩
      simpa [workerSlotName, syncSlotName, eq_comm] using
        slots.mpr (show Splits _ (_ ++ 95 :: hex8 hash) _ (_ ++ []) by simpa using split)

/-! ## Every run -/

/-- No worker of a subscription has the name of a worker of another one. -/
def NamesIdentify (catalog : Catalog) : Prop :=
  ∀ a ∈ catalog.subscription, ∀ b ∈ catalog.subscription, a ≠ b →
    ∀ worker worker', workerSlotName a.subSlotName worker ≠ workerSlotName b.subSlotName worker'

/-- The names that a stored slot name was made from. -/
def SlotsNamed (env : Environment) (catalog : Catalog) : Prop :=
  ∀ sub ∈ catalog.subscription, ∃ node ∈ catalog.node, node.id = sub.subOrigin ∧
    sub.subSlotName = genSlotName env.hashAny env.databaseName node.name sub.subName

/-- The names of a subscription to a provider do not meet those of an existing one. The provider gives
the identifier under which its name is known. -/
def NewNames (env : Environment) (catalog : Catalog) (subName : NameData) : Except String PGLogicalNode → Prop
  | .error _ => True
  | .ok origin => (∀ node ∈ catalog.node, node.name = origin.name → node.id = origin.id) ∧
      ∀ sub ∈ catalog.subscription, ∀ node ∈ catalog.node, node.id = sub.subOrigin →
        ¬ NamesMeet env node.name sub.subName origin.name subName

def NamesApart (env : Environment) (catalog : Catalog) : Call → Prop
  | .createSubscription args => NewNames env catalog args.subName args.remoteNode
  | _ => True

instance NewNames.decidable (env : Environment) (catalog : Catalog) (subName : NameData) :
    ∀ answer, Decidable (NewNames env catalog subName answer)
  | .error _ => isTrue trivial
  | .ok origin =>
      have known := List.decidableBAll (fun node : PGLogicalNode => node.name = origin.name → node.id = origin.id)
        catalog.node
      have (sub : SubscriptionTuple) := List.decidableBAll (fun node : PGLogicalNode => node.id = sub.subOrigin →
        ¬ NamesMeet env node.name sub.subName origin.name subName) catalog.node
      have unmet := List.decidableBAll (fun sub : SubscriptionTuple => ∀ node ∈ catalog.node,
        node.id = sub.subOrigin → ¬ NamesMeet env node.name sub.subName origin.name subName) catalog.subscription
      @instDecidableAnd _ _ known unmet

instance NamesApart.decidable (env : Environment) (catalog : Catalog) :
    ∀ statement, Decidable (NamesApart env catalog statement)
  | .createSubscription args => NewNames.decidable env catalog args.subName args.remoteNode
  | .createNode .. | .dropNode .. | .alterNodeAddInterface .. | .alterNodeDropInterface .. | .dropSubscription ..
  | .alterSubscriptionDisable .. | .alterSubscriptionEnable .. | .alterSubscriptionInterface ..
  | .alterSubscriptionAddReplicationSet .. | .alterSubscriptionRemoveReplicationSet .. => isTrue trivial

/-- What the calls preserve, beside the references. -/
structure Named (env : Environment) (catalog : Catalog) : Prop where
  identify : NamesIdentify catalog
  slots : SlotsNamed env catalog

/-- Fewer subscriptions, whose origins are still there. -/
theorem Named.subset (named : Named env catalog) (fewer : ∀ sub ∈ next.subscription, sub ∈ catalog.subscription)
    (kept : ∀ sub ∈ next.subscription, ∀ node ∈ catalog.node, node.id = sub.subOrigin → node ∈ next.node) :
    Named env next where
  identify a aInside b bInside := named.identify a (fewer a aInside) b (fewer b bInside)
  slots sub inside := by
    obtain ⟨node, nodeInside, same, made⟩ := named.slots sub (fewer sub inside)
    exact ⟨node, kept sub inside node nodeInside same, same, made⟩

theorem Named.createSubscription (named : Named env catalog) {args : CreateSubscription} {id : Oid}
    (apart : NamesApart env catalog (.createSubscription args))
    (done : pglogicalCreateSubscription env catalog args = .ok (id, next)) : Named env next := by
  obtain ⟨localnode, origin, originif, middle, sub, -, answered, madeOrigin, -, free, -, row, rfl⟩ :=
    pglogicalCreateSubscription_eq_ok done
  rw [NamesApart, answered] at apart
  obtain ⟨known, unmet⟩ := apart
  obtain ⟨sameRows, more, provider⟩ : middle.subscription = catalog.subscription ∧
      (∀ node ∈ catalog.node, node ∈ middle.node) ∧
      ∃ node ∈ middle.node, node.id = originif.nodeid ∧ node.name = origin.name := by
    rcases originInterface_eq_ok madeOrigin with
      ⟨⟨node, inside, same⟩, -, owner, rfl⟩ | ⟨node, -, same, owner, -, rfl⟩
    · exact ⟨rfl, fun _ present => present, node, inside, (known node inside same).trans owner.symm, same⟩
    · exact ⟨rfl, fun node => List.mem_append_left _, node, List.mem_append_right _ (List.mem_singleton.mpr rfl),
        owner.symm, same⟩
  have slot : sub.subSlotName = genSlotName env.hashAny env.databaseName origin.name args.subName := by rw [row]
  have new : ∀ old ∈ catalog.subscription, ∀ worker worker',
      workerSlotName old.subSlotName worker ≠ workerSlotName sub.subSlotName worker' := by
    intro old inside worker worker' same
    obtain ⟨node, nodeInside, owner, made⟩ := named.slots old inside
    rw [made, slot] at same
    exact unmet old inside node nodeInside owner (workerSlotName_eq_iff.mp ⟨worker, worker', same⟩)
  refine ⟨fun a aInside b bInside different worker worker' => ?_, fun listed inside => ?_⟩
  · simp only [sameRows, List.mem_append, List.mem_singleton] at aInside bInside
    rcases aInside with aOld | rfl <;> rcases bInside with bOld | rfl
    · exact named.identify a aOld b bOld different worker worker'
    · exact new a aOld worker worker'
    · exact (new b bOld worker' worker).symm
    · exact absurd rfl different
  · simp only [sameRows, List.mem_append, List.mem_singleton] at inside
    rcases inside with old | rfl
    · obtain ⟨node, nodeInside, same, made⟩ := named.slots listed old
      exact ⟨node, more node nodeInside, same, made⟩
    · obtain ⟨node, nodeInside, owner, same⟩ := provider
      refine ⟨node, nodeInside, ?_, ?_⟩
      · rw [owner, row]
      · rw [slot, same, show listed.subName = args.subName by rw [row]]

/-- A subscription is written back under its origin and slot name. -/
theorem Named.writtenBack (named : Named env catalog) (inv : Inv catalog) {subName : NameData}
    {altered : PGLogicalSubscription → PGLogicalSubscription} (written : WrittenBack catalog subName altered next)
    (sameId : ∀ sub, (altered sub).id = sub.id) (sameSlot : ∀ sub, (altered sub).slotName = sub.slotName)
    (sameOrigin : ∀ sub, sub.originIf.nodeid = sub.origin.id → (altered sub).originIf.nodeid = sub.origin.id) :
    Named env next := by
  obtain ⟨subtup, inside, sub, -, fromtuple, same, rows, -⟩ := inv.writtenBack_cases written sameId
  obtain ⟨-, -, originId, -, -, -, -, -, slotName, -⟩ := subscriptionFromtuple_eq_ok fromtuple
  have origin : (SubscriptionTuple.modify subtup (altered sub)).subOrigin = subtup.subOrigin := by
    rw [← originId]
    exact sameOrigin sub ((inv.read inside fromtuple).1.trans originId.symm)
  have slot : (SubscriptionTuple.modify subtup (altered sub)).subSlotName = subtup.subSlotName :=
    (sameSlot sub).trans slotName
  refine ⟨fun a aInside b bInside different worker worker' => ?_, fun row listed => ?_⟩
  · rcases rows a aInside with ⟨aOld, aOther⟩ | rfl <;> rcases rows b bInside with ⟨bOld, bOther⟩ | rfl
    · exact named.identify a aOld b bOld different worker worker'
    · rw [slot]
      exact named.identify a aOld subtup inside (fun equal => aOther (equal ▸ rfl)) worker worker'
    · rw [slot]
      exact named.identify subtup inside b bOld (fun equal => bOther (equal ▸ rfl)) worker worker'
    · exact absurd rfl different
  · rw [same]
    rcases rows row listed with ⟨old, -⟩ | rfl
    · exact named.slots row old
    · rw [slot, origin]
      exact named.slots subtup inside

theorem Named.step (named : Named env catalog) (inv : Inv catalog) {statement : Call}
    (apart : NamesApart env catalog statement) (taken : step env catalog statement = some next) : Named env next := by
  rcases step_cases taken with rfl | committed
  · exact named
  · cases statement with
    | createNode nodeName nodeDsn =>
      obtain ⟨result, done, rfl⟩ := map_eq_ok.mp committed
      obtain ⟨node, nodeif, repsets, -, -, -, -, -, same⟩ := pglogicalCreateNode_eq_ok done
      rw [same]
      exact named.subset (fun _ => id) fun sub _ node inside _ => List.mem_append_left _ inside
    | dropNode nodeName ifexists slots =>
      obtain ⟨result, done, rfl⟩ := map_eq_ok.mp committed
      rcases pglogicalDropNode_eq_ok done with same | ⟨node, rows, unused, -, same⟩
      · rwa [same]
      · rw [same]
        refine named.subset (fun _ => id) fun sub listed other inside owner => ?_
        refine (List.mem_eraseP_of_neg ?_).mpr inside
        simpa [owner] using (unused sub listed).1
    | alterNodeAddInterface nodeName ifName ifDsn =>
      obtain ⟨result, done, rfl⟩ := map_eq_ok.mp committed
      obtain ⟨node, nodeif, -, -, -, same⟩ := pglogicalAlterNodeAddInterface_eq_ok done
      rw [same]
      exact named.subset (fun _ => id) fun sub _ node inside _ => inside
    | alterNodeDropInterface nodeName ifName =>
      obtain ⟨result, done, rfl⟩ := map_eq_ok.mp committed
      obtain ⟨node, -, -, nodeif, -, -, -, same⟩ := pglogicalAlterNodeDropInterface_eq_ok done
      rw [same]
      exact named.subset (fun _ => id) fun sub _ node inside _ => inside
    | createSubscription args =>
      obtain ⟨result, done, rfl⟩ := map_eq_ok.mp committed
      exact named.createSubscription apart done
    | dropSubscription subName ifexists finish =>
      obtain ⟨result, done, rfl⟩ := map_eq_ok.mp committed
      rcases pglogicalDropSubscription_eq_ok done with ⟨same, -⟩ | ⟨subtup, -, sub, kept, -, -, cut, -, dropped⟩
      · rwa [same]
      · have keptNamed : Named env kept := by
          rw [cut]
          exact named.subset (fun sub inside => (List.mem_filter.mp inside).1) fun sub _ node inside _ => inside
        rcases dropped with same | ⟨unused, -, same⟩
        · rwa [same]
        · rw [same]
          refine keptNamed.subset (fun _ => id) fun other listed node inside owner => ?_
          refine (List.mem_eraseP_of_neg ?_).mpr inside
          simpa [owner] using unused other listed
    | alterSubscriptionDisable subName immediate inTransactionBlock =>
      obtain ⟨result, done, rfl⟩ := map_eq_ok.mp committed
      exact named.writtenBack inv (alterSubscriptionEnabled_eq_ok done) (fun _ => rfl) (fun _ => rfl) fun _ owned => owned
    | alterSubscriptionEnable subName immediate inTransactionBlock =>
      obtain ⟨result, done, rfl⟩ := map_eq_ok.mp committed
      exact named.writtenBack inv (alterSubscriptionEnabled_eq_ok done) (fun _ => rfl) (fun _ => rfl) fun _ owned => owned
    | alterSubscriptionInterface subName ifName =>
      obtain ⟨result, done, rfl⟩ := map_eq_ok.mp committed
      rcases pglogicalAlterSubscriptionInterface_eq_ok done with same | ⟨newIf, inside, written⟩
      · rwa [same]
      · refine named.writtenBack inv written (fun sub => ?_) (fun sub => ?_) fun sub owned => ?_
        · split <;> rfl
        · split <;> rfl
        · split
          · next owner => exact owner
          · exact owned
    | alterSubscriptionAddReplicationSet subName repsetName =>
      obtain ⟨result, done, rfl⟩ := map_eq_ok.mp committed
      rcases pglogicalAlterSubscriptionAddReplicationSet_eq_ok done with same | written
      · rwa [same]
      · exact named.writtenBack inv written (fun _ => rfl) (fun _ => rfl) fun _ owned => owned
    | alterSubscriptionRemoveReplicationSet subName repsetName =>
      obtain ⟨result, done, rfl⟩ := map_eq_ok.mp committed
      rcases pglogicalAlterSubscriptionRemoveReplicationSet_eq_ok done with same | written
      · rwa [same]
      · exact named.writtenBack inv written (fun _ => rfl) (fun _ => rfl) fun _ owned => owned

/-- In every run whose new subscriptions have names that do not meet existing ones, slot names identify
the subscription: workers of different subscriptions have different names, and what
`drop_subscription` drops is no worker's of another subscription. -/
theorem slot_names_identify (env : Environment) (statements : List Call) (catalog : Catalog)
    (allowed : Permitted (step env)
      (fun catalog statement => DropsUnused catalog statement ∧ NamesApart env catalog statement) .empty statements)
    (done : run (step env) .empty statements = some catalog) :
    NamesIdentify catalog ∧ ∀ subName ifexists finish sub next,
      pglogicalDropSubscription catalog subName ifexists finish = .ok ((true, some sub), next) →
        ∀ other ∈ catalog.subscription, other.subId ≠ sub.id →
          ∀ worker, workerSlotName other.subSlotName worker ≠ workerSlotName sub.slotName none := by
  have preserved : ∀ {source next : Catalog} {statement : Call}, Inv source ∧ Named env source →
      DropsUnused source statement ∧ NamesApart env source statement → step env source statement = some next →
      Inv next ∧ Named env next := fun both guard taken =>
    ⟨both.1.step guard.1 taken, both.2.step both.1 guard.2 taken⟩
  have initial : Inv Catalog.empty ∧ Named env Catalog.empty :=
    ⟨inv_empty, fun a inside => (List.not_mem_nil inside).elim, fun a inside => (List.not_mem_nil inside).elim⟩
  obtain ⟨inv, named⟩ := Machine.run_invariant preserved initial allowed done
  refine ⟨named.identify, fun subName ifexists finish sub next dropped other inside different worker => ?_⟩
  rcases pglogicalDropSubscription_eq_ok dropped with ⟨-, none⟩ | ⟨subtup, subInside, read, kept, -, fromtuple, -, result, -⟩
  · cases none
  · obtain rfl : sub = read := by simpa using result
    obtain ⟨-, -, -, -, -, -, id, -, slotName, -⟩ := subscriptionFromtuple_eq_ok fromtuple
    rw [slotName]
    exact named.identify other inside subtup subInside (fun equal => different (equal ▸ id.symm)) worker none

/-- The values of `hash_any` for the names below. -/
def joinedHashes : List (Bytes × UInt32) :=
  [((CString.ofString "b").val, 4226146208), ((CString.ofString "b_c").val, 1017348831),
    ((CString.ofString "d").val, 698607098), ((CString.ofString "c_d").val, 1783011330),
    (wordBytes 4226146208 ++ wordBytes 4226146208, 1517110787), (wordBytes 1017348831 ++ wordBytes 1017348831, 951572548)]

def joinedEnv : Environment :=
  { sampleEnv with hashAny := fun bytes => ((sampleHashes ++ joinedHashes).lookup bytes).getD 0 }

/-- `b` and `c_d` are joined to the same name as `b_c` and `d`. -/
def joinsToOneName : List Call :=
  [.createNode subscriberName (CString.ofString "dbname=postgres"),
    .createSubscription { sampleSubscription with
      subName := nameOf "c_d" (by decide), providerDsn := CString.ofString "host=b"
      remoteNode := .ok ⟨4226146208, nameOf "b" (by decide)⟩ },
    .createSubscription { sampleSubscription with
      subName := nameOf "d" (by decide), providerDsn := CString.ofString "host=b_c"
      remoteNode := .ok ⟨1017348831, nameOf "b_c" (by decide)⟩ }]

/-- Dropping one of the two drops the local origin of the other. -/
theorem slot_name_shared :
    ∃ catalog, run (step joinedEnv) .empty joinsToOneName = some catalog ∧
      catalog.subscription.map (fun sub => (sub.subName.str, sub.subSlotName.str)) =
        [(CString.ofString "c_d", CString.ofString "pgl_postgres_b_c_d"),
          (CString.ofString "d", CString.ofString "pgl_postgres_b_c_d")] ∧
      ¬ NamesIdentify catalog := by
  refine ⟨((run (step joinedEnv) .empty joinsToOneName).getD .empty), by decide +kernel, by decide +kernel,
    fun identify => ?_⟩
  have shared : ∃ a ∈ ((run (step joinedEnv) .empty joinsToOneName).getD .empty).subscription,
      ∃ b ∈ ((run (step joinedEnv) .empty joinsToOneName).getD .empty).subscription, a ≠ b ∧
        a.subSlotName = b.subSlotName := by decide +kernel
  obtain ⟨a, aInside, b, bInside, different, same⟩ := shared
  exact identify a aInside b bInside different none none (by rw [same])

/-- Two subscriptions to one provider. -/
def subscribesTwice : List Call :=
  [.createNode subscriberName (CString.ofString "dbname=postgres"), .createSubscription sampleSubscription,
    .createSubscription { sampleSubscription with
      subName := nameOf "sub2" (by decide), repSetNames := [CString.ofString "ddl_sql"] }]

def twiceCatalog : Catalog := (run (step sampleEnv) .empty subscribesTwice).getD .empty

theorem slot_names_identify_two_subscriptions :
    twiceCatalog.subscription.length = 2 ∧ NamesIdentify twiceCatalog ∧ ∀ subName ifexists finish sub next,
      pglogicalDropSubscription twiceCatalog subName ifexists finish = .ok ((true, some sub), next) →
        ∀ other ∈ twiceCatalog.subscription, other.subId ≠ sub.id →
          ∀ worker, workerSlotName other.subSlotName worker ≠ workerSlotName sub.slotName none :=
  ⟨by decide +kernel, slot_names_identify sampleEnv subscribesTwice twiceCatalog (by decide +kernel) (by decide +kernel)⟩

end PGLogical.Nodes
