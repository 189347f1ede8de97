import PGLogical.Soundness.NodeRefs

/-! # Which subscription receives a replication set

A set that two subscriptions of one provider receive is applied twice. `create_subscription` looks
at the other subscriptions of the provider; `alter_subscription_add_replication_set` looks only at
the subscription it changes, and neither looks for repetitions in a list it is given.
-/

namespace PGLogical.Nodes

open Wire (Bytes CString)
open Machine (run Permitted map_eq_ok)
open Catalog

/-- No set reaches this node twice from one provider. -/
structure DeliveredOnce (catalog : Catalog) : Prop where
  apart : ∀ a ∈ catalog.subscription, ∀ b ∈ catalog.subscription, a ≠ b → a.subOrigin = b.subOrigin →
    a.subReplicationSets.Disjoint b.subReplicationSets
  nodup : ∀ a ∈ catalog.subscription, a.subReplicationSets.Nodup

/-- A new list has no repetition, and a set that is added to a subscription is not received by another
one of the same provider. -/
def SetsApart (catalog : Catalog) : Call → Prop
  | .createSubscription args => args.repSetNames.Nodup
  | .alterSubscriptionAddReplicationSet subName repsetName =>
      ∀ sub ∈ catalog.subscription, sub.subName = subName → ∀ other ∈ catalog.subscription,
        other.subId ≠ sub.subId → other.subOrigin = sub.subOrigin → repsetName.str ∉ other.subReplicationSets
  | _ => True

instance SetsApart.decidable (catalog : Catalog) : ∀ statement, Decidable (SetsApart catalog statement)
  | .createSubscription args => inferInstanceAs (Decidable args.repSetNames.Nodup)
  | .alterSubscriptionAddReplicationSet subName repsetName =>
      have (sub : SubscriptionTuple) := List.decidableBAll (fun other : SubscriptionTuple =>
        other.subId ≠ sub.subId → other.subOrigin = sub.subOrigin → repsetName.str ∉ other.subReplicationSets)
        catalog.subscription
      List.decidableBAll (fun sub : SubscriptionTuple => sub.subName = subName → ∀ other ∈ catalog.subscription,
        other.subId ≠ sub.subId → other.subOrigin = sub.subOrigin → repsetName.str ∉ other.subReplicationSets)
        catalog.subscription
  | .createNode .. | .dropNode .. | .alterNodeAddInterface .. | .alterNodeDropInterface .. | .dropSubscription ..
  | .alterSubscriptionDisable .. | .alterSubscriptionEnable .. | .alterSubscriptionInterface ..
  | .alterSubscriptionRemoveReplicationSet .. => isTrue trivial

variable {env : Environment} {catalog next : Catalog}

theorem DeliveredOnce.subset (once : DeliveredOnce catalog)
    (fewer : ∀ sub ∈ next.subscription, sub ∈ catalog.subscription) : DeliveredOnce next where
  apart a aInside b bInside := once.apart a (fewer a aInside) b (fewer b bInside)
  nodup a inside := once.nodup a (fewer a inside)

theorem DeliveredOnce.createSubscription (once : DeliveredOnce catalog) {args : CreateSubscription} {id : Oid}
    (distinct : args.repSetNames.Nodup)
    (done : pglogicalCreateSubscription env catalog args = .ok (id, next)) : DeliveredOnce next := by
  obtain ⟨localnode, origin, originif, middle, sub, -, -, madeOrigin, others, -, -, row, rfl⟩ :=
    pglogicalCreateSubscription_eq_ok done
  have sameRows : middle.subscription = catalog.subscription := by
    rcases originInterface_eq_ok madeOrigin with ⟨-, -, -, rfl⟩ | ⟨node, -, -, -, -, rfl⟩ <;> rfl
  have sets : sub.subReplicationSets = args.repSetNames := by rw [row]
  have owner : sub.subOrigin = originif.nodeid := by rw [row]
  rw [sameRows] at others
  refine ⟨fun a aInside b bInside different same => ?_, fun a inside => ?_⟩
  · simp only [sameRows, List.mem_append, List.mem_singleton] at aInside bInside
    rcases aInside with aOld | rfl <;> rcases bInside with bOld | rfl
    · exact once.apart a aOld b bOld different same
    · rw [sets]
      exact fun set inA inNew => others a aOld (same.trans owner) set inA inNew
    · rw [sets]
      exact fun set inNew inB => others b bOld (same.symm.trans owner) set inB inNew
    · exact absurd rfl different
  · simp only [sameRows, List.mem_append, List.mem_singleton] at inside
    rcases inside with old | rfl
    · exact once.nodup a old
    · rw [sets]
      exact distinct

/-- A subscription is written back under the same origin, with a list that fits the others. -/
theorem DeliveredOnce.writtenBack (once : DeliveredOnce catalog) (inv : Inv catalog) {subName : NameData}
    {altered : PGLogicalSubscription → PGLogicalSubscription} (written : WrittenBack catalog subName altered next)
    (sameId : ∀ sub, (altered sub).id = sub.id)
    (sameOrigin : ∀ sub, sub.originIf.nodeid = sub.origin.id →
      (altered sub).originIf.nodeid = sub.origin.id)
    (fits : ∀ subtup ∈ catalog.subscription, subtup.subName = subName → ∀ sub,
      sub.replicationSets = subtup.subReplicationSets → (altered sub).replicationSets.Nodup ∧
        ∀ other ∈ catalog.subscription, other.subId ≠ subtup.subId → other.subOrigin = subtup.subOrigin →
          (altered sub).replicationSets.Disjoint other.subReplicationSets) :
    DeliveredOnce next := by
  obtain ⟨subtup, inside, sub, named, fromtuple, -, rows, -⟩ := inv.writtenBack_cases written sameId
  obtain ⟨-, -, originId, -, -, -, -, -, -, sets⟩ := subscriptionFromtuple_eq_ok fromtuple
  have origin : (SubscriptionTuple.modify subtup (altered sub)).subOrigin = subtup.subOrigin := by
    rw [← originId]
    exact sameOrigin sub ((inv.read inside fromtuple).1.trans originId.symm)
  obtain ⟨distinct, disjoint⟩ := fits subtup inside named sub sets
  refine ⟨fun a aInside b bInside different same => ?_, fun a listed => ?_⟩
  · rcases rows a aInside with ⟨aOld, aOther⟩ | rfl <;> rcases rows b bInside with ⟨bOld, bOther⟩ | rfl
    · exact once.apart a aOld b bOld different same
    · exact (disjoint a aOld aOther (same.trans origin)).symm
    · exact disjoint b bOld bOther (same.symm.trans origin)
    · exact absurd rfl different
  · rcases rows a listed with ⟨old, -⟩ | rfl
    · exact once.nodup a old
    · exact distinct

/-- The lists stay as they are, or lose elements. -/
theorem DeliveredOnce.fits_of_sublist (once : DeliveredOnce catalog) {subName : NameData}
    {altered : PGLogicalSubscription → PGLogicalSubscription}
    (fewer : ∀ sub, (altered sub).replicationSets.Sublist sub.replicationSets) :
    ∀ subtup ∈ catalog.subscription, subtup.subName = subName → ∀ sub,
      sub.replicationSets = subtup.subReplicationSets → (altered sub).replicationSets.Nodup ∧
        ∀ other ∈ catalog.subscription, other.subId ≠ subtup.subId → other.subOrigin = subtup.subOrigin →
          (altered sub).replicationSets.Disjoint other.subReplicationSets := by
  intro subtup inside named sub sets
  have shorter : (altered sub).replicationSets.Sublist subtup.subReplicationSets := sets ▸ fewer sub
  refine ⟨shorter.nodup (once.nodup subtup inside), fun other otherInside different same => ?_⟩
  have apart := once.apart subtup inside other otherInside (fun equal => different (equal ▸ rfl)) same.symm
  exact fun set present => apart (shorter.subset present)

theorem DeliveredOnce.addReplicationSet (once : DeliveredOnce catalog) (inv : Inv catalog)
    {subName repsetName : NameData}
    (apart : SetsApart catalog (.alterSubscriptionAddReplicationSet subName repsetName))
    (written : WrittenBack catalog subName (fun sub => { sub with replicationSets :=
      if repsetName.str ∈ sub.replicationSets then sub.replicationSets
      else sub.replicationSets ++ [repsetName.str] }) next) : DeliveredOnce next := by
  refine once.writtenBack inv written (fun _ => rfl) (fun _ owned => owned) fun subtup inside named sub sets => ?_
  dsimp only
  rw [sets]
  have others : ∀ other ∈ catalog.subscription, other.subId ≠ subtup.subId → other.subOrigin = subtup.subOrigin →
      subtup.subReplicationSets.Disjoint other.subReplicationSets := fun other otherInside different same =>
    once.apart subtup inside other otherInside (fun equal => different (equal ▸ rfl)) same.symm
  split
  · exact ⟨once.nodup subtup inside, others⟩
  · next absent =>
    refine ⟨List.nodup_append.mpr ⟨once.nodup subtup inside, List.nodup_singleton _, ?_⟩,
      fun other otherInside different same => ?_⟩
    · intro set present new isNew
      rw [List.mem_singleton.mp isNew]
      exact fun equal => absent (equal ▸ present)
    · intro set present taken
      rcases List.mem_append.mp present with old | new
      · exact others other otherInside different same old taken
      · rw [List.mem_singleton.mp new] at taken
        exact apart subtup inside named other otherInside different same taken

theorem DeliveredOnce.step (once : DeliveredOnce catalog) (inv : Inv catalog) {statement : Call}
    (apart : SetsApart catalog statement) (taken : step env catalog statement = some next) : DeliveredOnce next := by
  rcases step_cases taken with rfl | committed
  · exact once
  · cases statement with
    | createNode nodeName nodeDsn =>
      obtain ⟨result, done, rfl⟩ := map_eq_ok.mp committed
      obtain ⟨node, nodeif, repsets, -, -, -, -, -, same⟩ := pglogicalCreateNode_eq_ok done
      rw [same]
      exact once.subset fun _ => id
    | dropNode nodeName ifexists slots =>
      obtain ⟨result, done, rfl⟩ := map_eq_ok.mp committed
      rcases pglogicalDropNode_eq_ok done with same | ⟨node, rows, -, -, same⟩
      · rwa [same]
      · rw [same]
        exact once.subset fun _ => id
    | alterNodeAddInterface nodeName ifName ifDsn =>
      obtain ⟨result, done, rfl⟩ := map_eq_ok.mp committed
      obtain ⟨node, nodeif, -, -, -, same⟩ := pglogicalAlterNodeAddInterface_eq_ok done
      rw [same]
      exact once.subset fun _ => id
    | alterNodeDropInterface nodeName ifName =>
      obtain ⟨result, done, rfl⟩ := map_eq_ok.mp committed
      obtain ⟨node, -, -, nodeif, -, -, -, same⟩ := pglogicalAlterNodeDropInterface_eq_ok done
      rw [same]
      exact once.subset fun _ => id
    | createSubscription args =>
      obtain ⟨result, done, rfl⟩ := map_eq_ok.mp committed
      exact once.createSubscription apart done
    | dropSubscription subName ifexists finish =>
      obtain ⟨result, done, rfl⟩ := map_eq_ok.mp committed
      rcases pglogicalDropSubscription_eq_ok done with ⟨same, -⟩ | ⟨subtup, -, sub, kept, -, -, cut, -, dropped⟩
      · rwa [same]
      · refine once.subset fun other inside => ?_
        have remaining : other ∈ kept.subscription := by
          rcases dropped with same | ⟨-, -, same⟩
          · rwa [same] at inside
          · rwa [same] at inside
        rw [cut] at remaining
        exact (List.mem_filter.mp remaining).1
    | alterSubscriptionDisable subName immediate inTransactionBlock =>
      obtain ⟨result, done, rfl⟩ := map_eq_ok.mp committed
      exact once.writtenBack inv (alterSubscriptionEnabled_eq_ok done) (fun _ => rfl) (fun _ owned => owned)
        (once.fits_of_sublist fun _ => List.Sublist.refl _)
    | alterSubscriptionEnable subName immediate inTransactionBlock =>
      obtain ⟨result, done, rfl⟩ := map_eq_ok.mp committed
      exact once.writtenBack inv (alterSubscriptionEnabled_eq_ok done) (fun _ => rfl) (fun _ owned => owned)
        (once.fits_of_sublist fun _ => List.Sublist.refl _)
    | alterSubscriptionInterface subName ifName =>
      obtain ⟨result, done, rfl⟩ := map_eq_ok.mp committed
      rcases pglogicalAlterSubscriptionInterface_eq_ok done with same | ⟨newIf, inside, written⟩
      · rwa [same]
      · refine once.writtenBack inv written (fun sub => ?_) (fun sub owned => ?_) (once.fits_of_sublist fun sub => ?_)
        · split <;> rfl
        · split
          · next owner => exact owner
          · exact owned
        · split <;> exact List.Sublist.refl _
    | alterSubscriptionAddReplicationSet subName repsetName =>
      obtain ⟨result, done, rfl⟩ := map_eq_ok.mp committed
      rcases pglogicalAlterSubscriptionAddReplicationSet_eq_ok done with same | written
      · rwa [same]
      · exact once.addReplicationSet inv apart written
    | alterSubscriptionRemoveReplicationSet subName repsetName =>
      obtain ⟨result, done, rfl⟩ := map_eq_ok.mp committed
      rcases pglogicalAlterSubscriptionRemoveReplicationSet_eq_ok done with same | written
      · rwa [same]
      · exact once.writtenBack inv written (fun _ => rfl) (fun _ owned => owned)
          (once.fits_of_sublist fun _ => List.erase_sublist)

/-- In every run whose calls keep the sets apart and drop only unused interfaces, any two
subscriptions of one provider have disjoint lists without repetitions. -/
theorem replication_sets_delivered_once (env : Environment) (statements : List Call) (catalog : Catalog)
    (allowed : Permitted (step env) (fun catalog statement => DropsUnused catalog statement ∧ SetsApart catalog statement)
      .empty statements)
    (done : run (step env) .empty statements = some catalog) : DeliveredOnce catalog := by
  have preserved : ∀ {source next : Catalog} {statement : Call}, Inv source ∧ DeliveredOnce source →
      DropsUnused source statement ∧ SetsApart source statement → step env source statement = some next →
      Inv next ∧ DeliveredOnce next := fun both guard taken =>
    ⟨both.1.step guard.1 taken, both.2.step both.1 guard.2 taken⟩
  have initial : Inv Catalog.empty ∧ DeliveredOnce Catalog.empty :=
    ⟨inv_empty, fun a inside => (List.not_mem_nil inside).elim, fun a inside => (List.not_mem_nil inside).elim⟩
  exact (Machine.run_invariant preserved initial allowed done).2

/-- Two subscriptions of one provider; the second is given the set of the first. -/
def addsSetTwice : List Call :=
  [.createNode subscriberName (CString.ofString "dbname=postgres"), .createSubscription sampleSubscription,
    .createSubscription { sampleSubscription with
      subName := namestrcpy (CString.ofString "sub2"), repSetNames := [CString.ofString "ddl_sql"] },
    .alterSubscriptionAddReplicationSet (namestrcpy (CString.ofString "sub2")) (namestrcpy (CString.ofString "default"))]

theorem set_delivered_twice :
    ∃ catalog, run (step sampleEnv) .empty addsSetTwice = some catalog ∧ ¬ DeliveredOnce catalog := by
  refine ⟨((run (step sampleEnv) .empty addsSetTwice).getD .empty), by decide +kernel, fun once => ?_⟩
  have shared : ∃ a ∈ ((run (step sampleEnv) .empty addsSetTwice).getD .empty).subscription,
      ∃ b ∈ ((run (step sampleEnv) .empty addsSetTwice).getD .empty).subscription, a ≠ b ∧
        a.subOrigin = b.subOrigin ∧ CString.ofString "default" ∈ a.subReplicationSets ∧
        CString.ofString "default" ∈ b.subReplicationSets := by decide +kernel
  obtain ⟨a, aInside, b, bInside, different, same, inA, inB⟩ := shared
  exact once.apart a aInside b bInside different same inA inB

/-- The second subscription is given a set that the first one does not have. -/
def addsOtherSet : List Call :=
  [.createNode subscriberName (CString.ofString "dbname=postgres"), .createSubscription sampleSubscription,
    .createSubscription { sampleSubscription with
      subName := namestrcpy (CString.ofString "sub2"), repSetNames := [CString.ofString "ddl_sql"] },
    .alterSubscriptionAddReplicationSet (namestrcpy (CString.ofString "sub2"))
      (namestrcpy (CString.ofString "default_insert_only")),
    .alterSubscriptionDisable (namestrcpy (CString.ofString "sub")) false false]

theorem sets_delivered_once_two_subscriptions :
    DeliveredOnce ((run (step sampleEnv) .empty addsOtherSet).getD .empty) :=
  replication_sets_delivered_once sampleEnv addsOtherSet _ (by decide +kernel) (by decide +kernel)

end PGLogical.Nodes
