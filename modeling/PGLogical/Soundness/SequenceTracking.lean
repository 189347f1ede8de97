import PGLogical.Soundness.DroppedObjects

/-! # Sequence tracking over runs

From the catalogs of a new extension on, every statement keeps the records of `sequence_state` in step
with the memberships, whatever is dropped and however, provided that only sequences are added as
sequences. A table that was added as one stays behind when it is dropped, and the manager then fails
on it in every pass.
-/

namespace PGLogical.Sequences

open Wire (CString)
open Nodes (Environment)
open Repsets (Server TargetRel)
open Machine (run Permitted bind_eq_ok map_eq_ok guard_eq_ok)

variable {Node : Type} {env : Environment} {server : Server Node} {catalog next : Catalog Node}

/-- Records and memberships agree, and both are about sequences that exist. -/
structure TracksMembership (server : Server Node) (catalog : Catalog Node) : Prop where
  sequence : ∀ t ∈ catalog.repsetSeq, ∃ target, catalog.heapOpen server t.2 = .ok target ∧ target.relkind = .sequence
  state : ∀ oid, oid ∈ catalog.sequenceState.map SeqStateTuple.seqoid ↔ ∃ setid, (setid, oid) ∈ catalog.repsetSeq
  once : (catalog.sequenceState.map SeqStateTuple.seqoid).Nodup
  /-- What `synchronize_sequences` reads. -/
  read : ∀ seq ∈ catalog.sequenceState, ∃ target, catalog.heapOpen server seq.seqoid = .ok target ∧
    target.relkind = .sequence
  queued : ∀ message ∈ catalog.sequenceQueue, message.replicationSets ≠ []

theorem Inv.tracksMembership (inv : Inv server catalog) : TracksMembership server catalog where
  sequence := inv.sequence
  state := inv.state
  once := inv.once
  read seq inside := by
    obtain ⟨setid, member⟩ := (inv.state seq.seqoid).mp (List.mem_map.mpr ⟨seq, inside, rfl⟩)
    exact inv.sequence (setid, seq.seqoid) member
  queued := inv.queued

/-! ## Dropping relations -/

/-- A relation that is not dropped is found as before. -/
theorem heapOpen_filter {dropped : List Oid} {oid : Oid} (stays : oid ∉ dropped) :
    Catalog.heapOpen server { catalog with
      relations := catalog.relations.filter fun target => decide (target.rel.relid ∉ dropped) } oid =
      catalog.heapOpen server oid := by
  simp only [Catalog.heapOpen, Repsets.Server.heapOpen, List.find?_filter]
  congr 2
  funext target
  by_cases own : target.rel.relid = oid <;> simp [own, stays]

theorem Consistent.foldl_passObject_consistent (consistent : Consistent catalog) (dropped : List DroppedObject) :
    Consistent (dropped.foldl (Catalog.passObject true) catalog) := by
  induction dropped generalizing catalog with
  | nil => exact consistent
  | cons object dropped ih => exact ih (consistent.passObject true object)

/-- The trigger sees every sequence that is dropped. -/
theorem Inv.dropRelations (inv : Inv server catalog) {stmt : ParseTree} {replica : Bool} {dropped : List Oid}
    (done : dropRelations server stmt replica dropped catalog = .ok next) : Inv server next := by
  unfold Sequences.dropRelations at done
  have kept : Consistent { catalog with
      relations := catalog.relations.filter fun target => decide (target.rel.relid ∉ dropped) } :=
    ⟨inv.nodes, inv.synced, inv.tableInSet, inv.seqInSet, inv.state, inv.once⟩
  rw [kept.trigger_eq] at done
  split at done
  · cases done
  · cases done
    have consistent := kept.foldl_passObject_consistent
      ((catalog.relations.filter fun target => decide (target.rel.relid ∈ dropped)).filterMap (droppedObject server))
    rw [foldl_passObject_eq] at consistent ⊢
    refine ⟨consistent, inv.oids.sublist (List.filter_sublist.map _), fun t inside => ?_, inv.queued⟩
    obtain ⟨member, unlisted⟩ := List.mem_filter.mp inside
    obtain ⟨target, opened, sequence⟩ := inv.sequence t member
    obtain ⟨found, -⟩ := heapOpen_eq_ok_iff.mp opened
    have own : target.rel.relid = t.2 := by simpa using List.find?_some found
    have stays : t.2 ∉ dropped := fun gone => by
      refine of_decide_eq_true unlisted (mem_objidsOf_iff.mpr ⟨⟨t.2, server.getNamespaceName target.rel.relnamespace,
        target.rel.relname.str, .sequence⟩, List.mem_filterMap.mpr ⟨target, ?_, ?_⟩, rfl, rfl⟩)
      · exact List.mem_filter.mpr ⟨List.mem_of_find?_eq_some found, decide_eq_true (own ▸ gone)⟩
      · simp [droppedObject, sequence, own]
    exact ⟨target, (heapOpen_filter stays).trans opened, sequence⟩

/-! ## Runs -/

/-- Only sequences are added by name. -/
def AddsSequence (server : Server Node) (catalog : Catalog Node) : Call → Prop
  | .replicationSetAddSequence _ _ reloid _ => IsSequence server catalog reloid
  | _ => True

/-- The catalogs of a new extension, before there is any relation. -/
def Catalog.empty : Catalog Node := ⟨⟨.empty, [], [], []⟩, [], [], []⟩

theorem inv_empty : Inv server (Catalog.empty : Catalog Node) :=
  ⟨⟨Nodes.inv_empty, nofun, nofun, nofun, by simp [Catalog.empty], by simp [Catalog.empty]⟩, by simp [Catalog.empty],
    nofun, nofun⟩

theorem Inv.call (inv : Inv server catalog) {statement : Call} (allowed : AddsSequence server catalog statement)
    (done : call env server catalog statement = .ok next) : Inv server next := by
  cases statement with
  | createNode nodeName nodeDsn =>
    obtain ⟨nodes, mapped, rfl⟩ := map_eq_ok.mp done
    obtain ⟨⟨id, made⟩, created, rfl⟩ := map_eq_ok.mp mapped
    exact inv.createNode created
  | dropNode nodeName ifexists slots => exact inv.dropNode done
  | createReplicationSet setName ri ru rd rt =>
    obtain ⟨⟨id, made⟩, created, rfl⟩ := map_eq_ok.mp done
    exact inv.createReplicationSet created
  | dropReplicationSet setName ifexists => exact inv.dropReplicationSet done
  | replicationSetAddTable repsetName reloid synchronize attNames rowFilter =>
    obtain ⟨⟨result, added⟩, adding, rfl⟩ := map_eq_ok.mp done
    exact inv.replicationSetAddTable adding
  | replicationSetAddSequence contents repsetName reloid synchronize => exact inv.replicationSetAddSequence allowed done
  | replicationSetAddAllSequences contents repsetName nspNames synchronize =>
    exact inv.replicationSetAddAllSequences done
  | replicationSetRemoveSequence repsetName seqoid => exact inv.replicationSetRemoveSequence done
  | createRelation target => exact inv.createRelation done
  | dropRelations stmt replica dropped => exact inv.dropRelations done
  | synchronizeSequences contents =>
    obtain ⟨⟨ret, after⟩, passed, rfl⟩ := map_eq_ok.mp done
    exact inv.synchronizeSequences passed

theorem Inv.step (inv : Inv server catalog) {statement : Call} (allowed : AddsSequence server catalog statement)
    (taken : step env server catalog statement = some next) : Inv server next := by
  unfold Sequences.step at taken
  split at taken
  · next done =>
    cases taken
    exact inv.call allowed done
  · cases taken
    exact inv

theorem sequences_track_membership (env : Environment) (server : Server Node) (statements : List Call)
    (catalog : Catalog Node) (allowed : Permitted (step env server) (AddsSequence server) .empty statements)
    (done : run (step env server) .empty statements = some catalog) : TracksMembership server catalog :=
  (Machine.run_invariant (fun inv permitted taken => inv.step permitted taken) inv_empty allowed done).tracksMembership

/-! ## A sequence and a table -/

instance decidableIsSequence (server : Server Node) (catalog : Catalog Node) (seqoid : Oid) :
    Decidable (IsSequence server catalog seqoid) :=
  match opened : catalog.heapOpen server seqoid with
  | .ok target => decidable_of_iff (target.relpersistence = .permanent → target.relkind = .sequence)
      ⟨fun fits other found => by rw [← Except.ok.inj (opened.symm.trans found)]; exact fits,
        fun all => all target opened⟩
  | .error _ => isTrue fun other found => by rw [opened] at found; cases found

instance decidableAddsSequence (server : Server Node) (catalog : Catalog Node) (statement : Call) :
    Decidable (AddsSequence server catalog statement) :=
  match statement with
  | .replicationSetAddSequence _ _ reloid _ => inferInstanceAs (Decidable (IsSequence server catalog reloid))
  | .createNode .. | .dropNode .. | .createReplicationSet .. | .dropReplicationSet .. | .replicationSetAddTable ..
  | .replicationSetAddAllSequences .. | .replicationSetRemoveSequence .. | .createRelation .. | .dropRelations ..
  | .synchronizeSequences .. => isTrue trivial

def defaultSet : NameData := namestrcpy (CString.ofString "default")

def ticketSeq : TargetRel :=
  ⟨{ sampleTable with relid := 16500, relname := Nodes.nameOf "ticket_seq" (by decide), identityKey := ∅ }, .sequence,
    .permanent, invalidOid, false⟩

def ticketTable : TargetRel :=
  ⟨{ sampleTable with relid := 16501, relname := Nodes.nameOf "ticket" (by decide) }, .relation, .permanent, 16510, false⟩

/-- Both relations have a first tuple. -/
def ticketContents : Contents := fun _ => some 7

def ticketRelations : List Call :=
  [.createNode Nodes.subscriberName (CString.ofString "dbname=postgres"), .createRelation ticketSeq,
    .createRelation ticketTable]

/-- DROP with CASCADE. -/
def dropCascade (oid : Oid) : Call := .dropRelations (.dropStmt 0 .cascade false false) false [oid]

/-- A sequence is added, passed over by the manager and dropped. -/
def tracksTicketSeq : List Call := ticketRelations ++
  [.replicationSetAddSequence ticketContents defaultSet 16500 true, .synchronizeSequences ticketContents,
    dropCascade 16500]

theorem sequences_track_membership_ticket :
    ∃ catalog, run (step Nodes.sampleEnv Repsets.sampleServer) .empty tracksTicketSeq = some catalog ∧
      catalog.sequenceQueue.map SequenceMessage.lastValue = [7, 1007] ∧ catalog.sequenceState = [] ∧
      TracksMembership Repsets.sampleServer catalog := by
  refine ⟨(run (step Nodes.sampleEnv Repsets.sampleServer) .empty tracksTicketSeq).get (by decide),
    (Option.some_get _).symm, by decide, by decide, ?_⟩
  exact sequences_track_membership Nodes.sampleEnv Repsets.sampleServer tracksTicketSeq _ (by decide)
    (Option.some_get _).symm

/-- The table is added as a sequence and dropped with CASCADE. -/
def tracksTicket : List Call := ticketRelations ++
  [.replicationSetAddSequence ticketContents defaultSet 16501 false, dropCascade 16501]

/-- The membership and the record outlive the table. -/
theorem not_forall_track_membership : ¬∀ (env : Environment) (server : Server Unit) (statements : List Call)
    (catalog : Catalog Unit), run (step env server) .empty statements = some catalog →
      TracksMembership server catalog := by
  intro tracks
  have tracked := tracks Nodes.sampleEnv Repsets.sampleServer tracksTicket
    ((run (step Nodes.sampleEnv Repsets.sampleServer) .empty tracksTicket).get (by decide))
    (Option.some_get _).symm
  obtain ⟨target, opened, -⟩ := tracked.sequence (3048336061, 16501) (by decide)
  have gone : ((run (step Nodes.sampleEnv Repsets.sampleServer) .empty tracksTicket).get (by decide)).heapOpen
      Repsets.sampleServer 16501 = .error "could not open relation with OID 16501" := by decide
  rw [gone] at opened
  cases opened

end PGLogical.Sequences
