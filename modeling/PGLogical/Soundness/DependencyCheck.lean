import PGLogical.Soundness.SequenceTracking

/-! # Dropped objects leave no replication state

Two things can go wrong when a member of a set is dropped. The word that the trigger takes for the
drop behaviour is another field of statements that are not a DROP: for ALTER TABLE it is IF EXISTS,
for DROP OWNED it lies behind the node. And a table that is in a set as a sequence is not looked for
there.
-/

namespace PGLogical.Sequences

open Wire (CString)
open Repsets (Server)
open Machine (run Permitted)

variable {Node : Type} {catalog : Catalog Node} {dropped : List DroppedObject}

/-! ## What the trigger is for -/

/-- No row about the objects is left, all other rows are. -/
def forget (dropped : List DroppedObject) (catalog : Catalog Node) : Catalog Node :=
  { catalog with
    nodes := { catalog.nodes with
      localSyncStatus := catalog.nodes.localSyncStatus.filter fun sync =>
        decide (∀ object ∈ dropped, sync.table ≠ some object.rangeVar) }
    repsetTable := catalog.repsetTable.filter fun t => decide (∀ object ∈ dropped, t.reloid ≠ object.objid)
    repsetSeq := catalog.repsetSeq.filter fun t => decide (∀ object ∈ dropped, t.2 ≠ object.objid)
    sequenceState := catalog.sequenceState.filter fun seq => decide (∀ object ∈ dropped, seq.seqoid ≠ object.objid) }

/-- The trigger raises an error exactly for a member of a set that is dropped without CASCADE on a
session that is not a replica; otherwise it forgets the dropped objects. -/
structure LeavesNothing (stmt : ParseTree) (replica : Bool) (dropped : List DroppedObject) (catalog : Catalog Node) :
    Prop where
  raises : (∃ message, pglogicalDependencyCheckTrigger stmt replica dropped catalog = .error message) ↔
    (∃ object ∈ dropped, catalog.InSet object) ∧ stmt.saysCascade = false ∧ replica = false
  forgets : ∀ next, pglogicalDependencyCheckTrigger stmt replica dropped catalog = .ok next →
    next = forget dropped catalog

/-- The word at the place of `DropStmt.behavior` tells what the statement says. -/
def ParseTree.TellsBehavior : ParseTree → Prop
  | .dropStmt .. => True
  | .alterTableStmt _ missingOk cmds => missingOk = true ↔ DropBehavior.cascade ∈ cmds
  | .dropOwnedStmt behavior behind => behind.2 = 1 ↔ behavior = .cascade

theorem ParseTree.tellsBehavior_iff (stmt : ParseTree) :
    stmt.TellsBehavior ↔ stmt.readsCascade = stmt.saysCascade := by
  cases stmt with
  | dropStmt removeType behavior missingOk concurrent => cases behavior <;> simp [TellsBehavior] <;> rfl
  | alterTableStmt relkind missingOk cmds =>
    cases missingOk <;> simp [TellsBehavior, readsCascade, saysCascade, ParseTree.behavior, words, DropBehavior.word]
  | dropOwnedStmt behavior behind =>
    simp [TellsBehavior, readsCascade, saysCascade, ParseTree.behavior, words, DropBehavior.word]

/-- What leaves its own sets is forgotten unless it is in others. -/
theorem Consistent.forget_eq_iff (consistent : Consistent catalog) (distinct : (dropped.map DroppedObject.objid).Nodup) :
    dropped.foldl (Catalog.passObject true) catalog = forget dropped catalog ↔
      ∀ object ∈ dropped, ¬catalog.InOtherSet object := by
  rw [foldl_passObject_eq]
  constructor
  · intro equal object inside other
    have tables : catalog.repsetTable.filter (fun t => decide (t.reloid ∉ objidsOf .table dropped)) =
        (forget dropped catalog).repsetTable := congrArg (fun after : Catalog Node => after.repsetTable) equal
    have seqs : catalog.repsetSeq.filter (fun t => decide (t.2 ∉ objidsOf .sequence dropped)) =
        (forget dropped catalog).repsetSeq := congrArg (fun after : Catalog Node => after.repsetSeq) equal
    -- its identifier stands for no object of the other kind, so that the row stays
    have unlisted : ∀ {objectType : ObjectType}, object.objectType ≠ objectType →
        object.objid ∉ objidsOf objectType dropped := by
      intro objectType apart known
      obtain ⟨another, anotherInside, ident, kind⟩ := mem_objidsOf_iff.mp known
      rw [List.inj_on_of_nodup_map distinct anotherInside inside ident] at kind
      exact apart kind
    unfold Catalog.InOtherSet at other
    cases kind : object.objectType with
    | table =>
      simp only [kind] at other
      obtain ⟨t, listed, own⟩ := other
      have kept : t ∈ catalog.repsetSeq.filter fun t => decide (t.2 ∉ objidsOf .sequence dropped) :=
        List.mem_filter.mpr ⟨listed, decide_eq_true (own ▸ unlisted (by simp [kind]))⟩
      rw [seqs] at kept
      exact of_decide_eq_true (List.mem_filter.mp kept).2 object inside own
    | sequence =>
      simp only [kind] at other
      obtain ⟨t, listed, own⟩ := other
      have kept : t ∈ catalog.repsetTable.filter fun t => decide (t.reloid ∉ objidsOf .table dropped) :=
        List.mem_filter.mpr ⟨listed, decide_eq_true (own ▸ unlisted (by simp [kind]))⟩
      rw [tables] at kept
      exact of_decide_eq_true (List.mem_filter.mp kept).2 object inside own
  · intro outside
    have tables : catalog.repsetTable.filter (fun t => decide (t.reloid ∉ objidsOf .table dropped)) =
        catalog.repsetTable.filter fun t => decide (∀ object ∈ dropped, t.reloid ≠ object.objid) := by
      refine List.filter_congr fun t listed => decide_eq_decide.mpr (notMem_objidsOf_iff fun object inside own => ?_)
      cases kind : object.objectType with
      | table => rfl
      | sequence => exact absurd (by simp only [Catalog.InOtherSet, kind]; exact ⟨t, listed, own⟩) (outside object inside)
    have member : ∀ setid oid, (setid, oid) ∈ catalog.repsetSeq →
        (oid ∉ objidsOf .sequence dropped ↔ ∀ object ∈ dropped, oid ≠ object.objid) := by
      refine fun setid oid listed => notMem_objidsOf_iff fun object inside own => ?_
      cases kind : object.objectType with
      | sequence => rfl
      | table => exact absurd (by simp only [Catalog.InOtherSet, kind]; exact ⟨_, listed, own⟩) (outside object inside)
    have seqs : catalog.repsetSeq.filter (fun t => decide (t.2 ∉ objidsOf .sequence dropped)) =
        catalog.repsetSeq.filter fun t => decide (∀ object ∈ dropped, t.2 ≠ object.objid) :=
      List.filter_congr fun t listed => decide_eq_decide.mpr (member t.1 t.2 listed)
    have states : catalog.sequenceState.filter (fun seq => decide (seq.seqoid ∉ objidsOf .sequence dropped)) =
        catalog.sequenceState.filter fun seq => decide (∀ object ∈ dropped, seq.seqoid ≠ object.objid) := by
      refine List.filter_congr fun seq recorded => decide_eq_decide.mpr ?_
      obtain ⟨setid, listed⟩ := (consistent.state seq.seqoid).mp (List.mem_map.mpr ⟨seq, recorded, rfl⟩)
      exact member setid seq.seqoid listed
    rw [tables, seqs, states]
    rfl

/-! ## The trigger -/

/-- When the trigger does what it is for: the word it reads tells the behaviour, where that matters,
and nothing dropped is in a set as what it is not, unless the statement fails anyway. -/
def TriggerSuffices (stmt : ParseTree) (replica : Bool) (dropped : List DroppedObject) (catalog : Catalog Node) : Prop :=
  ((∃ object ∈ dropped, catalog.InOwnSet object) ∧ replica = false → stmt.TellsBehavior) ∧
    ((∃ object ∈ dropped, catalog.InOtherSet object) →
      (∃ object ∈ dropped, catalog.InOwnSet object) ∧ replica = false ∧ stmt.saysCascade = false)

/-- The cases of the two flags, the session and the two kinds of membership. -/
theorem suffices_iff (own other : Prop) (reads asked replica : Bool) :
    ((own ∧ reads = false ∧ replica = false ↔ (own ∨ other) ∧ asked = false ∧ replica = false) ∧
      (own ∧ reads = false ∧ replica = false ∨ ¬other)) ↔
    (own ∧ replica = false → reads = asked) ∧ (other → own ∧ replica = false ∧ asked = false) := by
  by_cases own <;> by_cases other <;> cases reads <;> cases asked <;> cases replica <;> simp [*]

theorem leavesNothing_iff (catalog : Catalog Node) (consistent : Consistent catalog) (stmt : ParseTree) (replica : Bool)
    (dropped : List DroppedObject) (distinct : (dropped.map DroppedObject.objid).Nodup) :
    LeavesNothing stmt replica dropped catalog ↔ TriggerSuffices stmt replica dropped catalog := by
  have trigger := consistent.trigger_eq stmt replica dropped
  have listed : (∃ object ∈ dropped, catalog.InSet object) ↔
      (∃ object ∈ dropped, catalog.InOwnSet object) ∨ ∃ object ∈ dropped, catalog.InOtherSet object := by
    simp only [Catalog.inSet_iff, and_or_left, exists_or]
  have raises : (∃ message, pglogicalDependencyCheckTrigger stmt replica dropped catalog = .error message) ↔
      (∃ object ∈ dropped, catalog.InOwnSet object) ∧ stmt.readsCascade = false ∧ replica = false := by
    rw [trigger]
    split
    · next raised => exact ⟨fun _ => raised, fun _ => ⟨_, rfl⟩⟩
    · next passed => exact ⟨fun ⟨_, error⟩ => (by cases error), fun raised => absurd raised passed⟩
  have forgets : (∀ next, pglogicalDependencyCheckTrigger stmt replica dropped catalog = .ok next →
      next = forget dropped catalog) ↔
      ((∃ object ∈ dropped, catalog.InOwnSet object) ∧ stmt.readsCascade = false ∧ replica = false ∨
        ¬∃ object ∈ dropped, catalog.InOtherSet object) := by
    have left : dropped.foldl (Catalog.passObject true) catalog = forget dropped catalog ↔
        ¬∃ object ∈ dropped, catalog.InOtherSet object := by
      rw [consistent.forget_eq_iff distinct, not_exists]
      exact forall_congr' fun object => not_and.symm
    rw [trigger, ← left]
    split
    · next raised => exact ⟨fun _ => .inl raised, fun _ next error => by cases error⟩
    · next passed =>
      refine ⟨fun all => .inr (all _ rfl), fun either next done => ?_⟩
      cases done
      exact either.resolve_left passed
  have parts : LeavesNothing stmt replica dropped catalog ↔
      ((∃ message, pglogicalDependencyCheckTrigger stmt replica dropped catalog = .error message) ↔
        (∃ object ∈ dropped, catalog.InSet object) ∧ stmt.saysCascade = false ∧ replica = false) ∧
      ∀ next, pglogicalDependencyCheckTrigger stmt replica dropped catalog = .ok next → next = forget dropped catalog :=
    ⟨fun clean => ⟨clean.raises, clean.forgets⟩, fun both => ⟨both.1, both.2⟩⟩
  rw [parts, raises, forgets, listed, suffices_iff, TriggerSuffices, ParseTree.tellsBehavior_iff]

/-! ## A sequence that is owned by a column -/

/-- The sequence is in the default set. -/
def addsTicketSeq : List Call := ticketRelations ++ [.replicationSetAddSequence ticketContents defaultSet 16500 false]

def ticketCatalog : Catalog Unit :=
  (run (step Nodes.sampleEnv Repsets.sampleServer) .empty addsTicketSeq).get (by decide)

theorem consistent_ticketCatalog : Consistent ticketCatalog := by
  have inv : Inv Repsets.sampleServer ticketCatalog :=
    Machine.run_invariant (fun inv permitted taken => inv.step permitted taken) inv_empty
      (by decide : Permitted (step Nodes.sampleEnv Repsets.sampleServer) (AddsSequence Repsets.sampleServer)
        .empty addsTicketSeq) (Option.some_get _).symm
  exact inv.toConsistent

def ticketObject : DroppedObject := ⟨16500, CString.ofString "public", CString.ofString "ticket_seq", .sequence⟩

/-- DROP SEQUENCE with CASCADE. -/
theorem leavesNothing_dropSequence :
    LeavesNothing (.dropStmt 0 .cascade false false) false [ticketObject] ticketCatalog := by
  refine (leavesNothing_iff ticketCatalog consistent_ticketCatalog _ _ _ (by decide)).mpr ⟨fun _ => trivial, ?_⟩
  rintro ⟨object, inside, other⟩
  obtain rfl := List.mem_singleton.mp inside
  obtain ⟨t, listed, -⟩ : ∃ t ∈ ticketCatalog.repsetTable, t.reloid = 16500 := other
  have none : ticketCatalog.repsetTable.length = 0 := by decide
  rw [List.length_eq_zero_iff.mp none] at listed
  cases listed

/-- ALTER TABLE IF EXISTS that drops the column and with it the sequence: IF EXISTS is taken for
CASCADE, so that nothing is raised. -/
theorem not_forall_leavesNothing : ¬∀ (catalog : Catalog Unit) (stmt : ParseTree) (replica : Bool)
    (dropped : List DroppedObject), Consistent catalog → (dropped.map DroppedObject.objid).Nodup →
      LeavesNothing stmt replica dropped catalog := by
  intro clean
  have raises := (clean ticketCatalog (.alterTableStmt 0 true [.restrict]) false [ticketObject]
    consistent_ticketCatalog (by decide)).raises
  have member : ticketCatalog.InSet ticketObject := .inr ⟨(3048336061, 16500), by decide, rfl⟩
  obtain ⟨message, raised⟩ := raises.mpr ⟨⟨ticketObject, .head _, member⟩, rfl, rfl⟩
  have passes : (pglogicalDependencyCheckTrigger (.alterTableStmt 0 true [.restrict]) false [ticketObject]
      ticketCatalog).toBool = true := by decide
  rw [raised] at passes
  cases passes

end PGLogical.Sequences
