import PGLogical.Machine.Fallible
import PGLogical.Model.TruncateTrigger

/-! # One trigger that queues truncations

The scan of `create_truncate_trigger` sees the TRUNCATE triggers in front of the first trigger of
another kind. So it creates a second trigger on the function when the first one is behind such a
trigger, and an addition leaves exactly one if the table had none or one that the scan sees. The
other triggers stay as they are.
-/

namespace PGLogical.TruncateTrigger

open Machine
open Repsets (TargetRel)

variable {funcoid : Oid}

/-- The triggers on `pglogical.queue_truncate`. -/
def queueTriggers (funcoid : Oid) (triggers : List Trigger) : List Trigger :=
  triggers.filter fun trigger => decide (trigger.tgfoid = funcoid)

def otherTriggers (funcoid : Oid) (triggers : List Trigger) : List Trigger :=
  triggers.filter fun trigger => decide (trigger.tgfoid ≠ funcoid)

/-! ## The scan -/

theorem findsTrigger_stuck {trigger : Trigger} (other : trigger.forTruncate = false) (rounds : ℕ) (rest : List Trigger) :
    findsTrigger funcoid rounds (trigger :: rest) = false := by
  induction rounds with
  | zero => rfl
  | succ rounds ih => simp [findsTrigger, other, ih]

/-- The scan stops at the first trigger that is not for TRUNCATE. -/
theorem findsTrigger_eq (triggers : List Trigger) (rounds : ℕ) (enough : triggers.length ≤ rounds) :
    findsTrigger funcoid rounds triggers =
      (triggers.takeWhile Trigger.forTruncate).any fun trigger => decide (trigger.tgfoid = funcoid) := by
  induction triggers generalizing rounds with
  | nil => cases rounds <;> rfl
  | cons trigger rest ih =>
    obtain ⟨rounds, rfl⟩ : ∃ fewer, rounds = fewer + 1 := ⟨rounds - 1, by simp at enough; omega⟩
    cases kind : trigger.forTruncate with
    | false => rw [findsTrigger_stuck kind]; simp [kind]
    | true =>
      by_cases queues : trigger.tgfoid = funcoid
      · simp [findsTrigger, kind, queues]
      · simp [findsTrigger, kind, queues, ih rounds (Nat.le_of_succ_le_succ enough)]

/-! ## One addition -/

/-- The table has none of the triggers, or one that only TRUNCATE triggers stand in front of. -/
def Seen (funcoid : Oid) (triggers : List Trigger) : Prop :=
  queueTriggers funcoid triggers = [] ∨
    ∃ front queue rest, triggers = front ++ queue :: rest ∧ queue.tgfoid = funcoid ∧
      (∀ trigger ∈ front ++ [queue], trigger.forTruncate = true) ∧ queueTriggers funcoid (front ++ rest) = []

theorem insertTrigger_others {trigger : Trigger} (queues : trigger.tgfoid = funcoid) (triggers : List Trigger) :
    otherTriggers funcoid (insertTrigger trigger triggers) = otherTriggers funcoid triggers := by
  rw [insertTrigger, otherTriggers, List.filter_append, List.filter_cons_of_neg (by simpa using queues),
    ← List.filter_append, List.takeWhile_append_dropWhile]
  rfl

theorem length_queueTriggers_append (front rest : List Trigger) :
    (queueTriggers funcoid (front ++ rest)).length =
      (queueTriggers funcoid front).length + (queueTriggers funcoid rest).length := by
  rw [queueTriggers, List.filter_append, List.length_append]
  rfl

theorem length_queueTriggers_cons {trigger : Trigger} (queues : trigger.tgfoid = funcoid) (rest : List Trigger) :
    (queueTriggers funcoid (trigger :: rest)).length = (queueTriggers funcoid rest).length + 1 := by
  rw [queueTriggers, List.filter_cons_of_pos (by simpa using queues)]
  rfl

theorem length_insertTrigger {trigger : Trigger} (queues : trigger.tgfoid = funcoid) (triggers : List Trigger) :
    (queueTriggers funcoid (insertTrigger trigger triggers)).length = (queueTriggers funcoid triggers).length + 1 := by
  rw [insertTrigger, length_queueTriggers_append, length_queueTriggers_cons queues, ← Nat.add_assoc,
    ← length_queueTriggers_append, List.takeWhile_append_dropWhile]

/-- Other triggers are never touched. -/
theorem createTruncateTrigger_others (tgoid : Oid) (triggers : List Trigger) :
    otherTriggers funcoid (createTruncateTrigger funcoid tgoid triggers) = otherTriggers funcoid triggers := by
  unfold createTruncateTrigger
  split
  · rfl
  · have queues : (queueTruncateTrigger funcoid tgoid).tgfoid = funcoid := rfl
    exact insertTrigger_others queues triggers

theorem seen_of_findsTrigger {triggers : List Trigger}
    (found : (triggers.takeWhile Trigger.forTruncate).any (fun trigger => decide (trigger.tgfoid = funcoid)) = true)
    (single : (queueTriggers funcoid triggers).length = 1) : Seen funcoid triggers := by
  obtain ⟨queue, inside, queues⟩ := List.any_eq_true.mp found
  obtain ⟨front, middle, split⟩ := List.append_of_mem inside
  have whole : triggers = front ++ queue :: (middle ++ triggers.dropWhile Trigger.forTruncate) := by
    conv_lhs => rw [← List.takeWhile_append_dropWhile (p := Trigger.forTruncate) (l := triggers), split]
    simp
  have queues : queue.tgfoid = funcoid := of_decide_eq_true queues
  refine .inr ⟨front, queue, _, whole, queues, fun trigger member => ?_, ?_⟩
  · refine List.mem_takeWhile_imp (p := Trigger.forTruncate) (l := triggers) ?_
    rw [split]
    simp only [List.mem_append, List.mem_cons] at member ⊢
    tauto
  · rw [whole, length_queueTriggers_append, length_queueTriggers_cons queues] at single
    refine List.length_eq_zero_iff.mp ?_
    rw [length_queueTriggers_append]
    omega

/-- An addition leaves exactly one trigger exactly when the scan sees the one that is there. -/
theorem createTruncateTrigger_one_iff (tgoid : Oid) (triggers : List Trigger) :
    (queueTriggers funcoid (createTruncateTrigger funcoid tgoid triggers)).length = 1 ↔ Seen funcoid triggers := by
  unfold createTruncateTrigger
  rw [findsTrigger_eq triggers triggers.length (le_refl _)]
  split
  next found =>
    constructor
    · exact seen_of_findsTrigger found
    · rintro (absent | ⟨front, queue, rest, rfl, queues, -, single⟩)
      · obtain ⟨queue, inside, queues⟩ := List.any_eq_true.mp found
        have present : queue ∈ queueTriggers funcoid triggers :=
          List.mem_filter.mpr ⟨List.takeWhile_subset _ inside, queues⟩
        rw [absent] at present
        cases present
      · have none_else := congrArg List.length single
        rw [length_queueTriggers_append, List.length_nil] at none_else
        rw [length_queueTriggers_append, length_queueTriggers_cons queues]
        omega
  next missed =>
    have queues : (queueTruncateTrigger funcoid tgoid).tgfoid = funcoid := rfl
    rw [length_insertTrigger queues triggers]
    constructor
    · intro single
      exact .inl (List.length_eq_zero_iff.mp (by omega))
    · rintro (absent | ⟨front, queue, rest, rfl, queues, visible, -⟩)
      · rw [absent]
        rfl
      · refine absurd ?_ missed
        have seen : ∀ trigger ∈ front ++ [queue], trigger.forTruncate = true := visible
        have split : front ++ queue :: rest = (front ++ [queue]) ++ rest := by simp
        rw [split, List.takeWhile_append_of_pos seen]
        simp [queues]

/-! ## Runs of additions and removals -/

section Runs

variable (funcoid) (targetrel : TargetRel) (getReplicationSet : Oid → Except String PGLogicalRepSet)

/-- The call adds the table to a set. -/
def Adds (table : TableState) (event : Call) : Prop :=
  ∃ setid tgoid next, event = .addTable setid tgoid ∧
    replicationSetAddTable funcoid targetrel getReplicationSet table setid tgoid = .ok next

/-- After an addition the table has one trigger that queues truncations, and the others it had at the start. -/
def AddsOne (start table : TableState) (event : Call) : Prop :=
  Adds funcoid targetrel getReplicationSet table event →
    ∀ next, step funcoid targetrel getReplicationSet table event = some next →
      (queueTriggers funcoid next.triggers).length = 1 ∧
        otherTriggers funcoid next.triggers = otherTriggers funcoid start.triggers

def AddsSeen (table : TableState) (event : Call) : Prop :=
  Adds funcoid targetrel getReplicationSet table event → Seen funcoid table.triggers

variable {funcoid targetrel getReplicationSet}

theorem replicationSetAddTable_triggers {table next : TableState} {setid tgoid : Oid}
    (added : replicationSetAddTable funcoid targetrel getReplicationSet table setid tgoid = .ok next) :
    next.triggers = createTruncateTrigger funcoid tgoid table.triggers := by
  unfold replicationSetAddTable at added
  obtain ⟨repset, -, added⟩ := bind_eq_ok.mp added
  obtain ⟨-, added⟩ := guard_eq_ok.mp added
  obtain ⟨-, added⟩ := guard_eq_ok.mp added
  obtain ⟨-, added⟩ := guard_eq_ok.mp added
  cases added
  rfl

/-- What a call can do: nothing, drop a membership, or create a trigger with a new one. -/
theorem step_cases {table next : TableState} {event : Call}
    (taken : step funcoid targetrel getReplicationSet table event = some next) :
    next.triggers = table.triggers ∨
      ∃ tgoid, next.triggers = createTruncateTrigger funcoid tgoid table.triggers := by
  unfold step at taken
  split at taken
  next done =>
    cases taken
    cases event with
    | addTable setid tgoid => exact .inr ⟨tgoid, replicationSetAddTable_triggers done⟩
    | removeTable setid =>
      simp only [call, replicationSetRemoveTable] at done
      split at done
      · cases done
        exact .inl rfl
      · cases done
  next =>
    cases taken
    exact .inl rfl

theorem step_others {table next : TableState} {event : Call}
    (taken : step funcoid targetrel getReplicationSet table event = some next) :
    otherTriggers funcoid next.triggers = otherTriggers funcoid table.triggers := by
  obtain same | ⟨tgoid, created⟩ := step_cases taken
  · rw [same]
  · rw [created, createTruncateTrigger_others]

theorem addsOne_iff {start table : TableState}
    (others : otherTriggers funcoid table.triggers = otherTriggers funcoid start.triggers)
    (event : Call) : AddsOne funcoid targetrel getReplicationSet start table event ↔
      AddsSeen funcoid targetrel getReplicationSet table event := by
  constructor
  · rintro one ⟨setid, tgoid, next, rfl, added⟩
    have taken : step funcoid targetrel getReplicationSet table (.addTable setid tgoid) = some next := by
      simp only [step, call, added]
    obtain ⟨single, -⟩ := one ⟨setid, tgoid, next, rfl, added⟩ next taken
    rw [replicationSetAddTable_triggers added] at single
    exact (createTruncateTrigger_one_iff tgoid table.triggers).mp single
  · rintro seen ⟨setid, tgoid, next, rfl, added⟩ result taken
    have same : result = next := by
      simp only [step, call, added, Option.some.injEq] at taken
      exact taken.symm
    subst same
    refine ⟨?_, by rw [step_others taken, others]⟩
    rw [replicationSetAddTable_triggers added]
    exact (createTruncateTrigger_one_iff tgoid table.triggers).mpr (seen ⟨setid, tgoid, result, rfl, added⟩)

/-- In a run of additions and removals every addition leaves exactly one trigger that queues truncations
exactly when the table has none or a visible one before every addition. -/
theorem one_truncate_trigger_iff (start : TableState) (events : List Call) :
    Permitted (step funcoid targetrel getReplicationSet) (AddsOne funcoid targetrel getReplicationSet start) start events ↔
      Permitted (step funcoid targetrel getReplicationSet) (AddsSeen funcoid targetrel getReplicationSet) start events := by
  suffices general : ∀ table, otherTriggers funcoid table.triggers = otherTriggers funcoid start.triggers →
      (Permitted (step funcoid targetrel getReplicationSet)
          (AddsOne funcoid targetrel getReplicationSet start) table events ↔
        Permitted (step funcoid targetrel getReplicationSet)
          (AddsSeen funcoid targetrel getReplicationSet) table events) from
    general start rfl
  induction events with
  | nil => exact fun table others => Iff.rfl
  | cons event rest ih =>
    intro table others
    have tail : ∀ next, step funcoid targetrel getReplicationSet table event = some next →
        otherTriggers funcoid next.triggers = otherTriggers funcoid start.triggers :=
      fun next taken => (step_others taken).trans others
    constructor
    · rintro ⟨one, later⟩
      exact ⟨(addsOne_iff others event).mp one, fun next taken => (ih next (tail next taken)).mp (later next taken)⟩
    · rintro ⟨seen, later⟩
      exact ⟨(addsOne_iff others event).mpr seen, fun next taken => (ih next (tail next taken)).mpr (later next taken)⟩

end Runs

/-! ## A table with a foreign key -/

def invoiceTable : TargetRel where
  rel := ⟨16400, 2200, namestrcpy (.ofString "invoice"),
    ⟨[.int4 (namestrcpy (.ofString "id")) 1], by decide, by decide, by decide⟩, {9}⟩
  relkind := .relation
  relpersistence := .permanent
  rdReplidindex := 16405
  systemClass := false

/-- The trigger of a foreign key, for each inserted row. -/
def foreignKeyTrigger : Trigger :=
  ⟨16410, namestrcpy (.ofString "RI_ConstraintTrigger_c_16410"), 1644, 5, 'O', true⟩

def everySet (setid : Oid) : Except String PGLogicalRepSet := .ok ⟨setid, 9, .ofString "set", true, true, true, true⟩

/-- The second addition creates a second trigger. -/
theorem one_truncate_trigger_foreign_key :
    ¬ Permitted (step 16390 invoiceTable everySet) (AddsOne 16390 invoiceTable everySet ⟨[foreignKeyTrigger], []⟩)
      ⟨[foreignKeyTrigger], []⟩ [.addTable 1 16420, .addTable 2 16421] := by
  rintro ⟨-, later⟩
  have first : step 16390 invoiceTable everySet ⟨[foreignKeyTrigger], []⟩ (.addTable 1 16420) =
      some ⟨[foreignKeyTrigger, queueTruncateTrigger 16390 16420], [1]⟩ := by decide +kernel
  obtain ⟨one, -⟩ := later _ first
  have second : replicationSetAddTable 16390 invoiceTable everySet
      ⟨[foreignKeyTrigger, queueTruncateTrigger 16390 16420], [1]⟩ 2 16421 =
      .ok ⟨[foreignKeyTrigger, queueTruncateTrigger 16390 16420, queueTruncateTrigger 16390 16421], [1, 2]⟩ := by
    decide +kernel
  have taken : step 16390 invoiceTable everySet ⟨[foreignKeyTrigger, queueTruncateTrigger 16390 16420], [1]⟩
      (.addTable 2 16421) =
      some ⟨[foreignKeyTrigger, queueTruncateTrigger 16390 16420, queueTruncateTrigger 16390 16421], [1, 2]⟩ := by
    simp only [step, call, second]
  obtain ⟨single, -⟩ := one ⟨2, 16421, _, rfl, second⟩ _ taken
  revert single
  decide +kernel

end PGLogical.TruncateTrigger
