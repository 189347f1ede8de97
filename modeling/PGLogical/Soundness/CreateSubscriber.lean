import PGLogical.Machine.Fallible
import PGLogical.Model.CreateSubscriber
import PGLogical.Soundness.SyncAttempt

/-! # The subscriber goes on where recovery has stopped

The program holds the slot before it creates the restore point, and the new subscription's origin starts behind that
restore point. Until the status is READY every worker fails at the slot that is there already, and changes nothing;
from then on workers apply what is sent to them, one transaction after the other. The origin stays at the commit record
of the last one, so a worker that is started before the slot has moved past it applies it again. So the new server has
what was committed up to the place where recovery stopped and what was committed behind the program's restore point.
These are the same place unless another restore point of the name lies in between.
-/

namespace PGLogical.CreateSubscriber

open Machine Nodes SubscriptionSync
open Wire (CString)

variable {Change : Type}

/-! ## Positions in the log -/

section Positions

variable {records rest : List (LogRecord Change)} {r : LogRecord Change} {first last final : UInt64}

theorem committed_append (records rest : List (LogRecord Change)) (first last : UInt64) :
    committed (records ++ rest) first last = committed records first last ++ committed rest first last :=
  List.filterMap_append

theorem committed_cons (r : LogRecord Change) (rest : List (LogRecord Change)) (first last : UInt64) :
    committed (r :: rest) first last = committed [r] first last ++ committed rest first last :=
  committed_append [r] rest first last

theorem committed_eq_nil_iff : committed records first last = [] ↔
    ∀ r ∈ records, ∀ change, r.kind = .commit change → first ≤ r.start → last ≤ r.start := by
  refine List.filterMap_eq_nil_iff.trans (forall₂_congr fun r inside => ?_)
  cases r.kind with
  | restorePoint name => simp
  | commit change =>
    simp only [ite_eq_right_iff, reduceCtorEq, imp_false, not_and, RecordKind.commit.injEq, forall_eq']
    grind

theorem committed_eq_nil_of_le (behind : ∀ r ∈ records, last ≤ r.start) : committed records first last = [] :=
  committed_eq_nil_iff.mpr fun r inside _ _ _ => behind r inside

theorem committed_singleton_commit {start next : UInt64} {change : Change} (first last : UInt64) :
    committed [⟨start, next, .commit change⟩] first last = if first ≤ start ∧ start < last then [change] else [] := by
  simp only [committed, List.filterMap_cons, List.filterMap_nil]
  split_ifs <;> rfl

theorem streamed_append (records rest : List (LogRecord Change)) (first : UInt64) :
    streamed (records ++ rest) first = streamed records first ++ streamed rest first :=
  List.filterMap_append

theorem streamed_cons_append (r : LogRecord Change) (rest : List (LogRecord Change)) (first : UInt64) :
    streamed (r :: rest) first = streamed [r] first ++ streamed rest first :=
  streamed_append [r] rest first

theorem streamed_singleton_commit {start next : UInt64} {change : Change} (first : UInt64) :
    streamed [⟨start, next, .commit change⟩] first = if first ≤ start then [(start, change)] else [] := by
  simp only [streamed, List.filterMap_cons, List.filterMap_nil]
  split_ifs <;> rfl

theorem mem_streamed_iff {position : UInt64} {change : Change} : (position, change) ∈ streamed records first ↔
    ∃ next, ⟨position, next, .commit change⟩ ∈ records ∧ first ≤ position := by
  constructor
  · intro sent
    obtain ⟨⟨start, next, kind⟩, inside, found⟩ := List.mem_filterMap.mp sent
    cases kind with
    | restorePoint name => cases found
    | commit decoded =>
      obtain ⟨ahead, same⟩ := Option.ite_none_right_eq_some.mp found
      cases same
      exact ⟨next, inside, ahead⟩
  · rintro ⟨next, inside, ahead⟩
    exact List.mem_filterMap.mpr ⟨_, inside, if_pos ahead⟩

/-- Where nothing is committed in between, the same is sent. -/
theorem streamed_eq_of_committed (begins : first ≤ last) (none : committed records first last = []) :
    streamed records first = streamed records last := by
  refine List.filterMap_congr fun r inside => ?_
  cases kind : r.kind with
  | restorePoint name => rfl
  | commit change =>
    have ahead := committed_eq_nil_iff.mp none r inside change kind
    by_cases here : first ≤ r.start
    · exact (if_pos here).trans (if_pos (ahead here)).symm
    · exact (if_neg here).trans (if_neg (by grind)).symm

/-- Positions of the records in the order of the list. -/
structure Linear (records : List (LogRecord Change)) : Prop where
  forward : ∀ r ∈ records, r.start < r.next
  ordered : records.Pairwise fun r later => r.next ≤ later.start

theorem Log.linear (log : Log Change) : Linear log.records := ⟨log.forward, log.ordered⟩

theorem Linear.tail (linear : Linear (r :: rest)) : Linear rest :=
  ⟨fun later inside => linear.forward later (List.mem_cons_of_mem _ inside), (List.pairwise_cons.mp linear.ordered).2⟩

theorem Linear.behind (linear : Linear (r :: rest)) {later : LogRecord Change} (inside : later ∈ rest) :
    r.start < later.start := by
  have next := linear.forward r (List.mem_cons_self ..)
  have order := (List.pairwise_cons.mp linear.ordered).1 later inside
  grind

/-- Two records do not overlap. -/
theorem Linear.apart (linear : Linear records) {r other : LogRecord Change} (inside : r ∈ records)
    (otherInside : other ∈ records) : r = other ∨ r.next ≤ other.start ∨ other.next ≤ r.start := by
  induction records with
  | nil => cases inside
  | cons head rest ih =>
    have order := (List.pairwise_cons.mp linear.ordered).1
    rcases List.mem_cons.mp inside with rfl | later <;> rcases List.mem_cons.mp otherInside with rfl | otherLater
    · exact .inl rfl
    · exact .inr (.inl (order other otherLater))
    · exact .inr (.inr (order r later))
    · exact ih linear.tail later otherLater

theorem committed_split (linear : Linear records) (begins : first ≤ last) (ends : last ≤ final) :
    committed records first final = committed records first last ++ committed records last final := by
  induction records with
  | nil => rfl
  | cons r rest ih =>
    rw [committed_cons, committed_cons r rest first last, committed_cons r rest last final, ih linear.tail]
    obtain ⟨start, next, kind⟩ := r
    cases kind with
    | restorePoint name => rfl
    | commit change =>
      simp only [committed_singleton_commit]
      by_cases before : start < last
      · rw [if_neg (show ¬(last ≤ start ∧ start < final) by grind)]
        by_cases inside : first ≤ start
        · rw [if_pos ⟨inside, by grind⟩, if_pos ⟨inside, before⟩]
          rfl
        · rw [if_neg (by grind), if_neg (by grind)]
          rfl
      · have none : committed rest first last = [] := committed_eq_nil_of_le fun later inside => by
          have := linear.behind inside
          grind
        rw [none, if_neg (show ¬(first ≤ start ∧ start < last) by grind)]
        by_cases inside : start < final
        · rw [if_pos ⟨by grind, inside⟩, if_pos ⟨by grind, inside⟩]
          rfl
        · rw [if_neg (by grind), if_neg (by grind)]
          rfl

/-- A transaction is sent from its commit record on, and is the only one up to the end of the record. -/
theorem streamed_at_commit {start next : UInt64} {change : Change} (linear : Linear records)
    (inside : ⟨start, next, .commit change⟩ ∈ records) :
    committed records start next = [change] ∧
      streamed records start = (start, change) :: streamed records next := by
  induction records with
  | nil => cases inside
  | cons r rest ih =>
    rw [committed_cons, streamed_cons_append, streamed_cons_append r rest next]
    rcases List.mem_cons.mp inside with rfl | later
    · have forward : start < next := linear.forward _ (List.mem_cons_self ..)
      have order : ∀ r ∈ rest, next ≤ r.start := (List.pairwise_cons.mp linear.ordered).1
      have none : committed rest start next = [] := committed_eq_nil_of_le order
      rw [none, streamed_eq_of_committed (UInt64.le_of_lt forward) none, committed_singleton_commit,
        streamed_singleton_commit, streamed_singleton_commit, if_pos ⟨UInt64.le_refl _, forward⟩,
        if_pos (UInt64.le_refl _), if_neg (by grind)]
      exact ⟨rfl, rfl⟩
    · have before : r.start < start := linear.behind later
      have forward : start < next := linear.forward _ (List.mem_cons_of_mem _ later)
      obtain ⟨only, sent⟩ := ih linear.tail later
      have none (first last : UInt64) (ahead : start ≤ first) : committed [r] first last = [] := by
        refine committed_eq_nil_iff.mpr fun other single _ _ reached => ?_
        rw [List.mem_singleton.mp single] at reached
        grind
      have unsent (first : UInt64) (ahead : start ≤ first) : streamed [r] first = [] := by
        refine List.eq_nil_iff_forall_not_mem.mpr fun sent found => ?_
        obtain ⟨_, single, reached⟩ := mem_streamed_iff.mp found
        have same := congrArg LogRecord.start (List.mem_singleton.mp single)
        grind
      rw [none _ _ (UInt64.le_refl _), unsent _ (UInt64.le_refl _), unsent _ (UInt64.le_of_lt forward), only, sent]
      exact ⟨rfl, rfl⟩

/-- Nothing is committed in front of what is sent first. -/
theorem committed_before_streamed {position : UInt64} {change : Change} {changes : List (UInt64 × Change)}
    (linear : Linear records) (sent : streamed records last = (position, change) :: changes) :
    committed records last position = [] := by
  induction records with
  | nil => rfl
  | cons r rest ih =>
    rw [streamed_cons_append] at sent
    have decided : (∃ decoded, r.kind = .commit decoded ∧ last ≤ r.start) ∨ streamed [r] last = [] := by
      obtain ⟨start, next, kind⟩ := r
      cases kind with
      | restorePoint name => exact .inr rfl
      | commit decoded =>
        rw [streamed_singleton_commit]
        by_cases here : last ≤ start
        · exact .inl ⟨decoded, rfl, here⟩
        · exact .inr (if_neg here)
    rcases decided with ⟨decoded, kind, here⟩ | none
    · -- the first record is what is sent first
      obtain ⟨start, next, _⟩ := r
      subst kind
      rw [streamed_singleton_commit, if_pos here] at sent
      cases sent
      refine committed_eq_nil_of_le fun other inside => ?_
      rcases List.mem_cons.mp inside with rfl | later
      · exact UInt64.le_refl _
      · exact UInt64.le_of_lt (linear.behind later)
    · rw [none, List.nil_append] at sent
      refine committed_eq_nil_iff.mpr fun other inside decoded kind reached => ?_
      rcases List.mem_cons.mp inside with rfl | later
      · have found : (other.start, decoded) ∈ streamed [other] last :=
          mem_streamed_iff.mpr ⟨other.next, List.mem_singleton.mpr (by rw [← kind]), reached⟩
        rw [none] at found
        cases found
      · exact committed_eq_nil_iff.mp (ih linear.tail sent) other later decoded kind reached

/-- The first transaction that is sent from a position is the next one behind it. -/
theorem streamed_cons {position : UInt64} {change : Change} {changes : List (UInt64 × Change)}
    (linear : Linear records) (sent : streamed records last = (position, change) :: changes) (begins : first ≤ last) :
    ∃ next, ⟨position, next, .commit change⟩ ∈ records ∧ last ≤ position ∧
      committed records first next = committed records first last ++ [change] ∧ streamed records next = changes := by
  have firstSent : (position, change) ∈ streamed records last := by
    rw [sent]
    exact List.mem_cons_self ..
  obtain ⟨next, inside, ahead⟩ := mem_streamed_iff.mp firstSent
  have none := committed_before_streamed linear sent
  have forward : position < next := linear.forward _ inside
  obtain ⟨only, streams⟩ := streamed_at_commit linear inside
  refine ⟨next, inside, ahead, ?_, ?_⟩
  · rw [committed_split linear begins (UInt64.le_trans ahead (UInt64.le_of_lt forward)),
      committed_split linear ahead (UInt64.le_of_lt forward), none, only, List.nil_append]
  · rw [streamed_eq_of_committed ahead none, streams] at sent
    exact (List.cons.inj sent).2

/-- `sent` is what was to be sent, where some transactions have come again right behind themselves. -/
inductive Redelivered : List Change → List Change → Prop where
  | nil : Redelivered [] []
  | next {changes sent : List Change} (change : Change) (before : Redelivered changes sent) :
      Redelivered (changes ++ [change]) (sent ++ [change])
  | again {changes sent : List Change} {change : Change} (before : Redelivered (changes ++ [change]) sent) :
      Redelivered (changes ++ [change]) (sent ++ [change])

end Positions

/-! ## A worker -/

/-- What a database has of the provider's transactions: those in front of `stop`, where recovery has ended, and those from
`lsn`, the position of the program's restore point, up to `reached`. The origin is at the commit record of the last one
that has been applied, and the slot has not passed any other. -/
structure Progress (log : Log Change) (stop lsn slot : UInt64) (once : Prop) (database : Database Change)
    (origin reached : UInt64) : Prop where
  atOrigin : database.origin = some origin
  begins : lsn ≤ origin
  ends : reached ≤ log.insert
  last : reached = origin ∧ database.applied = committed log.records 0 stop ∨
    ∃ change, ⟨origin, reached, .commit change⟩ ∈ log.records
  unsent : committed log.records reached slot = []
  applied : ∃ sent, database.applied = committed log.records 0 stop ++ sent ∧
    Redelivered (committed log.records lsn reached) sent ∧ (once → sent = committed log.records lsn reached)

structure HandedOver (log : Log Change) (stop lsn slot : UInt64) (once : Prop) (database : Database Change) : Prop where
  status : database.status = .init ∨ database.status = .ready
  progress : ∃ origin reached, Progress log stop lsn slot once database origin reached

/-- What is sent to a worker: what has not been reached yet, behind the last transaction once more unless every one
has come once. -/
def Sends (log : Log Change) (once : Prop) (origin reached : UInt64) (changes : List (UInt64 × Change)) : Prop :=
  changes <+: streamed log.records reached ∨ ¬ once ∧ ∃ change,
    ⟨origin, reached, .commit change⟩ ∈ log.records ∧ changes <+: (origin, change) :: streamed log.records reached

section Progress

variable {log : Log Change} {stop lsn slot origin reached : UInt64} {once : Prop} {database : Database Change}

theorem Progress.le (progress : Progress log stop lsn slot once database origin reached) : origin ≤ reached := by
  rcases progress.last with ⟨rfl, -⟩ | ⟨change, inside⟩
  · exact UInt64.le_refl _
  · exact UInt64.le_of_lt (log.forward _ inside)

/-- Where the provider starts to decode for a database: at the transaction that the origin stands for, or behind it. -/
theorem Progress.sends (progress : Progress log stop lsn slot once database origin reached)
    (fresh : once → database.applied = committed log.records 0 stop ∨ origin < slot) {changes : List (UInt64 × Change)}
    (sent : changes <+: streamed log.records (if origin < slot then slot else origin)) :
    Sends log once origin reached changes := by
  have linear := log.linear
  split_ifs at sent with ahead
  · refine .inl ?_
    rcases UInt64.le_total slot reached with before | behind
    · have none : committed log.records slot reached = [] := by
        rcases progress.last with ⟨rfl, -⟩ | ⟨change, inside⟩
        · grind
        · refine committed_eq_nil_iff.mpr fun r other _ _ later => ?_
          rcases linear.apart inside other with rfl | order | order
          · grind
          · exact order
          · have := linear.forward r other
            grind
      rwa [streamed_eq_of_committed before none] at sent
    · rwa [← streamed_eq_of_committed behind progress.unsent] at sent
  · rcases progress.last with ⟨rfl, -⟩ | ⟨change, inside⟩
    · exact .inl sent
    obtain ⟨only, streams⟩ := streamed_at_commit linear inside
    refine .inr ⟨fun holds => ?_, change, inside, streams ▸ sent⟩
    rcases fresh holds with nothing | later
    · obtain ⟨delivered, applied, -, all⟩ := progress.applied
      rw [nothing, all holds, List.self_eq_append_right, committed_split linear progress.begins progress.le, only] at applied
      simp at applied
    · exact ahead later

/-- A transaction that is sent is applied, and the origin moved to its commit record. -/
theorem Progress.apply (progress : Progress log stop lsn slot once database origin reached) {position : UInt64}
    {change : Change} {rest : List (UInt64 × Change)} (sends : Sends log once origin reached ((position, change) :: rest)) :
    origin ≤ position ∧ ∃ next, Sends log once position next rest ∧ Progress log stop lsn slot once
      { database with applied := database.applied ++ [change], origin := some position } position next := by
  have linear := log.linear
  obtain ⟨delivered, applied, redelivered, all⟩ := progress.applied
  rcases sends with ⟨tail, streams⟩ | ⟨notOnce, again, inside, streams⟩
  · obtain ⟨next, inside, ahead, extended, others⟩ :=
      streamed_cons linear streams.symm (UInt64.le_trans progress.begins progress.le)
    have forward : position < next := linear.forward _ inside
    have later := UInt64.le_trans progress.le ahead
    refine ⟨later, next, .inl ⟨tail, others.symm⟩, rfl, UInt64.le_trans progress.begins later, log.written _ inside,
      .inr ⟨change, inside⟩, ?_, delivered ++ [change], ?_, extended ▸ redelivered.next change, fun holds => ?_⟩
    · refine committed_eq_nil_iff.mpr fun r other decoded kind behind => ?_
      exact committed_eq_nil_iff.mp progress.unsent r other decoded kind (by grind)
    · rw [← List.append_assoc, ← applied]
    · rw [extended, all holds]
  · -- the last transaction comes again
    obtain ⟨same, others⟩ := List.cons_prefix_cons.mp streams
    cases same
    obtain ⟨only, -⟩ := streamed_at_commit linear inside
    have extended : committed log.records lsn reached = committed log.records lsn origin ++ [change] := by
      rw [committed_split linear progress.begins progress.le, only]
    refine ⟨UInt64.le_refl _, reached, .inl others, rfl, progress.begins, progress.ends, .inr ⟨change, inside⟩,
      progress.unsent, delivered ++ [change], ?_, ?_, fun holds => absurd holds notOnce⟩
    · rw [← List.append_assoc, ← applied]
    · rw [extended] at redelivered ⊢
      exact redelivered.again

end Progress

/-- Whatever a restart finds has been handed over, has an origin that is not in front of `least`, and is READY if `ready`
says so. -/
structure Held (log : Log Change) (stop lsn slot least : UInt64) (ready once : Prop) (world : World Change) : Prop where
  atSlot : world.slot = some slot
  inLog : slot ≤ log.insert
  written : ∀ database ∈ world.written, HandedOver log stop lsn slot once database ∧
    least ≤ database.origin.getD 0 ∧ (ready → database.status = .ready)

section Worker

variable {log : Log Change} {stop lsn slot least : UInt64} {ready once : Prop} {world after : World Change}

theorem Held.passes (held : Held log stop lsn slot least ready once world) (passes : SubscriptionSync.Passes world after) :
    Held log stop lsn slot least ready once after :=
  ⟨passes.slot.trans held.atSlot, held.inLog, fun database inside => held.written database (passes.written inside)⟩

theorem Held.crashes (held : Held log stop lsn slot least ready once world) (crashes : Crashes world after) :
    Held log stop lsn slot least ready once after :=
  ⟨crashes.slot.trans held.atSlot, held.inLog, fun database inside => held.written database (crashes.written inside)⟩

/-- Held, with a database that the worker has read. -/
def Reads (log : Log Change) (stop lsn slot least : UInt64) (ready once : Prop) (database : Database Change)
    (world : World Change) : Prop :=
  Held log stop lsn slot least ready once world ∧ world.database = database

theorem reads_step (database : Database Change) :
    Contract (Reads log stop lsn slot least ready once database) (SubscriptionSync.step : SyncM Change Unit)
      (fun _ => Reads log stop lsn slot least ready once database) (Held log stop lsn slot least ready once) :=
  step_contract (fun reads passes => ⟨reads.1.passes passes, passes.database.trans reads.2⟩) And.left Held.crashes

/-- The worker that finds INIT fails at the slot. -/
theorem reads_initializeSubscriber {synchronousCommit : Bool} {kind : SyncKind} {start : Start Change}
    (database : Database Change) :
    Contract (Reads log stop lsn slot least ready once database) (initializeSubscriber synchronousCommit kind start)
      (fun _ _ => False) (Held log stop lsn slot least ready once) := by
  have slotFails : Contract (Reads log stop lsn slot least ready once database) (ensureReplicationSlotSnapshot start)
      (fun _ _ => False) (Held log stop lsn slot least ready once) := by
    refine .bind (reads_step database) fun _ => .get_bind fun world reads => ?_
    refine .guard (fun _ same => same ▸ reads.1) fun absent => ?_
    simp [reads.1.atSlot] at absent
  refine .bind (reads_step database) fun _ => .bind (reads_step database) fun _ => .bind (reads_step database) fun _ => ?_
  exact .bind slotFails fun _ _ impossible => impossible.elim

theorem reads_pglogicalSyncSubscription {synchronousCommit : Bool} {kind : SyncKind} {name : String}
    {start : Start Change} (database : Database Change) :
    Contract (Reads log stop lsn slot least ready once database)
      (pglogicalSyncSubscription synchronousCommit kind name start)
      (fun _ world => Reads log stop lsn slot least ready once database world ∧ database.status = .ready)
      (Held log stop lsn slot least ready once) := by
  refine .bind (reads_step database) fun _ => .get_bind fun world reads => ?_
  have status := (reads.1.written world.database (List.mem_cons_self ..)).1.status
  rw [reads.2] at status ⊢
  split
  · next isReady => exact .pure fun _ same => ⟨same ▸ reads, isReady⟩
  · refine .bind (R := fun _ _ => False) ?_ fun _ _ impossible => impossible.elim
    exact (reads_initializeSubscriber database).weaken (fun _ same => same ▸ reads) (fun _ _ => id) fun _ => id
  · next isCatchup => simp [isCatchup] at status
  · next notReady notInit _ => exact (status.elim notInit notReady).elim

theorem reads_startReplication (database : Database Change) :
    Contract (Reads log stop lsn slot least ready once database) (startReplication : SyncM Change Unit)
      (fun _ => Reads log stop lsn slot least ready once database) (Held log stop lsn slot least ready once) := by
  refine .bind (reads_step database) fun _ => .get_bind fun world reads => ?_
  refine .guard (fun _ same => same ▸ reads.1) fun _ => ?_
  refine .bind ((reads_step database).weaken (fun _ same => same ▸ reads) (fun _ _ => id) fun _ => id) fun _ => ?_
  refine .get_bind fun world reads => .ite (fun _ => .throw fun _ same => same ▸ reads.1) fun _ => ?_
  exact .pure fun _ same => same ▸ reads

/-- The changes that are left are sent to the database as it is now. -/
structure Applies (log : Log Change) (stop lsn slot least : UInt64) (ready once : Prop)
    (changes : List (UInt64 × Change)) (world : World Change) : Prop where
  held : Held log stop lsn slot least ready once world
  status : world.database.status = .ready
  sends : ∃ origin reached, Progress log stop lsn slot once world.database origin reached ∧
    Sends log once origin reached changes

/-- The transactions that are sent are applied in their order, as far as the worker comes. -/
theorem held_applyWork {synchronousCommit : Bool} {changes : List (UInt64 × Change)} :
    Contract (Applies log stop lsn slot least ready once changes) (applyWork synchronousCommit changes)
      (fun _ => Held log stop lsn slot least ready once) (Held log stop lsn slot least ready once) := by
  induction changes with
  | nil => exact .pure fun _ before => before.held
  | cons sent rest ih =>
    obtain ⟨position, change⟩ := sent
    have began : Contract (Applies log stop lsn slot least ready once ((position, change) :: rest))
        (SubscriptionSync.step : SyncM Change Unit)
        (fun _ => Applies log stop lsn slot least ready once ((position, change) :: rest))
        (Held log stop lsn slot least ready once) :=
      step_contract (fun before passes => ⟨before.held.passes passes, passes.database ▸ before.status,
        passes.database ▸ before.sends⟩) Applies.held Held.crashes
    refine .bind began fun _ => .get_keep fun now => .ite (fun _ => .pure fun _ before => before.held) fun _ => ?_
    refine .bind (.modify fun world before => ?_) fun _ => ih
    obtain ⟨held, status, origin, reached, progress, sends⟩ := before
    obtain ⟨later, next, others, applied⟩ := progress.apply sends
    have bound : least ≤ origin := by
      have := (held.written world.database (List.mem_cons_self ..)).2.1
      rwa [progress.atOrigin] at this
    refine ⟨⟨held.atSlot, held.inLog, fun database inside => ?_⟩, status, position, next, applied, others⟩
    rcases mem_written_commit inside with rfl | older
    · exact ⟨⟨.inr status, position, next, applied⟩, UInt64.le_trans bound later, fun _ => status⟩
    · exact held.written database older

theorem held_pglogicalApplyMain {synchronousCommit : Bool} {kind : SyncKind} {name : String} {start : Start Change}
    {database : Database Change} (sends : database.status = .ready → ∃ origin reached,
      Progress log stop lsn slot once database origin reached ∧ Sends log once origin reached start.changes) :
    Contract (Reads log stop lsn slot least ready once database) (pglogicalApplyMain synchronousCommit kind name start)
      (fun _ => Held log stop lsn slot least ready once) (Held log stop lsn slot least ready once) := by
  refine .bind (reads_pglogicalSyncSubscription database) fun _ => ?_
  have started : Contract (fun world => Reads log stop lsn slot least ready once database world ∧ database.status = .ready)
      (startReplication : SyncM Change Unit)
      (fun _ world => Reads log stop lsn slot least ready once database world ∧ database.status = .ready)
      (Held log stop lsn slot least ready once) := fun world before =>
    (reads_startReplication database).weaken (fun _ => id) (fun _ _ after => ⟨after, before.2⟩) (fun _ => id) world
      before.1
  refine .bind started fun _ => held_applyWork.weaken (fun world before => ?_) (fun _ _ => id) fun _ => id
  obtain ⟨⟨held, same⟩, isReady⟩ := before
  exact ⟨held, same ▸ isReady, same ▸ sends isReady⟩

theorem held_runWorker (options : Options) {start : Start Change} (held : Held log stop lsn slot least ready once world)
    (sends : world.database.status = .ready → ∃ origin reached,
      Progress log stop lsn slot once world.database origin reached ∧ Sends log once origin reached start.changes) :
    Held log stop lsn slot least ready once (runWorker options world start) := by
  have main : Contract (Reads log stop lsn slot least ready once world.database)
      (pglogicalApplyMain options.synchronousCommit (syncKind false false) options.subscriberName.str.toString start)
      (fun _ => Held log stop lsn slot least ready once) (Held log stop lsn slot least ready once) :=
    held_pglogicalApplyMain sends
  have ended := main (world.launch start) ⟨⟨held.atSlot, held.inLog, held.written⟩, rfl⟩
  unfold runWorker startWorker
  cases answer : pglogicalApplyMain options.synchronousCommit (syncKind false false)
      options.subscriberName.str.toString start (world.launch start) with
  | ok done last =>
    rw [answer] at ended
    exact ended
  | error reason last =>
    rw [answer] at ended
    cases reason with
    | crash => exact ended
    | error message => exact ⟨ended.atSlot, ended.inLog, ended.written⟩

/-- With everything on disk, a restart finds what the worker has started with. -/
theorem Held.flushed (held : Held log stop lsn slot least ready once world) (onDisk : world.unflushed = [])
    {origin reached : UInt64} (progress : Progress log stop lsn slot once world.database origin reached) :
    Held log stop lsn slot origin ready once world := by
  refine ⟨held.atSlot, held.inLog, fun database inside => ?_⟩
  obtain ⟨handed, -, isReady⟩ := held.written database inside
  rw [World.written, onDisk, List.mem_singleton] at inside
  rw [inside, progress.atOrigin]
  exact ⟨inside ▸ handed, UInt64.le_refl _, inside ▸ isReady⟩

/-- The provider's slot is moved to a position in front of which nothing is missing on disk. -/
theorem Held.report {provider : Provider Change} {start position : UInt64}
    (begins : Progress provider.log stop lsn slot once world.database least start)
    (held : Held provider.log stop lsn slot least ready once after) (slotBefore : world.slot = some slot)
    (reports : mayReport provider world after position = true) :
    Held provider.log stop lsn position 0 ready once { after with slot := some position } := by
  simp only [mayReport, Bool.and_eq_true, decide_eq_true_eq, List.all_eq_true] at reports
  obtain ⟨⟨isReady, inLog⟩, onDisk⟩ := reports
  refine ⟨rfl, inLog, fun database inside => ?_⟩
  obtain ⟨⟨status, origin, reached, progress⟩, bound, ready⟩ := held.written database inside
  refine ⟨⟨status, origin, reached, progress.atOrigin, progress.begins, progress.ends, progress.last, ?_,
    progress.applied⟩, UInt64.zero_le, ready⟩
  refine committed_eq_nil_iff.mpr fun r other change kind behind => ?_
  have le := progress.le
  have past := committed_eq_nil_iff.mp progress.unsent r other change kind behind
  rw [progress.atOrigin, Option.getD_some] at bound
  have sent : (r.start, change) ∈ streamed provider.log.records (startPosition provider world) := by
    refine mem_streamed_iff.mpr ⟨r.next, by rw [← kind]; exact other, ?_⟩
    simp only [startPosition, isReady, begins.atOrigin, slotBefore, Option.getD_some, reduceCtorEq, if_false]
    grind
  rcases onDisk database inside _ sent with front | ⟨longer, reachedIt⟩
  · exact front
  -- the origin is at a transaction that has been applied, so the next one is not in front of it
  rw [progress.atOrigin, Option.getD_some] at reachedIt
  rcases progress.last with ⟨rfl, nothing⟩ | ⟨last, applied⟩
  · obtain ⟨delivered, applied, -⟩ := begins.applied
    rw [nothing, applied, List.length_append] at longer
    omega
  · have forward := provider.log.forward _ applied
    grind

end Worker

/-! ## The copy -/

/-- Recovery starts in front of the program's restore point, and stops at the first restore point of the name. -/
structure Copied (s : State Change) (name : NameData) (dir : DataDir) (lsn : UInt64) : Prop where
  dataDir : s.dataDir = .notEmpty (some dir)
  own : ∃ own ∈ s.provider.log.records, own.kind = .restorePoint name ∧ dir.redo ≤ own.start ∧ own.next = lsn

/-- The slot decodes what is behind a position. -/
def SlotBefore (s : State Change) (name : NameData) (lsn : UInt64) : Prop :=
  ∃ slot, s.provider.slots name = some slot ∧ slot ≤ lsn

def StopsAt (s : State Change) (name : NameData) (dir : DataDir) (stop : UInt64) : Prop :=
  ∃ target, recoveryTarget s.provider.log.records dir.redo name = some target ∧ target.next = stop

/-- More has been written to the provider's log. -/
structure Grows (s next : State Change) : Prop where
  info : getRemoteInfo next.provider = getRemoteInfo s.provider
  dataDir : next.dataDir = s.dataDir
  slots : next.provider.slots = s.provider.slots
  records : ∃ more, next.provider.log.records = s.provider.log.records ++ more ∧
    ∀ r ∈ more, s.provider.log.insert ≤ r.start
  insert : s.provider.log.insert ≤ next.provider.log.insert

theorem Grows.refl_of_provider {s next : State Change} (provider : next.provider = s.provider)
    (dataDir : next.dataDir = s.dataDir) : Grows s next where
  info := by rw [provider]
  dataDir := dataDir
  slots := by rw [provider]
  records := ⟨[], by rw [provider, List.append_nil], nofun⟩
  insert := by rw [provider]; exact UInt64.le_refl _

section Grows

variable {s next : State Change} {name : NameData} {dir : DataDir} {stop lsn slot : UInt64}

theorem write_eq_some {provider after : Provider Change} {next : UInt64} {kind : RecordKind Change}
    (written : provider.write next kind = some after) :
    ∃ longer : provider.log.insert < next, after = { provider with log := provider.log.append next kind longer } := by
  unfold Provider.write at written
  split at written
  · next longer => exact ⟨longer, (Option.some.inj written).symm⟩
  · cases written

theorem grows_write {provider : Provider Change} {position : UInt64} {kind : RecordKind Change}
    (written : s.provider.write position kind = some provider) (dataDir : next.dataDir = s.dataDir)
    (same : next.provider = provider) : Grows s next := by
  obtain ⟨longer, rfl⟩ := write_eq_some written
  refine ⟨by rw [same]; rfl, dataDir, by rw [same], ⟨_, by rw [same]; rfl, fun r inside => ?_⟩, ?_⟩
  · rw [List.mem_singleton.mp inside]
    exact UInt64.le_refl _
  · rw [same]
    exact UInt64.le_of_lt longer

theorem Grows.committed (grows : Grows s next) (first : UInt64) {last : UInt64} (bound : last ≤ s.provider.log.insert) :
    committed next.provider.log.records first last = committed s.provider.log.records first last := by
  obtain ⟨more, records, behind⟩ := grows.records
  rw [records, committed_append, committed_eq_nil_of_le fun r inside => UInt64.le_trans bound (behind r inside),
    List.append_nil]

theorem Grows.copied (grows : Grows s next) (copied : Copied s name dir lsn) : Copied next name dir lsn where
  dataDir := grows.dataDir.trans copied.dataDir
  own := by
    obtain ⟨own, inside, rest⟩ := copied.own
    obtain ⟨more, records, -⟩ := grows.records
    exact ⟨own, records ▸ List.mem_append_left _ inside, rest⟩

theorem Grows.slotBefore (grows : Grows s next) (slot : SlotBefore s name lsn) : SlotBefore next name lsn := by
  obtain ⟨slot, found, bound⟩ := slot
  exact ⟨slot, grows.slots ▸ found, bound⟩

theorem Grows.stopsAt (grows : Grows s next) (stops : StopsAt s name dir stop) : StopsAt next name dir stop := by
  obtain ⟨target, found, rfl⟩ := stops
  obtain ⟨more, records, -⟩ := grows.records
  refine ⟨target, ?_, rfl⟩
  rw [recoveryTarget] at found ⊢
  rw [records, List.find?_append, found, Option.some_or]

/-- Recovery does not come past the program's restore point. -/
theorem Copied.stop_le (copied : Copied s name dir lsn) (stops : StopsAt s name dir stop) : stop ≤ lsn := by
  obtain ⟨own, inside, kind, redo, rfl⟩ := copied.own
  obtain ⟨target, found, rfl⟩ := stops
  obtain ⟨-, before, behind, split, first⟩ := List.find?_eq_some_iff_append.mp found
  have linear := s.provider.log.linear
  rw [split] at inside linear
  rcases List.mem_append.mp inside with earlier | here
  · have other := first own earlier
    simp [kind, redo] at other
  · rcases List.mem_cons.mp here with rfl | later
    · exact UInt64.le_refl _
    · have order := (List.pairwise_cons.mp (List.pairwise_append.mp linear.ordered).2.1).1 own later
      have forward := linear.forward own inside
      exact UInt64.le_trans order (UInt64.le_of_lt forward)

theorem Copied.lsn_le (copied : Copied s name dir lsn) : lsn ≤ s.provider.log.insert := by
  obtain ⟨own, inside, -, -, rfl⟩ := copied.own
  exact s.provider.log.written own inside

theorem Grows.handedOver (grows : Grows s next) {once : Prop} {database : Database Change}
    (bound : stop ≤ s.provider.log.insert) (inLog : slot ≤ s.provider.log.insert)
    (handed : HandedOver s.provider.log stop lsn slot once database) :
    HandedOver next.provider.log stop lsn slot once database := by
  obtain ⟨status, origin, reached, progress⟩ := handed
  have recovered := grows.committed 0 bound
  obtain ⟨more, records, -⟩ := grows.records
  refine ⟨status, origin, reached, progress.atOrigin, progress.begins, UInt64.le_trans progress.ends grows.insert,
    ?_, ?_, ?_⟩
  · rw [recovered, records]
    exact progress.last.imp_right fun ⟨change, inside⟩ => ⟨change, List.mem_append_left _ inside⟩
  · rw [grows.committed reached inLog]
    exact progress.unsent
  · rw [recovered, grows.committed lsn progress.ends]
    exact progress.applied

theorem Grows.held (grows : Grows s next) {least : UInt64} {ready once : Prop} {world : World Change}
    (bound : stop ≤ s.provider.log.insert) (held : Held s.provider.log stop lsn slot least ready once world) :
    Held next.provider.log stop lsn slot least ready once world where
  atSlot := held.atSlot
  inLog := UInt64.le_trans held.inLog grows.insert
  written database inside := by
    obtain ⟨handed, rest⟩ := held.written database inside
    exact ⟨grows.handedOver bound held.inLog handed, rest⟩

end Grows

/-! ## The program -/

/-- The subscription does not exist yet. -/
def Stage.early : Stage Change → Bool
  | .settingReady | .done | .died => false
  | _ => true

def Stage.isDone : Stage Change → Prop
  | .done => True
  | _ => False

/-- The clone has what was committed up to `stop`, and the slot is not behind the restore point. -/
def Promoted (s : State Change) (name : NameData) (lsn : UInt64) (clone : Clone Change) : Prop :=
  ∃ dir stop, Copied s name dir lsn ∧ StopsAt s name dir stop ∧ SlotBefore s name lsn ∧
    clone.applied = committed s.provider.log.records 0 stop

/-- What the stages rest on. -/
def AtStage (options : Options) (remote : RemoteInfo) (s : State Change) : Stage Change → Prop
  | .creatingSlot r existing => r = remote ∧ (existing = true → ∃ dir, s.dataDir = .notEmpty (some dir))
  | .initializingDataDir r existing _ => r = remote ∧ (existing = true → ∃ dir, s.dataDir = .notEmpty (some dir)) ∧
      SlotBefore s (options.slotName remote) s.provider.log.insert
  | .creatingRestorePoint r => r = remote ∧ (∃ dir, s.dataDir = .notEmpty (some dir)) ∧
      SlotBefore s (options.slotName remote) s.provider.log.insert
  | .catchingUp r lsn => r = remote ∧ SlotBefore s (options.slotName remote) lsn ∧
      ∃ dir, Copied s (options.slotName remote) dir lsn
  | .removing r lsn clone | .creatingOrigin r lsn clone => r = remote ∧ Promoted s (options.slotName remote) lsn clone
  | .advancingOrigin r lsn clone => r = remote ∧ Promoted s (options.slotName remote) lsn clone ∧
      options.slotName remote ∈ clone.origins.map Prod.fst
  | .subscribing r clone => r = remote ∧ ∃ lsn, Promoted s (options.slotName remote) lsn clone ∧
      findOrigin clone (options.slotName remote) = some lsn
  | .checking | .settingReady | .done | .died => True

/-- The subscription has the slot of the program, and what has been handed over. -/
def Subscribed (s : State Change) (name : NameData) (once : Prop) (world : World Change) : Prop :=
  ∃ dir stop lsn slot, Copied s name dir lsn ∧ StopsAt s name dir stop ∧
    s.provider.slots name = some slot ∧ Held s.provider.log stop lsn slot 0 s.stage.isDone once world

structure Inv (options : Options) (remote : RemoteInfo) (once : Prop) (s : State Change) : Prop where
  info : getRemoteInfo s.provider = .ok remote
  past : ∀ dir, s.dataDir = .notEmpty (some dir) → dir.redo ≤ s.provider.log.insert
  early : s.stage.early = true → s.subscription = none
  stage : AtStage options remote s s.stage
  subscription : ∀ slotName world, s.subscription = some (slotName, world) →
    slotName = options.slotName remote ∧ Subscribed s (options.slotName remote) once world

def Event.reported : Event Change → Option UInt64
  | .worker _ _ _ _ reported => reported
  | _ => none

def Event.isWorker : Event Change → Bool
  | .worker .. => true
  | _ => false

/-- A worker reports nothing as flushed unless everything it has started with is on disk. -/
def OnDisk (s : State Change) (event : Event Change) : Prop :=
  event.reported.isSome → ∀ subscription ∈ s.subscription, subscription.2.unflushed = []

instance (s : State Change) (event : Event Change) : Decidable (OnDisk s event) :=
  inferInstanceAs (Decidable (event.reported.isSome → ∀ subscription ∈ s.subscription, subscription.2.unflushed = []))

/-- What recovery has brought. -/
def State.recovered (s : State Change) (name : NameData) : Option (List Change) :=
  match s.dataDir with
  | .notEmpty (some dir) => (recoveryTarget s.provider.log.records dir.redo name).map fun target =>
      committed s.provider.log.records 0 target.next
  | _ => none

/-- Nothing has been applied since, or the slot has moved past the last transaction. -/
def State.Acknowledged (s : State Change) (subscription : NameData × World Change) : Prop :=
  s.recovered subscription.1 = some subscription.2.database.applied ∨
    ∃ origin ∈ subscription.2.database.origin, ∃ slot ∈ subscription.2.slot, origin < slot

instance [DecidableEq Change] (s : State Change) (subscription : NameData × World Change) :
    Decidable (s.Acknowledged subscription) :=
  inferInstanceAs (Decidable (s.recovered subscription.1 = some subscription.2.database.applied ∨
    ∃ origin ∈ subscription.2.database.origin, ∃ slot ∈ subscription.2.slot, origin < slot))

/-- No worker is started too early to be sent only what is new. -/
def Acknowledged (s : State Change) (event : Event Change) : Prop :=
  event.isWorker → ∀ subscription ∈ s.subscription, s.Acknowledged subscription

instance [DecidableEq Change] (s : State Change) (event : Event Change) : Decidable (Acknowledged s event) :=
  inferInstanceAs (Decidable (event.isWorker → ∀ subscription ∈ s.subscription, s.Acknowledged subscription))

section Steps

variable {options : Options} {remote : RemoteInfo} {once : Prop} {s next : State Change} {name : NameData}

theorem Grows.promoted (grows : Grows s next) {lsn : UInt64} {clone : Clone Change}
    (promoted : Promoted s name lsn clone) : Promoted next name lsn clone := by
  obtain ⟨dir, stop, copied, stops, slot, applied⟩ := promoted
  refine ⟨dir, stop, grows.copied copied, grows.stopsAt stops, grows.slotBefore slot, ?_⟩
  rw [applied, grows.committed 0 (UInt64.le_trans (copied.stop_le stops) copied.lsn_le)]

theorem Grows.slotInLog (grows : Grows s next) (slot : SlotBefore s name s.provider.log.insert) :
    SlotBefore next name next.provider.log.insert := by
  obtain ⟨slot, found, bound⟩ := grows.slotBefore slot
  exact ⟨slot, found, UInt64.le_trans bound grows.insert⟩

theorem Grows.atStage (grows : Grows s next) {stage : Stage Change} (before : AtStage options remote s stage) :
    AtStage options remote next stage := by
  cases stage with
  | checking | settingReady | done | died => trivial
  | creatingSlot r existing => exact ⟨before.1, grows.dataDir ▸ before.2⟩
  | initializingDataDir r existing since =>
    exact ⟨before.1, grows.dataDir ▸ before.2.1, grows.slotInLog before.2.2⟩
  | creatingRestorePoint r => exact ⟨before.1, grows.dataDir ▸ before.2.1, grows.slotInLog before.2.2⟩
  | catchingUp r lsn => exact ⟨before.1, grows.slotBefore before.2.1, before.2.2.imp fun _ => grows.copied⟩
  | removing r lsn clone | creatingOrigin r lsn clone => exact ⟨before.1, grows.promoted before.2⟩
  | advancingOrigin r lsn clone => exact ⟨before.1, grows.promoted before.2.1, before.2.2⟩
  | subscribing r clone =>
    obtain ⟨same, lsn, promoted, found⟩ := before
    exact ⟨same, lsn, grows.promoted promoted, found⟩

theorem Grows.subscribed (grows : Grows s next) {world : World Change} (subscribed : Subscribed s name once world)
    (done : next.stage.isDone → s.stage.isDone) : Subscribed next name once world := by
  obtain ⟨dir, stop, lsn, slot, copied, stops, found, held⟩ := subscribed
  have inLog := UInt64.le_trans (copied.stop_le stops) copied.lsn_le
  have still := grows.held inLog held
  refine ⟨dir, stop, lsn, slot, grows.copied copied, grows.stopsAt stops, grows.slots ▸ found, still.atSlot, still.inLog,
    fun database inside => ?_⟩
  obtain ⟨handed, bound, isReady⟩ := still.written database inside
  exact ⟨handed, bound, fun isDone => isReady (done isDone)⟩

/-- A step that writes to the log at most, and may take the program to another stage. -/
theorem Inv.grows (inv : Inv options remote once s) (grows : Grows s next)
    (subscription : next.subscription = s.subscription)
    (early : next.stage.early = true → s.stage.early = true) (done : next.stage.isDone → s.stage.isDone)
    (stage : AtStage options remote next next.stage) : Inv options remote once next where
  info := grows.info.trans inv.info
  past dir here := UInt64.le_trans (inv.past dir (grows.dataDir ▸ here)) grows.insert
  early isEarly := subscription.trans (inv.early (early isEarly))
  stage := stage
  subscription slotName world found := by
    obtain ⟨named, subscribed⟩ := inv.subscription slotName world (subscription ▸ found)
    exact ⟨named, grows.subscribed subscribed done⟩

theorem inv_write (inv : Inv options remote once s) {provider : Provider Change} {position : UInt64}
    {kind : RecordKind Change} (written : s.provider.write position kind = some provider) :
    Inv options remote once { s with provider := provider } := by
  have grows : Grows s { s with provider := provider } := grows_write written rfl rfl
  exact inv.grows grows rfl id id (grows.atStage inv.stage)

/-- The program goes on to a stage without a change of the provider, or dies. -/
theorem inv_stage (inv : Inv options remote once s) (early : s.stage.early = true) {stage : Stage Change}
    (notDone : ¬ stage.isDone) (atStage : AtStage options remote { s with stage := stage } stage) :
    Inv options remote once { s with stage := stage } :=
  inv.grows (.refl_of_provider rfl rfl) rfl (fun _ => early) (fun done => absurd done notDone) atStage

theorem inv_died (inv : Inv options remote once s) : Inv options remote once { s with stage := .died } :=
  inv.grows (.refl_of_provider rfl rfl) rfl (fun isEarly => by cases isEarly) (fun done => done.elim) trivial

theorem inv_advance (inv : Inv options remote once s) (early : s.stage.early = true) {outcome : Except String (Stage Change)}
    (reached : ∀ stage, outcome = .ok stage → ¬ stage.isDone ∧ AtStage options remote { s with stage := stage } stage) :
    Inv options remote once (s.advance outcome) := by
  cases outcome with
  | error message => exact inv_died inv
  | ok stage => exact inv_stage inv early (reached stage rfl).1 (reached stage rfl).2

/-! ### The commands -/

theorem committed_self (records : List (LogRecord Change)) (position : UInt64) :
    committed records position position = [] := by
  refine List.filterMap_eq_nil_iff.mpr fun r _ => ?_
  cases r.kind with
  | restorePoint name => rfl
  | commit change => exact if_neg (by grind)

theorem startCloning_eq_ok {stage : Stage Change} (done : startCloning s = .ok stage) :
    ∃ remote existing, getRemoteInfo s.provider = .ok remote ∧ checkDataDir s.dataDir = .ok existing ∧
      stage = .creatingSlot remote existing := by
  obtain ⟨remote, info, done⟩ := bind_eq_ok.mp done
  obtain ⟨existing, checked, done⟩ := bind_eq_ok.mp done
  obtain ⟨-, -, done⟩ := bind_eq_ok.mp done
  cases done
  exact ⟨remote, existing, info, checked, rfl⟩

theorem dataDir_of_checkDataDir {dataDir : DirContents} (checked : checkDataDir dataDir = .ok true) :
    ∃ dir, dataDir = .notEmpty (some dir) := by
  match dataDir, checked with
  | .notEmpty (some dir), _ => exact ⟨dir, rfl⟩

theorem catchUp_eq_ok {records : List (LogRecord Change)} {dir : DataDir} {clone : Clone Change}
    (promoted : catchUp records dir (recoveryConf options name) = some (.ok clone)) :
    ∃ target, recoveryTarget records dir.redo name = some target ∧ clone.applied = committed records 0 target.next := by
  unfold catchUp at promoted
  split at promoted
  · cases promoted
  have target : (recoveryConf options name).recoveryTargetName = some name := by
    unfold recoveryConf
    split <;> rfl
  rw [target, Option.bind_some, Option.map_eq_some_iff] at promoted
  obtain ⟨target, found, promoted⟩ := promoted
  split at promoted
  · cases promoted
  · cases promoted
    exact ⟨target, found, rfl⟩

theorem createOrigin_eq_ok {clone after : Clone Change} (created : createOrigin clone name = .ok after) :
    name ∈ after.origins.map Prod.fst ∧ after.applied = clone.applied := by
  unfold createOrigin at created
  split at created
  · cases created
  · cases created
    exact ⟨by simp, rfl⟩

theorem findOrigin_advanceOrigin {clone : Clone Change} (created : name ∈ clone.origins.map Prod.fst) (lsn : UInt64) :
    findOrigin (advanceOrigin clone name lsn) name = some lsn := by
  obtain ⟨applied, origins⟩ := clone
  simp only [findOrigin, advanceOrigin]
  induction origins with
  | nil => cases created
  | cons origin rest ih =>
    by_cases same : origin.1 = name
    · simp [same]
    · have later : name ∈ rest.map Prod.fst := by simpa [Ne.symm same] using created
      simpa [same] using ih later

theorem inv_createSlot (inv : Inv options remote once s) {existing : Bool} (here : s.stage = .creatingSlot remote existing)
    {provider : Provider Change}
    (created : initializeReplicationSlot s.provider (options.slotName remote) options.dropSlotIfExists = .ok provider) :
    Inv options remote once { s with
      provider := provider, stage := .initializingDataDir remote existing provider.log.insert } := by
  have atStage := inv.stage
  rw [here] at atStage
  have unsubscribed := inv.early (by rw [here]; rfl)
  unfold initializeReplicationSlot at created
  split at created
  · cases created
  cases created
  exact {
    info := inv.info
    past := inv.past
    early := fun _ => unsubscribed
    stage := ⟨rfl, atStage.2, _, Function.update_self .., UInt64.le_refl _⟩
    subscription := fun slotName world found => by rw [unsubscribed] at found; cases found }

theorem inv_baseBackup (inv : Inv options remote once s) {redo consistent : UInt64}
    (stepped : baseBackupStep s redo consistent = some next) : Inv options remote once next := by
  have atStage := inv.stage
  unfold baseBackupStep at stepped
  split at stepped
  · next r since here =>
    rw [here] at atStage
    have unsubscribed := inv.early (by rw [here]; rfl)
    split_ifs at stepped with positions
    cases stepped
    exact {
      info := inv.info
      past := fun dir found => by
        cases found
        exact UInt64.le_trans positions.2.1 positions.2.2
      early := fun _ => unsubscribed
      stage := ⟨atStage.1, ⟨_, rfl⟩, atStage.2.2⟩
      subscription := fun slotName world found => by rw [unsubscribed] at found; cases found }
  · cases stepped

theorem inv_createRestorePoint (inv : Inv options remote once s) {position : UInt64}
    (stepped : createRestorePointStep options s position = some next) : Inv options remote once next := by
  have atStage := inv.stage
  unfold createRestorePointStep at stepped
  split at stepped
  · next r here =>
    rw [here] at atStage
    obtain ⟨rfl, ⟨dir, dataDir⟩, slot, found, bound⟩ := atStage
    obtain ⟨provider, written, rfl⟩ := Option.map_eq_some_iff.mp stepped
    have grown := inv_write inv written
    obtain ⟨longer, rfl⟩ := write_eq_some written
    refine inv_stage grown (by simp [here, Stage.early]) id ⟨rfl, ⟨slot, found, ?_⟩, dir, dataDir, ?_⟩
    · exact UInt64.le_trans bound (UInt64.le_of_lt longer)
    · exact ⟨⟨s.provider.log.insert, position, .restorePoint (options.slotName r)⟩,
        List.mem_append_right _ (List.mem_singleton_self _), rfl, inv.past dir dataDir, rfl⟩
  · cases stepped

/-- The subscription starts with the status INIT and the origin that the program has set. -/
theorem inv_subscribe (inv : Inv options remote once s) (sameSlot : options.subSlotName remote = options.slotName remote)
    {clone : Clone Change} (here : s.stage = .subscribing remote clone) :
    Inv options remote once { s with
      stage := .settingReady
      subscription := some (options.subSlotName remote,
        pglogicalSubscribe s.provider clone (options.subSlotName remote)) } := by
  have atStage := inv.stage
  rw [here] at atStage
  obtain ⟨-, lsn, ⟨dir, stop, copied, stops, ⟨slot, found, bound⟩, applied⟩, origin⟩ := atStage
  refine ⟨inv.info, inv.past, (fun isEarly => by cases isEarly), trivial, fun slotName world same => ?_⟩
  cases same
  refine ⟨sameSlot, dir, stop, lsn, slot, ⟨copied.dataDir, copied.own⟩, stops, found, ?_,
    UInt64.le_trans bound copied.lsn_le, ?_⟩
  · rw [sameSlot]
    exact found
  · intro database inside
    rw [List.mem_singleton.mp inside]
    refine ⟨⟨.inl rfl, lsn, lsn, ?_, UInt64.le_refl _, copied.lsn_le, .inl ⟨rfl, applied⟩, ?_, [], ?_, ?_, ?_⟩,
      UInt64.zero_le, False.elim⟩
    · rw [sameSlot]
      exact origin
    · exact committed_eq_nil_iff.mpr fun r _ _ _ ahead => UInt64.le_trans bound ahead
    · rw [List.append_nil]
      exact applied
    · rw [committed_self]
      exact .nil
    · exact fun _ => (committed_self _ _).symm

theorem inv_setReady (inv : Inv options remote once s) :
    Inv options remote once { s with
      stage := .done
      subscription := s.subscription.map (Prod.map id updateSyncStatus) } := by
  refine ⟨inv.info, inv.past, (fun isEarly => by cases isEarly), trivial, fun slotName world found => ?_⟩
  obtain ⟨⟨_, before⟩, here, same⟩ := Option.map_eq_some_iff.mp found
  cases same
  obtain ⟨named, dir, stop, lsn, slot, copied, stops, slotFound, held⟩ := inv.subscription _ before here
  refine ⟨named, dir, stop, lsn, slot, ⟨copied.dataDir, copied.own⟩, stops, slotFound, held.atSlot, held.inLog,
    fun database inside => ?_⟩
  rw [List.mem_singleton.mp inside]
  obtain ⟨⟨-, origin, reached, progress⟩, -⟩ := held.written before.database (List.mem_cons_self ..)
  refine ⟨⟨.inr rfl, origin, reached, ?_⟩, UInt64.zero_le, fun _ => rfl⟩
  exact ⟨progress.atOrigin, progress.begins, progress.ends, progress.last, progress.unsent, progress.applied⟩

theorem inv_tool (inv : Inv options remote once s) (sameSlot : options.subSlotName remote = options.slotName remote)
    (stepped : toolStep options s = some next) : Inv options remote once next := by
  have atStage := inv.stage
  have early := inv.early
  unfold toolStep at stepped
  cases here : s.stage with
  | checking =>
    rw [here] at stepped
    cases stepped
    refine inv_advance inv (by rw [here]; rfl) fun stage reached => ?_
    obtain ⟨r, existing, info, checked, rfl⟩ := startCloning_eq_ok reached
    refine ⟨id, Except.ok.inj (info.symm.trans inv.info), fun isThere => ?_⟩
    exact dataDir_of_checkDataDir (isThere ▸ checked)
  | creatingSlot r existing =>
    rw [here] at stepped atStage
    obtain ⟨rfl, -⟩ := atStage
    dsimp only at stepped
    split at stepped
    · next provider created =>
      cases stepped
      exact inv_createSlot inv here created
    · cases stepped
      exact inv_died inv
  | initializingDataDir r existing since =>
    rw [here] at stepped atStage
    cases existing with
    | false => cases stepped
    | true =>
      cases stepped
      exact inv_stage inv (by rw [here]; rfl) id ⟨atStage.1, atStage.2.1 rfl, atStage.2.2⟩
  | creatingRestorePoint r =>
    rw [here] at stepped
    cases stepped
  | catchingUp r lsn =>
    rw [here] at stepped atStage
    obtain ⟨rfl, slot, dir, copied⟩ := atStage
    dsimp only at stepped
    rw [copied.dataDir] at stepped
    obtain ⟨promoted, caught, rfl⟩ := Option.map_eq_some_iff.mp stepped
    refine inv_advance inv (by rw [here]; rfl) fun stage reached => ?_
    obtain ⟨clone, rfl, rfl⟩ := map_eq_ok.mp reached
    obtain ⟨target, found, applied⟩ := catchUp_eq_ok caught
    exact ⟨id, rfl, dir, target.next, ⟨copied.dataDir, copied.own⟩, ⟨target, found, rfl⟩, slot, applied⟩
  | removing r lsn clone =>
    rw [here] at stepped atStage
    cases stepped
    obtain ⟨rfl, dir, stop, copied, rest⟩ := atStage
    exact inv_stage inv (by rw [here]; rfl) id ⟨rfl, dir, stop, ⟨copied.dataDir, copied.own⟩, rest⟩
  | creatingOrigin r lsn clone =>
    rw [here] at stepped atStage
    cases stepped
    obtain ⟨rfl, dir, stop, copied, stops, slot, applied⟩ := atStage
    refine inv_advance inv (by rw [here]; rfl) fun stage reached => ?_
    obtain ⟨after, created, rfl⟩ := map_eq_ok.mp reached
    obtain ⟨named, same⟩ := createOrigin_eq_ok created
    exact ⟨id, rfl, ⟨dir, stop, ⟨copied.dataDir, copied.own⟩, stops, slot, same.trans applied⟩, named⟩
  | advancingOrigin r lsn clone =>
    rw [here] at stepped atStage
    cases stepped
    obtain ⟨rfl, ⟨dir, stop, copied, rest⟩, named⟩ := atStage
    exact inv_stage inv (by rw [here]; rfl) id
      ⟨rfl, lsn, ⟨dir, stop, ⟨copied.dataDir, copied.own⟩, rest⟩, findOrigin_advanceOrigin named lsn⟩
  | subscribing r clone =>
    rw [here] at stepped atStage
    cases stepped
    obtain ⟨rfl, -⟩ := atStage
    exact inv_subscribe inv sameSlot here
  | settingReady =>
    rw [here] at stepped
    cases stepped
    exact inv_setReady inv
  | done | died =>
    rw [here] at stepped
    cases stepped

/-- What the provider sends to the worker of a subscription. -/
theorem Held.sends {provider : Provider Change} {world : World Change} {stop lsn slot least : UInt64} {ready : Prop}
    (held : Held provider.log stop lsn slot least ready once world)
    (fresh : once → world.database.applied = committed provider.log.records 0 stop ∨
      ∃ origin ∈ world.database.origin, ∃ slot ∈ world.slot, origin < slot)
    (moments : List Moment) (snapshot : String) (tables : List RangeVar) (count : ℕ)
    (isReady : world.database.status = .ready) :
    ∃ origin reached, Progress provider.log stop lsn slot once world.database origin reached ∧
      Sends provider.log once origin reached (workerStart provider world moments snapshot tables count).changes := by
  obtain ⟨⟨-, origin, reached, progress⟩, -⟩ := held.written world.database (List.mem_cons_self ..)
  refine ⟨origin, reached, progress, progress.sends (fun holds => (fresh holds).imp_right ?_) ?_⟩
  · rintro ⟨_, atOrigin, _, atSlot, ahead⟩
    cases progress.atOrigin.symm.trans atOrigin
    cases held.atSlot.symm.trans atSlot
    exact ahead
  · simp only [workerStart, startPosition, isReady, progress.atOrigin, held.atSlot, Option.getD_some, reduceCtorEq,
      if_false]
    exact List.take_prefix ..

/-- Nothing has been applied behind what recovery has brought, or the slot has moved past the origin. -/
theorem State.Acknowledged.fresh {dir : DataDir} {stop lsn : UInt64} {world : World Change}
    (acknowledged : s.Acknowledged (name, world)) (copied : Copied s name dir lsn) (stops : StopsAt s name dir stop) :
    world.database.applied = committed s.provider.log.records 0 stop ∨
      ∃ origin ∈ world.database.origin, ∃ slot ∈ world.slot, origin < slot := by
  refine acknowledged.imp_left fun recovered => ?_
  obtain ⟨target, stopped, rfl⟩ := stops
  rw [State.recovered, copied.dataDir] at recovered
  dsimp only at recovered
  rw [stopped] at recovered
  exact (Option.some.inj recovered).symm

/-- A worker applies what it is sent, and by its feedback moves the slot. -/
theorem inv_worker (inv : Inv options remote once s) {moments : List Moment} {snapshot : String}
    {tables : List RangeVar} {count : ℕ} {reported : Option UInt64}
    (onDisk : OnDisk s (.worker moments snapshot tables count reported))
    (fresh : once → Acknowledged s (.worker moments snapshot tables count reported))
    (stepped : step options s (.worker moments snapshot tables count reported) = some next) :
    Inv options remote once next := by
  obtain ⟨⟨slotName, world⟩, here, stepped⟩ := Option.bind_eq_some_iff.mp stepped
  obtain ⟨after, fed, rfl⟩ := Option.map_eq_some_iff.mp stepped
  obtain ⟨named, dir, stop, lsn, slot, copied, stops, found, held⟩ := inv.subscription slotName world here
  have notEarly : ¬ s.stage.early = true := fun isEarly => by rw [inv.early isEarly] at here; cases here
  obtain rfl := named
  have unapplied := fun holds => (fresh holds rfl (options.slotName remote, world) here).fresh copied stops
  have fedHeld : ∃ slot, Held s.provider.log stop lsn slot 0 s.stage.isDone once after := by
    cases reported with
    | none =>
      cases fed
      exact ⟨slot, held_runWorker options held (held.sends unapplied moments snapshot tables count)⟩
    | some position =>
      obtain ⟨reports, same⟩ := Option.ite_none_right_eq_some.mp fed
      cases same
      obtain ⟨⟨-, origin, reached, progress⟩, -⟩ := held.written world.database (List.mem_cons_self ..)
      have since := held.flushed (onDisk rfl (options.slotName remote, world) here) progress
      have ran := held_runWorker options since (since.sends unapplied moments snapshot tables count)
      exact ⟨position, ran.report progress held.atSlot reports⟩
  obtain ⟨slot, held⟩ := fedHeld
  refine ⟨inv.info, inv.past, fun isEarly => absurd isEarly notEarly, ?_, fun other world' same => ?_⟩
  · cases stage : s.stage with
    | settingReady | done | died => trivial
    | checking | creatingSlot | initializingDataDir | creatingRestorePoint | catchingUp | removing | creatingOrigin
      | advancingOrigin | subscribing => simp [stage, Stage.early] at notEarly
  · cases same
    exact ⟨rfl, dir, stop, lsn, slot, ⟨copied.dataDir, copied.own⟩, stops, (Function.update_self ..).trans held.atSlot, held⟩

theorem inv_step (sameSlot : options.subSlotName remote = options.slotName remote) {event : Event Change}
    (inv : Inv options remote once s) (onDisk : OnDisk s event) (fresh : once → Acknowledged s event)
    (stepped : step options s event = some next) : Inv options remote once next := by
  cases event with
  | commit position change =>
    obtain ⟨provider, written, rfl⟩ := Option.map_eq_some_iff.mp stepped
    exact inv_write inv written
  | restorePoint position other =>
    obtain ⟨provider, written, rfl⟩ := Option.map_eq_some_iff.mp stepped
    exact inv_write inv written
  | tool => exact inv_tool inv sameSlot stepped
  | baseBackup redo consistent => exact inv_baseBackup inv stepped
  | createRestorePoint position => exact inv_createRestorePoint inv stepped
  | die =>
    have died : next = { s with stage := .died } := by
      simp only [step] at stepped
      split at stepped
      · cases stepped
      · cases stepped
      · exact (Option.some.inj stepped).symm
    exact died ▸ inv_died inv
  | worker moments snapshot tables count reported => exact inv_worker inv onDisk fresh stepped

end Steps

/-- In every run, whatever happens on the provider, to the program and to the workers, where a worker reports nothing as
flushed before the commits of the workers before it are on disk: once the subscription exists, the new server has what
was committed up to the restore point where recovery stopped and then, in their order, the transactions committed from
the program's own restore point on up to the last one applied, whose commit record is at the origin. Each of these
comes once if no worker is started before the slot has moved past the last one, and the last one may come again with each
start otherwise. In the first case the new server has everything exactly if nothing was committed between the two
restore points. When the program is done no restart finds anything but READY. -/
theorem handover (options : Options) (remote : RemoteInfo) (provider : Provider Change) (dataDir : DirContents)
    (events : List (Event Change)) {s : State Change} {slotName : NameData} {world : World Change}
    (info : getRemoteInfo provider = .ok remote) (sameDatabase : options.subscriberDatabase = remote.dbname)
    (past : ∀ dir, dataDir = .notEmpty (some dir) → dir.redo ≤ provider.log.insert)
    (onDisk : Permitted (step options) OnDisk (init provider dataDir) events)
    (success : run (step options) (init provider dataDir) events = some s)
    (subscribed : s.subscription = some (slotName, world)) :
    ∃ dir stop lsn origin reached, Copied s slotName dir lsn ∧ StopsAt s slotName dir stop ∧ stop ≤ lsn ∧ lsn ≤ origin ∧
      world.database.origin = some origin ∧
      (reached = origin ∧ world.database.applied = committed s.provider.log.records 0 stop ∨
        ∃ change, ⟨origin, reached, .commit change⟩ ∈ s.provider.log.records) ∧
      (∃ sent, world.database.applied = committed s.provider.log.records 0 stop ++ sent ∧
        Redelivered (committed s.provider.log.records lsn reached) sent) ∧
      (Permitted (step options) Acknowledged (init provider dataDir) events →
        world.database.applied =
          committed s.provider.log.records 0 stop ++ committed s.provider.log.records lsn reached ∧
        (world.database.applied = committed s.provider.log.records 0 reached ↔
          committed s.provider.log.records stop lsn = [])) ∧
      (s.stage.isDone → ∀ database ∈ world.written, database.status = .ready) := by
  have sameSlot : options.subSlotName remote = options.slotName remote := by
    rw [Options.subSlotName, Options.slotName, sameDatabase]
  have first (once : Prop) : Inv options remote once (init provider dataDir) :=
    ⟨info, past, fun _ => rfl, trivial, fun _ _ none => by cases none⟩
  -- either every start is behind the feedback, or nothing is asked of the starts
  obtain ⟨once, allowed, acknowledged⟩ : ∃ once : Prop,
      Permitted (step options) (fun s event => OnDisk s event ∧ (once → Acknowledged s event))
        (init provider dataDir) events ∧
      (Permitted (step options) Acknowledged (init provider dataDir) events → once) := by
    by_cases holds : Permitted (step options) Acknowledged (init provider dataDir) events
    · exact ⟨True, (onDisk.and holds).imp fun _ _ both => ⟨both.1, fun _ => both.2⟩, fun _ => trivial⟩
    · exact ⟨False, onDisk.imp fun _ _ allowed => ⟨allowed, False.elim⟩, holds⟩
  have inv := run_invariant (fun inv allowed stepped => inv_step sameSlot inv allowed.1 allowed.2 stepped)
    (first once) allowed success
  obtain ⟨rfl, dir, stop, lsn, slot, copied, stops, -, held⟩ := inv.subscription slotName world subscribed
  obtain ⟨⟨-, origin, reached, progress⟩, -⟩ := held.written world.database (List.mem_cons_self ..)
  obtain ⟨sent, applied, redelivered, all⟩ := progress.applied
  have before := copied.stop_le stops
  refine ⟨dir, stop, lsn, origin, reached, copied, stops, before, progress.begins, progress.atOrigin, progress.last,
    ⟨sent, applied, redelivered⟩, fun holds => ?_, fun done database inside => (held.written database inside).2.2 done⟩
  rw [all (acknowledged holds)] at applied
  have linear := s.provider.log.linear
  have begins := UInt64.le_trans progress.begins progress.le
  refine ⟨applied, ?_⟩
  rw [applied, committed_split linear UInt64.zero_le (UInt64.le_trans before begins), committed_split linear before begins,
    List.append_cancel_left_eq]
  constructor
  · intro same
    simpa using same
  · intro none
    rw [none, List.nil_append]

def sampleName (name : String) : NameData := namestrcpy (CString.ofString name)

def sampleOptions : Options where
  hashAny _ := 0
  subscriberName := sampleName "sub"
  subscriberDatabase := sampleName "shop"
  providerConnstr := CString.ofString "dbname=shop"
  dropSlotIfExists := true
  recoveryConf := none
  synchronousCommit := true

def sampleRemote : RemoteInfo :=
  ⟨7, sampleName "provider", CString.ofString "6500", sampleName "shop", CString.ofString "default"⟩

def sampleProvider : Provider ℕ where
  sysid := CString.ofString "6500"
  extensions := [CString.ofString "pglogical"]
  nodeInfo := [sampleRemote]
  log := ⟨[], 10, nofun, .nil, nofun⟩
  slots _ := none
  origins := []

/-- What the program does from the restore point on, with a worker that comes too early, and then two workers with a
commit in between. -/
def sampleFinish (reported : Option UInt64) : List (Event ℕ) :=
  [.tool, .tool, .tool, .tool, .tool, .worker [] "early" [] 1 none, .tool, .worker [] "ready" [] 5 reported,
    .commit 70 5, .worker [] "restarted" [] 5 none]

/-- The first worker may report the end of the last transaction. -/
def sampleEvents (reported : Option UInt64) : List (Event ℕ) :=
  [.commit 20 1, .tool, .tool, .commit 30 2, .baseBackup 30 30, .commit 40 3, .createRestorePoint 50, .commit 60 4] ++
    sampleFinish reported

/-- What the new server has at the end of a run. -/
def sampleApplied (dataDir : DirContents) (events : List (Event ℕ)) : Option (List ℕ) :=
  (run (step sampleOptions) (init sampleProvider dataDir) events).bind fun s =>
    s.subscription.map fun subscription => subscription.2.database.applied

/-- Without the feedback the transaction comes twice. -/
example : sampleApplied .missing (sampleEvents none) = some [1, 2, 3, 4, 4, 5] := by
  decide +kernel

/-- A first attempt dies behind its restore point; a second one uses its data directory. -/
example : sampleApplied (.notEmpty (some ⟨CString.ofString "6500", 10, 10, []⟩))
    ([.commit 20 1, .restorePoint 30 (sampleOptions.slotName sampleRemote), .commit 40 2, .tool, .tool, .tool,
      .createRestorePoint 50, .commit 60 3] ++ sampleFinish (some 60)) = some [1, 3, 5] := by
  decide +kernel

theorem handover_sample : ∃ s slotName world,
    run (step sampleOptions) (init sampleProvider .missing) (sampleEvents (some 60)) = some s ∧
    s.subscription = some (slotName, world) ∧ ∃ dir stop lsn reached, StopsAt s slotName dir stop ∧
      Copied s slotName dir lsn ∧ world.database.applied =
        committed s.provider.log.records 0 stop ++ committed s.provider.log.records lsn reached := by
  have ends : ((run (step sampleOptions) (init sampleProvider .missing) (sampleEvents (some 60))).bind
      State.subscription).isSome = true := by decide +kernel
  obtain ⟨⟨slotName, world⟩, found⟩ := Option.isSome_iff_exists.mp ends
  obtain ⟨s, success, subscribed⟩ := Option.bind_eq_some_iff.mp found
  obtain ⟨dir, stop, lsn, origin, reached, copied, stops, -, -, -, -, -, applied, -⟩ := handover sampleOptions
    sampleRemote sampleProvider .missing (sampleEvents (some 60)) rfl rfl (fun _ there => by cases there)
    (by decide +kernel) success subscribed
  exact ⟨s, slotName, world, success, subscribed, dir, stop, lsn, reached, stops, copied, (applied (by decide +kernel)).1⟩

end PGLogical.CreateSubscriber
