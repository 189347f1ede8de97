import PGLogical.Machine.Fallible
import PGLogical.Model.Copy

/-! # Whether the initial copy is atomic

Both copies commit at most once, at their end, so an error leaves the target as it was. Success is
another matter: nobody asks the target what it made of the end of a COPY. If it has rejected the
data of a table, the next statement on its connection fails. Behind the last table this statement is
COMMIT, which rolls the failed transaction back and succeeds.
-/

namespace PGLogical.Copy

open Machine

variable {Row : Type} {table : TableCopy Row} {tables : List (TableCopy Row)} {script : CopyScript}
  {session after : Session Row} {committed : List Row}

/-! ## Nothing but COMMIT commits -/

/-- The target has committed what it had committed before, and nothing else. -/
def Unchanged (committed : List Row) (session : Session Row) : Prop := session.committed = committed

theorem keeps_outcome (reported : Except String Unit) :
    Preserves (Unchanged committed) (outcome reported : CopyM Row Unit) := by
  cases reported with
  | ok => exact .pure ()
  | error message => exact .throw message

theorem keeps_putRows (data : List (CopyData Row)) : Preserves (Unchanged committed) (putRows data) := by
  induction data with
  | nil => exact .pure ()
  | cons data rest ih =>
    unfold putRows
    exact .guard (.guard ih)

theorem keeps_execCopyTo (table : TableCopy Row) : Preserves (Unchanged committed) (execCopyTo table) := by
  intro session unchanged
  unfold execCopyTo
  split
  · exact unchanged
  · split <;> exact unchanged

theorem keeps_execCopyFrom (table : TableCopy Row) : Preserves (Unchanged committed) (execCopyFrom table) := by
  intro session unchanged
  unfold execCopyFrom
  split
  · exact unchanged
  · split <;> exact unchanged

theorem keeps_copyOutEnds (table : TableCopy Row) : Preserves (Unchanged committed) (copyOutEnds table) := by
  intro session unchanged
  unfold copyOutEnds
  split <;> exact unchanged

theorem keeps_pqPutCopyEnd (table : TableCopy Row) : Preserves (Unchanged committed) (pqPutCopyEnd table) := by
  intro session unchanged
  unfold pqPutCopyEnd
  split
  · split <;> exact unchanged
  · exact unchanged

theorem keeps_copyTableData (table : TableCopy Row) : Preserves (Unchanged committed) (copyTableData table) := by
  unfold copyTableData
  refine (keeps_outcome _).bind fun _ => (keeps_execCopyTo table).bind fun _ => .guard ?_
  refine (keeps_execCopyFrom table).bind fun _ => .guard ?_
  refine (keeps_putRows _).bind fun _ => (keeps_copyOutEnds table).bind fun _ => .guard ?_
  exact (keeps_pqPutCopyEnd table).bind fun _ => .check

theorem keeps_checkForInterrupts (interrupted : Bool) :
    Preserves (Unchanged committed) (checkForInterrupts interrupted : CopyM Row Unit) := .check

theorem keeps_copyRepsetTable (table : TableCopy Row) : Preserves (Unchanged committed) (copyRepsetTable table) :=
  (keeps_copyTableData table).bind fun _ => keeps_checkForInterrupts _

theorem keeps_copyListedTable (table : TableCopy Row) : Preserves (Unchanged committed) (copyListedTable table) := by
  refine .bind ?_ fun _ => keeps_copyRepsetTable table
  intro session unchanged
  unfold getRemoteRepsetTable
  split
  · exact unchanged
  · exact keeps_outcome _ unchanged

theorem keeps_startCopy (connect begin : Except String Unit) :
    Preserves (Unchanged committed) (startCopy connect begin : CopyM Row Unit) :=
  (keeps_outcome connect).bind fun _ => keeps_outcome begin

/-! ## What a table leaves behind -/

/-- Nothing the copy looks at reports an error. -/
structure TableCopy.Quiet (table : TableCopy Row) : Prop where
  relationOpen : table.relationOpen = .ok ()
  copyTo : table.copyTo = .ok ()
  copyFrom : table.copyFrom = .ok ()
  data : ∀ data ∈ table.data, data.put = true ∧ data.interrupted = false
  ending : table.ending ≠ .failure
  putCopyEnd : table.putCopyEnd = true
  interrupted : table.interrupted = false

/-- Neither server has failed its transaction. -/
structure TableCopy.Taken (table : TableCopy Row) : Prop where
  sent : table.ending ≠ .errorResponse
  accepted : table.rejected = false

def Session.Live (session : Session Row) : Prop :=
  session.originAborted = false ∧ session.targetAborted = false

/-- The session behind a table whose copy has not raised an error. -/
def Session.behind (session : Session Row) (table : TableCopy Row) : Session Row where
  originAborted := table.ending = .errorResponse
  targetAborted := table.rejected
  uncommitted := if table.rejected then session.uncommitted else session.uncommitted ++ table.rows
  committed := session.committed

theorem outcome_eq_ok {reported : Except String Unit} {done : Unit} :
    (outcome reported : CopyM Row Unit) session = .ok done after ↔ reported = .ok () ∧ after = session := by
  cases reported with
  | ok => simp [outcome, pure, EStateM.pure, eq_comm]
  | error message => simp [outcome, run_throw]

theorem putRows_eq_ok {data : List (CopyData Row)} {done : Unit} :
    putRows data session = .ok done after ↔
      (∀ one ∈ data, one.put = true ∧ one.interrupted = false) ∧ after = session := by
  induction data with
  | nil => simp [putRows, pure, EStateM.pure, eq_comm (a := session)]
  | cons first rest ih =>
    unfold putRows
    rw [run_guard_eq_ok, run_guard_eq_ok, ih]
    simp [and_assoc]

theorem execCopyTo_eq_copyOut : execCopyTo table session = .ok .copyOut after ↔
    session.originAborted = false ∧ table.copyTo = .ok () ∧ after = session := by
  unfold execCopyTo
  cases aborted : session.originAborted <;> cases table.copyTo <;> simp [eq_comm]

theorem execCopyFrom_eq_copyIn : execCopyFrom table session = .ok .copyIn after ↔
    session.targetAborted = false ∧ table.copyFrom = .ok () ∧ after = session := by
  unfold execCopyFrom
  cases aborted : session.targetAborted <;> cases table.copyFrom <;> simp [eq_comm]

theorem copyOutEnds_eq_ok : copyOutEnds table session = .ok (-1) after ↔
    table.ending ≠ .failure ∧
      after = { session with originAborted := session.originAborted || decide (table.ending = .errorResponse) } := by
  unfold copyOutEnds
  cases table.ending <;> simp [eq_comm (b := after)]

theorem pqPutCopyEnd_eq_ok : pqPutCopyEnd table session = .ok 1 after ↔
    table.putCopyEnd = true ∧
      after = { session with
        targetAborted := session.targetAborted || table.rejected
        uncommitted := if table.rejected then session.uncommitted else session.uncommitted ++ table.rows } := by
  unfold pqPutCopyEnd
  cases table.putCopyEnd <;> cases table.rejected <;> simp [eq_comm]

theorem copyRepsetTable_eq_ok {done : Unit} : copyRepsetTable table session = .ok done after ↔
    table.Quiet ∧ session.Live ∧ after = session.behind table := by
  unfold copyRepsetTable copyTableData checkForInterrupts
  simp only [run_bind_eq_ok, run_guard_eq_ok, run_check_eq_ok, outcome_eq_ok, putRows_eq_ok, not_not]
  constructor
  · rintro ⟨_, _, ⟨_, _, ⟨relationOpen, rfl⟩, _, _, readable, rfl, _, _, writable, rfl, _, _, ⟨data, rfl⟩,
      _, _, ended, rfl, _, _, put, rfl, rfl⟩, uninterrupted, rfl⟩
    obtain ⟨originLive, copyTo, rfl⟩ := execCopyTo_eq_copyOut.mp readable
    obtain ⟨targetLive, copyFrom, rfl⟩ := execCopyFrom_eq_copyIn.mp writable
    obtain ⟨ending, rfl⟩ := copyOutEnds_eq_ok.mp ended
    obtain ⟨putCopyEnd, rfl⟩ := pqPutCopyEnd_eq_ok.mp put
    refine ⟨⟨relationOpen, copyTo, copyFrom, data, ending, putCopyEnd, by simpa using uninterrupted⟩,
      ⟨originLive, targetLive⟩, ?_⟩
    simp [Session.behind, originLive, targetLive]
  · rintro ⟨quiet, ⟨originLive, targetLive⟩, rfl⟩
    refine ⟨(), _, ⟨(), session, ⟨quiet.relationOpen, rfl⟩,
      _, _, execCopyTo_eq_copyOut.mpr ⟨originLive, quiet.copyTo, rfl⟩, rfl,
      _, _, execCopyFrom_eq_copyIn.mpr ⟨targetLive, quiet.copyFrom, rfl⟩, rfl,
      (), _, ⟨quiet.data, rfl⟩,
      _, _, copyOutEnds_eq_ok.mpr ⟨quiet.ending, rfl⟩, rfl,
      _, _, pqPutCopyEnd_eq_ok.mpr ⟨quiet.putCopyEnd, rfl⟩, rfl, rfl⟩, by simp [quiet.interrupted], ?_⟩
    simp [Session.behind, originLive, targetLive]

theorem copyListedTable_eq_ok {done : Unit} : copyListedTable table session = .ok done after ↔
    (table.remoteRel = .ok () ∧ table.Quiet) ∧ session.Live ∧ after = session.behind table := by
  have described : ∀ {mid : Session Row}, getRemoteRepsetTable table session = .ok () mid ↔
      session.originAborted = false ∧ table.remoteRel = .ok () ∧ mid = session := by
    intro mid
    unfold getRemoteRepsetTable
    cases session.originAborted with
    | false => simpa using outcome_eq_ok
    | true => simp
  change (getRemoteRepsetTable table >>= fun _ => copyRepsetTable table) session = .ok done after ↔ _
  rw [run_bind_eq_ok]
  constructor
  · rintro ⟨_, mid, asked, copied⟩
    obtain ⟨_, answered, rfl⟩ := described.mp asked
    obtain ⟨quiet, live, left⟩ := copyRepsetTable_eq_ok.mp copied
    exact ⟨⟨answered, quiet⟩, live, left⟩
  · rintro ⟨⟨answered, quiet⟩, live, left⟩
    exact ⟨(), session, described.mpr ⟨live.1, answered, rfl⟩, copyRepsetTable_eq_ok.mpr ⟨quiet, live, left⟩⟩

theorem live_behind : (session.behind table).Live ↔ table.Taken := by
  constructor
  · rintro ⟨originLive, targetLive⟩
    exact ⟨by simpa [Session.behind] using originLive, targetLive⟩
  · rintro ⟨sent, accepted⟩
    exact ⟨by simpa [Session.behind] using sent, accepted⟩

theorem startCopy_eq_ok {connect begin : Except String Unit} {done : Unit} :
    (startCopy connect begin : CopyM Row Unit) session = .ok done after ↔
      (connect = .ok () ∧ begin = .ok ()) ∧ after = session := by
  unfold startCopy
  simp only [run_bind_eq_ok, outcome_eq_ok]
  constructor
  · rintro ⟨_, _, ⟨connected, rfl⟩, begun, rfl⟩
    exact ⟨⟨connected, begun⟩, rfl⟩
  · rintro ⟨⟨connected, begun⟩, rfl⟩
    exact ⟨(), _, ⟨connected, rfl⟩, begun, rfl⟩

/-! ## The loop over the tables -/

/-- The session once the target has taken the rows of some tables. -/
def Session.holding (session : Session Row) (taken : List (TableCopy Row)) : Session Row :=
  { session with uncommitted := session.uncommitted ++ taken.flatMap TableCopy.rows }

theorem behind_eq_holding (live : session.Live) (taken : table.Taken) :
    session.behind table = session.holding [table] := by
  obtain ⟨originLive, targetLive⟩ := live
  simp [Session.behind, Session.holding, taken.sent, taken.accepted, originLive, targetLive]

theorem Session.Live.holding (live : session.Live) : (session.holding tables).Live := live

theorem holding_cons (first : TableCopy Row) (more : List (TableCopy Row)) :
    (session.holding [first]).holding more = session.holding (first :: more) := by
  simp [Session.holding]

/-- The loop ends without an error if every round does. All tables but the last one are then taken:
a failed transaction fails the next round. -/
theorem forM_eq_ok {round : TableCopy Row → CopyM Row Unit} {Passes : TableCopy Row → Prop}
    (spec : ∀ {table : TableCopy Row} {session after : Session Row} {done : Unit},
      round table session = .ok done after ↔ Passes table ∧ session.Live ∧ after = session.behind table)
    (live : session.Live) {done : Unit} :
    tables.forM round session = .ok done after ↔
      (tables = [] ∧ after = session) ∨
      ∃ earlier last, tables = earlier ++ [last] ∧ (∀ table ∈ earlier, Passes table ∧ table.Taken) ∧ Passes last ∧
        after = (session.holding earlier).behind last := by
  induction tables generalizing session with
  | nil => simp [List.forM, pure, EStateM.pure, eq_comm (b := after)]
  | cons first rest ih =>
    change (round first >>= fun _ => rest.forM round) session = .ok done after ↔ _
    rw [run_bind_eq_ok]
    constructor
    · rintro ⟨_, mid, now, later⟩
      obtain ⟨passes, _, rfl⟩ := spec.mp now
      right
      cases rest with
      | nil =>
        cases later
        exact ⟨[], first, rfl, by simp, passes, by simp [Session.holding]⟩
      | cons second more =>
        -- The second round finds both transactions alive.
        obtain ⟨_, _, next, _⟩ := run_bind_eq_ok.mp
          (show (round second >>= fun _ => more.forM round) (session.behind first) = .ok done after from later)
        have taken := live_behind.mp (spec.mp next).2.1
        rw [behind_eq_holding live taken] at later
        rcases (ih live.holding).mp later with ⟨none, _⟩ | ⟨earlier, last, split, all, lastPasses, rfl⟩
        · cases none
        · refine ⟨first :: earlier, last, by rw [split]; rfl, ?_, lastPasses, by rw [holding_cons]⟩
          intro table inside
          rcases List.mem_cons.mp inside with rfl | inside
          · exact ⟨passes, taken⟩
          · exact all table inside
    · rintro (⟨none, _⟩ | ⟨earlier, last, split, all, passes, rfl⟩)
      · cases none
      · cases earlier with
        | nil =>
          obtain ⟨rfl, rfl⟩ : first = last ∧ rest = [] := by simpa using split
          exact ⟨(), _, spec.mpr ⟨passes, live, rfl⟩, by simp [Session.holding, List.forM, pure, EStateM.pure]⟩
        | cons head more =>
          obtain ⟨rfl, rfl⟩ := List.cons.inj split
          obtain ⟨headPasses, taken⟩ := all first (List.mem_cons_self ..)
          refine ⟨(), _, spec.mpr ⟨headPasses, live, rfl⟩, ?_⟩
          rw [behind_eq_holding live taken]
          refine (ih live.holding).mpr (.inr ⟨more, last, rfl, ?_, passes, by rw [holding_cons]⟩)
          exact fun table inside => all table (List.mem_cons_of_mem _ inside)

/-! ## Atomicity -/

/-- If the copy raises an error, the target is as it was; if it does not, the target has every row the
provider has sent. -/
def Atomic (copy : CopyM Row Unit) (tables : List (TableCopy Row)) (committed : List Row) : Prop :=
  match copy (.start committed) with
  | .ok _ after => after.committed = committed ++ tables.flatMap TableCopy.rows
  | .error _ after => after.committed = committed

/-- The target rejects the data of the last table; nothing before that fails. -/
def RejectedLast (Passes : TableCopy Row → Prop) (tables : List (TableCopy Row)) : Prop :=
  ∃ earlier last, tables = earlier ++ [last] ∧ (∀ table ∈ earlier, Passes table ∧ table.Taken) ∧ Passes last ∧
    last.rejected = true

def finishCopy (script : CopyScript) : CopyM Row Unit := do
  finishCopyOriginTx
  finishCopyTargetTx script

theorem finishCopy_eq (session : Session Row) :
    finishCopy script session =
      if session.targetAborted then .ok () { session with originAborted := false, uncommitted := [] }
      else match script.commit with
        | .ok _ => .ok () { session with
            originAborted := false, uncommitted := [], committed := session.committed ++ session.uncommitted }
        | .error _ => .error "COMMIT on target node failed" { session with originAborted := false, uncommitted := [] } := by
  cases aborted : session.targetAborted with
  | true => simp [finishCopy, finishCopyOriginTx, finishCopyTargetTx, execCommit, run_modify, bind,
      EStateM.bind, pure, EStateM.pure, aborted]
  | false =>
    cases answer : script.commit <;>
      simp [finishCopy, finishCopyOriginTx, finishCopyTargetTx, execCommit, run_modify, run_throw, bind,
        EStateM.bind, pure, EStateM.pure, aborted, answer]

section Finish

variable {body : CopyM Row Unit} (kept : Preserves (Unchanged committed) body)

include kept

theorem committed_of_ok {done : Unit} (ran : body (.start committed) = .ok done after) :
    after.committed = committed := by
  have same := kept (show Unchanged committed (.start committed) from rfl)
  rw [ran] at same
  exact same

theorem atomic_of_error {message : String} (ran : body (.start committed) = .error message after) :
    Atomic (body >>= fun _ => finishCopy script) tables committed := by
  have same := kept (show Unchanged committed (.start committed) from rfl)
  rw [ran] at same
  simp only [Atomic, bind, EStateM.bind, ran]
  exact same

theorem atomic_of_taken {done : Unit} (ran : body (.start committed) = .ok done after)
    (alive : after.targetAborted = false) (rows : after.uncommitted = tables.flatMap TableCopy.rows) :
    Atomic (body >>= fun _ => finishCopy script) tables committed := by
  have unchanged := committed_of_ok kept ran
  simp only [Atomic, bind, EStateM.bind, ran, finishCopy_eq, alive]
  cases script.commit with
  | ok => simp [unchanged, rows]
  | error message => simpa using unchanged

/-- COMMIT succeeds and nothing is committed. -/
theorem atomic_iff_of_rejected {done : Unit} (ran : body (.start committed) = .ok done after)
    (aborted : after.targetAborted = true) :
    Atomic (body >>= fun _ => finishCopy script) tables committed ↔ tables.flatMap TableCopy.rows = [] := by
  have unchanged := committed_of_ok kept ran
  simp [Atomic, bind, EStateM.bind, ran, finishCopy_eq, aborted, unchanged]

end Finish

theorem atomic_iff {prelude : CopyM Row Unit} {Starts : Prop} {round : TableCopy Row → CopyM Row Unit}
    {Passes : TableCopy Row → Prop}
    (starts : ∀ {session after : Session Row} {done : Unit},
      prelude session = .ok done after ↔ Starts ∧ after = session)
    (spec : ∀ {table : TableCopy Row} {session after : Session Row} {done : Unit},
      round table session = .ok done after ↔ Passes table ∧ session.Live ∧ after = session.behind table)
    (keptPrelude : Preserves (Unchanged committed) prelude)
    (keptRound : ∀ table, Preserves (Unchanged committed) (round table)) :
    Atomic (do prelude; tables.forM round; finishCopyOriginTx; finishCopyTargetTx script) tables committed ↔
      ¬ (Starts ∧ RejectedLast Passes tables ∧ tables.flatMap TableCopy.rows ≠ []) := by
  have kept : Preserves (Unchanged committed) (prelude >>= fun _ => tables.forM round) :=
    keptPrelude.bind fun _ => .forM fun table _ => keptRound table
  have live : (Session.start committed).Live := ⟨rfl, rfl⟩
  have runs : ∀ {after : Session Row} {done : Unit},
      (prelude >>= fun _ => tables.forM round) (.start committed) = .ok done after ↔
        Starts ∧ tables.forM round (.start committed) = .ok done after := by
    intro after done
    rw [run_bind_eq_ok]
    simp only [starts]
    exact ⟨fun ⟨_, _, ⟨started, same⟩, ran⟩ => ⟨started, same ▸ ran⟩,
      fun ⟨started, ran⟩ => ⟨(), _, ⟨started, rfl⟩, ran⟩⟩
  have whole : (do prelude; tables.forM round; finishCopyOriginTx; finishCopyTargetTx script : CopyM Row Unit) =
      (prelude >>= fun _ => tables.forM round) >>= fun _ => finishCopy script := by
    rw [bind_assoc]
    rfl
  rw [whole]
  cases ran : (prelude >>= fun _ => tables.forM round) (.start committed) with
  | error message mid =>
    refine iff_of_true (atomic_of_error kept ran) ?_
    rintro ⟨started, ⟨earlier, last, split, all, passes, _⟩, _⟩
    have loop : tables.forM round (.start committed) = .ok () _ :=
      (forM_eq_ok spec live).mpr (.inr ⟨earlier, last, split, all, passes, rfl⟩)
    rw [runs.mpr ⟨started, loop⟩] at ran
    cases ran
  | ok done mid =>
    obtain ⟨started, loop⟩ := runs.mp ran
    rcases (forM_eq_ok spec live).mp loop with ⟨rfl, rfl⟩ | ⟨earlier, last, rfl, all, passes, rfl⟩
    · refine iff_of_true (atomic_of_taken kept ran rfl rfl) ?_
      simp [RejectedLast]
    · cases answer : last.rejected with
      | true =>
        rw [atomic_iff_of_rejected kept ran answer]
        have rejectedLast : RejectedLast Passes (earlier ++ [last]) := ⟨earlier, last, rfl, all, passes, answer⟩
        simp [started, rejectedLast]
      | false =>
        refine iff_of_true (atomic_of_taken kept ran answer ?_) ?_
        · simp [Session.start, Session.holding, Session.behind, answer]
        · rintro ⟨_, ⟨others, other, split, _, _, rejected⟩, _⟩
          obtain ⟨_, same⟩ := List.append_inj' split rfl
          cases same
          rw [answer] at rejected
          cases rejected

/-- Both connections can be used. -/
structure CopyScript.Connects (script : CopyScript) : Prop where
  origin : script.originConnect = .ok () ∧ script.originBegin = .ok ()
  target : script.targetConnect = .ok () ∧ script.targetBegin = .ok ()

/-- What `copy_tables_data` does before its loop. -/
def startTables (script : CopyScript) : CopyM Row Unit := do
  startCopy script.originConnect script.originBegin
  startCopy script.targetConnect script.targetBegin

/-- What `copy_replication_sets_data` does before its loop. -/
def startRepsets (script : CopyScript) : CopyM Row Unit := do
  startCopy script.originConnect script.originBegin
  outcome script.remoteTables
  startCopy script.targetConnect script.targetBegin

theorem startTables_eq_ok {done : Unit} :
    startTables script session = .ok done after ↔ script.Connects ∧ after = session := by
  unfold startTables
  simp only [run_bind_eq_ok, startCopy_eq_ok]
  constructor
  · rintro ⟨_, _, ⟨origin, rfl⟩, target, rfl⟩
    exact ⟨⟨origin, target⟩, rfl⟩
  · rintro ⟨⟨origin, target⟩, rfl⟩
    exact ⟨(), _, ⟨origin, rfl⟩, target, rfl⟩

theorem startRepsets_eq_ok {done : Unit} :
    startRepsets script session = .ok done after ↔
      (script.Connects ∧ script.remoteTables = .ok ()) ∧ after = session := by
  unfold startRepsets
  simp only [run_bind_eq_ok, startCopy_eq_ok, outcome_eq_ok]
  constructor
  · rintro ⟨_, _, ⟨origin, rfl⟩, _, _, ⟨listed, rfl⟩, target, rfl⟩
    exact ⟨⟨⟨origin, target⟩, listed⟩, rfl⟩
  · rintro ⟨⟨⟨origin, target⟩, listed⟩, rfl⟩
    exact ⟨(), _, ⟨origin, rfl⟩, (), _, ⟨listed, rfl⟩, target, rfl⟩

/-- The copies are atomic unless the target rejects, with nothing failing before and some row sent, the
data of the last table. -/
theorem initial_copy_atomic_iff (script : CopyScript) (tables : List (TableCopy Row)) (committed : List Row) :
    (Atomic (copyTablesData script tables) tables committed ↔
      ¬ (script.Connects ∧ RejectedLast (fun table => table.remoteRel = .ok () ∧ table.Quiet) tables ∧
        tables.flatMap TableCopy.rows ≠ [])) ∧
    (Atomic (copyReplicationSetsData script tables) tables committed ↔
      ¬ ((script.Connects ∧ script.remoteTables = .ok ()) ∧ RejectedLast TableCopy.Quiet tables ∧
        tables.flatMap TableCopy.rows ≠ [])) := by
  constructor
  · have starts : Preserves (Unchanged committed) (startTables script : CopyM Row Unit) :=
      (keeps_startCopy _ _).bind fun _ => keeps_startCopy _ _
    have whole : copyTablesData script tables = (do
        startTables script; tables.forM copyListedTable; finishCopyOriginTx; finishCopyTargetTx script) := by
      simp only [copyTablesData, startTables, bind_assoc]
    rw [whole]
    exact atomic_iff startTables_eq_ok copyListedTable_eq_ok starts keeps_copyListedTable
  · have starts : Preserves (Unchanged committed) (startRepsets script : CopyM Row Unit) :=
      (keeps_startCopy _ _).bind fun _ => (keeps_outcome _).bind fun _ => keeps_startCopy _ _
    have whole : copyReplicationSetsData script tables = (do
        startRepsets script; tables.forM copyRepsetTable; finishCopyOriginTx; finishCopyTargetTx script) := by
      simp only [copyReplicationSetsData, startRepsets, bind_assoc]
    rw [whole]
    exact atomic_iff startRepsets_eq_ok copyRepsetTable_eq_ok starts keeps_copyRepsetTable

/-- A provider and a target that report no error. -/
def sampleScript : CopyScript := ⟨.ok (), .ok (), .ok (), .ok (), .ok (), .ok ()⟩

/-- One row that the target rejects at the end of the COPY. -/
def rejectedTable : TableCopy ℕ where
  remoteRel := .ok ()
  relationOpen := .ok ()
  copyTo := .ok ()
  copyFrom := .ok ()
  data := [⟨1, true, false⟩]
  ending := .copyDone
  putCopyEnd := true
  rejected := true
  interrupted := false

/-- Both copies return and the row is lost. -/
theorem rejected_row_unnoticed :
    (∃ after, copyTablesData sampleScript [rejectedTable] (.start []) = .ok () after ∧ after.committed = []) ∧
    ¬ Atomic (copyTablesData sampleScript [rejectedTable]) [rejectedTable] [] ∧
    ¬ Atomic (copyReplicationSetsData sampleScript [rejectedTable]) [rejectedTable] [] := by
  refine ⟨⟨_, rfl, rfl⟩, ?_, ?_⟩
  · show ¬ ([] = [1])
    decide
  · show ¬ ([] = [1])
    decide

end PGLogical.Copy
