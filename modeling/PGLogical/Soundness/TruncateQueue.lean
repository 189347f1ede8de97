import PGLogical.Model.TruncateQueue

/-! # Each truncation is queued once

Each statement should announce its own tables when it ends, whatever its triggers do. The ledger
below does so by remembering the tables with the statement. The backend has one list for all
statements instead: a statement inside of a trigger empties it for the statement around it, a failed
statement leaves its tables behind, and a table with two queue triggers is on it twice. Where none of
this happens, backend and ledger queue the same.
-/

namespace PGLogical.TruncateQueue

open Wire Machine
open Queue (Announcement)

variable (session : Session)

/-- The message that is due for a table: one with all its sets, if it is in any. -/
def announcement (reloid : Oid) : Option Announcement :=
  session.localNode.bind fun nodeid => truncateMessage session nodeid reloid

def announced (tables : List Oid) : List Announcement := tables.filterMap (announcement session)

/-! ## The ledger -/

/-- What is due: statements that end have announced their tables, and errors take back what came in between. -/
structure Ledger where
  frames : List Frame
  queue : List Announcement
  saved : List (List Announcement)
deriving DecidableEq

/-- The tables of the statement that ends. -/
def endingTables : List Frame → List Oid
  | .truncate tables _ :: _ => tables
  | _ => []

def stepLedger (ledger : Ledger) (event : Event) : Option Ledger :=
  (stepFrames session ledger.frames event).map fun frames =>
    match event with
    | .startTruncate _ => ⟨frames, ledger.queue, ledger.saved⟩
    | .queueTruncate _ => ⟨frames, ledger.queue, ledger.saved⟩
    | .finishTruncate => ⟨frames, ledger.queue ++ announced session (endingTables ledger.frames), ledger.saved⟩
    | .beginBlock => ⟨frames, ledger.queue, ledger.queue :: ledger.saved⟩
    | .endBlock => ⟨frames, ledger.queue, ledger.saved.tail⟩
    | .catchError => ⟨frames, ledger.saved.headD [], ledger.saved.tail⟩

/-! ## Orderly runs -/

/-- What has fired in the innermost statement. -/
def innermost : List Frame → Option (List Oid)
  | [] => none
  | .truncate _ fired :: _ => some fired
  | .block :: rest => innermost rest

/-- No table of a set is waiting in the innermost statement. -/
def Idle (frames : List Frame) : Prop := ∀ fired ∈ innermost frames, announced session fired = []

/-- Nothing that the list cannot cope with: no statement begins while tables of the one around it are waiting, no
table of a set fires twice, and no statement fails with tables waiting if a statement around it goes on. -/
def Orderly (state : State) (event : Event) : Prop :=
  match event, state.frames with
  | .startTruncate _, frames => Idle session frames
  | .queueTruncate reloid, .truncate _ fired :: _ => reloid ∈ fired → announcement session reloid = none
  | .catchError, .truncate tables fired :: rest =>
      (((unwind rest).bind innermost).isSome → Idle session (.truncate tables fired :: rest))
  | _, _ => True

instance (state : State) (event : Event) : Decidable (Orderly session state event) := by
  unfold Orderly Idle
  split <;> infer_instance

variable {session}

/-- No statement has a table waiting. -/
def Quiet (session : Session) (frames : List Frame) : Prop :=
  ∀ tables fired, .truncate tables fired ∈ frames → announced session fired = []

/-- No statement but the innermost one has. -/
def OuterQuiet (session : Session) : List Frame → Prop
  | [] => True
  | .truncate _ _ :: rest => Quiet session rest
  | .block :: rest => OuterQuiet session rest

theorem Quiet.outer {frames : List Frame} (quiet : Quiet session frames) : OuterQuiet session frames := by
  induction frames with
  | nil => trivial
  | cons frame rest ih =>
    have behind : Quiet session rest := fun tables fired inside => quiet tables fired (List.mem_cons_of_mem _ inside)
    cases frame with
    | truncate tables fired => exact behind
    | block => exact ih behind

theorem Quiet.idle {frames : List Frame} (quiet : Quiet session frames) : Idle session frames := by
  intro fired open_statement
  induction frames with
  | nil => cases open_statement
  | cons frame rest ih =>
    cases frame with
    | truncate tables others =>
      cases open_statement
      exact quiet tables fired List.mem_cons_self
    | block => exact ih (fun tables fired inside => quiet tables fired (List.mem_cons_of_mem _ inside)) open_statement

theorem OuterQuiet.quiet {frames : List Frame} (outer : OuterQuiet session frames) (idle : Idle session frames) :
    Quiet session frames := by
  induction frames with
  | nil => exact fun _ _ inside => by cases inside
  | cons frame rest ih =>
    intro tables fired inside
    cases frame with
    | truncate others waiting =>
      obtain same | behind := List.mem_cons.mp inside
      · cases same
        exact idle fired rfl
      · exact outer tables fired behind
    | block =>
      obtain same | behind := List.mem_cons.mp inside
      · cases same
      · exact ih outer idle tables fired behind

theorem unwind_suffix {frames rest : List Frame} (unwound : unwind frames = some rest) : rest <:+ frames := by
  induction frames with
  | nil => cases unwound
  | cons frame frames ih =>
    cases frame with
    | truncate tables fired => exact (ih unwound).trans (List.suffix_cons _ _)
    | block =>
      cases unwound
      exact List.suffix_cons _ _

/-- The list has what has fired in the innermost statement, and the statements around it have nothing waiting. -/
structure Agrees (session : Session) (state : State) (ledger : Ledger) : Prop where
  frames : state.frames = ledger.frames
  queue : state.backend.queue = ledger.queue
  saved : state.backend.saved = ledger.saved
  list : ∀ fired ∈ innermost state.frames,
    announced session state.backend.pglogicalTruncatedTables = announced session fired
  outer : OuterQuiet session state.frames

variable {state next : State} {ledger : Ledger}

theorem announced_append (tables others : List Oid) :
    announced session (tables ++ others) = announced session tables ++ announced session others :=
  List.filterMap_append

theorem announcement_of_node {nodeid : Oid} (node : session.localNode = some nodeid) :
    announcement session = truncateMessage session nodeid := by
  funext reloid
  rw [announcement, node, Option.bind_some]

theorem announced_of_no_node (node : session.localNode = none) (tables : List Oid) : announced session tables = [] := by
  simp [announced, announcement, node]

/-- A process other than a worker puts a table on the list if there is a node. -/
theorem queueTruncate_spec (client : session.myPGLogicalWorker = false) (reloid : Oid) (backend : Backend) :
    (pglogicalQueueTruncate session reloid backend).queue = backend.queue ∧
      (pglogicalQueueTruncate session reloid backend).saved = backend.saved ∧
      announced session (pglogicalQueueTruncate session reloid backend).pglogicalTruncatedTables =
        announced session backend.pglogicalTruncatedTables ++ announced session [reloid] := by
  cases node : session.localNode with
  | none => simp [pglogicalQueueTruncate, client, announced_of_no_node, node]
  | some nodeid => simp [pglogicalQueueTruncate, client, node, announced_append]

/-- The end of a statement announces what is on the list and leaves nothing of it. -/
theorem finishTruncate_spec (backend : Backend) :
    (pglogicalFinishTruncate session backend).queue =
        backend.queue ++ announced session backend.pglogicalTruncatedTables ∧
      (pglogicalFinishTruncate session backend).saved = backend.saved ∧
      announced session (pglogicalFinishTruncate session backend).pglogicalTruncatedTables = [] := by
  cases node : session.localNode with
  | none => simp [pglogicalFinishTruncate, announced_of_no_node, node]
  | some nodeid =>
    by_cases empty : backend.pglogicalTruncatedTables = []
    · simp [pglogicalFinishTruncate, announced, node, empty]
    · simp [pglogicalFinishTruncate, announced, announcement_of_node node, node, empty]

theorem agrees_startTruncate (agrees : Agrees session state ledger) {tables : List Oid}
    (orderly : Idle session state.frames) :
    Agrees session ⟨.truncate tables [] :: state.frames, pglogicalStartTruncate state.backend⟩
      ⟨.truncate tables [] :: state.frames, ledger.queue, ledger.saved⟩ where
  frames := rfl
  queue := agrees.queue
  saved := agrees.saved
  list := by
    rintro fired ⟨⟩
    rfl
  outer := agrees.outer.quiet orderly

theorem agrees_queueTruncate (client : session.myPGLogicalWorker = false) (agrees : Agrees session state ledger)
    {tables fired : List Oid} {rest : List Frame} (open_statement : state.frames = .truncate tables fired :: rest)
    {reloid : Oid} (orderly : reloid ∈ fired → announcement session reloid = none) :
    Agrees session
      ⟨.truncate tables (if reloid ∈ fired then fired else fired ++ [reloid]) :: rest,
        pglogicalQueueTruncate session reloid state.backend⟩
      ⟨.truncate tables (if reloid ∈ fired then fired else fired ++ [reloid]) :: rest, ledger.queue, ledger.saved⟩ := by
  obtain ⟨queue, saved, list⟩ := queueTruncate_spec client reloid state.backend
  have waiting := agrees.list fired (open_statement ▸ rfl)
  have outer := agrees.outer
  rw [open_statement] at outer
  refine ⟨rfl, queue.trans agrees.queue, saved.trans agrees.saved, ?_, outer⟩
  rintro others ⟨⟩
  rw [list, waiting]
  split
  next again => simp [announced, orderly again]
  next => exact (announced_append fired [reloid]).symm

theorem agrees_finishTruncate (agrees : Agrees session state ledger) {tables : List Oid} {rest : List Frame}
    (open_statement : state.frames = .truncate tables tables :: rest) :
    Agrees session ⟨rest, pglogicalFinishTruncate session state.backend⟩
      ⟨rest, ledger.queue ++ announced session tables, ledger.saved⟩ := by
  obtain ⟨queue, saved, list⟩ := @finishTruncate_spec session state.backend
  have waiting := agrees.list tables (open_statement ▸ rfl)
  have quiet := agrees.outer
  rw [open_statement] at quiet
  refine ⟨rfl, ?_, saved.trans agrees.saved, fun fired inside => ?_, Quiet.outer quiet⟩
  · rw [queue, waiting, agrees.queue]
  · rw [list, Quiet.idle quiet fired inside]

/-- An error that is caught inside of a statement finds it as it was, or with nothing waiting. -/
theorem agrees_catchError (agrees : Agrees session state ledger) {rest : List Frame}
    (unwound : unwind state.frames = some rest) (orderly : Orderly session state .catchError) :
    Agrees session ⟨rest, stepBackend session state.backend .catchError⟩
      ⟨rest, ledger.saved.headD [], ledger.saved.tail⟩ := by
  obtain ⟨frames, backend⟩ := state
  have list := agrees.list
  have outer := agrees.outer
  have kept : (∀ fired ∈ innermost rest,
      announced session backend.pglogicalTruncatedTables = announced session fired) ∧ OuterQuiet session rest := by
    cases frames with
    | nil => cases unwound
    | cons frame frames =>
      cases frame with
      | block =>
        cases unwound
        exact ⟨list, outer⟩
      | truncate tables fired =>
        change unwind frames = some rest at unwound
        have quiet : Quiet session rest := fun tables fired inside =>
          outer tables fired ((unwind_suffix unwound).subset inside)
        refine ⟨fun others around => ?_, quiet.outer⟩
        have goes_on : ((unwind frames).bind innermost).isSome := by
          rw [unwound, Option.bind_some, around]
          rfl
        rw [list fired rfl, orderly goes_on fired rfl, quiet.idle others around]
  refine ⟨rfl, ?_, ?_, kept.1, kept.2⟩
  · exact congrArg (List.headD · []) agrees.saved
  · exact congrArg List.tail agrees.saved

/-- The ledger follows every orderly step. -/
theorem agrees_step {event : Event} (agrees : Agrees session state ledger)
    (orderly : Orderly session state event) (taken : step session state event = some next) :
    ∃ after, stepLedger session ledger event = some after ∧ Agrees session next after := by
  obtain ⟨stepped, follows, rfl⟩ := Option.map_eq_some_iff.mp taken
  rw [stepLedger, ← agrees.frames, follows, Option.map_some]
  refine ⟨_, rfl, ?_⟩
  obtain ⟨frames, backend⟩ := state
  cases event with
  | startTruncate tables =>
    obtain ⟨-, rfl⟩ : tables.Nodup ∧ .truncate tables [] :: frames = stepped := by simpa [stepFrames] using follows
    exact agrees_startTruncate agrees orderly
  | catchError => exact agrees_catchError agrees follows orderly
  | beginBlock =>
    cases follows
    refine ⟨rfl, agrees.queue, ?_, agrees.list, agrees.outer⟩
    rw [← agrees.saved, ← agrees.queue]
    rfl
  | endBlock =>
    rcases frames with _ | ⟨⟨_, _⟩ | _, rest⟩ <;> cases follows
    exact ⟨rfl, agrees.queue, congrArg List.tail agrees.saved, agrees.list, agrees.outer⟩
  | queueTruncate reloid =>
    rcases frames with _ | ⟨⟨tables, fired⟩ | _, rest⟩
    · cases follows
    · obtain ⟨⟨client, -⟩, rfl⟩ : (session.myPGLogicalWorker = false ∧ reloid ∈ tables) ∧
          .truncate tables (if reloid ∈ fired then fired else fired ++ [reloid]) :: rest = stepped := by
        simpa [stepFrames] using follows
      exact agrees_queueTruncate client agrees rfl orderly
    · cases follows
  | finishTruncate =>
    rcases frames with _ | ⟨⟨tables, fired⟩ | _, rest⟩
    · cases follows
    · obtain ⟨rfl, rfl⟩ : fired = tables ∧ rest = stepped := by simpa [stepFrames] using follows
      exact agrees_finishTruncate agrees rfl
    · cases follows

/-- **Every truncation is queued once, in orderly runs**: the backend's queue is that of the ledger, from any
state without an open statement. -/
theorem truncates_queued_once {backend : Backend} {events : List Event}
    {state : State} (orderly : Permitted (step session) (Orderly session) ⟨[], backend⟩ events)
    (success : run (step session) ⟨[], backend⟩ events = some state) :
    ∃ ledger, run (stepLedger session) ⟨[], backend.queue, backend.saved⟩ events = some ledger ∧
      state.backend.queue = ledger.queue := by
  have initial : Agrees session ⟨[], backend⟩ ⟨[], backend.queue, backend.saved⟩ :=
    ⟨rfl, rfl, rfl, fun _ inside => (by cases inside), trivial⟩
  obtain ⟨ledger, followed, agrees⟩ := run_simulation agrees_step initial orderly success
  exact ⟨ledger, followed, agrees.queue⟩

/-- A client of a node where every table is in one set and is called by its number. -/
def client : Session where
  myPGLogicalWorker := false
  localNode := some 1
  getNamespaceName _ := .ofString "public"
  getRelName reloid := .ofBytes (ascii "t" ++ decimal reloid.toNat)
  getTableReplicationSets _ _ := [.ofString "default"]

def idleBackend : Backend := ⟨[], [], []⟩

/-- A transaction that truncates tables 1 and 2 when a trigger before it truncates table 3, and then fails in
another TRUNCATE. -/
def beforeTrigger : List Event :=
  [.beginBlock, .startTruncate [1, 2], .startTruncate [3], .queueTruncate 3, .finishTruncate, .queueTruncate 1,
    .queueTruncate 2, .finishTruncate, .endBlock, .beginBlock, .startTruncate [1], .queueTruncate 1, .catchError]

theorem truncates_queued_once_before_trigger :
    ∃ ledger, run (stepLedger client) ⟨[], idleBackend.queue, idleBackend.saved⟩ beforeTrigger = some ledger ∧
      announced client [3, 1, 2] = ledger.queue := by
  have success : run (step client) ⟨[], idleBackend⟩ beforeTrigger =
      some ⟨[], ⟨[1], announced client [3, 1, 2], []⟩⟩ := by decide +kernel
  exact truncates_queued_once (by decide +kernel) success

/-- A trigger behind the queue trigger of table 1 truncates table 3. -/
def afterTrigger : List Event :=
  [.beginBlock, .startTruncate [1, 2], .queueTruncate 1, .startTruncate [3], .queueTruncate 3, .finishTruncate,
    .queueTruncate 2, .finishTruncate, .endBlock]

/-- The message for table 1 is lost. -/
theorem truncates_queued_once_after_trigger :
    (run (step client) ⟨[], idleBackend⟩ afterTrigger).map (fun state => state.backend.queue) =
        some (announced client [3, 2]) ∧
      (run (stepLedger client) ⟨[], idleBackend.queue, idleBackend.saved⟩ afterTrigger).map Ledger.queue =
        some (announced client [3, 1, 2]) ∧
      announced client [3, 2] ≠ announced client [3, 1, 2] := by
  decide +kernel

end PGLogical.TruncateQueue
