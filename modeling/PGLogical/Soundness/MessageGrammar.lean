import Mathlib.Data.List.Induction
import PGLogical.Machine.Fallible
import PGLogical.Machine.Run
import PGLogical.Model.ReplicationHandler

/-! # The message grammar at the receiver

A stream is S (R | B O? (R | I | U | D)* C)*, with the fields of each COMMIT those of its BEGIN. Of
all this the receiver checks one rule, that an ORIGIN comes inside a remote transaction and before a
local one is open. Whatever else breaks the grammar is processed.
-/

namespace PGLogical.Receiver

open Machine

variable {Row : Type}

/-! ## The grammar -/

/-- The messages that may stand between BEGIN and COMMIT. -/
def Message.isBody : Message Row → Bool
  | .startup _ => false
  | .begin .. => false
  | .origin .. => false
  | .relation => true
  | .row .. => true
  | .commit .. => false

def originMessage : Option (UInt64 × UInt16) → List (Message Row)
  | none => []
  | some (originLsn, remoteOriginId) => [.origin originLsn remoteOriginId]

/-- (R | B O? (R | I | U | D)* C)* -/
inductive Stream : List (Message Row) → Prop where
  | nil : Stream []
  | relation {rest : List (Message Row)} : Stream rest → Stream (.relation :: rest)
  | transaction {lsn endLsn : UInt64} {time : Int64} {advance finish : Except String Unit}
      {body rest : List (Message Row)} (origin : Option (UInt64 × UInt16)) :
      (∀ message ∈ body, message.isBody = true) → Stream rest →
      Stream (.begin lsn time :: (originMessage origin ++ (body ++ .commit lsn endLsn time advance finish :: rest)))

/-- A prefix of a stream that starts with S. -/
def GrammarPrefix (messages : List (Message Row)) : Prop :=
  ∃ params stream, Stream stream ∧ messages <+: .startup params :: stream

/-- Where in the grammar a stream is. -/
inductive Phase where
  | start
  | idle
  | begun (lsn : UInt64) (time : Int64)
  | inside (lsn : UInt64) (time : Int64)

def Phase.commit (lsn : UInt64) (time : Int64) (commitLsn : UInt64) (commitTime : Int64) : Option Phase :=
  if commitLsn = lsn ∧ commitTime = time then some .idle else none

def Phase.next : Phase → Message Row → Option Phase
  | .start, .startup _ => some .idle
  | .start, _ => none
  | .idle, .relation => some .idle
  | .idle, .begin lsn time => some (.begun lsn time)
  | .idle, _ => none
  | .begun lsn time, .origin .. => some (.inside lsn time)
  | .begun lsn time, .relation => some (.inside lsn time)
  | .begun lsn time, .row .. => some (.inside lsn time)
  | .begun lsn time, .commit commitLsn _ commitTime _ _ => Phase.commit lsn time commitLsn commitTime
  | .begun .., _ => none
  | .inside lsn time, .relation => some (.inside lsn time)
  | .inside lsn time, .row .. => some (.inside lsn time)
  | .inside lsn time, .commit commitLsn _ commitTime _ _ => Phase.commit lsn time commitLsn commitTime
  | .inside .., _ => none

theorem Phase.commit_eq_some {lsn commitLsn : UInt64} {time commitTime : Int64} {phase : Phase} :
    Phase.commit lsn time commitLsn commitTime = some phase ↔ commitLsn = lsn ∧ commitTime = time ∧ phase = .idle := by
  unfold Phase.commit
  split
  · next same => simp [same, eq_comm]
  · next differ =>
    simp only [reduceCtorEq, false_iff]
    exact fun same => differ ⟨same.1, same.2.1⟩

/-- What may follow in a phase. -/
def Follows : Phase → List (Message Row) → Prop
  | .start, messages => ∃ params stream, messages = .startup params :: stream ∧ Stream stream
  | .idle, messages => Stream messages
  | .begun lsn time, messages => ∃ origin body endLsn advance finish rest,
      messages = originMessage origin ++ (body ++ .commit lsn endLsn time advance finish :: rest) ∧
        (∀ message ∈ body, message.isBody = true) ∧ Stream rest
  | .inside lsn time, messages => ∃ body endLsn advance finish rest,
      messages = body ++ .commit lsn endLsn time advance finish :: rest ∧
        (∀ message ∈ body, message.isBody = true) ∧ Stream rest

theorem exists_follows (phase : Phase) : ∃ messages : List (Message Row), Follows phase messages := by
  cases phase with
  | start => exact ⟨_, .ok (), [], rfl, .nil⟩
  | idle => exact ⟨[], .nil⟩
  | begun lsn time => exact ⟨_, none, [], 0, .ok (), .ok (), [], rfl, by simp, .nil⟩
  | inside lsn time => exact ⟨_, [], 0, .ok (), .ok (), [], rfl, by simp, .nil⟩

theorem follows_inside_cons {lsn : UInt64} {time : Int64} {message : Message Row} {messages : List (Message Row)} :
    Follows (.inside lsn time) (message :: messages) ↔
      ∃ phase, (Phase.inside lsn time).next message = some phase ∧ Follows phase messages := by
  constructor
  · rintro ⟨body, endLsn, advance, finish, rest, split, allBody, stream⟩
    cases body with
    | nil =>
      cases split
      exact ⟨.idle, by simp [Phase.next, Phase.commit], stream⟩
    | cons first more =>
      obtain ⟨rfl, rfl⟩ := List.cons.inj split
      have moreBody : ∀ message ∈ more, message.isBody = true :=
        fun message inside => allBody message (List.mem_cons_of_mem _ inside)
      have isBody := allBody message (List.mem_cons_self ..)
      refine ⟨.inside lsn time, ?_, more, endLsn, advance, finish, rest, rfl, moreBody, stream⟩
      cases message <;> first | rfl | exact absurd isBody (by simp [Message.isBody])
  · rintro ⟨phase, taken, follows⟩
    have body : message.isBody = true → phase = .inside lsn time → Follows (.inside lsn time) (message :: messages) := by
      rintro isBody rfl
      obtain ⟨body, endLsn, advance, finish, rest, rfl, allBody, stream⟩ := follows
      refine ⟨message :: body, endLsn, advance, finish, rest, rfl, ?_, stream⟩
      intro one inside
      rcases List.mem_cons.mp inside with rfl | later
      · exact isBody
      · exact allBody one later
    cases message with
    | startup params => cases taken
    | begin lsn' time' => cases taken
    | origin originLsn remoteOriginId => cases taken
    | relation => exact body rfl (Option.some.inj taken).symm
    | row action row outcome => exact body rfl (Option.some.inj taken).symm
    | commit commitLsn endLsn commitTime advance finish =>
      obtain ⟨rfl, rfl, rfl⟩ := Phase.commit_eq_some.mp taken
      exact ⟨[], endLsn, advance, finish, messages, rfl, by simp, follows⟩

/-- An ORIGIN may follow a BEGIN, and whatever may follow it. -/
theorem follows_begun_iff {lsn : UInt64} {time : Int64} {messages : List (Message Row)} :
    Follows (.begun lsn time) messages ↔ Follows (.inside lsn time) messages ∨
      ∃ originLsn remoteOriginId rest, messages = .origin originLsn remoteOriginId :: rest ∧
        Follows (.inside lsn time) rest := by
  constructor
  · rintro ⟨origin, body, endLsn, advance, finish, rest, rfl, allBody, stream⟩
    cases origin with
    | none => exact .inl ⟨body, endLsn, advance, finish, rest, rfl, allBody, stream⟩
    | some origin => exact .inr ⟨origin.1, origin.2, _, rfl, body, endLsn, advance, finish, rest, rfl, allBody, stream⟩
  · rintro (⟨body, endLsn, advance, finish, rest, rfl, allBody, stream⟩ |
      ⟨originLsn, remoteOriginId, _, rfl, body, endLsn, advance, finish, rest, rfl, allBody, stream⟩)
    · exact ⟨none, body, endLsn, advance, finish, rest, rfl, allBody, stream⟩
    · exact ⟨some (originLsn, remoteOriginId), body, endLsn, advance, finish, rest, rfl, allBody, stream⟩

theorem follows_begun_cons {lsn : UInt64} {time : Int64} {message : Message Row} {messages : List (Message Row)} :
    Follows (.begun lsn time) (message :: messages) ↔
      ∃ phase, (Phase.begun lsn time).next message = some phase ∧ Follows phase messages := by
  rw [follows_begun_iff, follows_inside_cons]
  cases message with
  | origin originLsn remoteOriginId =>
    constructor
    · rintro (⟨_, taken, _⟩ | ⟨_, _, rest, same, follows⟩)
      · cases taken
      · cases same
        exact ⟨_, rfl, follows⟩
    · rintro ⟨_, taken, follows⟩
      cases taken
      exact .inr ⟨originLsn, remoteOriginId, messages, rfl, follows⟩
  | startup params => simp [Phase.next]
  | begin lsn' time' => simp [Phase.next]
  | relation => simp [Phase.next]
  | row action row outcome => simp [Phase.next]
  | commit commitLsn endLsn commitTime advance finish => simp [Phase.next]

theorem follows_idle_cons {message : Message Row} {messages : List (Message Row)} :
    Follows .idle (message :: messages) ↔ ∃ phase, Phase.idle.next message = some phase ∧ Follows phase messages := by
  constructor
  · intro stream
    cases stream with
    | relation rest => exact ⟨.idle, rfl, rest⟩
    | transaction origin allBody rest => exact ⟨_, rfl, origin, _, _, _, _, _, rfl, allBody, rest⟩
  · rintro ⟨phase, taken, follows⟩
    cases message with
    | startup params => cases taken
    | begin lsn time =>
      cases taken
      obtain ⟨origin, body, endLsn, advance, finish, rest, rfl, allBody, stream⟩ := follows
      exact Stream.transaction origin allBody stream
    | origin originLsn remoteOriginId => cases taken
    | relation =>
      cases taken
      exact Stream.relation follows
    | row action row outcome => cases taken
    | commit commitLsn endLsn commitTime advance finish => cases taken

theorem follows_cons {phase : Phase} {message : Message Row} {messages : List (Message Row)} :
    Follows phase (message :: messages) ↔ ∃ next, phase.next message = some next ∧ Follows next messages := by
  cases phase with
  | start =>
    constructor
    · rintro ⟨params, stream, same, follows⟩
      cases same
      exact ⟨.idle, rfl, follows⟩
    · rintro ⟨next, taken, follows⟩
      cases message with
      | startup params =>
        cases taken
        exact ⟨params, messages, rfl, follows⟩
      | begin lsn time => cases taken
      | origin originLsn remoteOriginId => cases taken
      | relation => cases taken
      | row action row outcome => cases taken
      | commit commitLsn endLsn commitTime advance finish => cases taken
  | idle => exact follows_idle_cons
  | begun lsn time => exact follows_begun_cons
  | inside lsn time => exact follows_inside_cons

theorem exists_suffix_iff {phase : Phase} {messages : List (Message Row)} :
    (∃ suffix, Follows phase (messages ++ suffix)) ↔ ∃ target, run Phase.next phase messages = some target := by
  induction messages generalizing phase with
  | nil => exact iff_of_true (exists_follows phase) ⟨phase, rfl⟩
  | cons message rest ih =>
    simp only [List.cons_append, follows_cons, run_cons_eq_some_iff]
    constructor
    · rintro ⟨suffix, next, taken, follows⟩
      obtain ⟨target, ran⟩ := ih.mp ⟨suffix, follows⟩
      exact ⟨target, next, taken, ran⟩
    · rintro ⟨target, next, taken, ran⟩
      obtain ⟨suffix, follows⟩ := ih.mpr ⟨target, ran⟩
      exact ⟨suffix, next, taken, follows⟩

/-- The phases recognise the prefixes of the grammar. -/
theorem grammarPrefix_iff {messages : List (Message Row)} :
    GrammarPrefix messages ↔ ∃ phase, run Phase.next .start messages = some phase := by
  rw [← exists_suffix_iff]
  constructor
  · rintro ⟨params, stream, isStream, suffix, split⟩
    exact ⟨suffix, params, stream, split, isStream⟩
  · rintro ⟨suffix, params, stream, split, isStream⟩
    exact ⟨params, stream, isStream, suffix, split⟩

/-! ## What the handler does with the flags -/

/-- Processing the message ends in an ERROR of its own. -/
def Message.fails : Message Row → Bool
  | .startup (.error _) => true
  | .row _ _ (.fails _) => true
  | .commit _ _ _ (.error _) _ => true
  | .commit _ _ _ _ (.error _) => true
  | _ => false

/-- `in_remote_transaction` behind a message. -/
def Message.remoteAfter (remote : Bool) : Message Row → Bool
  | .begin .. => true
  | .commit .. => false
  | _ => remote

/-- `IsTransactionState()` behind a message. -/
def Message.localAfter (isOpen : Bool) : Message Row → Bool
  | .origin .. => true
  | .row _ _ .endsTransaction => false
  | .row .. => true
  | .commit .. => false
  | _ => isOpen

/-- The check that `handle_origin` makes. -/
def Message.outOfOrder (remote isOpen : Bool) : Message Row → Bool
  | .origin .. => !remote || isOpen
  | _ => false

/-- The message ends in an ERROR that comes before anything has changed. -/
def Message.refused (remote isOpen : Bool) : Message Row → Bool
  | .startup (.error _) => true
  | .origin .. => !remote || isOpen
  | .row _ _ (.fails _) => isOpen
  | .commit _ _ _ (.error _) _ => !isOpen
  | .commit _ _ _ _ (.error _) => !isOpen && !remote
  | _ => false

def remoteOpen (messages : List (Message Row)) : Bool := messages.foldl Message.remoteAfter false

def localOpen (messages : List (Message Row)) : Bool := messages.foldl Message.localAfter false

theorem commitLocal_transactionState (endLsn : UInt64) (worker : Worker Row) :
    (commitLocal endLsn worker).transactionState = false := by
  unfold commitLocal
  split
  · rfl
  · next closed => simpa using closed

theorem commitLocal_eq_self_iff {endLsn : UInt64} {worker : Worker Row} :
    commitLocal endLsn worker = worker ↔ worker.transactionState = false := by
  constructor
  · intro same
    rw [← same]
    exact commitLocal_transactionState endLsn worker
  · intro closed
    simp [commitLocal, closed]

theorem commitLocal_finished_eq_self_iff {endLsn : UInt64} {worker : Worker Row} :
    { commitLocal endLsn worker with inRemoteTransaction := false } = worker ↔
      worker.transactionState = false ∧ worker.inRemoteTransaction = false := by
  constructor
  · intro same
    rw [← same]
    exact ⟨commitLocal_transactionState endLsn worker, rfl⟩
  · rintro ⟨closed, outside⟩
    rw [commitLocal_eq_self_iff.mpr closed, ← outside]

theorem handleOrigin_run (originLsn : UInt64) (remoteOriginId : UInt16) (worker : Worker Row) :
    handleOrigin originLsn remoteOriginId worker =
      if !worker.inRemoteTransaction || worker.transactionState then .error "ORIGIN message sent out of order" worker
      else .ok () { worker with
        transactionState := true, remoteOriginLsn := originLsn, remoteOriginId := remoteOriginId } := by
  cases order : (!worker.inRemoteTransaction || worker.transactionState) with
  | true =>
    simp only [handleOrigin, bind, EStateM.bind, run_get, order]
    rfl
  | false =>
    simp only [handleOrigin, bind, EStateM.bind, run_get, order]
    rfl

/-- How processing a message ends: with the flags behind the message, or with an ERROR. -/
inductive Handled (message : Message Row) (worker : Worker Row) : Prop where
  | processed (after : Worker Row) (succeeds : message.fails = false)
      (inOrder : message.outOfOrder worker.inRemoteTransaction worker.transactionState = false)
      (handled : replicationHandler message worker = .ok () after)
      (remote : after.inRemoteTransaction = message.remoteAfter worker.inRemoteTransaction)
      (isOpen : after.transactionState = message.localAfter worker.transactionState)
  | failed (error : String) (after : Worker Row) (handled : replicationHandler message worker = .error error after)
      (cause : message.fails = true ∨
        message.outOfOrder worker.inRemoteTransaction worker.transactionState = true)
      (unchanged : after = worker ↔ message.refused worker.inRemoteTransaction worker.transactionState = true)

theorem handled (message : Message Row) (worker : Worker Row) : Handled message worker := by
  cases message with
  | startup params =>
    cases params with
    | error error => exact .failed error worker rfl (.inl rfl) (by simp [Message.refused])
    | ok params => exact .processed worker rfl rfl rfl rfl rfl
  | begin commitLsn commitTime => exact .processed _ rfl rfl rfl rfl rfl
  | origin originLsn remoteOriginId =>
    cases order : (!worker.inRemoteTransaction || worker.transactionState) with
    | true =>
      refine .failed "ORIGIN message sent out of order" worker ?_ (.inr order) (by simp [Message.refused, order])
      rw [replicationHandler, handleOrigin_run, if_pos order]
    | false =>
      refine .processed { worker with
        transactionState := true, remoteOriginLsn := originLsn, remoteOriginId := remoteOriginId } rfl order ?_ rfl rfl
      rw [replicationHandler, handleOrigin_run, if_neg (by simp [order])]
  | relation => exact .processed worker rfl rfl rfl rfl rfl
  | row action row outcome =>
    cases outcome with
    | applied => exact .processed _ rfl rfl rfl rfl rfl
    | skipped => exact .processed _ rfl rfl rfl rfl rfl
    | endsTransaction => exact .processed _ rfl rfl rfl rfl rfl
    | fails error =>
      refine .failed error { worker with transactionState := true } rfl (.inl rfl) ?_
      cases worker
      simp [Message.refused, eq_comm]
  | commit commitLsn endLsn commitTime advance finish =>
    cases advance with
    | error error => exact .failed error _ rfl (.inl rfl) (by simp [Message.refused, commitLocal_eq_self_iff])
    | ok advance =>
      cases finish with
      | error error =>
        refine .failed error { commitLocal endLsn worker with inRemoteTransaction := false } rfl (.inl rfl) ?_
        simp [Message.refused, commitLocal_finished_eq_self_iff]
      | ok finish =>
        exact .processed _ rfl rfl rfl rfl (commitLocal_transactionState endLsn worker)

/-! ## A sequence of messages -/

theorem flags_of_handler {message : Message Row} {worker after : Worker Row}
    (done : replicationHandler message worker = .ok () after) :
    after.inRemoteTransaction = message.remoteAfter worker.inRemoteTransaction ∧
      after.transactionState = message.localAfter worker.transactionState := by
  cases handled message worker with
  | processed next succeeds inOrder ran remote isOpen =>
    rw [done] at ran
    cases ran
    exact ⟨remote, isOpen⟩
  | failed error next ran cause unchanged =>
    rw [done] at ran
    cases ran

theorem succeeds_of_handler {message : Message Row} {worker after : Worker Row}
    (done : replicationHandler message worker = .ok () after) : message.fails = false := by
  cases handled message worker with
  | processed next succeeds inOrder ran remote isOpen => exact succeeds
  | failed error next ran cause unchanged =>
    rw [done] at ran
    cases ran

theorem cause_of_refused {message : Message Row} {remote isOpen : Bool} (refused : message.refused remote isOpen = true) :
    message.fails = true ∨ message.outOfOrder remote isOpen = true := by
  unfold Message.refused at refused
  split at refused
  · exact .inl rfl
  · exact .inr refused
  · exact .inl rfl
  · exact .inl rfl
  · next advance finish _ => cases advance <;> exact .inl rfl
  · cases refused

/-- A message is refused exactly when it ends in an ERROR and leaves the worker as it was. -/
theorem refused_iff {message : Message Row} {worker : Worker Row} :
    (∃ error, replicationHandler message worker = .error error worker) ↔
      message.refused worker.inRemoteTransaction worker.transactionState = true := by
  cases handled message worker with
  | processed after succeeds inOrder ran remote isOpen =>
    have notRefused : message.refused worker.inRemoteTransaction worker.transactionState ≠ true := by
      intro refused
      simpa [succeeds, inOrder] using cause_of_refused refused
    simp [ran, notRefused]
  | failed error after ran cause unchanged =>
    rw [← unchanged, ran]
    simp

theorem flags_of_process {messages : List (Message Row)} {worker after : Worker Row}
    (done : process messages worker = .ok () after) :
    after.inRemoteTransaction = messages.foldl Message.remoteAfter worker.inRemoteTransaction ∧
      after.transactionState = messages.foldl Message.localAfter worker.transactionState := by
  induction messages generalizing worker with
  | nil =>
    cases done
    exact ⟨rfl, rfl⟩
  | cons message rest ih =>
    obtain ⟨next, now, later⟩ := run_forM_cons_eq_ok.mp done
    obtain ⟨remote, isOpen⟩ := flags_of_handler now
    rw [List.foldl_cons, List.foldl_cons, ← remote, ← isOpen]
    exact ih later

theorem succeeds_of_process {messages : List (Message Row)} {worker after : Worker Row}
    (done : process messages worker = .ok () after) : ∀ message ∈ messages, message.fails = false := by
  induction messages generalizing worker with
  | nil => simp
  | cons message rest ih =>
    obtain ⟨next, now, later⟩ := run_forM_cons_eq_ok.mp done
    exact List.forall_mem_cons.mpr ⟨succeeds_of_handler now, ih later⟩

/-- The flags that go with a phase. Inside a transaction a local one need not be open. -/
def Phase.Agrees (remote isOpen : Bool) : Phase → Prop
  | .start => remote = false ∧ isOpen = false
  | .idle => remote = false ∧ isOpen = false
  | .begun .. => remote = true ∧ isOpen = false
  | .inside .. => remote = true

theorem Phase.agrees_next {phase next : Phase} {message : Message Row} {remote isOpen : Bool}
    (agrees : phase.Agrees remote isOpen) (taken : phase.next message = some next) :
    next.Agrees (message.remoteAfter remote) (message.localAfter isOpen) := by
  cases message with
  | startup params =>
    cases phase <;> cases taken
    exact agrees
  | begin lsn time =>
    cases phase <;> cases taken
    exact ⟨rfl, agrees.2⟩
  | origin originLsn remoteOriginId =>
    cases phase <;> cases taken
    exact agrees.1
  | relation =>
    cases phase <;> cases taken
    · exact agrees
    · exact agrees.1
    · exact agrees
  | row action row outcome =>
    cases phase <;> cases taken
    · exact agrees.1
    · exact agrees
  | commit commitLsn endLsn commitTime advance finish =>
    have idle : next = .idle := by
      cases phase with
      | start => cases taken
      | idle => cases taken
      | begun lsn time => exact (Phase.commit_eq_some.mp taken).2.2
      | inside lsn time => exact (Phase.commit_eq_some.mp taken).2.2
    rw [idle]
    exact ⟨rfl, rfl⟩

theorem Phase.inOrder_of_next {phase next : Phase} {message : Message Row} {remote isOpen : Bool}
    (agrees : phase.Agrees remote isOpen) (taken : phase.next message = some next) :
    message.outOfOrder remote isOpen = false := by
  cases message with
  | origin originLsn remoteOriginId =>
    cases phase <;> cases taken
    simp [Message.outOfOrder, agrees.1, agrees.2]
  | _ => rfl

/-- What the grammar allows and what does not fail by itself is processed. -/
theorem process_of_run {messages : List (Message Row)} {phase target : Phase} {worker : Worker Row}
    (agrees : phase.Agrees worker.inRemoteTransaction worker.transactionState)
    (ran : run Phase.next phase messages = some target) (succeed : ∀ message ∈ messages, message.fails = false) :
    ∃ after, process messages worker = .ok () after := by
  induction messages generalizing phase worker with
  | nil => exact ⟨worker, rfl⟩
  | cons message rest ih =>
    obtain ⟨next, taken, later⟩ := run_cons_eq_some_iff.mp ran
    obtain ⟨succeeds, restSucceed⟩ := List.forall_mem_cons.mp succeed
    cases handled message worker with
    | failed error after ran cause unchanged =>
      simp [succeeds, Phase.inOrder_of_next agrees taken] at cause
    | processed mid _ _ now remote isOpen =>
      have midAgrees := Phase.agrees_next agrees taken
      rw [← remote, ← isOpen] at midAgrees
      obtain ⟨after, done⟩ := ih midAgrees later restSucceed
      exact ⟨after, run_forM_cons_eq_ok.mpr ⟨mid, now, done⟩⟩

/-! ## When the grammar is enforced -/

/-- Processing goes on only while the messages follow the grammar, and the message that breaks it is rejected
before it changes anything. -/
structure Enforced (committed : List Row) (messages : List (Message Row)) : Prop where
  continues : ∀ before, before <+: messages →
    ∀ worker, process before (Worker.start committed) = .ok () worker → GrammarPrefix before
  rejects : ∀ before message, before ++ [message] <+: messages →
    ∀ worker, process before (Worker.start committed) = .ok () worker → ¬ GrammarPrefix (before ++ [message]) →
      ∃ error, replicationHandler message worker = .error error worker

/-- Each message that breaks the grammar is an ORIGIN outside a remote transaction or with a local one open,
or raises an error of its own before anything has changed, unless one before it has failed. -/
def BreachesRefused (messages : List (Message Row)) : Prop :=
  ∀ before message, before ++ [message] <+: messages → GrammarPrefix before → ¬ GrammarPrefix (before ++ [message]) →
    (∃ earlier ∈ before, earlier.fails = true) ∨ message.refused (remoteOpen before) (localOpen before) = true

theorem process_of_grammarPrefix (committed : List Row) {messages : List (Message Row)}
    (isPrefix : GrammarPrefix messages) (succeed : ∀ message ∈ messages, message.fails = false) :
    ∃ after, process messages (Worker.start committed) = .ok () after := by
  obtain ⟨target, ran⟩ := grammarPrefix_iff.mp isPrefix
  have agrees : Phase.start.Agrees false false := ⟨rfl, rfl⟩
  exact process_of_run agrees ran succeed

theorem refused_behind_iff {committed : List Row} {before : List (Message Row)} {message : Message Row}
    {worker : Worker Row} (done : process before (Worker.start committed) = .ok () worker) :
    (∃ error, replicationHandler message worker = .error error worker) ↔
      message.refused (remoteOpen before) (localOpen before) = true := by
  obtain ⟨remote, isOpen⟩ := flags_of_process done
  rw [refused_iff, remote, isOpen]
  rfl

theorem grammarPrefix_nil : GrammarPrefix ([] : List (Message Row)) := ⟨.ok (), [], .nil, List.nil_prefix⟩

theorem grammarPrefix_of_process {committed : List Row} {messages before : List (Message Row)} {worker : Worker Row}
    (refused : BreachesRefused messages) (inside : before <+: messages)
    (done : process before (Worker.start committed) = .ok () worker) : GrammarPrefix before := by
  induction before using List.reverseRecOn generalizing worker with
  | nil => exact grammarPrefix_nil
  | append_singleton before message ih =>
    obtain ⟨mid, earlier, last⟩ := run_forM_append_eq_ok.mp done
    have sofar : GrammarPrefix before := ih ((List.prefix_append before [message]).trans inside) earlier
    by_contra breach
    rcases refused before message inside sofar breach with ⟨first, listed, fails⟩ | refuses
    · rw [succeeds_of_process earlier first listed] at fails
      cases fails
    · obtain ⟨error, failed⟩ := (refused_behind_iff earlier).mpr refuses
      obtain ⟨_, processed, _⟩ := run_forM_cons_eq_ok.mp last
      rw [failed] at processed
      cases processed

theorem grammar_enforced_iff (committed : List Row) (messages : List (Message Row)) :
    Enforced committed messages ↔ BreachesRefused messages := by
  constructor
  · intro enforced before message inside sofar breach
    by_cases failing : ∃ earlier ∈ before, earlier.fails = true
    · exact .inl failing
    · have succeed : ∀ earlier ∈ before, earlier.fails = false := by simpa using failing
      obtain ⟨worker, done⟩ := process_of_grammarPrefix committed sofar succeed
      exact .inr ((refused_behind_iff done).mp (enforced.rejects before message inside worker done breach))
  · intro refused
    refine ⟨fun before inside worker done => grammarPrefix_of_process refused inside done, ?_⟩
    intro before message inside worker done breach
    have sofar := grammarPrefix_of_process refused ((List.prefix_append before [message]).trans inside) done
    rcases refused before message inside sofar breach with ⟨first, listed, fails⟩ | refuses
    · rw [succeeds_of_process done first listed] at fails
      cases fails
    · exact (refused_behind_iff done).mpr refuses

/-- S R I: a row outside a transaction starts a local transaction and is written. -/
theorem row_outside_transaction_processed :
    ∃ worker, process [.startup (.ok ()), .relation, .row .insert 7 .applied] (Worker.start ([] : List Nat)) =
        .ok () worker ∧
      worker.written = [7] ∧ worker.inRemoteTransaction = false ∧ worker.transactionState = true ∧
      ¬ GrammarPrefix ([.startup (.ok ()), .relation, .row .insert 7 .applied] : List (Message Nat)) ∧
      ¬ Enforced ([] : List Nat) [.startup (.ok ()), .relation, .row .insert 7 .applied] := by
  have breach : ¬ GrammarPrefix ([.startup (.ok ()), .relation, .row .insert 7 .applied] : List (Message Nat)) := by
    rw [grammarPrefix_iff]
    rintro ⟨phase, ran⟩
    cases ran
  refine ⟨_, rfl, rfl, rfl, rfl, breach, fun enforced => ?_⟩
  exact breach (enforced.continues _ (List.prefix_refl _) _ rfl)

end PGLogical.Receiver
