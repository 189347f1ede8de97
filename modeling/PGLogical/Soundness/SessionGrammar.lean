import PGLogical.Soundness.MessageGrammar
import PGLogical.Soundness.Transfer

/-! # A session follows the message grammar

Decoding hands over one transaction after the other, each with its BEGIN, its changes and its COMMIT.
What a worker reads of such a session is a prefix of the grammar of its message handler, wherever RELATION
messages stand and wherever an error has cut the session off. So the handler meets nothing out of order.
-/

namespace PGLogical.Transfer

open Machine Wire Native Callbacks Receiver

/-! ## Decoding order -/

/-- The transaction that is being handed over. Its COMMIT comes with its final position. -/
def order : Option Json.ReorderBufferTXN → Occurrence → Option (Option Json.ReorderBufferTXN)
  | none, .callback (.begin txn) => some (some txn)
  | some txn, .callback (.change ..) => some (some txn)
  | some txn, .callback (.commit committed commitLsn) =>
      if committed = txn ∧ commitLsn = txn.finalLsn then some none else none
  | current, .invalidate _ => some current
  | _, .callback _ => none

/-! ## Notices in the grammar -/

variable {Row : Type} {server : Server} {session : LocalCatalog} {data : Callbacks.PGLogicalOutputData}

/-- A message that was read, with what its handler meets. -/
inductive Interprets : Native.Message → Receiver.Message Row → Prop where
  | startup {params : List (CString × CString)} (accepted : Except String Unit) :
      Interprets (.startup params) (.startup accepted)
  | begin {lsn : UInt64} {time : Int64} {xid : UInt32} : Interprets (.begin lsn time xid) (.begin lsn time)
  | origin {originLsn : UInt64} {origin : CString} (remoteOriginId : UInt16) :
      Interprets (.origin originLsn origin) (.origin originLsn remoteOriginId)
  | relation {relid : Oid} : Interprets (.relation relid) .relation
  | insert {rel : PGLogicalRelation} {newtup : PGLogicalTupleData} (row : Row) (outcome : RowOutcome) :
      Interprets (.insert rel newtup) (.row .insert row outcome)
  | update {rel : PGLogicalRelation} {oldtup : Option PGLogicalTupleData} {newtup : PGLogicalTupleData} (row : Row)
      (outcome : RowOutcome) : Interprets (.update rel oldtup newtup) (.row .update row outcome)
  | delete {rel : PGLogicalRelation} {oldtup : PGLogicalTupleData} (row : Row) (outcome : RowOutcome) :
      Interprets (.delete rel oldtup) (.row .delete row outcome)
  | commit {lsn endLsn : UInt64} {time : Int64} (advance finish : Except String Unit) :
      Interprets (.commit lsn endLsn time) (.commit lsn endLsn time advance finish)

/-- The grammar on notices; a relation counts as described. -/
def Notice.next : Phase → Notice → Option Phase
  | .start, .startup => some .idle
  | .idle, .begin txn => some (.begun txn.finalLsn txn.commitTime)
  | .begun lsn time, .origin .. => some (.inside lsn time)
  | .begun lsn time, .describe _ => some (.inside lsn time)
  | .begun lsn time, .row .. => some (.inside lsn time)
  | .begun lsn time, .commit txn commitLsn => Phase.commit lsn time commitLsn txn.commitTime
  | .inside lsn time, .describe _ => some (.inside lsn time)
  | .inside lsn time, .row .. => some (.inside lsn time)
  | .inside lsn time, .commit txn commitLsn => Phase.commit lsn time commitLsn txn.commitTime
  | _, _ => none

/-- A relation that was not described leaves the messages behind the notices. -/
def Phase.Covers (stage phase : Phase) : Prop :=
  phase = stage ∨ ∃ lsn time, stage = .inside lsn time ∧ phase = .begun lsn time

theorem run_one {phase next : Phase} {message : Receiver.Message Row} (taken : phase.next message = some next) :
    run Phase.next phase [message] = some next := run_cons_eq_some_iff.mpr ⟨next, taken, rfl⟩

/-- The interpreted message of a row. -/
theorem row_of_means {rel : Relation} {change : ReorderBufferChange (HeapTuple rel.desc)} {attList : Option Bitmapset}
    {message : Native.Message} {interpreted : Receiver.Message Row}
    (means : Means server session (.row rel change attList) message) (interprets : Interprets message interpreted) :
    ∃ action row outcome, interpreted = .row action row outcome := by
  cases interprets with
  | insert row outcome => exact ⟨_, row, outcome, rfl⟩
  | update row outcome => exact ⟨_, row, outcome, rfl⟩
  | delete row outcome => exact ⟨_, row, outcome, rfl⟩
  | _ => exact means.elim

/-- In a transaction the messages may still be where only BEGIN has been read. -/
def Phase.Open (lsn : UInt64) (time : Int64) (phase : Phase) : Prop := phase = .begun lsn time ∨ phase = .inside lsn time

theorem Phase.Covers.open {stage phase : Phase} {lsn : UInt64} {time : Int64} (covers : Phase.Covers stage phase)
    (isOpen : Phase.Open lsn time stage) : Phase.Open lsn time phase := by
  rcases covers with rfl | ⟨lsn', time', rfl, rfl⟩
  · exact isOpen
  · rcases isOpen with impossible | same
    · cases impossible
    · cases same
      exact .inl rfl

theorem covers_next {stage stage' phase : Phase} {notice : Notice} {part : List Native.Message}
    {messages : List (Receiver.Message Row)} (covers : Phase.Covers stage phase) (taken : notice.next stage = some stage')
    (told : Told server session notice part) (interprets : List.Forall₂ Interprets part messages) :
    ∃ phase', run Phase.next phase messages = some phase' ∧ Phase.Covers stage' phase' := by
  rcases told with ⟨message, rfl, means⟩ | ⟨rel, rfl, rfl | rfl⟩
  · cases interprets with
    | @cons _ interpreted _ _ first rest =>
      cases rest
      cases notice with
      | startup =>
        cases stage <;> cases taken
        obtain rfl := covers.resolve_right (by rintro ⟨_, _, impossible, _⟩; cases impossible)
        cases means
        cases first
        exact ⟨.idle, run_one rfl, .inl rfl⟩
      | begin txn =>
        cases stage <;> cases taken
        obtain rfl := covers.resolve_right (by rintro ⟨_, _, impossible, _⟩; cases impossible)
        cases means
        cases first
        exact ⟨.begun txn.finalLsn txn.commitTime, run_one rfl, .inl rfl⟩
      | origin origin originLsn =>
        cases stage <;> cases taken
        obtain rfl := covers.resolve_right (by rintro ⟨_, _, impossible, _⟩; cases impossible)
        cases means
        cases first
        exact ⟨_, run_one rfl, .inl rfl⟩
      | describe rel => exact means.elim
      | row rel change attList =>
        obtain ⟨lsn, time, isOpen, rfl⟩ : ∃ lsn time, Phase.Open lsn time stage ∧ stage' = .inside lsn time := by
          cases stage <;> cases taken
          · exact ⟨_, _, .inl rfl, rfl⟩
          · exact ⟨_, _, .inr rfl, rfl⟩
        obtain ⟨action, row, outcome, rfl⟩ := row_of_means means first
        refine ⟨.inside lsn time, ?_, .inl rfl⟩
        rcases covers.open isOpen with rfl | rfl
        · exact run_one rfl
        · exact run_one rfl
      | commit txn commitLsn =>
        obtain ⟨lsn, time, isOpen, ends⟩ : ∃ lsn time, Phase.Open lsn time stage ∧
            Phase.commit lsn time commitLsn txn.commitTime = some stage' := by
          cases stage with
          | start => cases taken
          | idle => cases taken
          | begun lsn time => exact ⟨lsn, time, .inl rfl, taken⟩
          | inside lsn time => exact ⟨lsn, time, .inr rfl, taken⟩
        cases means
        cases first
        refine ⟨stage', ?_, .inl rfl⟩
        rcases covers.open isOpen with rfl | rfl
        · exact run_one ends
        · exact run_one ends
  all_goals
    obtain ⟨lsn, time, isOpen, rfl⟩ : ∃ lsn time, Phase.Open lsn time stage ∧ stage' = .inside lsn time := by
      cases stage <;> cases taken
      · exact ⟨_, _, .inl rfl, rfl⟩
      · exact ⟨_, _, .inr rfl, rfl⟩
  · cases interprets
    refine ⟨phase, rfl, ?_⟩
    rcases covers.open isOpen with rfl | rfl
    · exact .inr ⟨lsn, time, rfl, rfl⟩
    · exact .inl rfl
  · cases interprets with
    | cons first rest =>
      cases rest
      cases first
      refine ⟨.inside lsn time, ?_, .inl rfl⟩
      rcases covers.open isOpen with rfl | rfl
      · exact run_one rfl
      · exact run_one rfl

/-- The messages take the handler where the notices lead. -/
theorem covers_run {stage stage' phase : Phase} {notices : List Notice} {received : List Native.Message}
    {messages : List (Receiver.Message Row)} (covers : Phase.Covers stage phase)
    (ran : run (fun stage (notice : Notice) => notice.next stage) stage notices = some stage')
    (tells : Tells server session notices received) (interprets : List.Forall₂ Interprets received messages) :
    ∃ phase', run Phase.next phase messages = some phase' ∧ Phase.Covers stage' phase' := by
  obtain ⟨parts, rfl, told⟩ := tells
  induction told generalizing stage phase messages with
  | nil =>
    cases ran
    cases interprets
    exact ⟨phase, rfl, covers⟩
  | cons first rest ih =>
    obtain ⟨mid, taken, later⟩ := run_cons_eq_some_iff.mp ran
    rw [List.flatten_cons] at interprets
    obtain ⟨phase', ranEarly, covers'⟩ :=
      covers_next covers taken first (List.forall₂_take_append _ _ _ interprets.flip).flip
    obtain ⟨phase'', ranLate, covers''⟩ := ih covers' later (List.forall₂_drop_append _ _ _ interprets.flip).flip
    refine ⟨phase'', ?_, covers''⟩
    rw [← List.take_append_drop _ messages]
    exact run_append_eq_some_iff.mpr ⟨phase', ranEarly, ranLate⟩

/-! ## Announcements in decoding order -/

/-- Where the announcements are when this transaction is being handed over. -/
def Stage (sent : Bool) : Option Json.ReorderBufferTXN → Phase → Prop
  | none, stage => stage = if sent then .idle else .start
  | some txn, stage => sent = true ∧ Phase.Open txn.finalLsn txn.commitTime stage

theorem announced_begin {sent : Bool} {stage : Phase} (txn : Json.ReorderBufferTXN) (stands : Stage sent none stage) :
    ∃ stage', run (fun stage (notice : Notice) => notice.next stage) stage (announced server data sent (.begin txn)) =
      some stage' ∧ Stage true (some txn) stage' := by
  have origin : ∃ stage', run (fun stage (notice : Notice) => notice.next stage)
      (.begun txn.finalLsn txn.commitTime) (originNotice server data txn) = some stage' ∧
      Phase.Open txn.finalLsn txn.commitTime stage' := by
    unfold originNotice
    split
    · cases server.replOriginByOid txn.originId with
      | none => exact ⟨_, rfl, .inl rfl⟩
      | some name => exact ⟨_, rfl, .inr rfl⟩
    · exact ⟨_, rfl, .inl rfl⟩
  obtain ⟨stage', ran, isOpen⟩ := origin
  refine ⟨stage', run_append_eq_some_iff.mpr ⟨.idle, ?_, run_cons_eq_some_iff.mpr ⟨_, rfl, ran⟩⟩, rfl, isOpen⟩
  cases sent with
  | true =>
    cases stands
    rfl
  | false =>
    cases stands
    rfl

theorem announced_change {sent : Bool} {stage : Phase} {txn : Json.ReorderBufferTXN} {rel : Relation}
    {change : ReorderBufferChange (HeapTuple rel.desc)} {answer : Option (Option Bitmapset)}
    (inside : Stage sent (some txn) stage) :
    ∃ stage', run (fun stage (notice : Notice) => notice.next stage) stage
      (announced server data sent (.change rel change answer)) = some stage' ∧ Stage sent (some txn) stage' := by
  obtain ⟨isSent, isOpen⟩ := inside
  cases answer with
  | none => exact ⟨stage, rfl, isSent, isOpen⟩
  | some attList =>
    refine ⟨.inside txn.finalLsn txn.commitTime, run_cons_eq_some_iff.mpr ⟨.inside txn.finalLsn txn.commitTime, ?_, ?_⟩,
      isSent, .inr rfl⟩
    · rcases isOpen with rfl | rfl
      · rfl
      · rfl
    · split
      · rfl
      · rfl

theorem announced_commit {sent : Bool} {stage : Phase} {txn : Json.ReorderBufferTXN}
    (inside : Stage sent (some txn) stage) :
    ∃ stage', run (fun stage (notice : Notice) => notice.next stage) stage
      (announced server data sent (.commit txn txn.finalLsn)) = some stage' ∧ Stage sent none stage' := by
  obtain ⟨isSent, isOpen⟩ := inside
  refine ⟨.idle, run_cons_eq_some_iff.mpr ⟨.idle, ?_, rfl⟩, by rw [Stage, isSent]; rfl⟩
  have ends : Phase.commit txn.finalLsn txn.commitTime txn.finalLsn txn.commitTime = some .idle :=
    Phase.commit_eq_some.mpr ⟨rfl, rfl, rfl⟩
  rcases isOpen with rfl | rfl
  · exact ends
  · exact ends

/-- In decoding order the announcements follow the grammar. -/
theorem announcements_ordered {occurrences : List Occurrence} {current target : Option Json.ReorderBufferTXN} {sent : Bool}
    {stage : Phase} (stands : Stage sent current stage) (ordered : run order current occurrences = some target) :
    ∃ stage' sent', run (fun stage (notice : Notice) => notice.next stage) stage
      (announcements server data sent occurrences) = some stage' ∧ Stage sent' target stage' := by
  induction occurrences generalizing current sent stage with
  | nil =>
    cases ordered
    exact ⟨stage, sent, rfl, stands⟩
  | cons occurrence rest ih =>
    obtain ⟨next, taken, later⟩ := run_cons_eq_some_iff.mp ordered
    cases occurrence with
    | invalidate relid =>
      have same : next = current := by cases current <;> exact (Option.some.inj taken).symm
      subst same
      exact ih stands later
    | callback callback =>
      have step : ∃ mid, run (fun stage (notice : Notice) => notice.next stage) stage
          (announced server data sent callback) = some mid ∧ Stage (sent || isBegin callback) next mid := by
        cases current with
        | none =>
          cases callback with
          | begin txn =>
            cases taken
            rw [isBegin, Bool.or_true]
            exact announced_begin txn stands
          | change rel change answer => cases taken
          | commit txn commitLsn => cases taken
        | some txn =>
          cases callback with
          | begin other => cases taken
          | change rel change answer =>
            cases taken
            obtain ⟨mid, ran, inside⟩ := announced_change stands
            exact ⟨mid, ran, (Bool.or_false sent).symm ▸ inside⟩
          | commit committed commitLsn =>
            simp only [order] at taken
            split_ifs at taken with same
            obtain ⟨rfl, rfl⟩ := same
            cases taken
            obtain ⟨mid, ran, outside⟩ := announced_commit stands
            exact ⟨mid, ran, (Bool.or_false sent).symm ▸ outside⟩
      obtain ⟨mid, ran, stands⟩ := step
      obtain ⟨stage', sent', ranRest, last⟩ := ih stands later
      exact ⟨stage', sent', run_append_eq_some_iff.mpr ⟨mid, ran, ranRest⟩, last⟩

/-! ## Sessions -/

theorem agrees_of_run {messages : List (Receiver.Message Row)} {phase target : Phase} {remote isOpen : Bool}
    (agrees : phase.Agrees remote isOpen) (ran : run Phase.next phase messages = some target) :
    target.Agrees (messages.foldl Message.remoteAfter remote) (messages.foldl Message.localAfter isOpen) := by
  induction messages generalizing phase remote isOpen with
  | nil =>
    cases ran
    exact agrees
  | cons message rest ih =>
    obtain ⟨next, taken, later⟩ := run_cons_eq_some_iff.mp ran
    exact ih (Phase.agrees_next agrees taken) later

/-- What a worker reads of a session in decoding order is a prefix of its grammar. So the handler takes all of it
unless a message fails by itself, and behind a whole session that has ended between transactions it is in none. -/
theorem session_follows_grammar {publication : Publication server.catalog session} (native : data.proto = .native)
    (readable : Readable server.prepareStartupMessage) (occurrences : List Occurrence)
    (publishable : ∀ callback, .callback callback ∈ occurrences → Publishable publication data callback)
    {target : Option Json.ReorderBufferTXN} (ordered : run order none occurrences = some target)
    {cache : Output.RelMetaCache} (fresh : Fresh cache) (hash : PGLogicalRelationHash)
    (apart : publication.Apart hash) (arrivals : List Arrival)
    (arrived : arrivals.filterMap Arrival.payload =
      (stateOf (decoding server data occurrences (Context.start cache))).written) :
    ∃ received hash', receive ⟨server.catalog.io, session⟩ hash arrivals = .ok (received, hash') ∧
      ∀ messages : List (Receiver.Message Row), List.Forall₂ Interprets received messages →
        GrammarPrefix messages ∧
        ((∀ message ∈ messages, message.fails = false) → ∀ committed, ∃ after,
          process messages (Worker.start committed) = .ok () after ∧
          (target = none → (∃ ended, decoding server data occurrences (Context.start cache) = .ok () ended) →
            after.inRemoteTransaction = false ∧ after.transactionState = false)) := by
  have performs : Performs publication (decoding server data occurrences) (Context.start cache)
      (announcements server data false occurrences) := performs_decoding native readable publishable
  obtain ⟨received, hash', told, read, tells, short, whole⟩ :=
    performs.received (fresh.inStep apart) arrived
  refine ⟨received, hash', read, fun messages interprets => ?_⟩
  have start : Stage false none .start := rfl
  obtain ⟨stage, sent, ran, last⟩ := announcements_ordered start ordered
  obtain ⟨rest, split⟩ := short
  rw [← split] at ran
  obtain ⟨mid, ranTold, ranRest⟩ := run_append_eq_some_iff.mp ran
  obtain ⟨phase, ranMessages, covers⟩ := covers_run (.inl rfl) ranTold tells interprets
  have grammar : GrammarPrefix messages := grammarPrefix_iff.mpr ⟨phase, ranMessages⟩
  refine ⟨grammar, fun succeed committed => ?_⟩
  obtain ⟨after, done⟩ := process_of_grammarPrefix committed grammar succeed
  refine ⟨after, done, ?_⟩
  rintro rfl ⟨ended, finished⟩
  have nothing : rest = [] := by
    rw [whole ended finished] at split
    exact List.append_right_eq_self.mp split
  subst nothing
  cases ranRest
  have between : phase = .idle ∨ phase = .start := by
    cases sent with
    | true =>
      obtain rfl := last
      exact .inl (covers.resolve_right (by rintro ⟨_, _, impossible, _⟩; cases impossible))
    | false =>
      obtain rfl := last
      exact .inr (covers.resolve_right (by rintro ⟨_, _, impossible, _⟩; cases impossible))
  have closed : Phase.start.Agrees false false := ⟨rfl, rfl⟩
  have agrees := agrees_of_run closed ranMessages
  obtain ⟨remote, isOpen⟩ := flags_of_process done
  rw [remote, isOpen]
  rcases between with rfl | rfl
  · exact agrees
  · exact agrees

theorem session_follows_grammar_sample : ∃ received hash',
    receive ⟨sampleServer.catalog.io, sampleSession⟩ (.create false) sampleArrivals = .ok (received, hash') ∧
      ∀ messages : List (Receiver.Message ℕ), List.Forall₂ Interprets received messages → GrammarPrefix messages := by
  have ordered : run order none sampleOccurrences = some none := by rfl
  obtain ⟨received, hash', read, follows⟩ := @session_follows_grammar ℕ _ _ _ samplePublication rfl sample_readable
    sampleOccurrences sample_publishable _ ordered _ (fun _ _ present => by cases present) (.create false) sample_apart
    sampleArrivals sample_arrived
  exact ⟨received, hash', read, fun messages interprets => (follows messages interprets).1⟩

end PGLogical.Transfer
