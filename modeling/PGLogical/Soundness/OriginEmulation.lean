import PGLogical.Machine.Run
import PGLogical.Model.OriginEmulation

/-! # Progress under the origin emulation

The stored position of an origin is the one that has been replayed, and goes back only where it is told to.
This needs three things of a run: remote transactions commit in LSN order, other commits find the session's
LSN equal to the stored one, and an advance that may not go backward does not. The commit that ends the
start-up of a worker breaks the second: the session's LSN is still zero then.
-/

namespace PGLogical.OriginEmulation

open Machine

variable {s next : State} {event : Event}

/-- What a step has to meet. -/
def Meets (s : State) : Event → Prop
  | .commitRemote => ∀ session lsn, s.sessionReplicationState = some session →
      s.origins session.roident = some lsn → lsn ≤ s.sessionOriginLsn
  | .commitLocal => ∀ session lsn, s.sessionReplicationState = some session →
      s.origins session.roident = some lsn → s.sessionOriginLsn = lsn
  | .advance node remoteCommit goBackward =>
      goBackward = true ∨ ∀ lsn, s.origins node = some lsn → lsn ≤ remoteCommit
  | _ => True

/-- A stored position decreases only by an advance that may go backward. -/
def NeverBack (s : State) (event : Event) (next : State) : Prop :=
  ∀ node lsn lsn', s.origins node = some lsn → next.origins node = some lsn' → lsn' < lsn →
    ∃ remoteCommit, event = .advance node remoteCommit true

/-- Identifiers with a meaning of their own have no row. -/
structure Sane (s : State) : Prop where
  sessionOrigin : ∀ session, s.sessionReplicationState = some session → s.sessionOrigin = session.roident
  invalid : s.origins invalidRepOriginId = none
  doNotReplicate : s.origins doNotReplicateId = none

/-- The invariant. -/
structure Tracks (s : State) : Prop extends Sane s where
  replayed : ∀ node lsn, s.origins node = some lsn → s.replayed node = lsn

/-! ## What a commit stores -/

/-- The rows when one origin is set to a position. -/
def stored (origins : RepOriginId → Option ℕ) (node : RepOriginId) (lsn : ℕ) :
    RepOriginId → Option ℕ :=
  Function.update origins node ((origins node).map fun _ => lsn)

theorem stored_eq_some {origins : RepOriginId → Option ℕ} {node other : RepOriginId} {lsn found : ℕ} :
    stored origins node lsn other = some found ↔
      (other = node ∧ found = lsn ∧ (origins node).isSome) ∨ (other ≠ node ∧ origins other = some found) := by
  by_cases same : other = node
  · subst same
    cases held : origins other with
    | none => simp [stored, held]
    | some old => simp [stored, held, eq_comm]
  · simp [stored, same]

theorem stored_of_none {origins : RepOriginId → Option ℕ} {node : RepOriginId} (none_there : origins node = none)
    (lsn : ℕ) : stored origins node lsn = origins := by
  rw [stored, none_there, Option.map_none, ← none_there, Function.update_eq_self]

theorem origins_advance (s : State) (none_there : s.origins doNotReplicateId = none) (node : RepOriginId) (lsn : ℕ) :
    (reploriginAdvance s node lsn).origins = stored s.origins node lsn := by
  unfold reploriginAdvance
  split_ifs with reserved
  · rw [reserved, stored_of_none none_there]
  · rfl

theorem advance_frame (s : State) (node : RepOriginId) (lsn : ℕ) :
    (reploriginAdvance s node lsn).replayed = s.replayed ∧
      (reploriginAdvance s node lsn).sessionReplicationState = s.sessionReplicationState ∧
      (reploriginAdvance s node lsn).sessionOrigin = s.sessionOrigin := by
  unfold reploriginAdvance
  split_ifs
  · exact ⟨rfl, rfl, rfl⟩
  · exact ⟨rfl, rfl, rfl⟩

theorem origins_sessionAdvance (s : State) (none_there : s.origins doNotReplicateId = none) (session : ReplicationState)
    (lsn : ℕ) : (reploriginSessionAdvance s session lsn).origins = stored s.origins session.roident lsn := by
  simp only [reploriginSessionAdvance]
  split_ifs
  · rw [origins_advance]
    exact none_there
  · rw [origins_advance]
    exact none_there

/-- The callback writes the session's LSN to the row of the session's origin. -/
theorem origins_xactCb (sane : Sane s) {session : ReplicationState}
    (setUp : s.sessionReplicationState = some session) :
    (sessionOriginXactCb s).origins = stored s.origins session.roident s.sessionOriginLsn := by
  have origin := sane.sessionOrigin session setUp
  unfold sessionOriginXactCb
  rw [setUp]
  dsimp only
  split_ifs with usable
  · exact origins_sessionAdvance s sane.doNotReplicate session _
  · have none_there : s.origins session.roident = none := by
      rw [← origin]
      by_cases isInvalid : s.sessionOrigin = invalidRepOriginId
      · rw [isInvalid]
        exact sane.invalid
      · have reserved : s.sessionOrigin = doNotReplicateId := by
          by_contra other
          exact usable ⟨isInvalid, other⟩
        rw [reserved]
        exact sane.doNotReplicate
    rw [stored_of_none none_there]

theorem xactCb_eq_self (none_set : s.sessionReplicationState = none) : sessionOriginXactCb s = s := by
  unfold sessionOriginXactCb
  rw [none_set]

theorem xactCb_frame (s : State) :
    (sessionOriginXactCb s).replayed = s.replayed ∧ (sessionOriginXactCb s).sessionOrigin = s.sessionOrigin := by
  unfold sessionOriginXactCb reploriginSessionAdvance
  split
  · exact ⟨rfl, rfl⟩
  · split_ifs
    · exact ⟨(advance_frame _ _ _).1, (advance_frame _ _ _).2.2⟩
    · exact ⟨(advance_frame _ _ _).1, (advance_frame _ _ _).2.2⟩
    · exact ⟨rfl, rfl⟩

/-- The session keeps its origin. -/
theorem xactCb_session {session : ReplicationState}
    (setUp : (sessionOriginXactCb s).sessionReplicationState = some session) :
    ∃ before, s.sessionReplicationState = some before ∧ before.roident = session.roident := by
  unfold sessionOriginXactCb reploriginSessionAdvance at setUp
  split at setUp
  · exact ⟨session, setUp, rfl⟩
  · next before found =>
    refine ⟨before, found, ?_⟩
    split_ifs at setUp
    · rw [(advance_frame _ _ _).2.1] at setUp
      cases setUp
      rfl
    · rw [(advance_frame _ _ _).2.1] at setUp
      cases setUp
      rfl
    · rw [found] at setUp
      cases setUp
      rfl

theorem Sane.xactCb (sane : Sane s) (session : ReplicationState)
    (setUp : (sessionOriginXactCb s).sessionReplicationState = some session) :
    (sessionOriginXactCb s).sessionOrigin = session.roident := by
  obtain ⟨before, found, roident⟩ := xactCb_session setUp
  rw [(xactCb_frame _).2, ← roident]
  exact sane.sessionOrigin before found

theorem sessionSetup_eq_some {node : RepOriginId} (taken : step s (.sessionSetup node) = some next) :
    s.sessionReplicationState = none ∧ next = { s with
      sessionReplicationState := some ⟨node, (s.origins node).getD 0⟩
      sessionOrigin := node } := by
  simp only [step, reploriginSessionSetup] at taken
  split at taken
  · cases taken
  · next unset =>
    cases taken
    exact ⟨unset, rfl⟩

/-! ## Steps -/

theorem Tracks.stored (tracks : Tracks s) {node : RepOriginId} {lsn : ℕ}
    (origins : next.origins = OriginEmulation.stored s.origins node lsn)
    (told : (s.origins node).isSome → next.replayed node = lsn)
    (others : ∀ other, other ≠ node → next.replayed other = s.replayed other)
    (sessionOrigin : ∀ session, next.sessionReplicationState = some session → next.sessionOrigin = session.roident) :
    Tracks next where
  replayed := by
    intro other found there
    rw [origins, stored_eq_some] at there
    obtain ⟨rfl, rfl, isSome⟩ | ⟨different, there⟩ := there
    · exact told isSome
    · rw [others other different]
      exact tracks.replayed other found there
  sessionOrigin := sessionOrigin
  invalid := by
    rw [origins]
    by_contra there
    obtain ⟨found, there⟩ := Option.ne_none_iff_exists'.mp there
    obtain ⟨same, -, isSome⟩ | ⟨-, there⟩ := stored_eq_some.mp there
    · rw [← same, tracks.invalid] at isSome
      cases isSome
    · rw [tracks.invalid] at there
      cases there
  doNotReplicate := by
    rw [origins]
    by_contra there
    obtain ⟨found, there⟩ := Option.ne_none_iff_exists'.mp there
    obtain ⟨same, -, isSome⟩ | ⟨-, there⟩ := stored_eq_some.mp there
    · rw [← same, tracks.doNotReplicate] at isSome
      cases isSome
    · rw [tracks.doNotReplicate] at there
      cases there

/-- The row that is written does not decrease. -/
theorem neverBack_of_stored {node : RepOriginId} {lsn : ℕ}
    (origins : next.origins = stored s.origins node lsn) (forward : ∀ old, s.origins node = some old → old ≤ lsn) :
    NeverBack s event next := by
  intro other old found before after decreases
  rw [origins, stored_eq_some] at after
  obtain ⟨rfl, rfl, -⟩ | ⟨-, there⟩ := after
  · have least := forward old before
    omega
  · rw [before] at there
    cases there
    omega

theorem neverBack_of_eq (same : next.origins = s.origins) : NeverBack s event next := by
  intro node old found before after decreases
  rw [same, before] at after
  cases after
  omega

theorem commitRemote_tracks (tracks : Tracks s) {session : ReplicationState}
    (setUp : s.sessionReplicationState = some session) (meets : Meets s .commitRemote) :
    Tracks (sessionOriginXactCb (s.tell session.roident s.sessionOriginLsn)) ∧
      NeverBack s .commitRemote (sessionOriginXactCb (s.tell session.roident s.sessionOriginLsn)) := by
  have sane : Sane (s.tell session.roident s.sessionOriginLsn) :=
    ⟨tracks.sessionOrigin, tracks.invalid, tracks.doNotReplicate⟩
  have origins := origins_xactCb sane setUp
  refine ⟨tracks.stored origins (fun _ => ?_) (fun other different => ?_) sane.xactCb,
    neverBack_of_stored origins fun old there => meets session old setUp there⟩
  · rw [(xactCb_frame _).1]
    exact Function.update_self ..
  · rw [(xactCb_frame _).1]
    exact Function.update_of_ne different ..

/-- A commit of something else writes what is there already. -/
theorem commitLocal_tracks (tracks : Tracks s) (meets : Meets s .commitLocal) :
    Tracks (sessionOriginXactCb s) ∧ NeverBack s .commitLocal (sessionOriginXactCb s) := by
  cases setUp : s.sessionReplicationState with
  | none =>
    rw [xactCb_eq_self setUp]
    exact ⟨tracks, neverBack_of_eq rfl⟩
  | some session =>
    have origins : (sessionOriginXactCb s).origins = s.origins := by
      rw [origins_xactCb tracks.toSane setUp]
      cases there : s.origins session.roident with
      | none => exact stored_of_none there _
      | some lsn =>
        rw [stored, there, Option.map_some, meets session lsn setUp there, ← there, Function.update_eq_self]
    refine ⟨⟨⟨tracks.toSane.xactCb, origins ▸ tracks.invalid, origins ▸ tracks.doNotReplicate⟩, ?_⟩,
      neverBack_of_eq origins⟩
    rw [origins, (xactCb_frame s).1]
    exact tracks.replayed

theorem advance_tracks (tracks : Tracks s) {node : RepOriginId} {remoteCommit : ℕ} {goBackward : Bool}
    (meets : Meets s (.advance node remoteCommit goBackward))
    (taken : step s (.advance node remoteCommit goBackward) = some next) :
    Tracks next ∧ NeverBack s (.advance node remoteCommit goBackward) next := by
  cases taken
  set told := if goBackward then remoteCommit else max (s.replayed node) remoteCommit with isTold
  have origins := origins_advance (s.tell node told) tracks.doNotReplicate node remoteCommit
  obtain ⟨replayed, session, origin⟩ := advance_frame (s.tell node told) node remoteCommit
  have sessions : ∀ state, (reploriginAdvance (s.tell node told) node remoteCommit).sessionReplicationState = some state →
      (reploriginAdvance (s.tell node told) node remoteCommit).sessionOrigin = state.roident := by
    intro state setUp
    rw [session] at setUp
    rw [origin]
    exact tracks.sessionOrigin state setUp
  have forward : ∀ lsn, s.origins node = some lsn → goBackward = false → lsn ≤ remoteCommit := by
    intro lsn there notBack
    rcases meets with back | forward
    · rw [notBack] at back
      cases back
    · exact forward lsn there
  constructor
  · refine tracks.stored origins (fun isSome => ?_) (fun other different => ?_) sessions
    · obtain ⟨lsn, there⟩ := Option.isSome_iff_exists.mp isSome
      have current := tracks.replayed node lsn there
      have position : told = remoteCommit := by
        cases goBackward with
        | true => rfl
        | false => exact max_eq_right (current ▸ forward lsn there rfl)
      rw [replayed, ← position]
      exact Function.update_self ..
    · rw [replayed]
      exact Function.update_of_ne different ..
  · cases goBackward with
    | false => exact neverBack_of_stored origins fun lsn there => forward lsn there rfl
    | true =>
      intro other old found before after decreases
      rw [origins] at after
      obtain ⟨rfl, -, -⟩ | ⟨-, there⟩ := stored_eq_some.mp after
      · exact ⟨remoteCommit, rfl⟩
      · have same : some found = some old := there.symm.trans before
        cases same
        omega

/-- One step keeps the invariant and does not go back. -/
theorem step_tracks (tracks : Tracks s) (meets : Meets s event) (taken : step s event = some next) :
    Tracks next ∧ NeverBack s event next := by
  cases event with
  | sessionSetup node =>
    obtain ⟨-, rfl⟩ := sessionSetup_eq_some taken
    exact ⟨⟨⟨fun session setUp => by cases setUp; rfl, tracks.invalid, tracks.doNotReplicate⟩, tracks.replayed⟩,
      neverBack_of_eq rfl⟩
  | sessionReset =>
    simp only [step] at taken
    split at taken
    · cases taken
    · cases taken
      exact ⟨⟨⟨fun _ setUp => (nomatch setUp), tracks.invalid, tracks.doNotReplicate⟩, tracks.replayed⟩, neverBack_of_eq rfl⟩
  | handleBegin commitLsn =>
    cases taken
    exact ⟨⟨⟨tracks.sessionOrigin, tracks.invalid, tracks.doNotReplicate⟩, tracks.replayed⟩, neverBack_of_eq rfl⟩
  | commitRemote =>
    simp only [step] at taken
    split at taken
    · cases taken
    · next session setUp =>
      cases taken
      exact commitRemote_tracks tracks setUp meets
  | commitLocal =>
    cases taken
    exact commitLocal_tracks tracks meets
  | advance node remoteCommit goBackward => exact advance_tracks tracks meets taken
  | restart =>
    cases taken
    exact ⟨⟨⟨fun _ setUp => (nomatch setUp), tracks.invalid, tracks.doNotReplicate⟩, tracks.replayed⟩, neverBack_of_eq rfl⟩

/-! ## Runs -/

theorem tracks_start {origins : RepOriginId → Option ℕ} (invalid : origins invalidRepOriginId = none)
    (doNotReplicate : origins doNotReplicateId = none) : Tracks (State.start origins) where
  sessionOrigin := fun _ setUp => nomatch setUp
  invalid := invalid
  doNotReplicate := doNotReplicate
  replayed := by
    intro node lsn there
    have row : origins node = some lsn := there
    simp [State.start, row]

/-- What is read after a restart is what has been replayed. -/
def Resumes (s : State) : Prop :=
  ∀ node lsn after, s.origins node = some lsn → run step s [.restart, .sessionSetup node] = some after →
    reploriginSessionGetProgress after = some (s.replayed node)

theorem Tracks.resumes (tracks : Tracks s) : Resumes s := by
  intro node lsn after there restarted
  obtain ⟨between, stopped, restarted⟩ := run_cons_eq_some_iff.mp restarted
  cases stopped
  obtain ⟨last, setUp, restarted⟩ := run_cons_eq_some_iff.mp restarted
  cases restarted
  obtain ⟨-, rfl⟩ := sessionSetup_eq_some setUp
  simp [reploriginSessionGetProgress, there, tracks.replayed node lsn there]

theorem progress_tracks {origins : RepOriginId → Option ℕ} {events : List Event}
    (invalid : origins invalidRepOriginId = none) (doNotReplicate : origins doNotReplicateId = none)
    (allowed : Permitted step Meets (State.start origins) events)
    (reached : run step (State.start origins) events = some s) :
    Resumes s ∧ ∀ event next, Meets s event → step s event = some next → NeverBack s event next := by
  have tracks : Tracks s := run_invariant (fun tracks meets taken => (step_tracks tracks meets taken).1)
    (tracks_start invalid doNotReplicate) allowed reached
  exact ⟨tracks.resumes, fun event next meets taken => (step_tracks tracks meets taken).2⟩

/-- One origin, at the beginning. -/
def oneOrigin (node : RepOriginId) : Option ℕ := if node = 1 then some 0 else none

/-- A remote transaction is replayed, and the worker is started again. -/
def restarted : List Event := [.sessionSetup 1, .handleBegin 100, .commitRemote, .restart, .sessionSetup 1]

theorem progress_tracks_restarted : ∃ s, run step (State.start oneOrigin) restarted = some s ∧ Resumes s := by
  have reached : ∃ s, run step (State.start oneOrigin) restarted = some s := ⟨_, rfl⟩
  obtain ⟨s, reached⟩ := reached
  have allowed : Permitted step Meets (State.start oneOrigin) restarted := by
    refine ⟨trivial, fun _ taken => ?_⟩
    cases taken
    refine ⟨trivial, fun _ taken => ?_⟩
    cases taken
    refine ⟨?_, fun _ taken => ?_⟩
    · intro session lsn setUp there
      cases setUp
      cases there
      decide
    cases taken
    refine ⟨trivial, fun _ taken => ?_⟩
    cases taken
    exact ⟨trivial, fun _ _ => trivial⟩
  exact ⟨s, reached, (progress_tracks rfl rfl allowed reached).1⟩

/-- The commit that ends the start-up sets the position back to zero. -/
theorem startUp_goes_back :
    ¬ ∀ (events : List Event) (s next : State) (event : Event), run step (State.start oneOrigin) events = some s →
      step s event = some next → NeverBack s event next := by
  intro all
  have back : ∃ s next, run step (State.start oneOrigin) restarted = some s ∧ step s .commitLocal = some next ∧
      s.origins 1 = some 100 ∧ next.origins 1 = some 0 := ⟨_, _, rfl, rfl, rfl, rfl⟩
  obtain ⟨s, next, reached, taken, before, after⟩ := back
  obtain ⟨remoteCommit, same⟩ := all restarted s next .commitLocal reached taken 1 100 0 before after (by decide)
  cases same

end PGLogical.OriginEmulation
