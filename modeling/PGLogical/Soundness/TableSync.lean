import PGLogical.Soundness.TableSyncSteps
import PGLogical.Soundness.Replay

/-! # Table synchronisation loses no change

While the sync worker catches up, the apply worker waits at the position it has handed over, so
what it has skipped lies in the snapshot or is replayed. This holds as long as the sync worker leaves
its own wait only for CATCHUP, the apply worker does not stop in the meantime, the position handed
over covers all that has been skipped, the apply worker's wait is not ended by a sync worker that
has already finished, and no TRUNCATE is skipped that is not in the snapshot: it is not replayed.
-/

namespace PGLogical.TableSync

open Machine Replay

/-! ## Positions in the stream -/

section Stream

variable {upstream : Upstream TableChange}

theorem txns_trichotomy (upstream : Upstream TableChange) :
    ∀ a ∈ upstream.txns, ∀ b ∈ upstream.txns, a = b ∨ a.endLsn ≤ b.commitLsn ∨ b.endLsn ≤ a.commitLsn := by
  intro a first b second
  have ordered := upstream.ordered.imp fun {a b} before =>
    (.inr (.inl before) : a = b ∨ a.endLsn ≤ b.commitLsn ∨ b.endLsn ≤ a.commitLsn)
  have flipped := upstream.ordered.imp fun {a b} before =>
    (.inr (.inr before) : b = a ∨ b.endLsn ≤ a.commitLsn ∨ a.endLsn ≤ b.commitLsn)
  exact ordered.forall_of_forall_of_flip (fun _ _ => .inl rfl) flipped first second

theorem boundary_iff {txns : List (Txn TableChange)} {pos : ℕ} :
    boundary txns pos = true ↔ ∀ txn ∈ txns, txn.endLsn ≤ pos ∨ pos ≤ txn.commitLsn := by
  simp [boundary, List.all_eq_true]

theorem boundary_start : boundary upstream.txns upstream.start = true :=
  boundary_iff.mpr fun txn inside => .inr (upstream.after txn inside)

theorem boundary_max {txns : List (Txn TableChange)} {a b : ℕ} (first : boundary txns a = true)
    (second : boundary txns b = true) : boundary txns (max a b) = true := by
  rcases le_total a b with order | order
  · rwa [max_eq_right order]
  · rwa [max_eq_left order]

theorem boundary_endLsn {txn : Txn TableChange} (inside : txn ∈ upstream.txns) :
    boundary upstream.txns txn.endLsn = true := by
  refine boundary_iff.mpr fun other member => ?_
  rcases txns_trichotomy upstream other member txn inside with rfl | before | after
  · exact .inl le_rfl
  · have := upstream.ended txn inside
    omega
  · exact .inr after

theorem boundary_commitLsn {txn : Txn TableChange} (inside : txn ∈ upstream.txns) :
    boundary upstream.txns txn.commitLsn = true := by
  refine boundary_iff.mpr fun other member => ?_
  rcases txns_trichotomy upstream other member txn inside with rfl | before | after
  · exact .inr le_rfl
  · exact .inl before
  · have := upstream.ended txn inside
    omega

/-- The next transaction is in the stream, and nothing lies between the position and it. -/
theorem next?_spec {pos head : ℕ} {txn : Txn TableChange} (found : next? upstream.txns pos head = some txn)
    (bounded : boundary upstream.txns pos = true) :
    txn ∈ upstream.txns ∧ pos ≤ txn.commitLsn ∧ txn.endLsn ≤ head ∧
      ∀ other ∈ upstream.txns, other.endLsn ≤ txn.endLsn → other = txn ∨ other.endLsn ≤ pos := by
  obtain ⟨first, committed⟩ := Option.filter_eq_some_iff.mp found
  obtain ⟨rest, sent⟩ := List.head?_eq_some_iff.mp first
  have listed : txn ∈ resend upstream.txns pos := by rw [sent]; exact List.mem_cons_self ..
  obtain ⟨inside, after⟩ := List.mem_filter.mp listed
  refine ⟨inside, of_decide_eq_true after, of_decide_eq_true committed, fun other member order => ?_⟩
  rcases boundary_iff.mp bounded other member with before | ahead
  · exact .inr before
  · have sorted := (upstream.ordered.filter fun txn => decide (pos ≤ txn.commitLsn))
    change (resend upstream.txns pos).Pairwise _ at sorted
    rw [sent] at sorted
    have resent : other ∈ resend upstream.txns pos := List.mem_filter.mpr ⟨member, decide_eq_true ahead⟩
    rw [sent] at resent
    rcases List.mem_cons.mp resent with same | later
    · exact .inl same
    · have := (List.pairwise_cons.mp sorted).1 other later
      have := upstream.ended other member
      omega

end Stream

/-! ## What has happened to the table -/

/-- The transaction's changes of the table are there: in a copy, replayed or applied. A TRUNCATE is not replayed. -/
def Covered (table : RangeVar) (log : List Effect) (txn : Txn TableChange) : Prop :=
  (∃ snapshot, .copy snapshot ∈ log ∧ txn.endLsn ≤ snapshot) ∨
    (.replay txn ∈ log ∧ truncates table txn = false) ∨ .apply txn ∈ log

theorem changes_of_truncates {table : RangeVar} {txn : Txn TableChange} (truncated : truncates table txn = true) :
    changes table txn = true :=
  List.any_eq_true.mpr ⟨.truncate table, of_decide_eq_true truncated, decide_eq_true rfl⟩

theorem changesRows_of_changes {table : RangeVar} {txn : Txn TableChange} (changed : changes table txn = true)
    (rows : truncates table txn = false) : changesRows table txn = true := by
  obtain ⟨change, inside, named⟩ := List.any_eq_true.mp changed
  cases change with
  | row rv =>
    cases of_decide_eq_true named
    exact decide_eq_true inside
  | truncate rv =>
    cases of_decide_eq_true named
    exact absurd inside (of_decide_eq_false rows)

/-- Nothing is lost before a position. -/
def CoveredUpto (table : RangeVar) (upstream : Upstream TableChange) (log : List Effect) (pos : ℕ) : Prop :=
  ∀ txn ∈ upstream.txns, changes table txn = true → txn.endLsn ≤ pos → Covered table log txn

/-- Whenever the table is READY and the apply worker does not list it, every transaction that changes
it and that the apply worker has passed is covered. -/
def NoneLost (table : RangeVar) (upstream : Upstream TableChange) (s : State) : Prop :=
  s.status = .ready → (∀ a, s.apply = some a → a.listed = false) → CoveredUpto table upstream s.log s.progress

theorem Covered.mono {table : RangeVar} {log more : List Effect} {txn : Txn TableChange}
    (covered : Covered table log txn) (kept : ∀ effect ∈ log, effect ∈ more) : Covered table more txn := by
  rcases covered with ⟨snapshot, copied, visible⟩ | ⟨replayed, rows⟩ | applied
  · exact .inl ⟨snapshot, kept _ copied, visible⟩
  · exact .inr (.inl ⟨kept _ replayed, rows⟩)
  · exact .inr (.inr (kept _ applied))

theorem CoveredUpto.mono {table : RangeVar} {upstream : Upstream TableChange} {log more : List Effect} {pos : ℕ}
    (covered : CoveredUpto table upstream log pos) (kept : ∀ effect ∈ log, effect ∈ more) :
    CoveredUpto table upstream more pos :=
  fun txn inside changed passed => (covered txn inside changed passed).mono kept

theorem CoveredUpto.le {table : RangeVar} {upstream : Upstream TableChange} {log : List Effect} {pos earlier : ℕ}
    (covered : CoveredUpto table upstream log pos) (order : earlier ≤ pos) :
    CoveredUpto table upstream log earlier :=
  fun txn inside changed passed => covered txn inside changed (le_trans passed order)

/-! ## The hand-over -/

/-- The snapshot of a sync worker that has one and still needs it. -/
def SyncPc.snapshot? : SyncPc → Option ℕ
  | .setData snapshot => some snapshot
  | .copy snapshot => some snapshot
  | .copied snapshot => some snapshot
  | .waiting snapshot => some snapshot
  | .compare snapshot => some snapshot
  | .replay snapshot _ => some snapshot
  | _ => none

/-- The sync worker is on its way to READY, or will be when it looks at the status again. -/
def SyncPc.CatchingUp (status : SyncStatus) : SyncPc → Prop
  | .waiting _ => status = .catchup
  | .compare _ => True
  | .replay _ _ => True
  | .finish => True
  | .dropped => True
  | _ => False

def ApplyPc.Waits (pc : ApplyPc) : Prop := pc = .waitRead ∨ pc = .waitFind

/-- The steps of a hand-over that keeps what was skipped. -/
structure HandsOver (table : RangeVar) (upstream : Upstream TableChange) (s : State) (event : Event) : Prop where
  /-- The sync worker leaves its wait for CATCHUP only, not on SIGTERM. -/
  wait : event = .sync .leaveWait → s.status = .catchup
  /-- The apply worker does not stop while the sync worker catches up. -/
  stop : event = .apply .stop → ∀ w, s.sync = some w → w.running = true → ¬ w.pc.CatchingUp s.status
  /-- What the apply worker has passed lies before the position it hands over, or in the snapshot. -/
  position : event = .apply .decide → ∀ a w snapshot, s.apply = some a → s.sync = some w →
    w.pc.snapshot? = some snapshot → a.pc = .saw .syncwait → a.sentPos ≤ max a.lastReceived snapshot
  /-- The apply worker does not give up waiting when the table has become READY. -/
  find : event = .apply .waitFind → s.sync = none → s.status ≠ .ready
  /-- The apply worker skips no TRUNCATE that is later than the snapshot. -/
  truncate : event = .apply .txn → ∀ a w snapshot txn, s.apply = some a → a.listed = true → s.sync = some w →
    w.running = true → w.pc.snapshot? = some snapshot → next? upstream.txns a.sentPos s.head = some txn →
    truncates table txn = true → txn.endLsn ≤ snapshot

theorem SyncPc.catchingUp_of_finishing {pc : SyncPc} (status : SyncStatus) (finishing : pc = .finish ∨ pc = .dropped) :
    pc.CatchingUp status := by
  rcases finishing with rfl | rfl
  · trivial
  · trivial

instance SyncPc.CatchingUp.decidable (status : SyncStatus) : ∀ pc : SyncPc, Decidable (pc.CatchingUp status)
  | .waiting _ => inferInstanceAs (Decidable (status = .catchup))
  | .compare _ | .replay _ _ | .finish | .dropped => isTrue trivial
  | .start | .create | .setData _ | .copy _ | .copied _ | .exited => isFalse id

instance HandsOver.decidable (table : RangeVar) (upstream : Upstream TableChange) (s : State) :
    ∀ event, Decidable (HandsOver table upstream s event)
  | .sync .leaveWait => decidable_of_iff (s.status = .catchup)
      ⟨fun catchup => ⟨fun _ => catchup, nofun, nofun, nofun, nofun⟩, fun hands => hands.wait rfl⟩
  | .apply .stop => decidable_of_iff (∀ w ∈ s.sync, w.running = true → ¬ w.pc.CatchingUp s.status)
      ⟨fun idle => ⟨nofun, fun _ => idle, nofun, nofun, nofun⟩, fun hands => hands.stop rfl⟩
  | .apply .decide => decidable_of_iff (∀ a ∈ s.apply, ∀ w ∈ s.sync, ∀ snapshot ∈ w.pc.snapshot?,
        a.pc = .saw .syncwait → a.sentPos ≤ max a.lastReceived snapshot)
      ⟨fun passed => ⟨nofun, nofun, fun _ a w snapshot here found => passed a here w found snapshot, nofun, nofun⟩,
        fun hands a here w found snapshot => hands.position rfl a w snapshot here found⟩
  | .apply .waitFind => decidable_of_iff (s.sync.isNone = true → s.status ≠ .ready)
      ⟨fun unready => ⟨nofun, nofun, nofun, fun _ gone => unready (by rw [gone]; rfl), nofun⟩,
        fun hands gone => hands.find rfl (Option.isNone_iff_eq_none.mp gone)⟩
  | .apply .txn => decidable_of_iff (∀ a ∈ s.apply, a.listed = true → ∀ w ∈ s.sync, w.running = true →
        ∀ snapshot ∈ w.pc.snapshot?, ∀ txn ∈ next? upstream.txns a.sentPos s.head, truncates table txn = true →
          txn.endLsn ≤ snapshot)
      ⟨fun seen => ⟨nofun, nofun, nofun, nofun, fun _ a w snapshot txn here listed found running taken sent =>
          seen a here listed w found running snapshot taken txn sent⟩,
        fun hands a here listed w found running snapshot taken txn sent =>
          hands.truncate rfl a w snapshot txn here listed found running taken sent⟩
  | .apply .idle | .apply .check | .apply .readStatus | .apply .setCatchup | .apply .waitRead
  | .apply (.launch _) | .sync .begin | .sync (.createSlot _) | .sync .setData | .sync .copy
  | .sync (.copyFails _ _) | .sync .setSyncwait | .sync .compare | .sync .replay | .sync .dropSlot
  | .sync .commitReady | .sync .exit | .sync .sigterm | .sync .crash | .startApply | .confirm _ | .advance _
  | .loseSlot | .reuse => isTrue ⟨nofun, nofun, nofun, nofun, nofun⟩

/-- Everything before this position has been sent to the apply worker and will not be sent again. -/
def State.front (s : State) : ℕ :=
  match s.apply with
  | some a => a.sentPos
  | none => max s.progress s.confirmed

structure Positions (upstream : Upstream TableChange) (s : State) : Prop where
  progress : s.progress ≤ s.front
  confirmed : s.confirmed ≤ s.front
  head : s.front ≤ s.head
  frontBoundary : boundary upstream.txns s.front = true
  progressBoundary : boundary upstream.txns s.progress = true
  confirmedBoundary : boundary upstream.txns s.confirmed = true

/-- A READY table: nothing is lost, and nobody is about to change the status again. -/
structure Ready (table : RangeVar) (upstream : Upstream TableChange) (s : State) : Prop where
  covered : CoveredUpto table upstream s.log s.front
  listed : ∀ a, s.apply = some a → a.listed = true → a.pc.Waits
  decided : ∀ a, s.apply = some a → a.pc ≠ .stopSet ∧ ∀ status, a.pc = .saw status → status = .ready
  exited : ∀ w, s.sync = some w → w.running = true → w.pc = .exited

/-- What a sync worker has done so far. -/
def Attempt (table : RangeVar) (upstream : Upstream TableChange) (log : List Effect) : SyncPc → Prop
  | .setData snapshot => boundary upstream.txns snapshot = true
  | .copy snapshot => boundary upstream.txns snapshot = true
  | .copied snapshot => boundary upstream.txns snapshot = true ∧ .copy snapshot ∈ log
  | .waiting snapshot => boundary upstream.txns snapshot = true ∧ .copy snapshot ∈ log
  | .compare snapshot => boundary upstream.txns snapshot = true ∧ .copy snapshot ∈ log
  | .replay snapshot sentPos => (boundary upstream.txns snapshot = true ∧ .copy snapshot ∈ log) ∧
      boundary upstream.txns sentPos = true ∧
      ∀ txn ∈ upstream.txns, changesRows table txn = true → snapshot ≤ txn.commitLsn → txn.endLsn ≤ sentPos →
        .replay txn ∈ log
  | _ => True

theorem Attempt.mono {table : RangeVar} {upstream : Upstream TableChange} {log more : List Effect} {pc : SyncPc}
    (attempt : Attempt table upstream log pc) (kept : ∀ effect ∈ log, effect ∈ more) :
    Attempt table upstream more pc := by
  cases pc with
  | copied snapshot => exact ⟨attempt.1, kept _ attempt.2⟩
  | waiting snapshot => exact ⟨attempt.1, kept _ attempt.2⟩
  | compare snapshot => exact ⟨attempt.1, kept _ attempt.2⟩
  | replay snapshot sentPos =>
    obtain ⟨⟨bounded, copied⟩, reached, replayed⟩ := attempt
    exact ⟨⟨bounded, kept _ copied⟩, reached, fun txn inside changed after passed =>
      kept _ (replayed txn inside changed after passed)⟩
  | start => trivial
  | create => trivial
  | setData snapshot => exact attempt
  | copy snapshot => exact attempt
  | finish => trivial
  | dropped => trivial
  | exited => trivial

structure Inv (table : RangeVar) (upstream : Upstream TableChange) (s : State) : Prop where
  positions : Positions upstream s
  ready : s.status = .ready → Ready table upstream s
  /-- Past the cell of the table, the table is listed. -/
  listing : ∀ a, s.apply = some a → a.pc ≠ .idle → a.pc ≠ .check → a.listed = true
  /-- A sync worker that catches up has an apply worker waiting for it. -/
  catching : ∀ w, s.sync = some w → w.running = true → w.pc.CatchingUp s.status →
    s.status = .catchup ∧ ∃ a, s.apply = some a ∧ a.pc.Waits
  /-- What an apply worker that has handed over has passed lies before the stop or in the snapshot. -/
  handed : ∀ a w snapshot, s.apply = some a → s.sync = some w → w.running = true →
    w.pc.snapshot? = some snapshot → a.pc = .stopSet ∨ a.pc.Waits → a.sentPos ≤ max w.replayStopLsn snapshot
  attempt : ∀ w, s.sync = some w → w.running = true → Attempt table upstream s.log w.pc
  finished : ∀ w, s.sync = some w → w.running = true → w.pc = .finish ∨ w.pc = .dropped →
    CoveredUpto table upstream s.log s.front

/-! ## Steps of the apply worker -/

section Step

variable {table : RangeVar} {upstream : Upstream TableChange} {s : State} {a : ApplyWorker}

theorem front_of_apply (here : s.apply = some a) : s.front = a.sentPos := by
  rw [State.front, here]

theorem Positions.keep (positions : Positions upstream s) {next : State} (front : next.front = s.front)
    (progress : next.progress = s.progress) (confirmed : next.confirmed = s.confirmed) (head : s.head ≤ next.head) :
    Positions upstream next := by
  constructor
  · rw [front, progress]
    exact positions.progress
  · rw [front, confirmed]
    exact positions.confirmed
  · rw [front]
    exact le_trans positions.head head
  · rw [front]
    exact positions.frontBoundary
  · rw [progress]
    exact positions.progressBoundary
  · rw [confirmed]
    exact positions.confirmedBoundary

/-- No sync worker catches up unless the apply worker waits for it. -/
theorem Inv.not_catchingUp (inv : Inv table upstream s) (here : s.apply = some a) (busy : ¬ a.pc.Waits)
    {w : SyncWorker} (found : s.sync = some w) (running : w.running = true) : ¬ w.pc.CatchingUp s.status := by
  intro catching
  obtain ⟨-, other, same, waits⟩ := inv.catching w found running catching
  rw [here] at same
  cases same
  exact busy waits

/-- A READY table is listed only by an apply worker that waits. -/
theorem Inv.unlisted (inv : Inv table upstream s) (here : s.apply = some a) (busy : ¬ a.pc.Waits)
    (isReady : s.status = .ready) : a.listed = false := by
  by_contra listed
  rw [Bool.not_eq_false] at listed
  exact busy ((inv.ready isReady).listed a here listed)

/-- The apply worker moves on, outside its wait and without receiving anything. -/
theorem Inv.move (inv : Inv table upstream s) (here : s.apply = some a) (busy : ¬ a.pc.Waits) {next : ApplyWorker}
    (sentPos : next.sentPos = a.sentPos) (outside : next.pc ≠ .stopSet ∧ ¬ next.pc.Waits)
    (listing : next.pc ≠ .idle → next.pc ≠ .check → next.listed = true)
    (ready : s.status = .ready → next.listed = false ∧ ∀ status, next.pc = .saw status → status = .ready) :
    Inv table upstream { s with apply := some next } := by
  have front : State.front { s with apply := some next } = s.front := by
    rw [front_of_apply here]
    exact sentPos
  have idle := fun w found running => inv.not_catchingUp here busy (w := w) found running
  constructor
  · exact inv.positions.keep front rfl rfl le_rfl
  · intro isReady
    obtain ⟨unlisted, saw⟩ := ready isReady
    constructor
    · rw [front]
      exact (inv.ready isReady).covered
    · intro other same listed
      cases same
      rw [unlisted] at listed
      cases listed
    · intro other same
      cases same
      exact ⟨outside.1, saw⟩
    · exact (inv.ready isReady).exited
  · intro other same
    cases same
    exact listing
  · intro w found running catching
    exact absurd catching (idle w found running)
  · intro other w snapshot same found running taken handed
    cases same
    rcases handed with set | waits
    · exact absurd set outside.1
    · exact absurd waits outside.2
  · exact inv.attempt
  · intro w found running finishing
    exact absurd (SyncPc.catchingUp_of_finishing _ finishing) (idle w found running)

theorem inv_txn (inv : Inv table upstream s) (here : s.apply = some a) (idle : a.pc = .idle) {txn : Txn TableChange}
    (found : next? upstream.txns a.sentPos s.head = some txn) : Inv table upstream (applyTxn table s a txn) := by
  have positions := inv.positions
  have front := front_of_apply here
  have busy : ¬ a.pc.Waits := by simp [idle, ApplyPc.Waits]
  obtain ⟨inside, after, committed, between⟩ := next?_spec found (front ▸ positions.frontBoundary)
  have ended := upstream.ended txn inside
  have kept : ∀ effect ∈ s.log, effect ∈ (applyTxn table s a txn).log := by
    intro effect before
    simp only [applyTxn]
    split
    · exact List.mem_append_left _ before
    · exact before
  have idle := fun w found running => inv.not_catchingUp here busy (w := w) found running
  constructor
  · constructor
    · have := positions.progress
      simp only [applyTxn, State.front]
      split <;> omega
    · have := positions.confirmed
      simp only [applyTxn, State.front]
      omega
    · exact committed
    · exact boundary_endLsn inside
    · simp only [applyTxn]
      split
      · exact boundary_max positions.progressBoundary (boundary_commitLsn inside)
      · exact positions.progressBoundary
    · exact positions.confirmedBoundary
  · intro isReady
    have ready := inv.ready isReady
    have unlisted := inv.unlisted here busy isReady
    constructor
    · intro other member changed passed
      rcases between other member passed with rfl | before
      · refine .inr (.inr ?_)
        simp [applyTxn, changed, unlisted]
      · exact (ready.covered other member changed (front ▸ before)).mono kept
    · intro other same listed
      cases same
      rw [unlisted] at listed
      cases listed
    · intro other same
      cases same
      exact ⟨by simp, by simp⟩
    · exact ready.exited
  · intro other same notIdle notCheck
    cases same
    exact absurd rfl notCheck
  · intro w found running catching
    exact absurd catching (idle w found running)
  · intro other w snapshot same found running taken handed
    cases same
    simp [ApplyPc.Waits] at handed
  · intro w found running
    exact (inv.attempt w found running).mono kept
  · intro w found running finishing
    exact absurd (SyncPc.catchingUp_of_finishing _ finishing) (idle w found running)

/-- The apply worker hands its position over. -/
theorem inv_handover (inv : Inv table upstream s) (here : s.apply = some a) (saw : a.pc = .saw .syncwait)
    {w : SyncWorker} (found : s.sync = some w)
    (position : ∀ snapshot, w.pc.snapshot? = some snapshot → a.sentPos ≤ max a.lastReceived snapshot) :
    Inv table upstream { s with
      sync := some { w with replayStopLsn := a.lastReceived }, apply := some { a with pc := .stopSet } } := by
  have busy : ¬ a.pc.Waits := by simp [saw, ApplyPc.Waits]
  have front : State.front { s with
      sync := some { w with replayStopLsn := a.lastReceived }, apply := some { a with pc := .stopSet } } = s.front :=
    (front_of_apply here).symm
  have unready : s.status ≠ .ready := by
    intro isReady
    have := ((inv.ready isReady).decided a here).2 .syncwait saw
    cases this
  have listed : a.listed = true := inv.listing a here (by simp [saw]) (by simp [saw])
  constructor
  · exact inv.positions.keep front rfl rfl le_rfl
  · intro isReady
    exact absurd isReady unready
  · intro other same _ _
    cases same
    exact listed
  · intro other same running catching
    cases same
    exact absurd catching (inv.not_catchingUp (w := w) here busy found running)
  · intro other worker snapshot same sameWorker running taken _
    cases same
    cases sameWorker
    exact position snapshot taken
  · intro other same running
    cases same
    exact inv.attempt w found running
  · intro other same running finishing
    cases same
    exact absurd (SyncPc.catchingUp_of_finishing _ finishing) (inv.not_catchingUp (w := w) here busy found running)

theorem inv_setCatchup (inv : Inv table upstream s) (here : s.apply = some a) (set : a.pc = .stopSet) :
    Inv table upstream { s with status := .catchup, apply := some { a with pc := .waitRead } } := by
  have busy : ¬ a.pc.Waits := by simp [set, ApplyPc.Waits]
  have front : State.front { s with status := .catchup, apply := some { a with pc := .waitRead } } = s.front :=
    (front_of_apply here).symm
  constructor
  · exact inv.positions.keep front rfl rfl le_rfl
  · intro isReady
    cases isReady
  · intro other same _ _
    cases same
    exact inv.listing a here (by simp [set]) (by simp [set])
  · intro w found running catching
    exact ⟨rfl, _, rfl, .inl rfl⟩
  · intro other w snapshot same found running taken _
    cases same
    exact inv.handed a w snapshot here found running taken (.inl set)
  · exact inv.attempt
  · intro w found running finishing
    exact absurd (SyncPc.catchingUp_of_finishing _ finishing) (inv.not_catchingUp here busy found running)

/-- The apply worker goes on waiting. -/
theorem inv_wait (inv : Inv table upstream s) (here : s.apply = some a) (waits : a.pc.Waits) {pc : ApplyPc}
    (still : pc.Waits) : Inv table upstream { s with apply := some { a with pc := pc } } := by
  have front : State.front { s with apply := some { a with pc := pc } } = s.front := (front_of_apply here).symm
  have listed : a.listed = true := by
    rcases waits with at_ | at_
    · exact inv.listing a here (by simp [at_]) (by simp [at_])
    · exact inv.listing a here (by simp [at_]) (by simp [at_])
  constructor
  · exact inv.positions.keep front rfl rfl le_rfl
  · intro isReady
    have ready := inv.ready isReady
    constructor
    · rw [front]
      exact ready.covered
    · intro other same _
      cases same
      exact still
    · intro other same
      cases same
      rcases still with rfl | rfl
      · exact ⟨by simp, by simp⟩
      · exact ⟨by simp, by simp⟩
    · exact ready.exited
  · intro other same _ _
    cases same
    exact listed
  · intro w found running catching
    exact ⟨(inv.catching w found running catching).1, _, rfl, still⟩
  · intro other w snapshot same found running taken _
    cases same
    exact inv.handed a w snapshot here found running taken (.inr waits)
  · exact inv.attempt
  · intro w found running finishing
    rw [front]
    exact inv.finished w found running finishing

/-- The wait ends with READY, and the table is taken from the list. -/
theorem inv_waitEnds (inv : Inv table upstream s) (here : s.apply = some a) (isReady : s.status = .ready) :
    Inv table upstream { s with apply := some { a with listed := false, pc := .idle } } := by
  have front : State.front { s with apply := some { a with listed := false, pc := .idle } } = s.front :=
    (front_of_apply here).symm
  have ready := inv.ready isReady
  constructor
  · exact inv.positions.keep front rfl rfl le_rfl
  · intro _
    constructor
    · rw [front]
      exact ready.covered
    · intro other same listed
      cases same
      cases listed
    · intro other same
      cases same
      exact ⟨by simp, by simp⟩
    · exact ready.exited
  · intro other same idle
    cases same
    exact absurd rfl idle
  · intro w found running catching
    obtain ⟨catchup, -⟩ := inv.catching w found running catching
    rw [isReady] at catchup
    cases catchup
  · intro other w snapshot same found running taken handed
    cases same
    simp [ApplyPc.Waits] at handed
  · exact inv.attempt
  · intro w found running finishing
    rw [front]
    exact inv.finished w found running finishing

/-- Without a sync worker the apply worker gives up waiting. -/
theorem inv_waitGone (inv : Inv table upstream s) (here : s.apply = some a) (waits : a.pc = .waitFind)
    (gone : s.sync = none) (unready : s.status ≠ .ready) :
    Inv table upstream { s with apply := some { a with pc := .launch } } := by
  have front : State.front { s with apply := some { a with pc := .launch } } = s.front := (front_of_apply here).symm
  constructor
  · exact inv.positions.keep front rfl rfl le_rfl
  · intro isReady
    exact absurd isReady unready
  · intro other same _ _
    cases same
    exact inv.listing a here (by simp [waits]) (by simp [waits])
  · intro w found
    rw [gone] at found
    cases found
  · intro other w snapshot same found
    rw [gone] at found
    cases found
  · intro w found
    rw [gone] at found
    cases found
  · intro w found
    rw [gone] at found
    cases found

theorem inv_launch (inv : Inv table upstream s) (here : s.apply = some a) (unready : s.status ≠ .ready) :
    Inv table upstream { s with
      sync := some ⟨true, false, a.originLsn, .start⟩, apply := some { a with pc := .idle } } := by
  have front : State.front { s with
      sync := some ⟨true, false, a.originLsn, .start⟩, apply := some { a with pc := .idle } } = s.front :=
    (front_of_apply here).symm
  constructor
  · exact inv.positions.keep front rfl rfl le_rfl
  · intro isReady
    exact absurd isReady unready
  · intro other same idle
    cases same
    exact absurd rfl idle
  · intro w found running catching
    cases found
    cases catching
  · intro other w snapshot same found running taken
    cases found
    cases taken
  · intro w found running
    cases found
    trivial
  · intro w found running finishing
    cases found
    simp at finishing

theorem inv_stop (inv : Inv table upstream s)
    (idle : ∀ w, s.sync = some w → w.running = true → ¬ w.pc.CatchingUp s.status) :
    Inv table upstream { s with apply := none } := by
  have positions := inv.positions
  have front : State.front { s with apply := none } ≤ s.front := max_le positions.progress positions.confirmed
  constructor
  · constructor
    · exact le_max_left ..
    · exact le_max_right ..
    · exact le_trans front positions.head
    · exact boundary_max positions.progressBoundary positions.confirmedBoundary
    · exact positions.progressBoundary
    · exact positions.confirmedBoundary
  · intro isReady
    have ready := inv.ready isReady
    refine ⟨ready.covered.le front, ?_, ?_, ready.exited⟩
    · intro other same
      cases same
    · intro other same
      cases same
  · intro other same
    cases same
  · intro w found running catching
    exact absurd catching (idle w found running)
  · intro other w snapshot same
    cases same
  · exact inv.attempt
  · intro w found running finishing
    exact (inv.finished w found running finishing).le front

theorem inv_applyStep {event : ApplyEvent} {next : State} (inv : Inv table upstream s) (here : s.apply = some a)
    (hands : HandsOver table upstream s (.apply event)) (acts : ApplyActs table upstream s a event next) :
    Inv table upstream next := by
  cases acts with
  | txn at_ sent => exact inv_txn inv here at_ sent
  | idle at_ =>
    have busy : ¬ a.pc.Waits := by simp [at_, ApplyPc.Waits]
    have unlisted := inv.unlisted here busy
    exact inv.move here busy rfl (by simp [ApplyPc.Waits]) (by simp) fun isReady => ⟨unlisted isReady, by simp⟩
  | @check listed at_ reread =>
    have busy : ¬ a.pc.Waits := by simp [at_, ApplyPc.Waits]
    have unready : s.status = .ready → listed = false := by
      intro isReady
      simp [reread, isReady, inv.unlisted here busy isReady]
    cases listed with
    | true =>
      refine inv.move here busy rfl (by simp [ApplyPc.Waits]) (fun _ _ => rfl) fun isReady => ?_
      cases unready isReady
    | false => exact inv.move here busy rfl (by simp [ApplyPc.Waits]) (by simp) fun _ => ⟨rfl, by simp⟩
  | readStatus at_ =>
    have busy : ¬ a.pc.Waits := by simp [at_, ApplyPc.Waits]
    have listed : a.listed = true := inv.listing a here (by simp [at_]) (by simp [at_])
    refine inv.move here busy rfl (by simp [ApplyPc.Waits]) (fun _ _ => listed) fun isReady => ?_
    exact absurd ((inv.ready isReady).listed a here listed) busy
  | sawReady at_ =>
    have busy : ¬ a.pc.Waits := by simp [at_, ApplyPc.Waits]
    exact inv.move here busy rfl (by simp [ApplyPc.Waits]) (by simp) fun _ => ⟨rfl, by simp⟩
  | @handover w at_ found =>
    exact inv_handover inv here at_ found fun snapshot taken => hands.position rfl a w snapshot here found taken at_
  | toLaunch at_ =>
    have busy : ¬ a.pc.Waits := by simp [at_, ApplyPc.Waits]
    have listed : a.listed = true := inv.listing a here (by simp [at_]) (by simp [at_])
    refine inv.move here busy rfl (by simp [ApplyPc.Waits]) (fun _ _ => listed) fun isReady => ?_
    exact absurd ((inv.ready isReady).listed a here listed) busy
  | setCatchup at_ => exact inv_setCatchup inv here at_
  | waitEnds at_ isReady => exact inv_waitEnds inv here isReady
  | waitRead at_ => exact inv_wait inv here (.inl at_) (.inr rfl)
  | waitGone at_ gone => exact inv_waitGone inv here at_ gone (hands.find rfl gone)
  | waitFind at_ => exact inv_wait inv here (.inr at_) (.inl rfl)
  | launch at_ listed =>
    have busy : ¬ a.pc.Waits := by simp [at_, ApplyPc.Waits]
    exact inv_launch inv here fun isReady => busy ((inv.ready isReady).listed a here listed)
  | noLaunch at_ =>
    have busy : ¬ a.pc.Waits := by simp [at_, ApplyPc.Waits]
    have listed : a.listed = true := inv.listing a here (by simp [at_]) (by simp [at_])
    refine inv.move here busy rfl (by simp [ApplyPc.Waits]) (by simp) fun isReady => ?_
    exact absurd ((inv.ready isReady).listed a here listed) busy
  | stop => exact inv_stop inv (hands.stop rfl)

/-! ## Skipped TRUNCATEs -/

/-- What has been done before a transaction is replayed. -/
theorem mem_replayed (table : RangeVar) (txn : Txn TableChange) {log : List Effect} {effect : Effect}
    (before : effect ∈ log) : effect ∈ (if changesRows table txn then log ++ [.replay txn] else log) := by
  split
  · exact List.mem_append_left _ before
  · exact before

/-- A TRUNCATE that the apply worker has passed is in the snapshot of a sync worker, or was applied. -/
def TruncatesSeen (table : RangeVar) (upstream : Upstream TableChange) (s : State) : Prop :=
  ∀ w, s.sync = some w → w.running = true → ∀ snapshot, w.pc.snapshot? = some snapshot →
    ∀ txn ∈ upstream.txns, truncates table txn = true → txn.endLsn ≤ s.front →
      txn.endLsn ≤ snapshot ∨ .apply txn ∈ s.log

/-- Nothing is passed, and the sync worker keeps its snapshot or has none. -/
theorem TruncatesSeen.keep (seen : TruncatesSeen table upstream s) {next : State} (front : next.front ≤ s.front)
    (kept : ∀ effect ∈ s.log, effect ∈ next.log)
    (same : ∀ w, next.sync = some w → w.running = true → ∀ snapshot, w.pc.snapshot? = some snapshot →
      ∃ before, s.sync = some before ∧ before.running = true ∧ before.pc.snapshot? = some snapshot) :
    TruncatesSeen table upstream next := by
  intro w found running snapshot taken txn inside truncated passed
  obtain ⟨before, there, ran, had⟩ := same w found running snapshot taken
  exact (seen before there ran snapshot had txn inside truncated (le_trans passed front)).imp id (kept _)

theorem TruncatesSeen.frame (seen : TruncatesSeen table upstream s) {next : State} (front : next.front ≤ s.front)
    (log : next.log = s.log) (sync : next.sync = s.sync) : TruncatesSeen table upstream next :=
  seen.keep front (fun _ inside => log ▸ inside) fun w found running _ taken => ⟨w, sync ▸ found, running, taken⟩

/-- The apply worker passes one transaction: it has applied it, or the snapshot contains it. -/
theorem seen_txn (seen : TruncatesSeen table upstream s) (positions : Positions upstream s) (here : s.apply = some a)
    {txn : Txn TableChange} (sent : next? upstream.txns a.sentPos s.head = some txn)
    (skips : a.listed = true → ∀ w snapshot, s.sync = some w → w.running = true → w.pc.snapshot? = some snapshot →
      truncates table txn = true → txn.endLsn ≤ snapshot) :
    TruncatesSeen table upstream (applyTxn table s a txn) := by
  have front := front_of_apply here
  obtain ⟨-, -, -, between⟩ := next?_spec sent (front ▸ positions.frontBoundary)
  intro w found running snapshot taken other inside truncated passed
  rcases between other inside passed with rfl | before
  · cases listed : a.listed with
    | true => exact .inl (skips listed w snapshot found running taken truncated)
    | false =>
      have changed : changes table other = true := changes_of_truncates truncated
      exact .inr (by simp [applyTxn, changed, listed])
  · refine (seen w found running snapshot taken other inside truncated (front ▸ before)).imp id fun applied => ?_
    simp only [applyTxn]
    split
    · exact List.mem_append_left _ applied
    · exact applied

theorem seen_applyStep {event : ApplyEvent} {next : State} (seen : TruncatesSeen table upstream s)
    (positions : Positions upstream s) (here : s.apply = some a)
    (hands : HandsOver table upstream s (.apply event)) (acts : ApplyActs table upstream s a event next) :
    TruncatesSeen table upstream next := by
  have front := front_of_apply here
  have same : ∀ effect ∈ s.log, effect ∈ s.log := fun _ inside => inside
  cases acts with
  | @txn txn at_ sent =>
    exact seen_txn seen positions here sent fun listed w snapshot found running taken =>
      hands.truncate rfl a w snapshot txn here listed found running taken sent
  | @handover w at_ found running =>
    refine seen.keep (le_of_eq front.symm) same fun other equal _ snapshot taken => ?_
    cases equal
    exact ⟨w, found, running, taken⟩
  | launch =>
    refine seen.keep (le_of_eq front.symm) same fun other equal _ snapshot taken => ?_
    cases equal
    cases taken
  | stop => exact seen.frame (max_le positions.progress positions.confirmed) rfl rfl
  | idle | check | readStatus | sawReady | toLaunch | setCatchup | waitEnds | waitRead | waitGone | waitFind | noLaunch =>
    exact seen.frame (le_of_eq front.symm) rfl rfl

/-- The sync worker gets to a place where it has no other snapshot. -/
theorem seen_goto (seen : TruncatesSeen table upstream s) {w : SyncWorker} (found : s.sync = some w)
    (running : w.running = true) {status : SyncStatus} {slot : Bool} {log : List Effect} {pc : SyncPc}
    (kept : ∀ effect ∈ s.log, effect ∈ log)
    (same : ∀ snapshot, pc.snapshot? = some snapshot → w.pc.snapshot? = some snapshot) :
    TruncatesSeen table upstream ({ s with status := status, slot := slot, log := log }.goto w pc) := by
  refine seen.keep le_rfl kept fun other equal _ snapshot taken => ?_
  cases equal
  exact ⟨w, found, running, same snapshot taken⟩

theorem seen_noSync {next : State} (stopped : ∀ w, next.sync = some w → w.running = false) :
    TruncatesSeen table upstream next := by
  intro w found running
  rw [stopped w found] at running
  cases running

theorem seen_syncStep {w : SyncWorker} {event : SyncEvent} {next : State} (seen : TruncatesSeen table upstream s)
    (positions : Positions upstream s) (found : s.sync = some w) (running : w.running = true)
    (acts : SyncActs table upstream s w event next) : TruncatesSeen table upstream next := by
  have same : ∀ effect ∈ s.log, effect ∈ s.log := fun _ inside => inside
  have failed : ∀ {log : List Effect} {slot : Bool},
      TruncatesSeen table upstream { s with log := log, slot := slot, sync := some w.fail } :=
    seen_noSync fun other equal => by cases equal; rfl
  cases acts with
  | beginReady at_ => exact seen_goto seen found running same (by simp [SyncPc.snapshot?])
  | beginInit at_ => exact seen_goto seen found running same (by simp [SyncPc.snapshot?])
  | slotTaken => exact failed
  | @createSlot snapshot at_ free behind =>
    -- a new snapshot contains all that has been sent
    intro other equal _ taken has txn _ _ passed
    cases equal
    cases has
    exact .inl (le_trans passed (le_trans positions.head behind))
  | setData at_ => exact seen_goto seen found running same (by simp [at_, SyncPc.snapshot?])
  | copy at_ => exact seen_goto seen found running (by simp +contextual) (by simp [at_, SyncPc.snapshot?])
  | copyFails => exact failed
  | setSyncwait at_ => exact seen_goto seen found running same (by simp [at_, SyncPc.snapshot?])
  | leaveWait at_ => exact seen_goto seen found running same (by simp [at_, SyncPc.snapshot?])
  | caughtUp at_ => exact seen_goto seen found running same (by simp [SyncPc.snapshot?])
  | catchUp at_ => exact seen_goto seen found running same (by simp [at_, SyncPc.snapshot?])
  | replayLast => exact seen_goto seen found running (fun _ => mem_replayed table _) (by simp [SyncPc.snapshot?])
  | replay at_ => exact seen_goto seen found running (fun _ => mem_replayed table _) (by simp [at_, SyncPc.snapshot?])
  | dropSlot at_ => exact seen_goto seen found running same (by simp [SyncPc.snapshot?])
  | commitReady at_ => exact seen_goto seen found running same (by simp [SyncPc.snapshot?])
  | exit =>
    refine seen_noSync fun other equal => ?_
    cases equal
  | sigterm =>
    refine seen.keep le_rfl same fun other equal _ snapshot taken => ?_
    cases equal
    exact ⟨w, found, running, taken⟩
  | crash => exact failed

theorem seen_step {event : Event} {next : State} (seen : TruncatesSeen table upstream s)
    (positions : Positions upstream s) (hands : HandsOver table upstream s event)
    (stepped : step table upstream s event = some next) : TruncatesSeen table upstream next := by
  cases event with
  | apply event =>
    obtain ⟨a, here, taken⟩ := Option.bind_eq_some_iff.mp stepped
    exact seen_applyStep seen positions here hands (applyStep_acts taken)
  | sync event =>
    obtain ⟨w, found, guarded⟩ := Option.bind_eq_some_iff.mp stepped
    obtain ⟨running, taken⟩ := Option.ite_none_right_eq_some.mp guarded
    exact seen_syncStep seen positions found running (syncStep_acts taken)
  | startApply =>
    simp only [step] at stepped
    split at stepped
    · cases stepped
    · next none =>
      cases stepped
      refine seen.frame (le_of_eq ?_) rfl rfl
      simp only [State.front, none]
  | confirm pos =>
    simp only [step] at stepped
    split at stepped
    · next a here =>
      obtain ⟨-, taken⟩ := Option.ite_none_right_eq_some.mp stepped
      cases taken
      refine seen.frame (le_of_eq ?_) rfl rfl
      simp only [State.front, here]
    · cases stepped
  | advance head =>
    obtain ⟨-, taken⟩ := Option.ite_none_right_eq_some.mp stepped
    cases taken
    exact seen.frame le_rfl rfl rfl
  | loseSlot =>
    cases stepped
    exact seen.frame le_rfl rfl rfl
  | reuse =>
    obtain ⟨w, -, guarded⟩ := Option.bind_eq_some_iff.mp stepped
    split at guarded
    · cases guarded
    · cases guarded
      refine seen_noSync fun other equal => ?_
      cases equal

/-! ## Steps of the sync worker -/

/-- A sync worker that is not at its end leaves the table not READY. -/
theorem Inv.unready (inv : Inv table upstream s) {w : SyncWorker} (found : s.sync = some w)
    (running : w.running = true) (busy : w.pc ≠ .exited) : s.status ≠ .ready :=
  fun isReady => busy ((inv.ready isReady).exited w found running)

/-- A sync worker that fails leaves nothing to be kept but what it has written. -/
theorem inv_fail (inv : Inv table upstream s) (w : SyncWorker) {log : List Effect} {slot : Bool}
    (kept : ∀ effect ∈ s.log, effect ∈ log) :
    Inv table upstream { s with log := log, slot := slot, sync := some w.fail } := by
  constructor
  · exact inv.positions.keep rfl rfl rfl le_rfl
  · intro isReady
    have ready := inv.ready isReady
    refine ⟨ready.covered.mono kept, ready.listed, ready.decided, ?_⟩
    intro other same running
    cases same
    cases running
  · exact inv.listing
  · intro other same running
    cases same
    cases running
  · intro other worker snapshot here same running
    cases same
    cases running
  · intro other same running
    cases same
    cases running
  · intro other same running
    cases same
    cases running

/-- A sync worker gets from one place to another, short of catching up. -/
theorem inv_goto (inv : Inv table upstream s) {w : SyncWorker} {status : SyncStatus} {slot : Bool} {log : List Effect}
    {head : ℕ} {pc : SyncPc} (unready : status ≠ .ready) (grows : s.head ≤ head) (notCatching : ¬ pc.CatchingUp status)
    (handed : ∀ a snapshot, s.apply = some a → pc.snapshot? = some snapshot →
      a.pc = .stopSet ∨ a.pc.Waits → a.sentPos ≤ max w.replayStopLsn snapshot)
    (attempt : Attempt table upstream log pc) :
    Inv table upstream ({ s with status := status, slot := slot, log := log, head := head }.goto w pc) := by
  constructor
  · exact inv.positions.keep rfl rfl rfl grows
  · intro isReady
    exact absurd isReady unready
  · exact inv.listing
  · intro other same _ catching
    cases same
    exact absurd catching notCatching
  · intro a other snapshot here same _ taken
    cases same
    exact handed a snapshot here taken
  · intro other same _
    cases same
    exact attempt
  · intro other same _ finishing
    cases same
    exact absurd (SyncPc.catchingUp_of_finishing _ finishing) notCatching

/-- A sync worker that catches up gets on; the apply worker still waits. -/
theorem inv_catchup (inv : Inv table upstream s) {w : SyncWorker} (found : s.sync = some w) (running : w.running = true)
    (catching : w.pc.CatchingUp s.status) {slot : Bool} {log : List Effect} {pc : SyncPc}
    (snapshot : ∀ snapshot, pc.snapshot? = some snapshot →
      w.pc.snapshot? = some snapshot) (attempt : Attempt table upstream log pc)
    (finished : pc = .finish ∨ pc = .dropped → ∀ a, s.apply = some a → a.pc.Waits →
      CoveredUpto table upstream log a.sentPos) :
    Inv table upstream ({ s with slot := slot, log := log }.goto w pc) := by
  obtain ⟨catchup, a, here, waits⟩ := inv.catching w found running catching
  constructor
  · exact inv.positions.keep rfl rfl rfl le_rfl
  · intro isReady
    rw [State.goto, catchup] at isReady
    cases isReady
  · exact inv.listing
  · intro other same _ _
    exact ⟨catchup, a, here, waits⟩
  · intro other worker at_ same sameWorker _ taken handed
    cases sameWorker
    exact inv.handed other w at_ same found running (snapshot at_ taken) handed
  · intro other same _
    cases same
    exact attempt
  · intro other same _ finishing
    cases same
    have front : State.front ({ s with slot := slot, log := log }.goto w pc) = a.sentPos := front_of_apply here
    rw [front]
    exact finished finishing a here waits

theorem inv_commitReady (inv : Inv table upstream s) {w : SyncWorker} (found : s.sync = some w)
    (running : w.running = true) (dropped : w.pc = .dropped) :
    Inv table upstream ({ s with status := .ready }.goto w .exited) := by
  have catching : w.pc.CatchingUp s.status := by rw [dropped]; trivial
  obtain ⟨-, a, here, waits⟩ := inv.catching w found running catching
  constructor
  · exact inv.positions.keep rfl rfl rfl le_rfl
  · intro _
    constructor
    · exact inv.finished w found running (.inr dropped)
    · intro other same _
      change s.apply = some other at same
      rw [here] at same
      cases same
      exact waits
    · intro other same
      change s.apply = some other at same
      rw [here] at same
      cases same
      rcases waits with at_ | at_
      · simp [at_]
      · simp [at_]
    · intro other same _
      cases same
      rfl
  · exact inv.listing
  · intro other same _ catching
    cases same
    cases catching
  · intro other worker snapshot _ same _ taken
    cases same
    cases taken
  · intro other same _
    cases same
    trivial
  · intro other same _ finishing
    cases same
    simp at finishing

theorem inv_noSync (inv : Inv table upstream s) : Inv table upstream { s with sync := none } := by
  constructor
  · exact inv.positions.keep rfl rfl rfl le_rfl
  · intro isReady
    have ready := inv.ready isReady
    refine ⟨ready.covered, ready.listed, ready.decided, ?_⟩
    intro w found
    cases found
  · exact inv.listing
  · intro w found
    cases found
  · intro a w snapshot here found
    cases found
  · intro w found
    cases found
  · intro w found
    cases found

theorem inv_sigterm (inv : Inv table upstream s) {w : SyncWorker} (found : s.sync = some w) :
    Inv table upstream { s with sync := some { w with gotSigterm := true } } := by
  constructor
  · exact inv.positions.keep rfl rfl rfl le_rfl
  · intro isReady
    have ready := inv.ready isReady
    refine ⟨ready.covered, ready.listed, ready.decided, ?_⟩
    intro other same running
    cases same
    exact ready.exited w found running
  · exact inv.listing
  · intro other same running catching
    cases same
    exact inv.catching w found running catching
  · intro a other snapshot here same running taken
    cases same
    exact inv.handed a w snapshot here found running taken
  · intro other same running
    cases same
    exact inv.attempt w found running
  · intro other same running finishing
    cases same
    exact inv.finished w found running finishing

/-- What was skipped is covered when the sync worker has nothing to replay. -/
theorem coveredUpto_snapshot {log : List Effect} {snapshot : ℕ} (copied : .copy snapshot ∈ log) :
    CoveredUpto table upstream log snapshot :=
  fun _ _ _ passed => .inl ⟨snapshot, copied, passed⟩

/-- One replayed transaction extends what has been replayed. -/
theorem attempt_replay {log : List Effect} {snapshot sentPos head : ℕ} {txn : Txn TableChange}
    (attempt : Attempt table upstream log (.replay snapshot sentPos))
    (found : next? upstream.txns sentPos head = some txn) :
    Attempt table upstream (if changesRows table txn then log ++ [.replay txn] else log)
      (.replay snapshot txn.endLsn) := by
  obtain ⟨⟨bounded, copied⟩, reached, replayed⟩ := attempt
  obtain ⟨inside, -, -, between⟩ := next?_spec found reached
  have kept : ∀ effect ∈ log, effect ∈ (if changesRows table txn then log ++ [.replay txn] else log) := fun _ before =>
    mem_replayed table txn before
  refine ⟨⟨bounded, kept _ copied⟩, boundary_endLsn inside, fun other member changed after passed => ?_⟩
  rcases between other member passed with rfl | before
  · rw [if_pos changed]
    exact List.mem_append_right _ (List.mem_singleton.mpr rfl)
  · exact kept _ (replayed other member changed after before)

/-- The snapshot and the replay together cover everything up to the position replayed, except for TRUNCATE. -/
theorem coveredUpto_replay {log : List Effect} {snapshot sentPos pos : ℕ}
    (attempt : Attempt table upstream log (.replay snapshot sentPos)) (reached : pos ≤ max sentPos snapshot)
    (seen : ∀ txn ∈ upstream.txns, truncates table txn = true → txn.endLsn ≤ pos →
      txn.endLsn ≤ snapshot ∨ .apply txn ∈ log) : CoveredUpto table upstream log pos := by
  obtain ⟨⟨bounded, copied⟩, -, replayed⟩ := attempt
  intro txn inside changed passed
  rcases boundary_iff.mp bounded txn inside with visible | after
  · exact .inl ⟨snapshot, copied, visible⟩
  cases truncated : truncates table txn with
  | true =>
    rcases seen txn inside truncated passed with visible | applied
    · exact .inl ⟨snapshot, copied, visible⟩
    · exact .inr (.inr applied)
  | false =>
    refine .inr (.inl ⟨replayed txn inside (changesRows_of_changes changed truncated) after ?_, truncated⟩)
    have := upstream.ended txn inside
    omega

theorem inv_syncStep {w : SyncWorker} {event : SyncEvent} {next : State} (inv : Inv table upstream s)
    (found : s.sync = some w) (running : w.running = true) (hands : HandsOver table upstream s (.sync event))
    (seen : TruncatesSeen table upstream s) (acts : SyncActs table upstream s w event next) :
    Inv table upstream next := by
  have attempt := inv.attempt w found running
  have handed := fun a snapshot here => inv.handed a w snapshot here found running
  have same : ∀ effect ∈ s.log, effect ∈ s.log := fun _ inside => inside
  cases acts with
  | beginReady at_ ready => exact absurd ready (inv.unready found running (by simp [at_]))
  | beginInit => exact inv_goto inv (by simp) le_rfl (by simp [SyncPc.CatchingUp]) (by simp [SyncPc.snapshot?]) trivial
  | slotTaken => exact inv_fail inv w same
  | createSlot at_ free behind bounded =>
    have unready := inv.unready found running (by simp [at_])
    refine inv_goto inv unready behind (by simp [SyncPc.CatchingUp]) (fun a taken here equal _ => ?_) bounded
    cases equal
    have := inv.positions.head
    rw [front_of_apply here] at this
    omega
  | setData at_ =>
    rw [at_] at attempt handed
    exact inv_goto inv (by simp) le_rfl (by simp [SyncPc.CatchingUp]) handed attempt
  | copy at_ =>
    have unready := inv.unready found running (by simp [at_])
    rw [at_] at attempt handed
    exact inv_goto inv unready le_rfl (by simp [SyncPc.CatchingUp]) handed ⟨attempt, by simp⟩
  | copyFails =>
    apply inv_fail inv w
    intro effect before
    split
    · exact List.mem_append_left _ before
    · exact before
  | setSyncwait at_ =>
    rw [at_] at attempt handed
    exact inv_goto inv (by simp) le_rfl (by simp [SyncPc.CatchingUp]) handed attempt
  | leaveWait at_ =>
    rw [at_] at attempt
    refine inv_catchup inv found running ?_ ?_ attempt (by simp)
    · rw [at_]
      exact hands.wait rfl
    · rw [at_]
      exact fun _ taken => taken
  | @caughtUp snapshot at_ reached =>
    have catching : w.pc.CatchingUp s.status := by rw [at_]; trivial
    rw [at_] at attempt handed
    refine inv_catchup inv found running catching (by simp [SyncPc.snapshot?]) trivial fun _ a here waits => ?_
    refine (coveredUpto_snapshot attempt.2).le ?_
    have := handed a snapshot here rfl (.inr waits)
    omega
  | catchUp at_ ahead =>
    have catching : w.pc.CatchingUp s.status := by rw [at_]; trivial
    rw [at_] at attempt
    refine inv_catchup inv found running catching ?_ ⟨attempt, attempt.1, ?_⟩ (by simp)
    · rw [at_]
      exact fun _ taken => taken
    · intro txn inside _ after passed
      have := upstream.ended txn inside
      omega
  | @replayLast snapshot sentPos txn at_ sent stops =>
    have catching : w.pc.CatchingUp s.status := by rw [at_]; trivial
    rw [at_] at attempt handed
    refine inv_catchup inv found running catching (by simp [SyncPc.snapshot?]) trivial fun _ a here waits => ?_
    apply coveredUpto_replay (attempt_replay attempt sent)
    · have := handed a snapshot here rfl (.inr waits)
      omega
    · intro other inside truncated passed
      rw [← front_of_apply here] at passed
      exact (seen w found running snapshot (by rw [at_]; rfl) other inside truncated passed).imp id (mem_replayed table txn)
  | replay at_ sent =>
    have catching : w.pc.CatchingUp s.status := by rw [at_]; trivial
    rw [at_] at attempt
    refine inv_catchup inv found running catching ?_ (attempt_replay attempt sent) (by simp)
    rw [at_]
    exact fun _ taken => taken
  | dropSlot at_ =>
    have catching : w.pc.CatchingUp s.status := by rw [at_]; trivial
    refine inv_catchup inv found running catching (by simp [SyncPc.snapshot?]) trivial fun _ a here _ => ?_
    have covered := inv.finished w found running (.inl at_)
    rwa [front_of_apply here] at covered
  | commitReady at_ => exact inv_commitReady inv found running at_
  | exit => exact inv_noSync inv
  | sigterm => exact inv_sigterm inv found
  | crash => exact inv_fail inv w same

/-! ## Runs -/

theorem inv_startApply (inv : Inv table upstream s) (none : s.apply = none) :
    Inv table upstream { s with apply := some ⟨false, true, invalidXLogRecPtr, invalidXLogRecPtr,
      max s.progress s.confirmed, .idle⟩ } := by
  have front : State.front { s with apply := some ⟨false, true, invalidXLogRecPtr, invalidXLogRecPtr,
      max s.progress s.confirmed, .idle⟩ } = s.front := by
    simp only [State.front, none]
  have idle : ∀ w, s.sync = some w → w.running = true → ¬ w.pc.CatchingUp s.status := by
    intro w found running catching
    obtain ⟨-, a, here, -⟩ := inv.catching w found running catching
    rw [none] at here
    cases here
  constructor
  · exact inv.positions.keep front rfl rfl le_rfl
  · intro isReady
    have ready := inv.ready isReady
    constructor
    · rw [front]
      exact ready.covered
    · intro other same listed
      cases same
      cases listed
    · intro other same
      cases same
      exact ⟨by simp, by simp⟩
    · exact ready.exited
  · intro other same notIdle
    cases same
    exact absurd rfl notIdle
  · intro w found running catching
    exact absurd catching (idle w found running)
  · intro other w snapshot same found running taken handed
    cases same
    simp [ApplyPc.Waits] at handed
  · exact inv.attempt
  · intro w found running finishing
    rw [front]
    exact inv.finished w found running finishing

/-- The provider gets on, or forgets the slot. -/
theorem inv_provider (inv : Inv table upstream s) {slot : Bool} {confirmed head : ℕ}
    (positions : Positions upstream { s with slot := slot, confirmed := confirmed, head := head })
    (front : State.front { s with slot := slot, confirmed := confirmed, head := head } = s.front) :
    Inv table upstream { s with slot := slot, confirmed := confirmed, head := head } := by
  constructor
  · exact positions
  · intro isReady
    have ready := inv.ready isReady
    refine ⟨?_, ready.listed, ready.decided, ready.exited⟩
    rw [front]
    exact ready.covered
  · exact inv.listing
  · exact inv.catching
  · exact inv.handed
  · exact inv.attempt
  · intro w found running finishing
    rw [front]
    exact inv.finished w found running finishing

theorem inv_step {event : Event} {next : State} (inv : Inv table upstream s) (seen : TruncatesSeen table upstream s)
    (hands : HandsOver table upstream s event) (stepped : step table upstream s event = some next) :
    Inv table upstream next := by
  have positions := inv.positions
  cases event with
  | apply event =>
    obtain ⟨a, here, taken⟩ := Option.bind_eq_some_iff.mp stepped
    exact inv_applyStep inv here hands (applyStep_acts taken)
  | sync event =>
    obtain ⟨w, found, guarded⟩ := Option.bind_eq_some_iff.mp stepped
    obtain ⟨running, taken⟩ := Option.ite_none_right_eq_some.mp guarded
    exact inv_syncStep inv found running hands seen (syncStep_acts taken)
  | startApply =>
    simp only [step] at stepped
    split at stepped
    · cases stepped
    · next none =>
      cases stepped
      exact inv_startApply inv none
  | confirm pos =>
    simp only [step] at stepped
    split at stepped
    · next a here =>
      obtain ⟨⟨sent, bounded⟩, taken⟩ := Option.ite_none_right_eq_some.mp stepped
      cases taken
      have front : State.front { s with confirmed := pos } = s.front := by
        rw [front_of_apply here]
        exact front_of_apply here
      refine inv_provider inv ?_ front
      constructor
      · rw [front]
        exact positions.progress
      · rw [front, front_of_apply here]
        exact sent
      · rw [front]
        exact positions.head
      · rw [front]
        exact positions.frontBoundary
      · exact positions.progressBoundary
      · exact bounded
    · cases stepped
  | advance head =>
    obtain ⟨grows, taken⟩ := Option.ite_none_right_eq_some.mp stepped
    cases taken
    exact inv_provider inv (inv.positions.keep rfl rfl rfl grows) rfl
  | loseSlot =>
    cases stepped
    exact inv_provider inv (inv.positions.keep rfl rfl rfl le_rfl) rfl
  | reuse =>
    obtain ⟨w, found, guarded⟩ := Option.bind_eq_some_iff.mp stepped
    split at guarded
    · cases guarded
    · cases guarded
      exact inv_noSync inv

end Step

theorem inv_init (table : RangeVar) (upstream : Upstream TableChange) : Inv table upstream (init upstream) := by
  constructor
  · exact ⟨le_rfl, le_rfl, le_rfl, boundary_start, boundary_start, boundary_start⟩
  · intro isReady
    cases isReady
  · intro a here idle
    cases here
    exact absurd rfl idle
  · intro w found
    cases found
  · intro a w snapshot here found
    cases found
  · intro w found
    cases found
  · intro w found
    cases found

/-- In every run whose hand-overs keep what was skipped, the synchronisation of a table loses no
change. -/
theorem no_change_lost (table : RangeVar) (upstream : Upstream TableChange) (events : List Event) (final : State)
    (hands : Permitted (step table upstream) (HandsOver table upstream) (init upstream) events)
    (success : run (step table upstream) (init upstream) events = some final) : NoneLost table upstream final := by
  have preserved : ∀ {s next : State} {event : Event}, Inv table upstream s ∧ TruncatesSeen table upstream s →
      HandsOver table upstream s event → step table upstream s event = some next →
      Inv table upstream next ∧ TruncatesSeen table upstream next :=
    fun ⟨inv, seen⟩ hands stepped =>
      ⟨inv_step inv seen hands stepped, seen_step seen inv.positions hands stepped⟩
  have initial : Inv table upstream (init upstream) ∧ TruncatesSeen table upstream (init upstream) :=
    ⟨inv_init table upstream, seen_noSync nofun⟩
  obtain ⟨inv, -⟩ := run_invariant preserved initial hands success
  intro isReady _
  exact (inv.ready isReady).covered.le inv.positions.progress

def sampleTable : RangeVar := ⟨.ofBytes [112], .ofBytes [116]⟩

def otherTable : RangeVar := ⟨.ofBytes [112], .ofBytes [117]⟩

def firstTxn : Txn TableChange := ⟨10, 20, [.row (.row sampleTable)]⟩

def secondTxn : Txn TableChange := ⟨30, 40, [.row (.row sampleTable), .row (.row otherTable)]⟩

def sampleUpstream : Upstream TableChange where
  txns := [firstTxn, secondTxn]
  start := 5
  ended := by decide
  ordered := by decide
  after := by decide

/-- The apply worker launches a sync worker, which copies the table. -/
def copyRun : List Event :=
  [.apply .idle, .apply .check, .apply .readStatus, .apply .decide, .apply (.launch true), .sync .begin,
    .sync (.createSlot 5), .sync .setData, .sync .copy, .advance 40]

/-- The apply worker hands over after the first transaction, and goes on with the second one. -/
def handoverRun : List Event :=
  copyRun ++ [Event.sync .setSyncwait, .apply .txn, .apply .check, .apply .readStatus, .apply .decide,
    .apply .setCatchup, .sync .leaveWait, .sync .compare, .sync .replay, .sync .dropSlot, .sync .commitReady,
    .apply .waitRead, .apply .txn]

def truncateTxn : Txn TableChange := ⟨10, 20, [.row (.truncate sampleTable)]⟩

def truncateUpstream : Upstream TableChange where
  txns := [truncateTxn, secondTxn]
  start := 5
  ended := by decide
  ordered := by decide
  after := by decide

/-- The apply worker skips the first transaction, and of the second it commits the change of the other
table. SIGTERM then ends the sync worker's wait, it finds nothing to replay before the stop position
it was launched with, and marks the table READY. And with nothing but a proper hand-over, a TRUNCATE that the
apply worker skips is not replayed. -/
theorem change_lost_on_sigterm :
    (∃ final, run (step sampleTable sampleUpstream) (init sampleUpstream)
        (copyRun ++ [.apply .txn, .apply .check, .apply .readStatus, .apply .decide, .apply (.launch false),
          .apply .txn, .apply .check, .apply .readStatus, .apply .decide, .apply (.launch false),
          .sync .setSyncwait, .sync .sigterm, .sync .leaveWait, .sync .compare, .sync .dropSlot,
          .sync .commitReady, .apply .idle, .apply .check, .apply .readStatus, .apply .decide]) = some final ∧
      ¬ NoneLost sampleTable sampleUpstream final) ∧
    ∃ final, run (step sampleTable truncateUpstream) (init truncateUpstream) handoverRun = some final ∧
      ¬ NoneLost sampleTable truncateUpstream final := by
  refine ⟨⟨_, rfl, fun kept => ?_⟩, ⟨_, rfl, fun kept => ?_⟩⟩
  · have unlisted := kept rfl (by intro a here; cases here; rfl)
    have covered : Covered sampleTable [.copy 5] firstTxn :=
      unlisted firstTxn (by simp [sampleUpstream]) (by decide) (by decide)
    simp [Covered, firstTxn] at covered
  · have unlisted := kept rfl (by intro a here; cases here; rfl)
    have covered : Covered sampleTable [.copy 5, .apply secondTxn] truncateTxn :=
      unlisted truncateTxn (by simp [truncateUpstream]) (by decide) (by decide)
    simp [Covered, truncateTxn, secondTxn] at covered

theorem no_change_lost_after_handover :
    ∃ final, run (step sampleTable sampleUpstream) (init sampleUpstream) handoverRun = some final ∧
      final.log = [.copy 5, .replay firstTxn, .apply secondTxn] ∧ final.status = .ready ∧ final.progress = 30 ∧
      NoneLost sampleTable sampleUpstream final :=
  ⟨_, rfl, rfl, rfl, rfl, no_change_lost sampleTable sampleUpstream handoverRun _ (by decide +kernel) rfl⟩

end PGLogical.TableSync
