import PGLogical.Soundness.TableSync

/-! # Table synchronisation applies no change twice

The apply worker applies changes of the table once it has taken the table from its list, and what it
is sent after that lies beyond all that the sync worker has replayed. It lies beyond the snapshot too
if the apply worker had got that far when it took the table from its list. The slot of the sync
worker stands for the rows an attempt has left: no sync worker copies while the slot is there. The
sync worker itself gives it up only on its way to READY.
-/

namespace PGLogical.TableSync.Once

open Machine Replay

/-! ## What is done twice -/

/-- The second of two effects does again what the first has done to the table. -/
def Repeats : Effect → Effect → Prop
  | .copy snapshot, .apply txn => txn.endLsn ≤ snapshot
  | .replay replayed, .apply txn => replayed = txn
  | .copy _, .copy _ => True
  | .replay _, .copy _ => True
  | _, _ => False

/-- The apply worker applies nothing that a copy contains or that the sync worker has replayed, and no
copy is made over what an earlier attempt has left. -/
def NoneRepeated (log : List Effect) : Prop := log.Pairwise fun earlier later => ¬ Repeats earlier later

/-- The snapshots of the copies. -/
def snapshots (log : List Effect) : List ℕ :=
  log.filterMap fun effect => match effect with
    | .copy snapshot => some snapshot
    | _ => none

@[simp] theorem snapshots_copy (log : List Effect) (snapshot : ℕ) :
    snapshots (log ++ [.copy snapshot]) = snapshots log ++ [snapshot] := by
  simp [snapshots]

@[simp] theorem snapshots_replay (log : List Effect) (txn : Txn TableChange) :
    snapshots (log ++ [.replay txn]) = snapshots log := by
  simp [snapshots]

/-- What the sync worker replays is no snapshot. -/
theorem snapshots_replayed (table : RangeVar) (log : List Effect) (txn : Txn TableChange) :
    snapshots (if changesRows table txn then log ++ [.replay txn] else log) = snapshots log := by
  split
  · exact snapshots_replay log txn
  · rfl

@[simp] theorem snapshots_apply (log : List Effect) (txn : Txn TableChange) :
    snapshots (log ++ [.apply txn]) = snapshots log := by
  simp [snapshots]

theorem mem_snapshots {log : List Effect} {snapshot : ℕ} (copied : .copy snapshot ∈ log) :
    snapshot ∈ snapshots log :=
  List.mem_filterMap.mpr ⟨_, copied, rfl⟩

theorem noneRepeated_append {log : List Effect} {effect : Effect} (once : NoneRepeated log)
    (first : ∀ earlier ∈ log, ¬ Repeats earlier effect) : NoneRepeated (log ++ [effect]) := by
  refine List.pairwise_append.mpr ⟨once, List.pairwise_singleton .., fun earlier inside later single => ?_⟩
  rw [List.mem_singleton.mp single]
  exact first earlier inside

/-- The apply worker has been sent every change of the table that a copy contains. -/
def Passed (table : RangeVar) (upstream : Upstream TableChange) (log : List Effect) (pos : ℕ) : Prop :=
  ∀ snapshot ∈ snapshots log, ∀ txn ∈ upstream.txns, changes table txn = true →
    txn.endLsn ≤ snapshot → txn.endLsn ≤ pos

/-- The steps of a synchronisation that does nothing twice. -/
structure SyncsOnce (table : RangeVar) (upstream : Upstream TableChange) (s : State) (event : Event) : Prop where
  /-- The apply worker is not behind the snapshot when it takes the READY table from its list. -/
  remove : event = .apply .decide → s.status = .ready → ∀ a, s.apply = some a → a.pc = .saw .ready →
    Passed table upstream s.log a.sentPos
  removeAfterWait : event = .apply .waitRead → s.status = .ready → ∀ a, s.apply = some a →
    Passed table upstream s.log a.sentPos
  /-- The status is not set back from READY. -/
  catchup : event = .apply .setCatchup → s.status ≠ .ready
  /-- The slot is not cleaned up after a copy that has been committed. -/
  committed : event ≠ .sync (.copyFails true true)
  /-- The sync worker does not crash between dropping its slot and READY. -/
  crash : event = .sync .crash → ∀ w, s.sync = some w → w.pc = .dropped → s.status = .ready
  /-- Nobody else drops the slot once a snapshot has been taken. -/
  slot : event = .loseSlot → s.status ≠ .ready → snapshots s.log = [] ∧
    ∀ w, s.sync = some w → w.running = true → w.pc.snapshot? = none

instance Passed.decidable (table : RangeVar) (upstream : Upstream TableChange) (log : List Effect) (pos : ℕ) :
    Decidable (Passed table upstream log pos) :=
  inferInstanceAs (Decidable (∀ snapshot ∈ snapshots log, ∀ txn ∈ upstream.txns, changes table txn = true →
    txn.endLsn ≤ snapshot → txn.endLsn ≤ pos))

instance SyncsOnce.decidable (table : RangeVar) (upstream : Upstream TableChange) (s : State) :
    ∀ event, Decidable (SyncsOnce table upstream s event)
  | .apply .decide => decidable_of_iff (s.status = .ready → ∀ a ∈ s.apply, a.pc = .saw .ready →
        Passed table upstream s.log a.sentPos)
      ⟨fun passed => ⟨fun _ => passed, nofun, nofun, nofun, nofun, nofun⟩, fun once => once.remove rfl⟩
  | .apply .waitRead => decidable_of_iff (s.status = .ready → ∀ a ∈ s.apply, Passed table upstream s.log a.sentPos)
      ⟨fun passed => ⟨nofun, fun _ => passed, nofun, nofun, nofun, nofun⟩, fun once => once.removeAfterWait rfl⟩
  | .apply .setCatchup => decidable_of_iff (s.status ≠ .ready)
      ⟨fun unready => ⟨nofun, nofun, fun _ => unready, nofun, nofun, nofun⟩, fun once => once.catchup rfl⟩
  | .sync (.copyFails true true) => isFalse fun once => once.committed rfl
  | .sync .crash => decidable_of_iff (∀ w ∈ s.sync, w.pc = .dropped → s.status = .ready)
      ⟨fun ready => ⟨nofun, nofun, nofun, nofun, fun _ => ready, nofun⟩, fun once => once.crash rfl⟩
  | .loseSlot => decidable_of_iff (s.status ≠ .ready → snapshots s.log = [] ∧
        ∀ w ∈ s.sync, w.running = true → w.pc.snapshot? = none)
      ⟨fun unused => ⟨nofun, nofun, nofun, nofun, nofun, fun _ => unused⟩, fun once => once.slot rfl⟩
  | .apply .txn | .apply .idle | .apply .check | .apply .readStatus | .apply .waitFind | .apply (.launch _)
  | .apply .stop | .sync .begin | .sync (.createSlot _) | .sync .setData | .sync .copy
  | .sync (.copyFails false _) | .sync (.copyFails true false) | .sync .setSyncwait | .sync .leaveWait
  | .sync .compare | .sync .replay | .sync .dropSlot | .sync .commitReady | .sync .exit | .sync .sigterm
  | .startApply | .confirm _ | .advance _ | .reuse => isTrue ⟨nofun, nofun, nofun, nofun, nofun, nofun⟩

/-! ## The invariant -/

structure Applies (table : RangeVar) (upstream : Upstream TableChange) (status : SyncStatus) (log : List Effect)
    (head : ℕ) (a : ApplyWorker) : Prop where
  pending : a.syncPending = false
  received : a.lastReceived = invalidXLogRecPtr ∨ ∃ txn ∈ upstream.txns, txn.endLsn = a.lastReceived
  receivedSent : a.lastReceived ≤ a.sentPos
  origin : a.originLsn ≤ a.sentPos
  head : a.sentPos ≤ head
  bounded : boundary upstream.txns a.sentPos = true
  unlisted : a.listed = false → status = .ready ∧ Passed table upstream log a.sentPos
  saw : a.pc = .saw .ready → status = .ready

/-- A sync worker before its copy. -/
def Fresh (pc : SyncPc) : Prop := ∃ snapshot, pc = .setData snapshot ∨ pc = .copy snapshot

/-- The places where a sync worker can be when the table is READY. -/
def Over (pc : SyncPc) : Prop := pc = .start ∨ pc = .finish ∨ pc = .dropped ∨ pc = .exited

/-- A running sync worker, beside an apply worker that has been sent everything before `pos`. -/
structure Syncs (table : RangeVar) (upstream : Upstream TableChange) (status : SyncStatus) (slot : Bool)
    (log : List Effect) (pos : ℕ) (w : SyncWorker) : Prop where
  ready : status = .ready → Over w.pc
  stop : w.replayStopLsn ≤ pos
  /-- The stop position is the end of a transaction, or the sync worker need not replay up to it. -/
  target : w.replayStopLsn = invalidXLogRecPtr ∨ (∃ txn ∈ upstream.txns, txn.endLsn = w.replayStopLsn) ∨
    ∀ snapshot, w.pc.snapshot? = some snapshot → w.replayStopLsn ≤ snapshot
  attempt : Attempt table upstream log w.pc
  fresh : Fresh w.pc → slot = true ∧ snapshots log = []
  replaying : ∀ snapshot sentPos, w.pc = .replay snapshot sentPos → snapshot ≤ sentPos ∧ sentPos < w.replayStopLsn

structure History (log : List Effect) (pos : ℕ) : Prop where
  replayed : ∀ txn, .replay txn ∈ log → txn.endLsn ≤ pos ∧ snapshots log ≠ []
  once : NoneRepeated log

/-- What keeps another sync worker from copying. -/
def Kept (s : State) : Prop :=
  s.slot = true ∨ s.status = .ready ∨ ∃ w, s.sync = some w ∧ w.running = true ∧ w.pc = .dropped

structure Inv (table : RangeVar) (upstream : Upstream TableChange) (s : State) (a : ApplyWorker) : Prop where
  here : s.apply = some a
  applies : Applies table upstream s.status s.log s.head a
  syncs : ∀ w, s.sync = some w → w.running = true → Syncs table upstream s.status s.slot s.log a.sentPos w
  history : History s.log a.sentPos
  kept : snapshots s.log ≠ [] → Kept s

section Step

variable {table : RangeVar} {upstream : Upstream TableChange} {s : State} {a : ApplyWorker}

/-! ## Steps of the apply worker -/

/-- The apply worker moves on without receiving anything. -/
theorem Inv.move (inv : Inv table upstream s a) {next : ApplyWorker} (pending : next.syncPending = false)
    (received : next.lastReceived = a.lastReceived) (origin : next.originLsn = a.originLsn)
    (sentPos : next.sentPos = a.sentPos)
    (unlisted : next.listed = false → a.listed = false ∨ s.status = .ready ∧ Passed table upstream s.log a.sentPos)
    (saw : next.pc = .saw .ready → s.status = .ready) :
    Inv table upstream { s with apply := some next } next := by
  have applies := inv.applies
  constructor
  · rfl
  · constructor
    · exact pending
    · rw [received]
      exact applies.received
    · rw [received, sentPos]
      exact applies.receivedSent
    · rw [origin, sentPos]
      exact applies.origin
    · rw [sentPos]
      exact applies.head
    · rw [sentPos]
      exact applies.bounded
    · intro removed
      rw [sentPos]
      rcases unlisted removed with before | passed
      · exact applies.unlisted before
      · exact passed
    · exact saw
  · rw [sentPos]
    exact inv.syncs
  · rw [sentPos]
    exact inv.history
  · exact inv.kept

theorem Syncs.le {status : SyncStatus} {slot : Bool} {log more : List Effect} {pos later : ℕ} {w : SyncWorker}
    (syncs : Syncs table upstream status slot log pos w) (order : pos ≤ later)
    (kept : ∀ effect ∈ log, effect ∈ more) (same : snapshots more = snapshots log) :
    Syncs table upstream status slot more later w := by
  constructor
  · exact syncs.ready
  · exact le_trans syncs.stop order
  · exact syncs.target
  · exact syncs.attempt.mono kept
  · rw [same]
    exact syncs.fresh
  · exact syncs.replaying

theorem inv_txn (inv : Inv table upstream s a) {txn : Txn TableChange}
    (found : next? upstream.txns a.sentPos s.head = some txn) :
    ∃ next, Inv table upstream (applyTxn table s a txn) next := by
  have applies := inv.applies
  obtain ⟨inside, after, committed, -⟩ := next?_spec found applies.bounded
  have ended := upstream.ended txn inside
  have grows : a.sentPos ≤ txn.endLsn := by omega
  have kept : ∀ effect ∈ s.log, effect ∈ (applyTxn table s a txn).log := by
    intro effect before
    simp only [applyTxn]
    split
    · exact List.mem_append_left _ before
    · exact before
  have same : snapshots (applyTxn table s a txn).log = snapshots s.log := by
    simp only [applyTxn]
    split
    · exact snapshots_apply s.log txn
    · rfl
  refine ⟨_, rfl, ?_, ?_, ?_, ?_⟩
  · constructor
    · exact applies.pending
    · exact .inr ⟨txn, inside, rfl⟩
    · exact le_rfl
    · exact le_of_lt ended
    · exact committed
    · exact boundary_endLsn inside
    · intro unlisted
      obtain ⟨ready, passed⟩ := applies.unlisted unlisted
      refine ⟨ready, fun snapshot copied other member changed visible => ?_⟩
      rw [same] at copied
      exact le_trans (passed snapshot copied other member changed visible) grows
    · intro saw
      cases saw
  · intro w found running
    exact (inv.syncs w found running).le grows kept same
  · have replayed : ∀ other, .replay other ∈ (applyTxn table s a txn).log → .replay other ∈ s.log := by
      intro other
      simp only [applyTxn]
      split
      · simp
      · exact id
    constructor
    · intro other before
      obtain ⟨sent, copied⟩ := inv.history.replayed other (replayed other before)
      rw [same]
      exact ⟨le_trans sent grows, copied⟩
    · simp only [applyTxn]
      split
      · next applied =>
        have unlisted : a.listed = false := by simp_all
        obtain ⟨-, passed⟩ := applies.unlisted unlisted
        -- it ends beyond the position up to which everything copied or replayed has been sent
        apply noneRepeated_append inv.history.once
        intro earlier before repeats
        cases earlier with
        | copy snapshot =>
          have := passed snapshot (mem_snapshots before) txn inside (by simp_all) repeats
          omega
        | replay other =>
          cases repeats
          have := (inv.history.replayed txn before).1
          omega
        | apply other => exact repeats
      · exact inv.history.once
  · intro copied
    rw [same] at copied
    exact inv.kept copied

/-- The apply worker hands its position over. -/
theorem inv_handover (inv : Inv table upstream s a) {w : SyncWorker} (found : s.sync = some w)
    (later : w.replayStopLsn ≤ a.lastReceived) :
    ∃ next, Inv table upstream { s with
      sync := some { w with replayStopLsn := a.lastReceived }, apply := some { a with pc := .stopSet } } next := by
  have applies := inv.applies
  refine ⟨_, rfl, ?_, ?_, inv.history, ?_⟩
  · exact ⟨applies.pending, applies.received, applies.receivedSent, applies.origin, applies.head, applies.bounded,
      applies.unlisted, by simp⟩
  · intro other same running
    cases same
    have syncs := inv.syncs w found running
    constructor
    · exact syncs.ready
    · exact applies.receivedSent
    · rcases applies.received with nothing | ended
      · exact .inl nothing
      · exact .inr (.inl ended)
    · exact syncs.attempt
    · exact syncs.fresh
    · intro snapshot sentPos replaying
      obtain ⟨order, before⟩ := syncs.replaying snapshot sentPos replaying
      exact ⟨order, lt_of_lt_of_le before later⟩
  · intro copied
    rcases inv.kept copied with slot | ready | ⟨other, same, running, dropped⟩
    · exact .inl slot
    · exact .inr (.inl ready)
    · rw [found] at same
      cases same
      exact .inr (.inr ⟨_, rfl, running, dropped⟩)

theorem inv_setCatchup (inv : Inv table upstream s a) (unready : s.status ≠ .ready) :
    ∃ next, Inv table upstream { s with status := .catchup, apply := some { a with pc := .waitRead } } next := by
  have applies := inv.applies
  refine ⟨_, rfl, ?_, ?_, inv.history, ?_⟩
  · refine ⟨applies.pending, applies.received, applies.receivedSent, applies.origin, applies.head, applies.bounded,
      ?_, by simp⟩
    intro unlisted
    exact absurd (applies.unlisted unlisted).1 unready
  · intro w found running
    have syncs := inv.syncs w found running
    exact ⟨by simp, syncs.stop, syncs.target, syncs.attempt, syncs.fresh, syncs.replaying⟩
  · intro copied
    rcases inv.kept copied with slot | ready | dropped
    · exact .inl slot
    · exact absurd ready unready
    · exact .inr (.inr dropped)

/-- A sync worker without a snapshot. -/
theorem Syncs.outside {status : SyncStatus} {slot : Bool} {log : List Effect} {pos : ℕ} {w : SyncWorker}
    (none : w.pc.snapshot? = none) (places : status = .ready → Over w.pc) (stop : w.replayStopLsn ≤ pos) :
    Syncs table upstream status slot log pos w := by
  constructor
  · exact places
  · exact stop
  · refine .inr (.inr fun snapshot taken => ?_)
    rw [none] at taken
    cases taken
  · cases pc : w.pc <;> simp_all [SyncPc.snapshot?, Attempt]
  · rintro ⟨snapshot, setData | copy⟩
    · simp [setData, SyncPc.snapshot?] at none
    · simp [copy, SyncPc.snapshot?] at none
  · intro snapshot sentPos replaying
    simp [replaying, SyncPc.snapshot?] at none

theorem inv_launch (inv : Inv table upstream s a) (free : ∀ w, s.sync = some w → w.running = false) :
    ∃ next, Inv table upstream { s with
      sync := some ⟨true, false, a.originLsn, .start⟩, apply := some { a with pc := .idle } } next := by
  have applies := inv.applies
  refine ⟨_, rfl, ?_, ?_, inv.history, ?_⟩
  · exact ⟨applies.pending, applies.received, applies.receivedSent, applies.origin, applies.head, applies.bounded,
      applies.unlisted, by simp⟩
  · intro w found _
    cases found
    exact .outside rfl (fun _ => .inl rfl) applies.origin
  · intro copied
    rcases inv.kept copied with slot | ready | ⟨w, found, running, -⟩
    · exact .inl slot
    · exact .inr (.inl ready)
    · rw [free w found] at running
      cases running

theorem inv_applyStep {event : ApplyEvent} {next : State} (inv : Inv table upstream s a)
    (once : SyncsOnce table upstream s (.apply event)) (alive : event ≠ .stop)
    (acts : ApplyActs table upstream s a event next) : ∃ a, Inv table upstream next a := by
  have pending := inv.applies.pending
  cases acts with
  | txn at_ sent => exact inv_txn inv sent
  | check at_ reread =>
    simp only [pending, Bool.false_eq_true, if_false] at reread
    subst reread
    refine ⟨_, inv.move rfl rfl rfl rfl .inl ?_⟩
    dsimp only
    split <;> simp
  | readStatus at_ =>
    refine ⟨_, inv.move pending rfl rfl rfl .inl ?_⟩
    intro saw
    exact ApplyPc.saw.inj saw
  | sawReady at_ =>
    have ready := inv.applies.saw at_
    refine ⟨_, inv.move pending rfl rfl rfl (fun _ => .inr ⟨ready, ?_⟩) (by simp)⟩
    exact once.remove rfl ready a inv.here at_
  | handover at_ found running reached => exact inv_handover inv found reached
  | setCatchup at_ => exact inv_setCatchup inv (once.catchup rfl)
  | waitEnds at_ ready =>
    refine ⟨_, inv.move pending rfl rfl rfl (fun _ => .inr ⟨ready, ?_⟩) (by simp)⟩
    exact once.removeAfterWait rfl ready a inv.here
  | launch at_ listed idle => exact inv_launch inv idle
  | idle | toLaunch | waitRead | waitGone | waitFind | noLaunch =>
    exact ⟨_, inv.move pending rfl rfl rfl .inl (by simp)⟩
  | stop => exact absurd rfl alive

/-! ## Steps of the sync worker -/

/-- A sync worker gets from one place to another. -/
theorem Inv.goto (inv : Inv table upstream s a) {w : SyncWorker} {status : SyncStatus} {slot : Bool}
    {log : List Effect} {head : ℕ} {pc : SyncPc} (stable : s.status = .ready → status = .ready)
    (grows : s.head ≤ head) (same : s.status = .ready → snapshots log = snapshots s.log)
    (history : History log a.sentPos)
    (syncs : w.running = true → Syncs table upstream status slot log a.sentPos { w with pc := pc })
    (kept : snapshots log ≠ [] →
      Kept ({ s with status := status, slot := slot, log := log, head := head }.goto w pc)) :
    Inv table upstream ({ s with status := status, slot := slot, log := log, head := head }.goto w pc) a := by
  have applies := inv.applies
  constructor
  · exact inv.here
  · refine ⟨applies.pending, applies.received, applies.receivedSent, applies.origin, le_trans applies.head grows,
      applies.bounded, fun unlisted => ?_, fun saw => stable (applies.saw saw)⟩
    obtain ⟨ready, passed⟩ := applies.unlisted unlisted
    refine ⟨stable ready, fun snapshot copied => ?_⟩
    change snapshot ∈ snapshots log at copied
    rw [same ready] at copied
    exact passed snapshot copied
  · intro other found running
    cases found
    exact syncs running
  · exact history
  · exact kept

/-- While a sync worker is at work, only its slot keeps others from copying. -/
theorem Inv.slot_of_copied (inv : Inv table upstream s a) {w : SyncWorker} (found : s.sync = some w)
    (running : w.running = true) (busy : ¬ Over w.pc) (copied : snapshots s.log ≠ []) : s.slot = true := by
  rcases inv.kept copied with slot | ready | ⟨other, same, -, dropped⟩
  · exact slot
  · exact absurd ((inv.syncs w found running).ready ready) busy
  · rw [found] at same
    cases same
    exact absurd (.inr (.inr (.inl dropped))) busy

theorem history_copy (inv : Inv table upstream s a) {w : SyncWorker} (found : s.sync = some w)
    (running : w.running = true) (fresh : Fresh w.pc) (snapshot : ℕ) :
    History (s.log ++ [.copy snapshot]) a.sentPos := by
  obtain ⟨-, uncopied⟩ := (inv.syncs w found running).fresh fresh
  constructor
  · intro txn replayed
    have before : .replay txn ∈ s.log := by simpa using replayed
    exact ⟨(inv.history.replayed txn before).1, by simp⟩
  · apply noneRepeated_append inv.history.once
    intro earlier before repeats
    cases earlier with
    | copy other =>
      have := mem_snapshots before
      rw [uncopied] at this
      cases this
    | replay txn => exact (inv.history.replayed txn before).2 uncopied
    | apply txn => exact repeats

/-- The sync worker exits with an error. -/
theorem Inv.fail (inv : Inv table upstream s a) {w : SyncWorker} {slot : Bool} {log : List Effect}
    (same : s.status = .ready → snapshots log = snapshots s.log) (history : History log a.sentPos)
    (kept : snapshots log ≠ [] → slot = true ∨ s.status = .ready) :
    Inv table upstream { s with log := log, slot := slot, sync := some w.fail } a := by
  have applies := inv.applies
  constructor
  · exact inv.here
  · refine ⟨applies.pending, applies.received, applies.receivedSent, applies.origin, applies.head, applies.bounded,
      fun unlisted => ?_, applies.saw⟩
    obtain ⟨ready, passed⟩ := applies.unlisted unlisted
    refine ⟨ready, fun snapshot copied => ?_⟩
    change snapshot ∈ snapshots log at copied
    rw [same ready] at copied
    exact passed snapshot copied
  · intro other found running
    cases found
    cases running
  · exact history
  · intro copied
    rcases kept copied with slot | ready
    · exact .inl slot
    · exact .inr (.inl ready)

/-- The sync worker does not replay past its stop position. -/
theorem Syncs.replay_le {status : SyncStatus} {slot : Bool} {log : List Effect} {pos snapshot sentPos head : ℕ}
    {w : SyncWorker} {txn : Txn TableChange} (syncs : Syncs table upstream status slot log pos w)
    (replaying : w.pc = .replay snapshot sentPos) (found : next? upstream.txns sentPos head = some txn) :
    txn.endLsn ≤ w.replayStopLsn := by
  obtain ⟨order, before⟩ := syncs.replaying snapshot sentPos replaying
  have attempt := syncs.attempt
  rw [replaying] at attempt
  obtain ⟨inside, after, -, between⟩ := next?_spec found attempt.2.1
  rcases syncs.target with nothing | ⟨last, member, ends⟩ | visible
  · simp only [invalidXLogRecPtr] at nothing
    omega
  · -- the stop position ends a transaction that the replay has not reached, so the next one is no later
    by_contra beyond
    rcases between last member (by omega) with rfl | passed
    · omega
    · omega
  · have := visible snapshot (by rw [replaying]; rfl)
    omega

theorem history_replay (inv : Inv table upstream s a) {w : SyncWorker} (found : s.sync = some w)
    (running : w.running = true) {snapshot sentPos : ℕ} (replaying : w.pc = .replay snapshot sentPos)
    {txn : Txn TableChange} (sent : next? upstream.txns sentPos s.head = some txn) :
    History (if changesRows table txn then s.log ++ [.replay txn] else s.log) a.sentPos := by
  have syncs := inv.syncs w found running
  have reached := le_trans (syncs.replay_le replaying sent) syncs.stop
  have attempt := syncs.attempt
  rw [replaying] at attempt
  have copied : snapshots s.log ≠ [] := List.ne_nil_of_mem (mem_snapshots attempt.1.2)
  split
  · constructor
    · intro other replayed
      rw [snapshots_replay]
      simp only [List.mem_append, List.mem_singleton, Effect.replay.injEq] at replayed
      rcases replayed with before | rfl
      · exact inv.history.replayed other before
      · exact ⟨reached, copied⟩
    · apply noneRepeated_append inv.history.once
      intro earlier before repeats
      cases earlier <;> exact repeats
  · exact inv.history

theorem not_over {pc : SyncPc} {snapshot : ℕ} (taken : pc.snapshot? = some snapshot) : ¬ Over pc := by
  rintro (at_ | at_ | at_ | at_) <;> simp [at_, SyncPc.snapshot?] at taken

theorem Syncs.unready {status : SyncStatus} {slot : Bool} {log : List Effect} {pos snapshot : ℕ} {w : SyncWorker}
    (syncs : Syncs table upstream status slot log pos w) (taken : w.pc.snapshot? = some snapshot) : status ≠ .ready :=
  fun ready => not_over taken (syncs.ready ready)

/-- The sync worker gets on with its snapshot. -/
theorem Inv.onward (inv : Inv table upstream s a) {w : SyncWorker} (found : s.sync = some w)
    (running : w.running = true) {status : SyncStatus} {log : List Effect} {pc : SyncPc} {snapshot : ℕ}
    (before : w.pc.snapshot? = some snapshot) (after : pc.snapshot? = some snapshot) (unready : status ≠ .ready)
    (same : snapshots log = snapshots s.log) (history : History log a.sentPos)
    (attempt : Attempt table upstream log pc) (fresh : Fresh pc → Fresh w.pc)
    (replaying : ∀ snapshot sentPos, pc = .replay snapshot sentPos → snapshot ≤ sentPos ∧ sentPos < w.replayStopLsn) :
    Inv table upstream ({ s with status := status, log := log }.goto w pc) a := by
  have syncs := inv.syncs w found running
  have busy := not_over before
  refine inv.goto (fun ready => absurd (syncs.ready ready) busy) le_rfl (fun _ => same) history (fun _ => ?_) ?_
  · constructor
    · exact (absurd · unready)
    · exact syncs.stop
    · rcases syncs.target with nothing | ends | visible
      · exact .inl nothing
      · exact .inr (.inl ends)
      · refine .inr (.inr fun other taken => visible other ?_)
        rw [before, ← after]
        exact taken
    · exact attempt
    · intro isFresh
      rw [same]
      exact syncs.fresh (fresh isFresh)
    · exact replaying
  · intro copied
    rw [same] at copied
    exact .inl (inv.slot_of_copied found running busy copied)

/-- The sync worker has nothing more to replay. -/
theorem Inv.finish (inv : Inv table upstream s a) {w : SyncWorker} (found : s.sync = some w)
    (running : w.running = true) {log : List Effect} {snapshot : ℕ} (before : w.pc.snapshot? = some snapshot)
    (same : snapshots log = snapshots s.log) (history : History log a.sentPos) :
    Inv table upstream ({ s with log := log }.goto w .finish) a := by
  refine inv.goto id le_rfl (fun _ => same) history (fun _ => ?_) ?_
  · exact .outside rfl (fun _ => .inr (.inl rfl)) (inv.syncs w found running).stop
  · intro copied
    rw [same] at copied
    exact .inl (inv.slot_of_copied found running (not_over before) copied)

/-- The slot in shared memory is given up by a sync worker that has not just dropped its replication slot. -/
theorem Inv.noSync (inv : Inv table upstream s a)
    (done : ∀ w, s.sync = some w → w.running = true → w.pc ≠ .dropped) :
    Inv table upstream { s with sync := none } a := by
  constructor
  · exact inv.here
  · exact inv.applies
  · intro w found
    cases found
  · exact inv.history
  · intro copied
    rcases inv.kept copied with slot | ready | ⟨w, found, running, dropped⟩
    · exact .inl slot
    · exact .inr (.inl ready)
    · exact absurd dropped (done w found running)

theorem inv_sigterm (inv : Inv table upstream s a) {w : SyncWorker} (found : s.sync = some w) :
    Inv table upstream { s with sync := some { w with gotSigterm := true } } a := by
  constructor
  · exact inv.here
  · exact inv.applies
  · intro other same running
    cases same
    have syncs := inv.syncs w found running
    exact ⟨syncs.ready, syncs.stop, syncs.target, syncs.attempt, syncs.fresh, syncs.replaying⟩
  · exact inv.history
  · intro copied
    rcases inv.kept copied with slot | ready | ⟨other, same, running, dropped⟩
    · exact .inl slot
    · exact .inr (.inl ready)
    · rw [found] at same
      cases same
      exact .inr (.inr ⟨_, rfl, running, dropped⟩)

theorem inv_syncStep {w : SyncWorker} {event : SyncEvent} {next : State} (inv : Inv table upstream s a)
    (found : s.sync = some w) (running : w.running = true) (once : SyncsOnce table upstream s (.sync event))
    (acts : SyncActs table upstream s w event next) : Inv table upstream next a := by
  have applies := inv.applies
  have syncs := inv.syncs w found running
  have attempt := syncs.attempt
  cases acts with
  | beginReady at_ ready =>
    refine inv.goto id le_rfl (fun _ => rfl) inv.history (fun _ => ?_) (fun _ => .inr (.inl ready))
    exact .outside rfl (fun _ => .inr (.inl rfl)) syncs.stop
  | beginInit at_ unready =>
    refine inv.goto (absurd · unready) le_rfl (fun _ => rfl) inv.history (fun _ => ?_) (fun copied => ?_)
    · exact .outside rfl (by simp) syncs.stop
    · rcases inv.kept copied with slot | ready | ⟨other, same, -, dropped⟩
      · exact .inl slot
      · exact absurd ready unready
      · rw [found] at same
        cases same
        rw [at_] at dropped
        cases dropped
  | slotTaken at_ taken => exact inv.fail (fun _ => rfl) inv.history fun _ => .inl taken
  | createSlot at_ free behind bounded =>
    have busy : ¬ Over w.pc := by simp [Over, at_]
    have unready : s.status ≠ .ready := fun ready => busy (syncs.ready ready)
    -- rows of an earlier attempt would have kept its slot, and the slot could not be created
    have uncopied : snapshots s.log = [] := by
      by_contra copied
      exact free (inv.slot_of_copied found running busy copied)
    refine inv.goto id behind (fun _ => rfl) inv.history (fun _ => ?_) (fun _ => .inl rfl)
    constructor
    · exact (absurd · unready)
    · exact syncs.stop
    · refine .inr (.inr fun other taken => ?_)
      cases taken
      exact le_trans syncs.stop (le_trans applies.head behind)
    · exact bounded
    · exact fun _ => ⟨rfl, uncopied⟩
    · intro other sentPos replaying
      cases replaying
  | @setData snapshot at_ =>
    rw [at_] at attempt
    refine inv.onward found running (by rw [at_]; rfl) rfl (by simp) rfl inv.history attempt (fun _ => ?_) (by simp)
    exact ⟨snapshot, .inl at_⟩
  | @copy snapshot at_ =>
    rw [at_] at attempt
    have unready := syncs.unready (by rw [at_]; rfl)
    have fresh : Fresh w.pc := ⟨snapshot, .inr at_⟩
    refine inv.goto id le_rfl (absurd · unready) (history_copy inv found running fresh snapshot) (fun _ => ?_) ?_
    · constructor
      · exact (absurd · unready)
      · exact syncs.stop
      · have target := syncs.target
        rw [at_] at target
        exact target
      · exact ⟨attempt, by simp⟩
      · rintro ⟨other, at_ | at_⟩ <;> cases at_
      · simp
    · exact fun _ => .inl (syncs.fresh fresh).1
  | @copyFails committed cleaned snapshot at_ =>
    have unready := syncs.unready (by rw [at_]; rfl)
    have fresh : Fresh w.pc := ⟨snapshot, .inr at_⟩
    obtain ⟨slot, uncopied⟩ := syncs.fresh fresh
    cases committed with
    | true =>
      have left : cleaned = false := by
        by_contra done
        rw [Bool.not_eq_false] at done
        exact once.committed (by rw [done])
      refine inv.fail (absurd · unready) (history_copy inv found running fresh snapshot) fun _ => .inl ?_
      simp [slot, left]
    | false => exact inv.fail (fun _ => rfl) inv.history (absurd uncopied ·)
  | setSyncwait at_ =>
    rw [at_] at attempt
    exact inv.onward found running (by rw [at_]; rfl) rfl (by simp) rfl inv.history attempt (by simp [Fresh]) (by simp)
  | leaveWait at_ =>
    rw [at_] at attempt
    have unready := syncs.unready (by rw [at_]; rfl)
    exact inv.onward found running (by rw [at_]; rfl) rfl unready rfl inv.history attempt (by simp [Fresh]) (by simp)
  | caughtUp at_ => exact inv.finish found running (by rw [at_]; rfl) rfl inv.history
  | catchUp at_ ahead =>
    rw [at_] at attempt
    have unready := syncs.unready (by rw [at_]; rfl)
    refine inv.onward found running (by rw [at_]; rfl) rfl unready rfl inv.history ⟨attempt, attempt.1, ?_⟩
      (by simp [Fresh]) ?_
    · intro txn inside _ after passed
      have := upstream.ended txn inside
      omega
    · intro other sentPos same
      cases same
      omega
  | replayLast at_ sent =>
    have history := history_replay inv found running at_ sent
    exact inv.finish found running (by rw [at_]; rfl) (snapshots_replayed ..) history
  | @replay snapshot sentPos txn at_ sent goesOn =>
    rw [at_] at attempt
    have unready := syncs.unready (by rw [at_]; rfl)
    have history := history_replay inv found running at_ sent
    obtain ⟨order, before⟩ := syncs.replaying snapshot sentPos at_
    obtain ⟨inside, after, -, -⟩ := next?_spec sent attempt.2.1
    have ended := upstream.ended txn inside
    refine inv.onward found running (by rw [at_]; rfl) rfl unready (snapshots_replayed ..) history
      (attempt_replay attempt sent) (by simp [Fresh]) ?_
    intro other pos equal
    cases equal
    simp only [invalidXLogRecPtr] at goesOn
    omega
  | dropSlot at_ =>
    refine inv.goto id le_rfl (fun _ => rfl) inv.history (fun _ => ?_) (fun _ => ?_)
    · exact .outside rfl (fun _ => .inr (.inr (.inl rfl))) syncs.stop
    · exact .inr (.inr ⟨_, rfl, running, rfl⟩)
  | commitReady at_ =>
    refine inv.goto (fun _ => rfl) le_rfl (fun _ => rfl) inv.history (fun _ => ?_) (fun _ => .inr (.inl rfl))
    exact .outside rfl (fun _ => .inr (.inr (.inr rfl))) syncs.stop
  | exit at_ =>
    apply inv.noSync
    intro other same _
    rw [found] at same
    cases same
    simp [at_]
  | sigterm => exact inv_sigterm inv found
  | crash =>
    refine inv.fail (fun _ => rfl) inv.history fun copied => ?_
    rcases inv.kept copied with slot | ready | ⟨other, same, -, dropped⟩
    · exact .inl slot
    · exact .inr ready
    · exact .inr (once.crash rfl other same dropped)

/-! ## Runs -/

theorem inv_loseSlot (inv : Inv table upstream s a) (once : SyncsOnce table upstream s .loseSlot) :
    Inv table upstream { s with slot := false } a := by
  constructor
  · exact inv.here
  · exact inv.applies
  · intro w found running
    have syncs := inv.syncs w found running
    refine ⟨syncs.ready, syncs.stop, syncs.target, syncs.attempt, ?_, syncs.replaying⟩
    rintro ⟨snapshot, at_⟩
    have taken : w.pc.snapshot? = some snapshot := by rcases at_ with at_ | at_ <;> rw [at_] <;> rfl
    have unready := syncs.unready taken
    have none := (once.slot rfl unready).2 w found running
    rw [none] at taken
    cases taken
  · exact inv.history
  · intro copied
    by_cases ready : s.status = .ready
    · exact .inr (.inl ready)
    · exact absurd (once.slot rfl ready).1 copied

theorem inv_step {event : Event} {next : State} (inv : ∃ a, Inv table upstream s a)
    (guard : event ≠ .apply .stop ∧ SyncsOnce table upstream s event)
    (stepped : step table upstream s event = some next) : ∃ a, Inv table upstream next a := by
  obtain ⟨a, inv⟩ := inv
  obtain ⟨alive, once⟩ := guard
  have applies := inv.applies
  cases event with
  | apply event =>
    obtain ⟨other, here, taken⟩ := Option.bind_eq_some_iff.mp stepped
    rw [inv.here] at here
    cases here
    exact inv_applyStep inv once (fun stops => alive (by rw [stops])) (applyStep_acts taken)
  | sync event =>
    obtain ⟨w, found, guarded⟩ := Option.bind_eq_some_iff.mp stepped
    obtain ⟨running, taken⟩ := Option.ite_none_right_eq_some.mp guarded
    exact ⟨a, inv_syncStep inv found running once (syncStep_acts taken)⟩
  | startApply =>
    simp only [step, inv.here, reduceCtorEq] at stepped
  | confirm pos =>
    simp only [step, inv.here] at stepped
    obtain ⟨-, taken⟩ := Option.ite_none_right_eq_some.mp stepped
    cases taken
    exact ⟨a, rfl, applies, inv.syncs, inv.history, inv.kept⟩
  | advance head =>
    obtain ⟨grows, taken⟩ := Option.ite_none_right_eq_some.mp stepped
    cases taken
    refine ⟨a, inv.here, ?_, inv.syncs, inv.history, inv.kept⟩
    exact ⟨applies.pending, applies.received, applies.receivedSent, applies.origin, le_trans applies.head grows,
      applies.bounded, applies.unlisted, applies.saw⟩
  | loseSlot =>
    cases stepped
    exact ⟨a, inv_loseSlot inv once⟩
  | reuse =>
    obtain ⟨w, found, guarded⟩ := Option.bind_eq_some_iff.mp stepped
    split at guarded
    · cases guarded
    · next stopped =>
      cases guarded
      refine ⟨a, inv.noSync fun other same running => ?_⟩
      rw [found] at same
      cases same
      exact absurd running stopped

end Step

theorem inv_init (table : RangeVar) (upstream : Upstream TableChange) : ∃ a, Inv table upstream (init upstream) a := by
  refine ⟨_, rfl, ?_, ?_, ?_, ?_⟩
  · exact ⟨rfl, .inl rfl, Nat.zero_le _, Nat.zero_le _, le_rfl, boundary_start, by simp, by simp⟩
  · intro w found
    cases found
  · constructor
    · intro txn replayed
      cases replayed
    · exact List.Pairwise.nil
  · intro copied
    exact absurd rfl copied

/-- In every run in which only the sync worker crashes and which keeps to `SyncsOnce`, the
synchronisation of a table does nothing twice. -/
theorem no_change_twice (table : RangeVar) (upstream : Upstream TableChange) (events : List Event) (final : State)
    (alive : ∀ event ∈ events, event ≠ .apply .stop)
    (once : Permitted (step table upstream) (SyncsOnce table upstream) (init upstream) events)
    (success : run (step table upstream) (init upstream) events = some final) : NoneRepeated final.log := by
  obtain ⟨a, inv⟩ := run_invariant inv_step (inv_init table upstream) (once.and_forall alive) success
  exact inv.history.once

/-- The copy is ahead of the apply worker, which hands over a position before the snapshot, takes the
table from its list when it is READY, and is then sent a transaction that the copy contains. -/
theorem change_twice_behind_snapshot :
    ∃ final, run (step sampleTable sampleUpstream) (init sampleUpstream)
        [.apply .idle, .apply .check, .apply .readStatus, .apply .decide, .apply (.launch true), .advance 20,
          .sync .begin, .sync (.createSlot 20), .sync .setData, .sync .copy, .sync .setSyncwait, .apply .idle,
          .apply .check, .apply .readStatus, .apply .decide, .apply .setCatchup, .sync .leaveWait, .sync .compare,
          .sync .dropSlot, .sync .commitReady, .apply .waitRead, .apply .txn] = some final ∧
      ¬ NoneRepeated final.log := by
  refine ⟨_, rfl, fun once => ?_⟩
  have pair : NoneRepeated [.copy 20, .apply firstTxn] := once
  exact (List.pairwise_cons.mp pair).1 (.apply firstTxn) (List.mem_singleton.mpr rfl) le_rfl

theorem no_change_twice_after_handover :
    ∃ final, run (step sampleTable sampleUpstream) (init sampleUpstream) handoverRun = some final ∧
      final.log = [.copy 5, .replay firstTxn, .apply secondTxn] ∧ NoneRepeated final.log :=
  ⟨_, rfl, rfl, no_change_twice sampleTable sampleUpstream handoverRun _ (by simp [handoverRun, copyRun])
    (by decide +kernel) rfl⟩

end PGLogical.TableSync.Once
