import PGLogical.Model.TableSync

/-! # Steps of the apply worker and the sync worker

The step functions of the two workers as relations, with one constructor for each outcome: where the worker
was, what it found, and the state it leaves. Everything that is proved about all runs goes through them.
-/

namespace PGLogical.TableSync

open Replay

variable {table : RangeVar} {upstream : Upstream TableChange} {s next : State} {a : ApplyWorker} {w : SyncWorker}

/-! ## The apply worker -/

inductive ApplyActs (table : RangeVar) (upstream : Upstream TableChange) (s : State) (a : ApplyWorker) :
    ApplyEvent → State → Prop where
  | txn {txn : Txn TableChange} (at_ : a.pc = .idle) (sent : next? upstream.txns a.sentPos s.head = some txn) :
      ApplyActs table upstream s a .txn (applyTxn table s a txn)
  | idle (at_ : a.pc = .idle) : ApplyActs table upstream s a .idle { s with apply := some { a with pc := .check } }
  | check {listed : Bool} (at_ : a.pc = .check)
      (reread : listed = if a.syncPending then decide (s.status ≠ .ready) else a.listed) :
      ApplyActs table upstream s a .check { s with
        apply := some { a with listed := listed, syncPending := false, pc := if listed then .scan else .idle } }
  | readStatus (at_ : a.pc = .scan) :
      ApplyActs table upstream s a .readStatus { s with apply := some { a with pc := .saw s.status } }
  | sawReady (at_ : a.pc = .saw .ready) :
      ApplyActs table upstream s a .decide { s with apply := some { a with listed := false, pc := .idle } }
  | handover {w : SyncWorker} (at_ : a.pc = .saw .syncwait) (found : s.sync = some w) (running : w.running = true)
      (reached : w.replayStopLsn ≤ a.lastReceived) :
      ApplyActs table upstream s a .decide { s with
        sync := some { w with replayStopLsn := a.lastReceived }, apply := some { a with pc := .stopSet } }
  | toLaunch {status : SyncStatus} (at_ : a.pc = .saw status) :
      ApplyActs table upstream s a .decide { s with apply := some { a with pc := .launch } }
  | setCatchup (at_ : a.pc = .stopSet) :
      ApplyActs table upstream s a .setCatchup { s with status := .catchup, apply := some { a with pc := .waitRead } }
  | waitEnds (at_ : a.pc = .waitRead) (ready : s.status = .ready) :
      ApplyActs table upstream s a .waitRead { s with apply := some { a with listed := false, pc := .idle } }
  | waitRead (at_ : a.pc = .waitRead) (unready : s.status ≠ .ready) :
      ApplyActs table upstream s a .waitRead { s with apply := some { a with pc := .waitFind } }
  | waitGone (at_ : a.pc = .waitFind) (gone : s.sync = none) :
      ApplyActs table upstream s a .waitFind { s with apply := some { a with pc := .launch } }
  | waitFind (at_ : a.pc = .waitFind) :
      ApplyActs table upstream s a .waitFind { s with apply := some { a with pc := .waitRead } }
  | launch (at_ : a.pc = .launch) (listed : a.listed = true) (none : ∀ w, s.sync = some w → w.running = false) :
      ApplyActs table upstream s a (.launch true) { s with
        sync := some ⟨true, false, a.originLsn, .start⟩, apply := some { a with pc := .idle } }
  | noLaunch {free : Bool} (at_ : a.pc = .launch) :
      ApplyActs table upstream s a (.launch free) { s with apply := some { a with pc := .idle } }
  | stop : ApplyActs table upstream s a .stop { s with apply := none }

theorem applyStep_acts {event : ApplyEvent} (stepped : applyStep table upstream s a event = some next) :
    ApplyActs table upstream s a event next := by
  cases event with
  | txn =>
    cases pc : a.pc <;> simp only [applyStep, pc, reduceCtorEq] at stepped
    obtain ⟨txn, sent, rfl⟩ := Option.map_eq_some_iff.mp stepped
    exact .txn pc sent
  | idle =>
    cases pc : a.pc <;> simp only [applyStep, pc, Option.some.injEq, reduceCtorEq] at stepped
    subst stepped
    exact .idle pc
  | check =>
    cases pc : a.pc <;> simp only [applyStep, pc, Option.some.injEq, reduceCtorEq] at stepped
    subst stepped
    exact .check pc rfl
  | readStatus =>
    cases pc : a.pc <;> simp only [applyStep, pc, Option.some.injEq, reduceCtorEq] at stepped
    subst stepped
    exact .readStatus pc
  | decide =>
    cases pc : a.pc <;> simp only [applyStep, pc, reduceCtorEq] at stepped
    split at stepped
    · cases stepped
      exact .sawReady pc
    · next w found =>
      split at stepped
      · next hands =>
        cases stepped
        exact .handover pc found hands.1 hands.2
      · cases stepped
        exact .toLaunch pc
    · cases stepped
      exact .toLaunch pc
  | setCatchup =>
    cases pc : a.pc <;> simp only [applyStep, pc, Option.some.injEq, reduceCtorEq] at stepped
    subst stepped
    exact .setCatchup pc
  | waitRead =>
    cases pc : a.pc <;> simp only [applyStep, pc, reduceCtorEq] at stepped
    split at stepped
    · next ready =>
      cases stepped
      exact .waitEnds pc ready
    · next unready =>
      cases stepped
      exact .waitRead pc unready
  | waitFind =>
    cases pc : a.pc <;> simp only [applyStep, pc, reduceCtorEq] at stepped
    split at stepped
    · next gone =>
      cases stepped
      exact .waitGone pc gone
    · cases stepped
      exact .waitFind pc
  | launch free =>
    cases pc : a.pc <;> simp only [applyStep, pc, reduceCtorEq] at stepped
    split at stepped
    · next launches =>
      obtain ⟨rfl, listed, idle⟩ := launches
      cases stepped
      refine .launch pc listed fun w found => ?_
      simpa [found] using idle
    · cases stepped
      exact .noLaunch pc
  | stop =>
    simp only [applyStep, Option.some.injEq] at stepped
    subst stepped
    exact .stop

/-! ## The sync worker -/

inductive SyncActs (table : RangeVar) (upstream : Upstream TableChange) (s : State) (w : SyncWorker) :
    SyncEvent → State → Prop where
  | beginReady (at_ : w.pc = .start) (ready : s.status = .ready) :
      SyncActs table upstream s w .begin (s.goto w .finish)
  | beginInit (at_ : w.pc = .start) (unready : s.status ≠ .ready) :
      SyncActs table upstream s w .begin ({ s with status := .init }.goto w .create)
  | slotTaken {snapshot : ℕ} (at_ : w.pc = .create) (taken : s.slot = true) :
      SyncActs table upstream s w (.createSlot snapshot) { s with sync := some w.fail }
  | createSlot {snapshot : ℕ} (at_ : w.pc = .create) (free : s.slot ≠ true) (behind : s.head ≤ snapshot)
      (bounded : boundary upstream.txns snapshot = true) :
      SyncActs table upstream s w (.createSlot snapshot)
        ({ s with slot := true, head := snapshot }.goto w (.setData snapshot))
  | setData {snapshot : ℕ} (at_ : w.pc = .setData snapshot) :
      SyncActs table upstream s w .setData ({ s with status := .data }.goto w (.copy snapshot))
  | copy {snapshot : ℕ} (at_ : w.pc = .copy snapshot) :
      SyncActs table upstream s w .copy
        ({ s with log := s.log ++ [Effect.copy snapshot] }.goto w (.copied snapshot))
  | copyFails {committed cleaned : Bool} {snapshot : ℕ} (at_ : w.pc = .copy snapshot) :
      SyncActs table upstream s w (.copyFails committed cleaned) { s with
        log := if committed then s.log ++ [Effect.copy snapshot] else s.log
        slot := s.slot && !cleaned
        sync := some w.fail }
  | setSyncwait {snapshot : ℕ} (at_ : w.pc = .copied snapshot) :
      SyncActs table upstream s w .setSyncwait ({ s with status := .syncwait }.goto w (.waiting snapshot))
  | leaveWait {snapshot : ℕ} (at_ : w.pc = .waiting snapshot) :
      SyncActs table upstream s w .leaveWait (s.goto w (.compare snapshot))
  | caughtUp {snapshot : ℕ} (at_ : w.pc = .compare snapshot) (reached : w.replayStopLsn ≤ snapshot) :
      SyncActs table upstream s w .compare (s.goto w .finish)
  | catchUp {snapshot : ℕ} (at_ : w.pc = .compare snapshot) (ahead : snapshot < w.replayStopLsn) :
      SyncActs table upstream s w .compare (s.goto w (.replay snapshot snapshot))
  | replayLast {snapshot sentPos : ℕ} {txn : Txn TableChange} (at_ : w.pc = .replay snapshot sentPos)
      (sent : next? upstream.txns sentPos s.head = some txn) (stops : w.replayStopLsn ≤ txn.endLsn) :
      SyncActs table upstream s w .replay
        ({ s with log := if changesRows table txn then s.log ++ [Effect.replay txn] else s.log }.goto w .finish)
  | replay {snapshot sentPos : ℕ} {txn : Txn TableChange} (at_ : w.pc = .replay snapshot sentPos)
      (sent : next? upstream.txns sentPos s.head = some txn)
      (goesOn : w.replayStopLsn = invalidXLogRecPtr ∨ txn.endLsn < w.replayStopLsn) :
      SyncActs table upstream s w .replay
        ({ s with log := if changesRows table txn then s.log ++ [Effect.replay txn] else s.log }.goto w
          (.replay snapshot txn.endLsn))
  | dropSlot (at_ : w.pc = .finish) : SyncActs table upstream s w .dropSlot ({ s with slot := false }.goto w .dropped)
  | commitReady (at_ : w.pc = .dropped) :
      SyncActs table upstream s w .commitReady ({ s with status := .ready }.goto w .exited)
  | exit (at_ : w.pc = .exited) : SyncActs table upstream s w .exit { s with sync := none }
  | sigterm : SyncActs table upstream s w .sigterm { s with sync := some { w with gotSigterm := true } }
  | crash : SyncActs table upstream s w .crash { s with sync := some w.fail }

theorem syncStep_acts {event : SyncEvent} (stepped : syncStep table upstream s w event = some next) :
    SyncActs table upstream s w event next := by
  cases event with
  | begin =>
    cases pc : w.pc <;> simp only [syncStep, pc, reduceCtorEq] at stepped
    split at stepped
    · next ready =>
      cases stepped
      exact .beginReady pc ready
    · next unready =>
      cases stepped
      exact .beginInit pc unready
  | createSlot snapshot =>
    cases pc : w.pc <;> simp only [syncStep, pc, reduceCtorEq] at stepped
    split at stepped
    · next taken =>
      cases stepped
      exact .slotTaken pc taken
    · next free =>
      obtain ⟨⟨behind, bounded⟩, created⟩ := Option.ite_none_right_eq_some.mp stepped
      cases created
      exact .createSlot pc free behind bounded
  | setData =>
    cases pc : w.pc <;> simp only [syncStep, pc, Option.some.injEq, reduceCtorEq] at stepped
    subst stepped
    exact .setData pc
  | copy =>
    cases pc : w.pc <;> simp only [syncStep, pc, Option.some.injEq, reduceCtorEq] at stepped
    subst stepped
    exact .copy pc
  | copyFails committed cleaned =>
    cases pc : w.pc <;> simp only [syncStep, pc, Option.some.injEq, reduceCtorEq] at stepped
    subst stepped
    exact .copyFails pc
  | setSyncwait =>
    cases pc : w.pc <;> simp only [syncStep, pc, Option.some.injEq, reduceCtorEq] at stepped
    subst stepped
    exact .setSyncwait pc
  | leaveWait =>
    cases pc : w.pc <;> simp only [syncStep, pc, reduceCtorEq] at stepped
    obtain ⟨-, left⟩ := Option.ite_none_right_eq_some.mp stepped
    cases left
    exact .leaveWait pc
  | compare =>
    cases pc : w.pc <;> simp only [syncStep, pc, reduceCtorEq] at stepped
    split at stepped
    · next reached =>
      cases stepped
      exact .caughtUp pc reached
    · next ahead =>
      cases stepped
      exact .catchUp pc (Nat.lt_of_not_le ahead)
  | replay =>
    cases pc : w.pc <;> simp only [syncStep, pc, reduceCtorEq] at stepped
    obtain ⟨txn, sent, rfl⟩ := Option.map_eq_some_iff.mp stepped
    split
    · next stops => exact .replayLast pc sent stops.2
    · next goesOn =>
      refine .replay pc sent ?_
      by_cases unset : w.replayStopLsn = invalidXLogRecPtr
      · exact .inl unset
      · exact .inr (Nat.lt_of_not_le fun stops => goesOn ⟨unset, stops⟩)
  | dropSlot =>
    cases pc : w.pc <;> simp only [syncStep, pc, Option.some.injEq, reduceCtorEq] at stepped
    subst stepped
    exact .dropSlot pc
  | commitReady =>
    cases pc : w.pc <;> simp only [syncStep, pc, Option.some.injEq, reduceCtorEq] at stepped
    subst stepped
    exact .commitReady pc
  | exit =>
    cases pc : w.pc <;> simp only [syncStep, pc, Option.some.injEq, reduceCtorEq] at stepped
    subst stepped
    exact .exit pc
  | sigterm =>
    simp only [syncStep, Option.some.injEq] at stepped
    subst stepped
    exact .sigterm
  | crash =>
    simp only [syncStep, Option.some.injEq] at stepped
    subst stepped
    exact .crash

end PGLogical.TableSync
