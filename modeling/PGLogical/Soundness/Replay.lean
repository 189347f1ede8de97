import PGLogical.Model.Replay
import PGLogical.Soundness.Feedback

/-! # Exactly-once apply across restarts

The progress recorded with a local commit is the position of the commit record itself, so a restart
that asks for the stream from there receives that transaction again, unless the provider has been
told by feedback that it is done. A run applies every transaction exactly once when each restart
finds the confirmed position beyond the progress, or nothing committed at all. A transaction that a
queued command has committed in part cannot be confirmed, so the same condition rules that case out.
-/

namespace PGLogical.Replay

open Machine Feedback

variable {Effect : Type}

/-! ## Positions that feedback can report -/

theorem mem_of_mem_flushLoop {localFlush write flush : ℕ} {mapping : List PGLFlushPosition} {c : PGLFlushPosition}
    (member : c ∈ (flushLoop localFlush write flush mapping).mapping) : c ∈ mapping := by
  induction mapping generalizing write flush with
  | nil => exact member
  | cons pos rest ih =>
    rw [flushLoop] at member
    split at member
    · exact List.mem_cons_of_mem _ (ih member)
    · exact member

/-- Nothing the worker remembers lies beyond the bound. -/
structure Below (work : ApplyWork) (bound : ℕ) : Prop where
  recv : work.lastRecvpos ≤ bound
  flushed : work.lastFlushpos ≤ bound
  received : work.lastReceived ≤ bound
  mapping : ∀ c ∈ work.lsnMapping, c.remoteEnd ≤ bound

theorem Below.init (localFlush bound : ℕ) : Below (ApplyWork.init localFlush) bound := by
  constructor
  · exact Nat.zero_le _
  · exact Nat.zero_le _
  · exact Nat.zero_le _
  · intro c member
    cases member

theorem Below.flushpos {work : ApplyWork} {bound recvpos : ℕ} (below : Below work bound)
    (received : recvpos ≤ bound) : work.flushpos recvpos ≤ bound := by
  have walked : (getFlushPosition work.localFlush work.lsnMapping).flush < bound + 1 := by
    apply flushLoop_flush_lt
    · exact Nat.succ_pos bound
    · intro c member
      have := below.mapping c member
      omega
  have flushed := below.flushed
  rw [ApplyWork.flushpos]
  apply max_le
  · split
    · exact received
    · omega
  · exact flushed

theorem Below.sendFeedback {work : ApplyWork} {bound recvpos : ℕ} (below : Below work bound)
    (received : recvpos ≤ bound) (now : ℤ) (force : Bool) :
    Below (sendFeedback work recvpos now force).1 bound ∧
      ∀ update ∈ (Feedback.sendFeedback work recvpos now force).2, update.flush ≤ bound := by
  have recv : max recvpos work.lastRecvpos ≤ bound := max_le received below.recv
  have flushpos := below.flushpos recv
  have mapping : ∀ c ∈ (getFlushPosition work.localFlush work.lsnMapping).mapping, c.remoteEnd ≤ bound :=
    fun c member => below.mapping c (mem_of_mem_flushLoop member)
  unfold Feedback.sendFeedback
  dsimp only
  split
  · constructor
    · exact ⟨below.recv, below.flushed, below.received, mapping⟩
    · intro update sent
      cases sent
  · constructor
    · exact ⟨max_le recv below.recv, max_le flushpos below.flushed, below.received, mapping⟩
    · intro update sent
      cases sent
      exact flushpos

/-- What the worker remembers and reports stays below a bound on everything it receives. -/
theorem Below.step {work : ApplyWork} {bound : ℕ} {event : Feedback.Event} (below : Below work bound)
    (positions : ∀ p ∈ event.positions, p ≤ bound) (ends : ∀ e ∈ event.remoteEnd?, e ≤ bound) :
    Below (applyWorkStep work event).1 bound ∧ ∀ update ∈ (applyWorkStep work event).2, update.flush ≤ bound := by
  have receive : ∀ startLsn endLsn, startLsn ≤ bound → endLsn ≤ bound → Below (work.receive startLsn endLsn) bound :=
    fun startLsn endLsn first last =>
      ⟨below.recv, below.flushed, max_le (max_le below.received first) last, below.mapping⟩
  cases event with
  | data startLsn endLsn =>
    refine ⟨receive startLsn endLsn (positions _ (by simp [Event.positions])) (positions _ (by simp [Event.positions])),
      fun update sent => ?_⟩
    cases sent
  | commit startLsn endLsn remoteEnd localEnd =>
    have received := receive startLsn endLsn (positions _ (by simp [Event.positions]))
      (positions _ (by simp [Event.positions]))
    refine ⟨?_, fun update sent => by cases sent⟩
    cases localEnd with
    | none => exact received
    | some localEnd =>
      refine ⟨received.recv, received.flushed, received.received, fun c member => ?_⟩
      rcases List.mem_append.mp member with old | new
      · exact received.mapping c old
      · rw [List.mem_singleton.mp new]
        exact ends remoteEnd rfl
  | keepalive endpos replyRequested now =>
    exact below.sendFeedback (positions endpos (by simp [Event.positions])) now replyRequested
  | idle now => exact below.sendFeedback below.received now false
  | flush upto =>
    refine ⟨⟨below.recv, below.flushed, below.received, below.mapping⟩, fun update sent => ?_⟩
    cases sent

/-! ## What has been applied -/

def effects (txns : List (Txn Effect)) : List Effect := txns.flatMap Txn.effects

/-- Every transaction takes effect at most once and in order, and when the stream has been consumed
every one has taken effect. -/
def ExactlyOnce (upstream : Upstream Effect) (s : State Effect) : Prop :=
  s.committed <+: effects upstream.txns ∧
    ∀ w, s.worker = some w → w.current = none → s.pending = [] → s.committed = effects upstream.txns

/-- A restart finds nothing committed, or the last commit confirmed. -/
def Confirmed (s : State Effect) (event : Replay.Event) : Prop :=
  event = .restart → s.committed = [] ∨ s.progress < s.confirmed

/-- The transactions of the stream split into those done and those to do; of the first one to do, a
queued command may have committed a part. -/
structure Split (upstream : Upstream Effect) (s : State Effect) (done todo : List (Txn Effect)) : Prop where
  txns : upstream.txns = done ++ todo
  confirmed : ∀ txn ∈ todo, s.confirmed ≤ txn.commitLsn
  inFlight : ∀ txn ∈ todo, ∀ flush ∈ s.inFlight, flush ≤ txn.commitLsn
  progress : ∀ txn ∈ todo, s.progress ≤ txn.commitLsn
  recorded : ∀ txn ∈ done, txn.effects ≠ [] → txn.commitLsn ≤ s.progress
  committed : s.committed <+: effects upstream.txns
  partly : s.committed = effects done ∨ s.committed ≠ [] ∧ ∃ txn ∈ todo, txn.commitLsn ≤ s.progress

/-- The invariant of a running worker. -/
structure Applying (s : State Effect) (w : Worker Effect) (done todo : List (Txn Effect)) : Prop where
  waiting : todo = (w.current.map Prod.fst).toList ++ s.pending
  below : ∀ txn ∈ todo, Below w.work txn.commitLsn
  origin : ∀ txn ∈ todo, w.originLsn ≤ txn.commitLsn
  opened : ∀ txn rest, w.current = some (txn, rest) → w.originLsn = txn.commitLsn ∧
    s.committed ++ w.uncommitted ++ w.stages ++ rest.flatMap Change.effects = effects done ++ txn.effects
  closed : w.current = none → s.committed = effects done ∧ w.uncommitted = [] ∧ w.stages = []
  idle : w.inTransaction = false → w.uncommitted = [] ∧ w.stages = []

def Inv (upstream : Upstream Effect) (s : State Effect) : Prop :=
  ∃ done todo, Split upstream s done todo ∧ ∀ w, s.worker = some w → Applying s w done todo

/-! ## One step -/

section Step

variable {upstream : Upstream Effect} {s : State Effect} {w : Worker Effect} {done todo : List (Txn Effect)}

@[simp] theorem effects_append (first second : List (Txn Effect)) :
    effects (first ++ second) = effects first ++ effects second := List.flatMap_append

@[simp] theorem effects_singleton (txn : Txn Effect) : effects [txn] = txn.effects := List.flatMap_singleton ..

theorem Upstream.commits_sorted (upstream : Upstream Effect) :
    upstream.txns.Pairwise fun a b => a.commitLsn < b.commitLsn := by
  refine upstream.ordered.imp_of_mem fun {a b} inside _ order => ?_
  have := upstream.ended a inside
  omega

/-- The first transaction to do ends before the others commit. -/
theorem Split.first {txn : Txn Effect} {rest : List (Txn Effect)} (split : Split upstream s done (txn :: rest)) :
    ∀ other ∈ rest, txn.endLsn ≤ other.commitLsn ∧ txn.commitLsn ≤ other.commitLsn := by
  have ordered := upstream.ordered
  have ended := upstream.ended txn (by rw [split.txns]; simp)
  rw [split.txns] at ordered
  intro other inside
  have := (List.pairwise_cons.mp (List.pairwise_append.mp ordered).2.1).1 other inside
  omega

/-- Feedback reports nothing beyond the commit record of a transaction to do. -/
theorem Inv.feedback {event : Feedback.Event} (split : Split upstream s done todo) (applying : Applying s w done todo)
    (positions : ∀ txn ∈ todo, ∀ p ∈ event.positions, p ≤ txn.commitLsn)
    (ends : ∀ txn ∈ todo, ∀ e ∈ event.remoteEnd?, e ≤ txn.commitLsn) : Inv upstream (s.feedback w event) := by
  have below := fun txn inside => (applying.below txn inside).step (positions txn inside) (ends txn inside)
  refine ⟨done, todo, ?_, fun worker running => ?_⟩
  · refine { split with inFlight := fun txn inside flush sent => ?_ }
    rcases List.mem_append.mp sent with before | now
    · exact split.inFlight txn inside flush before
    · obtain ⟨update, reported, rfl⟩ := Option.map_eq_some_iff.mp (Option.mem_toList.mp now)
      exact (below txn inside).2 update reported
  · cases running
    exact { applying with below := fun txn inside => (below txn inside).1 }

theorem Applying.positions (applying : Applying s w done todo) {pos : ℕ} (sent : s.sentUpto w pos = true) :
    ∀ txn ∈ todo, ∀ p ∈ [pos, pos], p ≤ txn.commitLsn := by
  intro txn inside p position
  rw [applying.waiting] at inside
  have upto := of_decide_eq_true (List.all_eq_true.mp sent txn inside)
  have : p = pos := by simpa using position
  omega

theorem inv_begin {pos : ℕ} {next : State Effect} (split : Split upstream s done todo)
    (applying : Applying s w done todo) (taken : workerStep s w (.begin pos) = some next) : Inv upstream next := by
  simp only [workerStep] at taken
  split at taken
  · next txn rest outside pending =>
    obtain ⟨sent, same⟩ := Option.ite_none_right_eq_some.mp taken
    cases same
    have waiting : todo = txn :: rest := by rw [applying.waiting, outside, pending]; rfl
    subst waiting
    obtain ⟨committed, uncommitted, stages⟩ := applying.closed outside
    have later := split.first
    have positions := applying.positions sent
    have split' : Split upstream { s with pending := rest } done (txn :: rest) := { split with }
    refine Inv.feedback split' ?_ positions fun other inside e ends => by cases ends
    constructor
    · rfl
    · exact applying.below
    · intro other inside
      rcases List.mem_cons.mp inside with rfl | inside
      · exact le_rfl
      · exact (later other inside).2
    · intro current changes same
      cases same
      refine ⟨rfl, ?_⟩
      rw [uncommitted, stages, committed]
      simp [Txn.effects]
    · intro same
      cases same
    · exact applying.idle
  · cases taken

/-- A change moves the worker on inside its transaction. -/
theorem Applying.within (applying : Applying s w done todo) {txn : Txn Effect} {changes rest : List (Change Effect)}
    (inside : w.current = some (txn, changes)) {next : Worker Effect} (current : next.current = some (txn, rest))
    (started : next.inTransaction = true) (work : next.work = w.work) (origin : next.originLsn = w.originLsn)
    (account : s.committed ++ next.uncommitted ++ next.stages ++ rest.flatMap Change.effects =
      effects done ++ txn.effects) : Applying s next done todo := by
  constructor
  · rw [applying.waiting, inside, current]
    rfl
  · rw [work]
    exact applying.below
  · rw [origin]
    exact applying.origin
  · intro other changes same
    rw [current] at same
    cases same
    rw [origin]
    exact ⟨(applying.opened txn _ inside).1, account⟩
  · intro outside
    rw [current] at outside
    cases outside
  · intro outside
    rw [started] at outside
    cases outside

theorem inv_change {pos : ℕ} {next : State Effect} (split : Split upstream s done todo)
    (applying : Applying s w done todo) (taken : workerStep s w (.change pos) = some next) : Inv upstream next := by
  simp only [workerStep] at taken
  split at taken
  · next txn change rest inside stages =>
    obtain ⟨sent, same⟩ := Option.ite_none_right_eq_some.mp taken
    obtain ⟨changed, applied, rfl⟩ := Option.map_eq_some_iff.mp same
    have account := (applying.opened txn (change :: rest) inside).2
    rw [stages, List.append_nil, List.flatMap_cons] at account
    refine Inv.feedback split ?_ (applying.positions sent) fun other member e ends => by cases ends
    cases change with
    | origin =>
      obtain ⟨outside, same⟩ := Option.ite_none_left_eq_some.mp applied
      cases same
      refine applying.within inside rfl rfl rfl rfl ?_
      simpa [stages, Change.effects] using account
    | row effect =>
      cases applied
      refine applying.within inside rfl rfl rfl rfl ?_
      simpa [stages, Change.effects] using account
    | concurrently queueRow commands =>
      obtain ⟨outside, same⟩ := Option.ite_none_left_eq_some.mp applied
      cases same
      obtain ⟨uncommitted, -⟩ := applying.idle (Bool.eq_false_iff.mpr outside)
      refine applying.within inside rfl rfl rfl rfl ?_
      simpa [uncommitted, Change.effects] using account
  · cases taken

/-- A stage of a queued command commits a part of the transaction, which from then on counts as the
progress. -/
theorem inv_stage {next : State Effect} (split : Split upstream s done todo)
    (applying : Applying s w done todo) (taken : workerStep s w .stage = some next) : Inv upstream next := by
  simp only [workerStep] at taken
  split at taken
  · next effect rest stages =>
    cases taken
    cases inside : w.current with
    | none =>
      obtain ⟨-, -, none⟩ := applying.closed inside
      rw [stages] at none
      cases none
    | some current =>
      obtain ⟨txn, changes⟩ := current
      obtain ⟨origin, account⟩ := applying.opened txn changes inside
      have waiting : todo = txn :: s.pending := by rw [applying.waiting, inside]; rfl
      have here : txn ∈ todo := by rw [waiting]; exact List.mem_cons_self ..
      have total : s.committed ++ (w.uncommitted ++ [effect]) ++ (rest ++ changes.flatMap Change.effects) =
          effects done ++ txn.effects := by simpa [stages] using account
      refine ⟨done, todo, ?_, fun worker running => ?_⟩
      · constructor
        · exact split.txns
        · exact split.confirmed
        · exact split.inFlight
        · exact fun other member => max_le (split.progress other member) (applying.origin other member)
        · exact fun other member found => le_trans (split.recorded other member found) (le_max_left ..)
        · refine List.IsPrefix.trans ⟨_, total⟩ ?_
          rw [split.txns, waiting, effects_append, ← List.singleton_append, effects_append, effects_singleton,
            ← List.append_assoc]
          exact List.prefix_append ..
        · refine .inr ⟨by simp [State.commitLocal, State.advance], txn, here, ?_⟩
          rw [← origin]
          exact le_max_right ..
      · cases running
        constructor
        · exact waiting
        · exact applying.below
        · exact applying.origin
        · intro current other same
          cases same
          refine ⟨origin, ?_⟩
          simpa [State.commitLocal, State.advance] using total
        · intro same
          cases same
        · intro idle
          refine ⟨rfl, ?_⟩
          simpa using idle
  · cases taken

theorem inv_commit {localEnd : ℕ} {next : State Effect} (split : Split upstream s done todo)
    (applying : Applying s w done todo) (taken : workerStep s w (.commit localEnd) = some next) :
    Inv upstream next := by
  simp only [workerStep] at taken
  split at taken
  · next txn inside stages =>
    obtain ⟨origin, account⟩ := applying.opened txn [] inside
    have waiting : todo = txn :: s.pending := by rw [applying.waiting, inside]; rfl
    subst waiting
    have later := split.first
    have total : s.committed ++ w.uncommitted = effects (done ++ [txn]) := by simpa [stages] using account
    have txns : upstream.txns = (done ++ [txn]) ++ s.pending := by rw [split.txns, List.append_assoc]; rfl
    have positions : ∀ other ∈ s.pending, ∀ p ∈ [txn.endLsn, txn.endLsn], p ≤ other.commitLsn := by
      intro other member p position
      have : p = txn.endLsn := by simpa using position
      have := later other member
      omega
    have ends : ∀ other ∈ s.pending, ∀ e ∈ some txn.endLsn, e ≤ other.commitLsn := by
      rintro other member e ⟨⟩
      exact (later other member).1
    -- the state after the local commit, if there is one
    have committed : ∀ (next : State Effect) (worker : Worker Effect), next.pending = s.pending →
        next.confirmed = s.confirmed → next.inFlight = s.inFlight → s.progress ≤ next.progress →
        next.progress ≤ max s.progress w.originLsn → (txn.effects ≠ [] → txn.commitLsn ≤ next.progress) →
        next.committed = effects (done ++ [txn]) → worker.current = none → worker.uncommitted = [] →
        worker.stages = [] → worker.work = w.work → worker.originLsn = w.originLsn →
        Split upstream next (done ++ [txn]) s.pending ∧ Applying next worker (done ++ [txn]) s.pending := by
      intro next worker pending confirmed inFlight grows limited recorded whole current uncommitted none work same
      constructor
      · constructor
        · exact txns
        · rw [confirmed]
          exact fun other member => split.confirmed other (List.mem_cons_of_mem _ member)
        · rw [inFlight]
          exact fun other member => split.inFlight other (List.mem_cons_of_mem _ member)
        · intro other member
          have := split.progress other (List.mem_cons_of_mem _ member)
          have := applying.origin other (List.mem_cons_of_mem _ member)
          omega
        · intro other member found
          rcases List.mem_append.mp member with before | last
          · exact le_trans (split.recorded other before found) grows
          · rw [List.mem_singleton.mp last] at found ⊢
            exact recorded found
        · rw [whole, txns, effects_append _ s.pending]
          exact List.prefix_append ..
        · exact .inl whole
      · constructor
        · rw [current, pending]
          rfl
        · rw [work]
          exact fun other member => applying.below other (List.mem_cons_of_mem _ member)
        · rw [same]
          exact fun other member => applying.origin other (List.mem_cons_of_mem _ member)
        · intro other changes inside
          rw [current] at inside
          cases inside
        · exact fun _ => ⟨whole, uncommitted, none⟩
        · exact fun _ => ⟨uncommitted, none⟩
    split at taken
    · cases taken
      obtain ⟨split', applying'⟩ := committed (s.commitLocal w)
        { w with current := none, inTransaction := false, uncommitted := [] } rfl rfl rfl (le_max_left ..) le_rfl
        (fun _ => origin ▸ le_max_right ..) total rfl rfl stages rfl rfl
      exact Inv.feedback split' applying' positions ends
    · next outside =>
      cases taken
      obtain ⟨uncommitted, -⟩ := applying.idle (Bool.eq_false_iff.mpr outside)
      have whole : s.committed = effects (done ++ [txn]) := by simpa [uncommitted] using total
      -- a part that was committed before is recorded already
      have recorded : txn.effects ≠ [] → txn.commitLsn ≤ s.progress := by
        intro found
        rcases split.partly with same | ⟨-, other, member, progress⟩
        · rw [same, effects_append, effects_singleton] at whole
          exact absurd (List.self_eq_append_right.mp whole) found
        · rcases List.mem_cons.mp member with rfl | member
          · exact progress
          · have := later other member
            omega
      obtain ⟨split', applying'⟩ := committed s { w with current := none } rfl rfl rfl le_rfl (le_max_left ..)
        recorded whole rfl uncommitted stages rfl rfl
      exact Inv.feedback split' applying' positions ends
  · cases taken

/-- A sorted list splits at a position. -/
theorem filter_lt_append_resend (txns : List (Txn Effect)) (start : ℕ)
    (sorted : txns.Pairwise fun a b => a.commitLsn < b.commitLsn) :
    txns = (txns.filter fun txn => decide (txn.commitLsn < start)) ++ resend txns start := by
  induction txns with
  | nil => rfl
  | cons txn rest ih =>
    obtain ⟨first, sorted⟩ := List.pairwise_cons.mp sorted
    by_cases before : txn.commitLsn < start
    · rw [resend, List.filter_cons_of_pos (by simpa using before), List.filter_cons_of_neg (by simpa using before),
        List.cons_append]
      exact congrArg (txn :: ·) (ih sorted)
    · have none : (rest.filter fun txn => decide (txn.commitLsn < start)) = [] := by
        apply List.filter_eq_nil_iff.mpr
        intro other inside
        have := first other inside
        simp only [decide_eq_true_eq]
        omega
      have all : resend rest start = rest := by
        apply List.filter_eq_self.mpr
        intro other inside
        have := first other inside
        simp only [decide_eq_true_eq]
        omega
      rw [resend, List.filter_cons_of_neg (by simpa using before), List.filter_cons_of_pos (by simpa using before), none]
      exact congrArg (txn :: ·) all.symm

theorem effects_filter {txns : List (Txn Effect)} {p : Txn Effect → Bool}
    (silent : ∀ txn ∈ txns, p txn = false → txn.effects = []) : effects (txns.filter p) = effects txns := by
  induction txns with
  | nil => rfl
  | cons txn rest ih =>
    have rest := ih fun other inside => silent other (List.mem_cons_of_mem _ inside)
    cases kept : p txn with
    | true =>
      rw [List.filter_cons_of_pos kept]
      exact congrArg (txn.effects ++ ·) rest
    | false =>
      have none := silent txn (List.mem_cons_self ..) kept
      rw [List.filter_cons_of_neg (by simp [kept]), rest]
      simp [effects, none]

/-- After a confirmed restart exactly the transactions without effect so far are sent again. -/
theorem inv_restart (split : Split upstream s done todo) (confirmed : s.committed = [] ∨ s.progress < s.confirmed) :
    Inv upstream { s with
      inFlight := []
      pending := resend upstream.txns (max s.progress s.confirmed)
      worker := some ⟨none, [], false, [], invalidXLogRecPtr, ApplyWork.init 0⟩ } := by
  have whole : s.committed = effects done := by
    rcases split.partly with whole | ⟨found, txn, inside, progress⟩
    · exact whole
    · have := split.confirmed txn inside
      rcases confirmed with nothing | ahead
      · exact absurd nothing found
      · omega
  have ahead : ∀ txn ∈ todo, max s.progress s.confirmed ≤ txn.commitLsn :=
    fun txn inside => max_le (split.progress txn inside) (split.confirmed txn inside)
  have kept : (upstream.txns.filter fun txn => decide (txn.commitLsn < max s.progress s.confirmed)) =
      done.filter fun txn => decide (txn.commitLsn < max s.progress s.confirmed) := by
    have none : (todo.filter fun txn => decide (txn.commitLsn < max s.progress s.confirmed)) = [] := by
      apply List.filter_eq_nil_iff.mpr
      intro txn inside
      have := ahead txn inside
      simp only [decide_eq_true_eq]
      omega
    rw [split.txns, List.filter_append, none, List.append_nil]
  have same : effects (done.filter fun txn => decide (txn.commitLsn < max s.progress s.confirmed)) = effects done := by
    apply effects_filter
    intro txn inside dropped
    by_contra found
    have progress := split.recorded txn inside found
    have dropped := of_decide_eq_false dropped
    rcases confirmed with nothing | ahead
    · rw [whole] at nothing
      exact found (List.flatMap_eq_nil_iff.mp nothing txn inside)
    · omega
  have parts := filter_lt_append_resend upstream.txns (max s.progress s.confirmed) upstream.commits_sorted
  rw [kept] at parts
  have sent : ∀ txn ∈ resend upstream.txns (max s.progress s.confirmed),
      max s.progress s.confirmed ≤ txn.commitLsn := by
    intro txn inside
    exact of_decide_eq_true (List.mem_filter.mp inside).2
  refine ⟨_, _, ⟨parts, ?_, ?_, ?_, ?_, split.committed, .inl (whole.trans same.symm)⟩, fun w running => ?_⟩
  · exact fun txn inside => le_trans (le_max_right ..) (sent txn inside)
  · intro txn inside flush flying
    cases flying
  · exact fun txn inside => le_trans (le_max_left ..) (sent txn inside)
  · exact fun txn inside found => split.recorded txn (List.mem_filter.mp inside).1 found
  · cases running
    constructor
    · rfl
    · exact fun txn inside => Below.init 0 txn.commitLsn
    · exact fun txn inside => Nat.zero_le _
    · intro txn rest inside
      cases inside
    · exact fun _ => ⟨whole.trans same.symm, rfl, rfl⟩
    · exact fun _ => ⟨rfl, rfl⟩

theorem inv_step {event : Replay.Event} {next : State Effect} (inv : Inv upstream s) (confirmed : Confirmed s event)
    (taken : step upstream s event = some next) : Inv upstream next := by
  obtain ⟨done, todo, split, running⟩ := inv
  have worker : ∀ {event}, (s.worker.bind fun w => workerStep s w event) = some next →
      ∃ w, Applying s w done todo ∧ workerStep s w event = some next := by
    intro event stepped
    obtain ⟨w, here, stepped⟩ := Option.bind_eq_some_iff.mp stepped
    exact ⟨w, running w here, stepped⟩
  cases event with
  | begin pos =>
    obtain ⟨w, applying, stepped⟩ := worker taken
    exact inv_begin split applying stepped
  | change pos =>
    obtain ⟨w, applying, stepped⟩ := worker taken
    exact inv_change split applying stepped
  | stage =>
    obtain ⟨w, applying, stepped⟩ := worker taken
    exact inv_stage split applying stepped
  | commit localEnd =>
    obtain ⟨w, applying, stepped⟩ := worker taken
    exact inv_commit split applying stepped
  | keepalive endpos replyRequested now =>
    obtain ⟨w, applying, stepped⟩ := worker taken
    obtain ⟨sent, same⟩ := Option.ite_none_right_eq_some.mp stepped
    cases same
    refine Inv.feedback split applying (fun txn inside p position => ?_) fun txn inside e ends => by cases ends
    exact applying.positions sent txn inside p (List.mem_cons_of_mem _ position)
  | idle now =>
    obtain ⟨w, applying, stepped⟩ := worker taken
    cases stepped
    exact Inv.feedback split applying (fun txn inside p position => by cases position)
      fun txn inside e ends => by cases ends
  | flush upto =>
    obtain ⟨w, applying, stepped⟩ := worker taken
    cases stepped
    exact Inv.feedback split applying (fun txn inside p position => by cases position)
      fun txn inside e ends => by cases ends
  | syncStatus =>
    obtain ⟨w, here, stepped⟩ := Option.bind_eq_some_iff.mp taken
    have applying := running w here
    simp only [workerStep] at stepped
    split at stepped
    · next outside =>
      cases stepped
      refine ⟨done, todo, ?_, fun other same => ?_⟩
      · constructor
        · exact split.txns
        · exact split.confirmed
        · exact split.inFlight
        · exact fun txn inside => max_le (split.progress txn inside) (applying.origin txn inside)
        · exact fun txn inside found => le_trans (split.recorded txn inside found) (le_max_left ..)
        · exact split.committed
        · exact .inl (applying.closed outside).1
      · have := running other same
        exact ⟨this.waiting, this.below, this.origin, this.opened, this.closed, this.idle⟩
    · cases stepped
  | deliver =>
    simp only [step] at taken
    split at taken
    · cases taken
    · next flush rest flying =>
      cases taken
      refine ⟨done, todo, ?_, fun other same => ?_⟩
      · refine { split with confirmed := fun txn inside => ?_, inFlight := fun txn inside later sent => ?_, partly := ?_ }
        · dsimp only
          split
          · exact split.confirmed txn inside
          · exact split.inFlight txn inside flush (by rw [flying]; exact List.mem_cons_self ..)
        · exact split.inFlight txn inside later (by rw [flying]; exact List.mem_cons_of_mem _ sent)
        · exact split.partly
      · have := running other same
        exact ⟨this.waiting, this.below, this.origin, this.opened, this.closed, this.idle⟩
  | crash =>
    obtain ⟨w, here, rfl⟩ := Option.map_eq_some_iff.mp taken
    refine ⟨done, todo, { split with }, fun other same => ?_⟩
    cases same
  | restart =>
    simp only [step] at taken
    split at taken
    · cases taken
    · cases taken
      exact inv_restart split (confirmed rfl)

end Step

theorem inv_init (upstream : Upstream Effect) : Inv upstream (init upstream) := by
  refine ⟨[], upstream.txns, ?_, fun w running => by cases running⟩
  constructor
  · rfl
  · exact upstream.after
  · intro txn inside flush flying
    cases flying
  · exact upstream.after
  · intro txn inside
    cases inside
  · exact List.nil_prefix
  · exact .inl rfl

theorem Inv.exactlyOnce {upstream : Upstream Effect} {s : State Effect} (inv : Inv upstream s) :
    ExactlyOnce upstream s := by
  obtain ⟨done, todo, split, running⟩ := inv
  refine ⟨split.committed, fun w here outside pending => ?_⟩
  have applying := running w here
  have nothing : todo = [] := by rw [applying.waiting, outside, pending]; rfl
  rw [(applying.closed outside).1, split.txns, nothing, List.append_nil]

/-- In every run whose restarts find the last commit confirmed, every upstream transaction takes
effect exactly once and in order. -/
theorem applied_exactly_once (upstream : Upstream Effect) (events : List Replay.Event) (final : State Effect)
    (confirmed : Permitted (step upstream) Confirmed (init upstream) events)
    (success : run (step upstream) (init upstream) events = some final) : ExactlyOnce upstream final :=
  (run_invariant inv_step (inv_init upstream) confirmed success).exactlyOnce

/-- One transaction with one row. -/
def sampleUpstream : Upstream ℕ where
  txns := [⟨10, 20, [.row 1]⟩]
  start := 5
  ended := by decide
  ordered := by decide
  after := by decide

/-- The worker stops after its local commit and before any feedback; the transaction is applied
again. -/
theorem applied_twice_without_feedback :
    ∃ final, run (step sampleUpstream) (init sampleUpstream)
        [.restart, .begin 8, .change 9, .commit 100, .crash, .restart, .begin 8, .change 9, .commit 101] =
        some final ∧ ¬ ExactlyOnce sampleUpstream final := by
  refine ⟨_, rfl, fun once => ?_⟩
  have longer := once.1.length_le
  exact absurd longer (by decide)

/-- The commit is flushed and confirmed before the worker stops. -/
def sampleRun : List Replay.Event :=
  [.restart, .begin 8, .change 9, .commit 100, .flush 100, .idle 0, .deliver, .crash, .restart]

theorem applied_exactly_once_confirmed :
    ∃ final, run (step sampleUpstream) (init sampleUpstream) sampleRun = some final ∧
      final.committed = [1] ∧ ExactlyOnce sampleUpstream final := by
  refine ⟨_, rfl, rfl, applied_exactly_once sampleUpstream sampleRun _ ?_ rfl⟩
  have other : ∀ (s : State ℕ) event, event ≠ .restart → Confirmed s event :=
    fun s event different same => absurd same different
  refine ⟨fun _ => .inl rfl, fun started taken => ?_⟩
  cases taken
  refine ⟨other _ _ (by simp), fun begun taken => ?_⟩
  cases taken
  refine ⟨other _ _ (by simp), fun changed taken => ?_⟩
  cases taken
  refine ⟨other _ _ (by simp), fun committed taken => ?_⟩
  cases taken
  refine ⟨other _ _ (by simp), fun flushed taken => ?_⟩
  cases taken
  refine ⟨other _ _ (by simp), fun reported taken => ?_⟩
  cases taken
  refine ⟨other _ _ (by simp), fun delivered taken => ?_⟩
  cases taken
  refine ⟨other _ _ (by simp), fun crashed taken => ?_⟩
  cases taken
  exact ⟨fun _ => .inr (by decide), fun restarted taken => trivial⟩

end PGLogical.Replay
