import PGLogical.Machine.Run
import PGLogical.Model.WorkerStartup

/-! # Who may use a worker slot

A slot belongs to the last call that registered it. While that call is about to ask for its process,
and while the process is alive, the record says so, and nobody else takes the slot. The one writer
that does not hold the lock is the call that waits: it may mark the record as crashed, and it must
not do that to the record of a later registration. The other way round, a record that says a worker
is alive is wrong once its process has gone without attaching, unless the call still waits for it.
-/

namespace PGLogical.WorkerStartup

open Machine

variable {n : ℕ}

/-! ## What a step can do -/

/-- A call, or its process, writes the record of its slot and moves on. -/
def State.act (s : State n) (c : ℕ) (call : Call n) (w : PGLogicalWorker) (pc : CallPc) (process : Process)
    (holder : Option ℕ) : State n :=
  { s with
    workers := Function.update s.workers call.slot w
    calls := s.calls.set c { call with pc := pc, process := process }
    holder := holder }

/-- The steps of a call and of its process: the record they leave, where they get and who then holds
the lock. -/
inductive Acts (s : State n) (c : ℕ) (call : Call n) :
    Event n → PGLogicalWorker → CallPc → Process → Option ℕ → Prop where
  | setGeneration {generation : UInt16} (at_ : call.pc = .copied generation) :
      Acts s c call (.call c .setGeneration) ((s.workers call.slot).numbered generation) .launching call.process none
  | accepted {now : TimestampTz} (at_ : call.pc = .launching) :
      Acts s c call (.call c (.registerDynamicBackgroundWorker true now)) (s.workers call.slot) .entering .pending
        s.holder
  | refused {now : TimestampTz} (at_ : call.pc = .launching) (set : now ≠ 0) :
      Acts s c call (.call c (.registerDynamicBackgroundWorker false now))
        { s.workers call.slot with crashedAt := now } .left call.process s.holder
  | readGenerationFirst (at_ : call.pc = .entering) :
      Acts s c call (.call c .readGenerationFirst) (s.workers call.slot)
        (.polling (s.workers call.slot).generation) call.process s.holder
  | interrupt {generation : UInt16} (at_ : call.pc = .polling generation) :
      Acts s c call (.call c .interrupt) (s.workers call.slot) .left call.process s.holder
  | started {generation : UInt16} (at_ : call.pc = .polling generation) (started : call.process.isStarted = true) :
      Acts s c call (.call c .getBackgroundWorkerPid) (s.workers call.slot) (.sawStarted generation) call.process
        s.holder
  | stopped {generation : UInt16} (at_ : call.pc = .polling generation) (stopped : call.process.isStopped = true) :
      Acts s c call (.call c .getBackgroundWorkerPid) (s.workers call.slot) (.sawStopped generation) call.process
        s.holder
  | notYet {generation : UInt16} (at_ : call.pc = .polling generation) :
      Acts s c call (.call c .getBackgroundWorkerPid) (s.workers call.slot) (.polling generation) call.process s.holder
  | procSet {generation : UInt16} (at_ : call.pc = .sawStarted generation)
      (set : (s.workers call.slot).proc.isSome = true) :
      Acts s c call (.call c .readProc) (s.workers call.slot) .returned call.process s.holder
  | procNull {generation : UInt16} (at_ : call.pc = .sawStarted generation) :
      Acts s c call (.call c .readProc) (s.workers call.slot) (.polling generation) call.process s.holder
  | typeUsed {generation : UInt16} (at_ : call.pc = .sawStopped generation) :
      Acts s c call (.call c .readWorkerType) (s.workers call.slot) (.sawType generation) call.process s.holder
  | typeNone {generation : UInt16} (at_ : call.pc = .sawStopped generation)
      (none : (s.workers call.slot).workerType = .none) :
      Acts s c call (.call c .readWorkerType) (s.workers call.slot) .returned call.process s.holder
  | generationSame {generation : UInt16} (at_ : call.pc = .sawType generation)
      (same : (s.workers call.slot).generation = generation) :
      Acts s c call (.call c .readGeneration) (s.workers call.slot) .sawGeneration call.process s.holder
  | generationOther {generation : UInt16} (at_ : call.pc = .sawType generation)
      (other : (s.workers call.slot).generation ≠ generation) :
      Acts s c call (.call c .readGeneration) (s.workers call.slot) .returned call.process s.holder
  | crashedAtZero (at_ : call.pc = .sawGeneration) :
      Acts s c call (.call c .readCrashedAt) (s.workers call.slot) .sawCrashedAt call.process s.holder
  | crashedAtSet (at_ : call.pc = .sawGeneration) (set : (s.workers call.slot).crashedAt ≠ 0) :
      Acts s c call (.call c .readCrashedAt) (s.workers call.slot) .returned call.process s.holder
  | setCrashedAt {now : TimestampTz} (at_ : call.pc = .sawCrashedAt) (set : now ≠ 0) :
      Acts s c call (.call c (.setCrashedAt now)) { s.workers call.slot with crashedAt := now } .returned call.process
        s.holder
  | start (pending : call.process = .pending) :
      Acts s c call (.process c .start) (s.workers call.slot) call.pc .started s.holder
  | fail (early : call.process = .pending ∨ call.process = .started) :
      Acts s c call (.process c .fail) (s.workers call.slot) call.pc .failed s.holder
  | attach (started : call.process = .started) (unlocked : s.holder = none) :
      Acts s c call (.process c .attach) ((s.workers call.slot).attached c) call.pc .attached s.holder
  | detach {crash : Bool} {now : TimestampTz} (attached : call.process = .attached) (unlocked : s.holder = none)
      (set : now ≠ 0) :
      Acts s c call (.process c (.detach crash now)) ((s.workers call.slot).detached crash now) call.pc .exiting
        s.holder
  | exit (exiting : call.process = .exiting) :
      Acts s c call (.process c .exit) (s.workers call.slot) call.pc .stopped s.holder

section Step

variable {s next : State n} {c : ℕ} {call : Call n}

theorem setCall_eq_act (pc : CallPc) (process : Process) :
    s.setCall c { call with pc := pc, process := process } =
      s.act c call (s.workers call.slot) pc process s.holder := by
  simp [State.setCall, State.act]

theorem self_eq_act (found : s.calls[c]? = some call) :
    s = s.act c call (s.workers call.slot) call.pc call.process s.holder := by
  have same : s.calls.set c call = s.calls := by
    apply List.ext_getElem?
    intro d
    rw [List.getElem?_set]
    split
    · next equal =>
      subst equal
      obtain ⟨inside, here⟩ := List.getElem?_eq_some_iff.mp found
      rw [if_pos inside, found]
    · rfl
  simp [State.act, same]

theorem callStep_cases {event : CallEvent} (found : s.calls[c]? = some call)
    (stepped : callStep s c call event = some next) :
    ∃ w pc process holder, Acts s c call (.call c event) w pc process holder ∧
      next = s.act c call w pc process holder := by
  unfold callStep at stepped
  cases event with
  | setGeneration =>
    cases pc : call.pc <;> simp only [pc, Option.some.injEq, reduceCtorEq] at stepped
    subst stepped
    exact ⟨_, _, _, _, .setGeneration pc, rfl⟩
  | registerDynamicBackgroundWorker accepted now =>
    cases accepted with
    | true =>
      cases pc : call.pc <;> simp only [pc, Option.some.injEq, reduceCtorEq] at stepped
      subst stepped
      exact ⟨_, _, _, _, .accepted pc, setCall_eq_act ..⟩
    | false =>
      cases pc : call.pc <;> simp only [pc, reduceCtorEq] at stepped
      split at stepped
      · cases stepped
      · next set =>
        cases stepped
        exact ⟨_, _, _, _, .refused pc set, rfl⟩
  | readGenerationFirst =>
    cases pc : call.pc <;> simp only [pc, Option.some.injEq, reduceCtorEq] at stepped
    subst stepped
    exact ⟨_, _, _, _, .readGenerationFirst pc, setCall_eq_act ..⟩
  | interrupt =>
    cases pc : call.pc <;> simp only [pc, Option.some.injEq, reduceCtorEq] at stepped
    subst stepped
    exact ⟨_, _, _, _, .interrupt pc, setCall_eq_act ..⟩
  | getBackgroundWorkerPid =>
    cases pc : call.pc <;> simp only [pc, reduceCtorEq] at stepped
    split at stepped
    · next started =>
      cases stepped
      exact ⟨_, _, _, _, .started pc started, setCall_eq_act ..⟩
    · split at stepped
      · next stopped =>
        cases stepped
        exact ⟨_, _, _, _, .stopped pc stopped, setCall_eq_act ..⟩
      · cases stepped
        refine ⟨_, _, _, _, .notYet pc, ?_⟩
        rw [← pc]
        exact self_eq_act found
  | readProc =>
    cases pc : call.pc <;> simp only [pc, Option.some.injEq, reduceCtorEq] at stepped
    subst stepped
    split
    · next set => exact ⟨_, _, _, _, .procSet pc set, setCall_eq_act ..⟩
    · exact ⟨_, _, _, _, .procNull pc, setCall_eq_act ..⟩
  | readWorkerType =>
    cases pc : call.pc <;> simp only [pc, Option.some.injEq, reduceCtorEq] at stepped
    subst stepped
    split
    · exact ⟨_, _, _, _, .typeUsed pc, setCall_eq_act ..⟩
    · next used => exact ⟨_, _, _, _, .typeNone pc (not_not.mp used), setCall_eq_act ..⟩
  | readGeneration =>
    cases pc : call.pc <;> simp only [pc, Option.some.injEq, reduceCtorEq] at stepped
    subst stepped
    split
    · next same => exact ⟨_, _, _, _, .generationSame pc same, setCall_eq_act ..⟩
    · next other => exact ⟨_, _, _, _, .generationOther pc other, setCall_eq_act ..⟩
  | readCrashedAt =>
    cases pc : call.pc <;> simp only [pc, Option.some.injEq, reduceCtorEq] at stepped
    subst stepped
    split
    · exact ⟨_, _, _, _, .crashedAtZero pc, setCall_eq_act ..⟩
    · next set => exact ⟨_, _, _, _, .crashedAtSet pc set, setCall_eq_act ..⟩
  | setCrashedAt now =>
    cases pc : call.pc <;> simp only [pc, reduceCtorEq] at stepped
    split at stepped
    · cases stepped
    · next set =>
      cases stepped
      exact ⟨_, _, _, _, .setCrashedAt pc set, rfl⟩

theorem processStep_cases {event : ProcessEvent} (stepped : processStep s c call event = some next) :
    ∃ w pc process holder, Acts s c call (.process c event) w pc process holder ∧
      next = s.act c call w pc process holder := by
  cases event with
  | start =>
    cases process : call.process <;> simp only [processStep, process, Option.some.injEq, reduceCtorEq] at stepped
    subst stepped
    exact ⟨_, _, _, _, .start process, setCall_eq_act ..⟩
  | fail =>
    cases process : call.process <;> simp only [processStep, process, Option.some.injEq, reduceCtorEq] at stepped
    · subst stepped
      exact ⟨_, _, _, _, .fail (.inl process), setCall_eq_act ..⟩
    · subst stepped
      exact ⟨_, _, _, _, .fail (.inr process), setCall_eq_act ..⟩
  | attach =>
    cases process : call.process <;> simp only [processStep, process, reduceCtorEq] at stepped
    split at stepped
    · cases stepped
    · next unlocked =>
      cases stepped
      exact ⟨_, _, _, _, .attach process (by simpa using unlocked), rfl⟩
  | detach crash now =>
    cases process : call.process <;> simp only [processStep, process, reduceCtorEq] at stepped
    split at stepped
    · cases stepped
    · next possible =>
      cases stepped
      rw [not_or] at possible
      exact ⟨_, _, _, _, .detach process (by simpa using possible.1) possible.2, rfl⟩
  | exit =>
    cases process : call.process <;> simp only [processStep, process, Option.some.injEq, reduceCtorEq] at stepped
    subst stepped
    exact ⟨_, _, _, _, .exit process, setCall_eq_act ..⟩

/-- The state after a registration of the slot. -/
def State.registered (s : State n) (key : WorkerKey) (i : Fin n) : State n := { s with
  workers := Function.update s.workers i key.worker
  calls := s.calls ++ [⟨key, i, .copied (nextGeneration (s.workers i).generation), .unregistered, s.serial i + 1⟩]
  holder := some s.calls.length
  owner := Function.update s.owner i (some s.calls.length)
  serial := Function.update s.serial i (s.serial i + 1) }

/-- A step is a registration, a cleanup, or something a call or its process does. -/
theorem step_cases {event : Event n} (stepped : step s event = some next) :
    (∃ key i, event = .register key ∧ s.holder = none ∧ findEmptyWorkerSlot s.workers = some i ∧
      next = s.registered key i) ∨
    (∃ i, event = .cleanup i ∧ s.holder = none ∧ next = s.setWorker i (s.workers i).cleaned) ∨
    (∃ c call w pc process holder, s.calls[c]? = some call ∧ Acts s c call event w pc process holder ∧
      next = s.act c call w pc process holder) := by
  cases event with
  | register key =>
    simp only [step, register] at stepped
    split at stepped
    · cases stepped
    · next unlocked =>
      obtain ⟨i, found, rfl⟩ := Option.map_eq_some_iff.mp stepped
      exact .inl ⟨key, i, rfl, by simpa using unlocked, found, rfl⟩
  | call c event =>
    obtain ⟨call, found, taken⟩ := Option.bind_eq_some_iff.mp stepped
    obtain ⟨w, pc, process, holder, acts, same⟩ := callStep_cases found taken
    exact .inr (.inr ⟨c, call, w, pc, process, holder, found, acts, same⟩)
  | process c event =>
    obtain ⟨call, found, taken⟩ := Option.bind_eq_some_iff.mp stepped
    obtain ⟨w, pc, process, holder, acts, same⟩ := processStep_cases taken
    exact .inr (.inr ⟨c, call, w, pc, process, holder, found, acts, same⟩)
  | cleanup i =>
    simp only [step] at stepped
    split at stepped
    · cases stepped
    · next unlocked =>
      cases stepped
      exact .inr (.inl ⟨i, rfl, by simpa using unlocked, rfl⟩)

theorem act_calls {w : PGLogicalWorker} {pc : CallPc} {process : Process} {holder : Option ℕ}
    (found : s.calls[c]? = some call) {d : ℕ} {other : Call n} :
    (s.act c call w pc process holder).calls[d]? = some other ↔
      (d = c ∧ other = { call with pc := pc, process := process }) ∨ (d ≠ c ∧ s.calls[d]? = some other) := by
  have inside := (List.getElem?_eq_some_iff.mp found).1
  simp only [State.act, List.getElem?_set]
  by_cases same : c = d
  · subst same
    simp [inside, eq_comm]
  · simp [same, Ne.symm same]

theorem registered_calls {key : WorkerKey} {i : Fin n} {d : ℕ} {other : Call n} :
    (s.registered key i).calls[d]? = some other ↔
      (d = s.calls.length ∧ other =
        ⟨key, i, .copied (nextGeneration (s.workers i).generation), .unregistered, s.serial i + 1⟩) ∨
      (d < s.calls.length ∧ s.calls[d]? = some other) := by
  simp only [State.registered, List.getElem?_append]
  split
  · next inside => simp [inside, Nat.ne_of_lt inside]
  · next outside =>
    rw [List.getElem?_singleton]
    split
    · next last =>
      have : d = s.calls.length := by omega
      simp [this, eq_comm]
    · next beyond =>
      have : d ≠ s.calls.length := by omega
      simp [this, outside]

end Step

/-! ## What holds in every run -/

/-- The registration is not yet with the postmaster. -/
def CallPc.asking : CallPc → Bool
  | .copied _ | .launching => true
  | .entering | .polling _ | .sawStarted _ | .sawStopped _ | .sawType _ | .sawGeneration | .sawCrashedAt | .returned
  | .left => false

/-- `wait_for_worker_startup` has seen that the process has stopped. -/
def CallPc.checking : CallPc → Bool
  | .sawStopped _ | .sawType _ | .sawGeneration | .sawCrashedAt => true
  | .copied _ | .launching | .entering | .polling _ | .sawStarted _ | .returned | .left => false

def CallPc.over : CallPc → Bool
  | .returned | .left => true
  | .copied _ | .launching | .entering | .polling _ | .sawStarted _ | .sawStopped _ | .sawType _ | .sawGeneration
  | .sawCrashedAt => false

/-- The generation that `wait_for_worker_startup` compares with. -/
def CallPc.generation : CallPc → Option UInt16
  | .polling generation | .sawStarted generation | .sawStopped generation | .sawType generation => some generation
  | .copied _ | .launching | .entering | .sawGeneration | .sawCrashedAt | .returned | .left => none

/-- The record is copied, its generation not yet set. -/
def CallPc.isCopied : CallPc → Bool
  | .copied _ => true
  | .launching | .entering | .polling _ | .sawStarted _ | .sawStopped _ | .sawType _ | .sawGeneration | .sawCrashedAt
  | .returned | .left => false

theorem CallPc.asking_of_isCopied {pc : CallPc} (copied : pc.isCopied = true) : pc.asking = true := by
  cases pc <;> simp_all [isCopied, asking]

/-- What a single call and its process always satisfy. -/
structure Call.Sound (s : State n) (c : ℕ) (call : Call n) : Prop where
  serial_le : call.serial ≤ s.serial call.slot
  last : call.serial = s.serial call.slot → s.owner call.slot = some c
  copied : call.pc.isCopied = true → s.holder = some c ∧ s.owner call.slot = some c
  asking : call.pc.asking = true → call.process = .unregistered
  checking : call.pc.checking = true → call.process.isStopped = true

structure Base (s : State n) : Prop where
  sound : ∀ {c : ℕ} {call : Call n}, s.calls[c]? = some call → call.Sound s c
  owner : ∀ {i c}, s.owner i = some c → ∃ call, s.calls[c]? = some call ∧ call.slot = i ∧ call.serial = s.serial i
  proc : ∀ {i pid}, (s.workers i).proc = some pid →
    ∃ call, s.calls[pid]? = some call ∧ call.slot = i ∧ call.process = .attached

theorem Base.init : Base (init n) where
  sound found := by simp [WorkerStartup.init] at found
  owner owned := by simp [WorkerStartup.init] at owned
  proc set := by simp [WorkerStartup.init, PGLogicalWorker.zero] at set

section Acts

variable {s : State n} {c : ℕ} {call : Call n} {event : Event n} {w : PGLogicalWorker} {pc : CallPc}
  {process : Process} {holder : Option ℕ}

/-- Only the holder releases the lock. -/
theorem Acts.holder_eq (acts : Acts s c call event w pc process holder) :
    holder = s.holder ∨ call.pc.isCopied = true := by
  cases acts <;> simp_all [CallPc.isCopied]

theorem Acts.not_copied (acts : Acts s c call event w pc process holder) (copied : pc.isCopied = true) :
    call.pc = pc ∧ holder = s.holder := by
  cases acts <;> simp_all [CallPc.isCopied]

theorem Acts.asking (acts : Acts s c call event w pc process holder) (sound : call.Sound s c)
    (asking : pc.asking = true) : process = .unregistered := by
  have before := sound.asking
  cases acts <;> simp_all [CallPc.asking]

theorem Acts.checking (acts : Acts s c call event w pc process holder) (sound : call.Sound s c)
    (checking : pc.checking = true) : process.isStopped = true := by
  have before := sound.checking
  cases acts <;> simp_all [CallPc.checking, Process.isStopped]

/-- The process in a record is attached, before and after. -/
theorem Acts.proc (acts : Acts s c call event w pc process holder) (sound : call.Sound s c) {pid : ℕ}
    (set : w.proc = some pid) :
    (pid = c ∧ process = .attached) ∨
      ((s.workers call.slot).proc = some pid ∧ (call.process = .attached → process = .attached)) := by
  have asking := sound.asking
  cases acts <;> simp_all [PGLogicalWorker.numbered, PGLogicalWorker.attached, PGLogicalWorker.detached,
    CallPc.asking] <;> grind

end Acts

section Step

variable {s next : State n} {event : Event n}

theorem Base.registered {key : WorkerKey} {i : Fin n} (base : Base s) (unlocked : s.holder = none) :
    Base (s.registered key i) where
  sound {d other} found := by
    rcases registered_calls.mp found with ⟨rfl, rfl⟩ | ⟨inside, found⟩
    · constructor <;> simp [State.registered, CallPc.checking]
    · have sound := base.sound found
      by_cases same : other.slot = i
      · subst same
        have below := sound.serial_le
        refine ⟨?_, ?_, fun copied => ?_, sound.asking, sound.checking⟩
        · simp only [State.registered, Function.update_self]; omega
        · simp only [State.registered, Function.update_self]; omega
        · have held := (sound.copied copied).1
          rw [unlocked] at held
          cases held
      · refine ⟨?_, ?_, fun copied => ?_, sound.asking, sound.checking⟩
        · simpa [State.registered, same] using sound.serial_le
        · simpa [State.registered, same] using sound.last
        · have held := (sound.copied copied).1
          rw [unlocked] at held
          cases held
  owner {j d} owned := by
    by_cases same : j = i
    · subst same
      simp only [State.registered, Function.update_self, Option.some.injEq] at owned
      exact ⟨_, registered_calls.mpr (.inl ⟨owned.symm, rfl⟩), rfl, by simp [State.registered]⟩
    · simp only [State.registered, Function.update_of_ne same] at owned ⊢
      obtain ⟨call, found, here, serial⟩ := base.owner owned
      exact ⟨call, registered_calls.mpr (.inr ⟨(List.getElem?_eq_some_iff.mp found).1, found⟩), here, serial⟩
  proc {j pid} set := by
    by_cases same : j = i
    · subst same
      cases key <;> simp [State.registered, WorkerKey.worker, PGLogicalWorker.zero] at set
    · simp only [State.registered, Function.update_of_ne same] at set
      obtain ⟨call, found, here, attached⟩ := base.proc set
      exact ⟨call, registered_calls.mpr (.inr ⟨(List.getElem?_eq_some_iff.mp found).1, found⟩), here, attached⟩

theorem Base.act {c : ℕ} {call : Call n} {w : PGLogicalWorker} {pc : CallPc} {process : Process} {holder : Option ℕ}
    (base : Base s) (found : s.calls[c]? = some call) (acts : Acts s c call event w pc process holder) :
    Base (s.act c call w pc process holder) where
  sound {d other} there := by
    have sound := base.sound found
    rcases (act_calls found).mp there with ⟨rfl, rfl⟩ | ⟨different, there⟩
    · refine ⟨sound.serial_le, sound.last, fun copied => ?_, acts.asking sound, acts.checking sound⟩
      obtain ⟨same, held⟩ := acts.not_copied copied
      subst same held
      exact sound.copied copied
    · have before := base.sound there
      refine ⟨before.serial_le, before.last, fun copied => ?_, before.asking, before.checking⟩
      rcases acts.holder_eq with rfl | mine
      · exact before.copied copied
      · have clash := (before.copied copied).1.symm.trans (sound.copied mine).1
        exact absurd (Option.some.inj clash) different
  owner {j d} owned := by
    obtain ⟨other, there, here, serial⟩ := base.owner owned
    by_cases same : d = c
    · subst same
      obtain rfl := Option.some.inj (found.symm.trans there)
      exact ⟨_, (act_calls found).mpr (.inl ⟨rfl, rfl⟩), here, serial⟩
    · exact ⟨other, (act_calls found).mpr (.inr ⟨same, there⟩), here, serial⟩
  proc {j pid} set := by
    by_cases same : j = call.slot
    · subst same
      simp only [State.act, Function.update_self] at set
      rcases acts.proc (base.sound found) set with ⟨rfl, attached⟩ | ⟨before, kept⟩
      · exact ⟨_, (act_calls found).mpr (.inl ⟨rfl, rfl⟩), rfl, attached⟩
      · obtain ⟨other, there, here, attached⟩ := base.proc before
        by_cases mine : pid = c
        · subst mine
          obtain rfl := Option.some.inj (found.symm.trans there)
          exact ⟨_, (act_calls found).mpr (.inl ⟨rfl, rfl⟩), rfl, kept attached⟩
        · exact ⟨other, (act_calls found).mpr (.inr ⟨mine, there⟩), here, attached⟩
    · simp only [State.act, Function.update_of_ne same] at set
      obtain ⟨other, there, here, attached⟩ := base.proc set
      have mine : pid ≠ c := by
        rintro rfl
        obtain rfl := Option.some.inj (found.symm.trans there)
        exact same here.symm
      exact ⟨other, (act_calls found).mpr (.inr ⟨mine, there⟩), here, attached⟩

theorem Base.setWorker_cleaned {i : Fin n} (base : Base s) : Base (s.setWorker i (s.workers i).cleaned) where
  sound found := ⟨(base.sound found).serial_le, (base.sound found).last, (base.sound found).copied,
    (base.sound found).asking, (base.sound found).checking⟩
  owner owned := base.owner owned
  proc {j pid} set := by
    refine base.proc ?_
    by_cases same : j = i
    · subst same
      simp only [State.setWorker, Function.update_self, PGLogicalWorker.cleaned] at set
      split at set <;> exact set
    · simpa only [State.setWorker, Function.update_of_ne same] using set

theorem Base.step (base : Base s) (stepped : step s event = some next) : Base next := by
  rcases step_cases stepped with ⟨key, i, rfl, unlocked, -, rfl⟩ | ⟨i, rfl, -, rfl⟩ |
    ⟨c, call, w, pc, process, holder, found, acts, rfl⟩
  · exact base.registered unlocked
  · exact base.setWorker_cleaned
  · exact base.act found acts

end Step

/-! ## The slot of a live worker -/

/-- Attached, or still to attach. -/
def Process.alive (p : Process) : Bool :=
  decide (p = .pending) || decide (p = .started) || decide (p = .attached)

/-- The worker is running or starting: its process is alive, or still to be asked for. -/
def Call.live (call : Call n) : Bool := call.process.alive || call.pc.asking

/-- Whoever is live is the last that registered its slot, and the record is not free. -/
def Possessed (s : State n) : Prop :=
  ∀ (c : ℕ) (call : Call n), s.calls[c]? = some call → call.live = true →
    s.owner call.slot = some c ∧ (s.workers call.slot).free = false

/-- `wait_for_worker_startup` sets `crashed_at` only where no worker is live. -/
def MarksDead (s : State n) : Event n → Prop
  | .call c (.setCrashedAt _) =>
      ∀ call ∈ s.calls[c]?, call.pc = .sawCrashedAt → ∀ d ∈ s.owner call.slot, ∀ other ∈ s.calls[d]?,
        other.live = false
  | _ => True

section Step

variable {s next : State n} {c : ℕ} {call : Call n} {event : Event n} {w : PGLogicalWorker} {pc : CallPc}
  {process : Process} {holder : Option ℕ}

/-- No step makes a worker live, and the steps of a live worker keep its record. -/
theorem Acts.live (acts : Acts s c call event w pc process holder) (sound : call.Sound s c)
    (live : (process.alive || pc.asking) = true) :
    call.live = true ∧ ((s.workers call.slot).free = false → w.free = false) := by
  have asking := sound.asking
  have checking := sound.checking
  cases acts <;> simp_all [Call.live, Process.alive, CallPc.asking, CallPc.checking, Process.isStopped,
    PGLogicalWorker.free, PGLogicalWorker.numbered, PGLogicalWorker.attached]
  grind

/-- Who makes a record free is live, or marks it. -/
theorem Acts.free (acts : Acts s c call event w pc process holder) (free : w.free = true) :
    (s.workers call.slot).free = true ∨ call.live = true ∨
      (∃ now, event = .call c (.setCrashedAt now)) ∧ call.pc = .sawCrashedAt := by
  cases acts <;> simp_all [Call.live, Process.alive, CallPc.asking, PGLogicalWorker.free, PGLogicalWorker.numbered,
    PGLogicalWorker.attached]

theorem Possessed.registered {key : WorkerKey} {i : Fin n} (possessed : Possessed s)
    (found : findEmptyWorkerSlot s.workers = some i) : Possessed (s.registered key i) := by
  intro d other there live
  have empty := (findEmptyWorkerSlot_eq_some_iff.mp found).1
  rcases registered_calls.mp there with ⟨rfl, rfl⟩ | ⟨-, there⟩
  · refine ⟨by simp [State.registered], ?_⟩
    have used := key.workerType_worker
    cases key <;> simp_all [State.registered, PGLogicalWorker.free, WorkerKey.worker, PGLogicalWorker.zero]
  · obtain ⟨owned, taken⟩ := possessed _ _ there live
    have elsewhere : other.slot ≠ i := by
      rintro rfl
      rw [taken] at empty
      cases empty
    simpa [State.registered, elsewhere] using And.intro owned taken

theorem Possessed.act (possessed : Possessed s) (base : Base s) (found : s.calls[c]? = some call)
    (acts : Acts s c call event w pc process holder) (marks : MarksDead s event) :
    Possessed (s.act c call w pc process holder) := by
  intro d other there live
  rcases (act_calls found).mp there with ⟨rfl, rfl⟩ | ⟨different, there⟩
  · obtain ⟨before, kept⟩ := acts.live (base.sound found) live
    obtain ⟨owned, taken⟩ := possessed _ _ found before
    exact ⟨owned, by simpa [State.act] using kept taken⟩
  · obtain ⟨owned, taken⟩ := possessed _ _ there live
    refine ⟨owned, ?_⟩
    by_cases same : other.slot = call.slot
    · simp only [State.act, same, Function.update_self]
      by_contra free
      rw [same] at owned taken
      -- A writer that frees the record is live itself, or marks a record that nobody live owns.
      rcases acts.free (by simpa using free) with before | mine | ⟨⟨now, rfl⟩, saw⟩
      · rw [taken] at before
        cases before
      · have clash := owned.symm.trans (possessed _ _ found mine).1
        exact different (Option.some.inj clash)
      · have dead := marks call found saw d owned other there
        rw [live] at dead
        cases dead
    · simpa only [State.act, Function.update_of_ne same] using taken

theorem Possessed.setWorker_cleaned {i : Fin n} (possessed : Possessed s) :
    Possessed (s.setWorker i (s.workers i).cleaned) := by
  intro d other there live
  obtain ⟨owned, taken⟩ := possessed _ _ there live
  refine ⟨owned, ?_⟩
  by_cases same : other.slot = i
  · subst same
    simp_all [State.setWorker, PGLogicalWorker.free, PGLogicalWorker.cleaned]
  · simpa only [State.setWorker, Function.update_of_ne same] using taken

theorem Possessed.step (possessed : Possessed s) (base : Base s) (marks : MarksDead s event)
    (stepped : step s event = some next) : Possessed next := by
  rcases step_cases stepped with ⟨key, i, rfl, -, found, rfl⟩ | ⟨i, rfl, -, rfl⟩ |
    ⟨c, call, w, pc, process, holder, found, acts, rfl⟩
  · exact possessed.registered found
  · exact possessed.setWorker_cleaned
  · exact possessed.act base found acts marks

end Step

/-! ## Marking a worker that has exited prematurely -/

/-- Fewer than 65536 registrations of one slot during a wait. -/
def FewRegistrations (s : State n) : Event n → Prop
  | .register _ => ∀ i ∈ findEmptyWorkerSlot s.workers, ∀ call ∈ s.calls, call.slot = i →
      call.pc.generation.isSome = true → s.serial i + 1 - call.serial < 65536
  | _ => True

/-- A waiting call reads its own generation first, never reads the generation of a record that is just
being copied, and its slot is not registered again between that read and the write of `crashed_at`. -/
def ReadsOwnRecord (s : State n) : Event n → Prop
  | .register _ => ∀ i ∈ findEmptyWorkerSlot s.workers, ∀ call ∈ s.calls, call.slot = i →
      call.pc ≠ .sawGeneration ∧ call.pc ≠ .sawCrashedAt
  | .call c .readGenerationFirst => ∀ call ∈ s.calls[c]?, s.owner call.slot = some c
  | .call c .readGeneration => ∀ call ∈ s.calls[c]?, ∀ other ∈ s.calls, other.slot = call.slot →
      other.pc.isCopied = false
  | _ => True

/-- `wait_for_worker_startup` sets `crashed_at` only for the worker that the same call has registered. -/
def MarksOwn (s : State n) : Event n → Prop
  | .call c (.setCrashedAt _) => ∀ call ∈ s.calls[c]?, call.pc = .sawCrashedAt → s.owner call.slot = some c
  | _ => True

/-- Generations count the registrations of a slot. -/
structure Numbered (s : State n) : Prop where
  copied : ∀ {c : ℕ} {call : Call n} {generation : UInt16}, s.calls[c]? = some call → call.pc = .copied generation →
    generation = UInt16.ofNat (s.serial call.slot)
  record : ∀ {i : Fin n}, (∀ call ∈ s.calls, call.slot = i → call.pc.isCopied = false) →
    (s.workers i).generation = UInt16.ofNat (s.serial i)
  waits : ∀ {c : ℕ} {call : Call n} {generation : UInt16}, s.calls[c]? = some call →
    call.pc.generation = some generation →
      generation = UInt16.ofNat call.serial ∧ s.serial call.slot - call.serial < 65536
  mine : ∀ {c : ℕ} {call : Call n}, s.calls[c]? = some call → call.pc = .sawGeneration ∨ call.pc = .sawCrashedAt →
    s.owner call.slot = some c

theorem Numbered.init : Numbered (init n) where
  copied found := by simp [WorkerStartup.init] at found
  record _ := rfl
  waits found := by simp [WorkerStartup.init] at found
  mine found := by simp [WorkerStartup.init] at found

theorem nextGeneration_ofNat (k : ℕ) : nextGeneration (UInt16.ofNat k) = UInt16.ofNat (k + 1) := by
  have step : UInt16.ofNat (k + 1) = UInt16.ofNat k + 1 := UInt16.ofNat_add k 1
  rw [step, nextGeneration]
  split
  · next last => rw [last]; rfl
  · rfl

theorem serial_eq_of_ofNat {a b : ℕ} (same : UInt16.ofNat b = UInt16.ofNat a) (le : a ≤ b) (near : b - a < 65536) :
    a = b := by
  have mods : b % 65536 = a % 65536 := by simpa using congrArg UInt16.toNat same
  omega

section Step

variable {s next : State n} {c : ℕ} {call : Call n} {event : Event n} {w : PGLogicalWorker} {pc : CallPc}
  {process : Process} {holder : Option ℕ}

theorem Acts.generation (acts : Acts s c call event w pc process holder) :
    call.pc = .copied w.generation ∨
      (w.generation = (s.workers call.slot).generation ∧ (call.pc.isCopied = true → pc.isCopied = true)) := by
  cases acts <;> simp_all [PGLogicalWorker.numbered, PGLogicalWorker.attached, PGLogicalWorker.detached,
    CallPc.isCopied]
  grind

theorem Acts.awaited (acts : Acts s c call event w pc process holder) {generation : UInt16}
    (waits : pc.generation = some generation) :
    call.pc.generation = some generation ∨
      (event = .call c .readGenerationFirst ∧ call.pc = .entering ∧
        generation = (s.workers call.slot).generation) := by
  cases acts <;> simp_all [CallPc.generation]

theorem Acts.sawGeneration (acts : Acts s c call event w pc process holder)
    (saw : pc = .sawGeneration ∨ pc = .sawCrashedAt) :
    (call.pc = .sawGeneration ∨ call.pc = .sawCrashedAt) ∨
      (event = .call c .readGeneration ∧ call.pc = .sawType (s.workers call.slot).generation) := by
  cases acts <;> simp_all

theorem Numbered.registered {key : WorkerKey} {i : Fin n} (numbered : Numbered s) (base : Base s)
    (unlocked : s.holder = none) (found : findEmptyWorkerSlot s.workers = some i)
    (few : FewRegistrations s (.register key)) (own : ReadsOwnRecord s (.register key)) :
    Numbered (s.registered key i) where
  copied {d other generation} there copied := by
    rcases registered_calls.mp there with ⟨rfl, rfl⟩ | ⟨-, there⟩
    · -- Nobody holds the lock, so the generation in the record is the number of registrations.
      have record : (s.workers i).generation = UInt16.ofNat (s.serial i) := by
        refine numbered.record fun other inside _ => ?_
        obtain ⟨d, there⟩ := List.mem_iff_getElem?.mp inside
        by_contra isCopied
        have held := ((base.sound there).copied (by simpa using isCopied)).1
        rw [unlocked] at held
        cases held
      cases copied
      simp [State.registered, record, nextGeneration_ofNat]
    · have held := ((base.sound there).copied (by simp [copied, CallPc.isCopied])).1
      rw [unlocked] at held
      cases held
  record {j} none := by
    by_cases same : j = i
    · subst same
      have new := none _ (List.mem_append_right _ (List.mem_singleton_self _)) rfl
      simp [CallPc.isCopied] at new
    · simp only [State.registered, Function.update_of_ne same]
      exact numbered.record fun other inside here => none other (List.mem_append_left _ inside) here
  waits {d other generation} there waits := by
    rcases registered_calls.mp there with ⟨rfl, rfl⟩ | ⟨-, there⟩
    · cases waits
    · obtain ⟨same, near⟩ := numbered.waits there waits
      refine ⟨same, ?_⟩
      by_cases here : other.slot = i
      · have room := few i found other (List.mem_of_getElem? there) here (by simp [waits])
        simpa [State.registered, here] using room
      · simpa [State.registered, here] using near
  mine {d other} there saw := by
    rcases registered_calls.mp there with ⟨rfl, rfl⟩ | ⟨-, there⟩
    · simp at saw
    · have elsewhere : other.slot ≠ i := by
        intro here
        have apart := own i found other (List.mem_of_getElem? there) here
        exact saw.elim apart.1 apart.2
      simpa [State.registered, elsewhere] using numbered.mine there saw

theorem Numbered.act (numbered : Numbered s) (base : Base s) (found : s.calls[c]? = some call)
    (acts : Acts s c call event w pc process holder) (own : ReadsOwnRecord s event) :
    Numbered (s.act c call w pc process holder) where
  copied {d other generation} there copied := by
    rcases (act_calls found).mp there with ⟨rfl, rfl⟩ | ⟨-, there⟩
    · subst copied
      have same := (acts.not_copied (by simp [CallPc.isCopied])).1
      have before := numbered.copied found same
      exact before
    · exact numbered.copied there copied
  record {j} none := by
    have others : ∀ d other, s.calls[d]? = some other → d ≠ c → other.slot = j → other.pc.isCopied = false :=
      fun d other there different here =>
        none other (List.mem_of_getElem? ((act_calls found).mpr (.inr ⟨different, there⟩))) here
    by_cases same : j = call.slot
    · subst same
      simp only [State.act, Function.update_self]
      rcases acts.generation with copied | ⟨same, copied⟩
      · exact numbered.copied found copied
      · rw [same]
        refine numbered.record fun other inside here => ?_
        obtain ⟨d, there⟩ := List.mem_iff_getElem?.mp inside
        by_cases mine : d = c
        · subst mine
          obtain rfl := Option.some.inj (found.symm.trans there)
          have after := none _ (List.mem_of_getElem? ((act_calls found).mpr (.inl ⟨rfl, rfl⟩))) rfl
          by_contra isCopied
          rw [copied (by simpa using isCopied)] at after
          cases after
        · exact others d other there mine here
    · simp only [State.act, Function.update_of_ne same]
      refine numbered.record fun other inside here => ?_
      obtain ⟨d, there⟩ := List.mem_iff_getElem?.mp inside
      refine others d other there ?_ here
      rintro rfl
      obtain rfl := Option.some.inj (found.symm.trans there)
      exact same here.symm
  waits {d other generation} there waits := by
    rcases (act_calls found).mp there with ⟨rfl, rfl⟩ | ⟨-, there⟩
    · rcases acts.awaited waits with before | ⟨rfl, entering, rfl⟩
      · have kept := numbered.waits found before
        exact kept
      · -- The first read is of the own record, which is complete.
        have owned := own call found
        obtain ⟨same, there, -, serial⟩ := base.owner owned
        obtain rfl := Option.some.inj (found.symm.trans there)
        refine ⟨?_, by simp [State.act, serial]⟩
        rw [serial]
        refine numbered.record fun other inside here => ?_
        obtain ⟨e, elsewhere⟩ := List.mem_iff_getElem?.mp inside
        by_contra isCopied
        have theirs := ((base.sound elsewhere).copied (by simpa using isCopied)).2
        rw [here, owned] at theirs
        obtain rfl := Option.some.inj theirs
        obtain rfl := Option.some.inj (found.symm.trans elsewhere)
        simp [entering, CallPc.isCopied] at isCopied
    · exact numbered.waits there waits
  mine {d other} there saw := by
    rcases (act_calls found).mp there with ⟨rfl, rfl⟩ | ⟨-, there⟩
    · rcases acts.sawGeneration saw with before | ⟨rfl, sawType⟩
      · have kept := numbered.mine found before
        exact kept
      · -- The generation is still the one of this call, so no other registration has come in between.
        have record := numbered.record (own call found)
        obtain ⟨same, near⟩ := numbered.waits found (by rw [sawType]; rfl)
        have sound := base.sound found
        exact sound.last (serial_eq_of_ofNat (record.symm.trans same) sound.serial_le near)
    · exact numbered.mine there saw

theorem Numbered.step (numbered : Numbered s) (base : Base s) (few : FewRegistrations s event)
    (own : ReadsOwnRecord s event) (stepped : step s event = some next) : Numbered next := by
  rcases step_cases stepped with ⟨key, i, rfl, unlocked, found, rfl⟩ | ⟨i, rfl, -, rfl⟩ |
    ⟨c, call, w, pc, process, holder, found, acts, rfl⟩
  · exact numbered.registered base unlocked found few own
  · refine ⟨numbered.copied, fun {j} none => ?_, numbered.waits, numbered.mine⟩
    refine Eq.trans ?_ (numbered.record none)
    by_cases same : j = i
    · subst same
      simp only [State.setWorker, Function.update_self, PGLogicalWorker.cleaned]
      split <;> rfl
    · simp only [State.setWorker, Function.update_of_ne same]
  · exact numbered.act base found acts own

end Step

/-- A slot with an attached worker says so, and is not given to another one. -/
def SlotKept (s : State n) : Prop :=
  ∀ i pid, (s.workers i).proc = some pid →
    (s.workers i).workerType ≠ .none ∧ (s.workers i).crashedAt = 0 ∧ findEmptyWorkerSlot s.workers ≠ some i

section Step

variable {s next : State n} {event : Event n}

theorem Numbered.marksOwn (numbered : Numbered s) : MarksOwn s event := by
  unfold MarksOwn
  split
  · exact fun call found saw => numbered.mine found (.inr saw)
  · trivial

/-- The worker of a call that marks its own slot has exited. -/
theorem Base.marksDead (base : Base s) (own : MarksOwn s event) : MarksDead s event := by
  unfold MarksDead
  split
  · intro call found saw d owned other there
    have mine := (own call found saw).symm.trans owned
    obtain rfl := Option.some.inj mine
    obtain rfl := Option.some.inj (Eq.trans (Eq.symm found) there)
    have stopped := (base.sound found).checking (by simp [saw, CallPc.checking])
    simp only [Process.isStopped, Bool.or_eq_true, decide_eq_true_eq] at stopped
    rcases stopped with stopped | failed <;> simp [Call.live, Process.alive, CallPc.asking, *]
  · trivial

theorem Possessed.slotKept (possessed : Possessed s) (base : Base s) : SlotKept s := by
  intro i pid set
  obtain ⟨call, found, rfl, attached⟩ := base.proc set
  have taken := (possessed _ _ found (by simp [Call.live, Process.alive, attached])).2
  refine ⟨?_, ?_, fun empty => ?_⟩
  · intro none
    simp [PGLogicalWorker.free, none] at taken
  · simpa [PGLogicalWorker.free] using (Bool.or_eq_false_iff.mp taken).2
  · rw [(findEmptyWorkerSlot_eq_some_iff.mp empty).1] at taken
    cases taken

theorem init_possessed : Possessed (init n) := fun _ _ found => by simp [init] at found

/-- In every run in which waiting calls read their own records, the slot of an attached worker is kept,
and no call marks the record of another one. -/
theorem slot_kept (events : List (Event n)) (few : Permitted step FewRegistrations (init n) events)
    (reads : Permitted step ReadsOwnRecord (init n) events) :
    Permitted step MarksOwn (init n) events ∧
      ∀ final, run step (init n) events = some final → SlotKept final := by
  have start : (Base (init n) ∧ Possessed (init n)) ∧ Numbered (init n) := ⟨⟨.init, init_possessed⟩, .init⟩
  have preserved : ∀ {s next : State n} {event : Event n}, (Base s ∧ Possessed s) ∧ Numbered s →
      FewRegistrations s event ∧ ReadsOwnRecord s event → step s event = some next →
        (Base next ∧ Possessed next) ∧ Numbered next := by
    rintro s next event ⟨⟨base, possessed⟩, numbered⟩ ⟨few, reads⟩ stepped
    exact ⟨⟨base.step stepped, possessed.step base (base.marksDead numbered.marksOwn) stepped⟩,
      numbered.step base few reads stepped⟩
  have both := few.and reads
  refine ⟨both.of_invariant preserved (fun inv _ => inv.2.marksOwn) start, fun final success => ?_⟩
  have inv := run_invariant preserved start both success
  exact Possessed.slotKept inv.1.2 inv.1.1

end Step

instance FewRegistrations.decidable (s : State n) : ∀ event, Decidable (FewRegistrations s event)
  | .register _ => Option.decidableForallMem (findEmptyWorkerSlot s.workers)
  | .call _ _ | .process _ _ | .cleanup _ => isTrue trivial

instance ReadsOwnRecord.decidable (s : State n) : ∀ event, Decidable (ReadsOwnRecord s event)
  | .register _ => Option.decidableForallMem (findEmptyWorkerSlot s.workers)
  | .call c .readGenerationFirst | .call c .readGeneration => Option.decidableForallMem s.calls[c]?
  | .call _ .setGeneration | .call _ (.registerDynamicBackgroundWorker _ _) | .call _ .interrupt
  | .call _ .getBackgroundWorkerPid | .call _ .readProc | .call _ .readWorkerType | .call _ .readCrashedAt
  | .call _ (.setCrashedAt _) | .process _ _ | .cleanup _ => isTrue trivial

def sampleKey : WorkerKey := .apply 5 7

/-- The worker is registered and asked for. -/
def launch (c : ℕ) (key : WorkerKey) : List (Event n) :=
  [.register key, .call c .setGeneration, .call c (.registerDynamicBackgroundWorker true 10)]

/-- The process starts and attaches, and its registrant returns. -/
def attachAndReturn (c : ℕ) : List (Event n) :=
  [.call c .readGenerationFirst, .process c .start, .process c .attach, .call c .getBackgroundWorkerPid,
    .call c .readProc]

/-- `wait_for_worker_startup` finds that the process has stopped, and marks the record. -/
def markStopped (c : ℕ) : List (Event n) :=
  [.call c .getBackgroundWorkerPid, .call c .readWorkerType, .call c .readGeneration, .call c .readCrashedAt,
    .call c (.setCrashedAt 20)]

/-- The first worker finishes its work, and the slot is taken by a second one, before the first call
reads the generation. It then reads the generation of the second registration, and marks a running
worker as crashed. -/
theorem slot_taken_from_running_worker :
    ∃ events : List (Event 1), Permitted step FewRegistrations (init 1) events ∧
      ∃ final, run step (init 1) events = some final ∧ ¬ SlotKept final :=
  ⟨launch 0 sampleKey ++
      [Event.process 0 .start, .process 0 .attach, .process 0 (.detach false 15), .process 0 .exit] ++
      launch 1 sampleKey ++ [Event.process 1 .start, .process 1 .attach, .call 0 .readGenerationFirst] ++ markStopped 0,
    by decide +kernel, _, rfl, fun kept => absurd (kept 0 1 rfl).2.1 (by decide)⟩

/-- The first process never attaches, its call marks the record, and the next worker gets the slot. -/
def prematureExit : List (Event 1) :=
  launch 0 sampleKey ++ [Event.call 0 .readGenerationFirst, .process 0 .start, .process 0 .fail] ++ markStopped 0 ++
    launch 1 sampleKey ++ [Event.process 1 .start, .process 1 .attach]

theorem slot_kept_after_prematureExit :
    ∃ final, run step (init 1) prematureExit = some final ∧ (final.workers 0).proc = some 1 ∧
      Permitted step MarksOwn (init 1) prematureExit ∧ SlotKept final :=
  have kept := slot_kept prematureExit (by decide +kernel) (by decide +kernel)
  ⟨_, rfl, rfl, kept.1, kept.2 _ rfl⟩

end PGLogical.WorkerStartup
