import PGLogical.Soundness.WorkerStartup

/-! # What a record says about a process

A record that is in use and not marked as crashed stands for a worker that is running or starting, or
for one whose failure its registrant is about to find out. Only the registrant finds out about a
process that exits before it attaches; when it has left its wait by then, the record stays in use for
ever. The lookups return the first record with the key. They find the live worker because a new
worker gets the first free slot, which comes before every record of a crashed worker.
-/

namespace PGLogical.WorkerStartup

open Machine
open Wire (CString)

variable {n : ℕ}

/-! ## Records without a process -/

/-- The process has exited before it attached, and the registrant has not found out yet. -/
def Call.awaited (call : Call n) : Bool := decide (call.process = .failed) && !call.pc.over

/-- A registrant stays in its wait until its worker has attached or is known to be gone. -/
def Attended (s : State n) : Event n → Prop
  | .call c .interrupt => ∀ call ∈ s.calls[c]?, call.process ≠ .failed
  | .call c .readProc => ∀ call ∈ s.calls[c]?, call.process = .failed → (s.workers call.slot).proc = none
  | .process c .fail => ∀ call ∈ s.calls[c]?, call.pc.over = false
  | _ => True

/-- What the record of a slot says about the last registration of the slot. -/
structure Call.Backed (s : State n) (call : Call n) : Prop where
  named : (s.workers call.slot).workerType ≠ .none → ∀ key, (s.workers call.slot).isFor key = true ↔ call.key = key
  behind : (s.workers call.slot).free = false → call.live = true ∨ call.awaited = true
  generation : ∀ {generation : UInt16}, (s.workers call.slot).free = false →
    call.pc.generation = some generation → (s.workers call.slot).generation = generation

theorem Call.Backed.frame {s t : State n} {call : Call n} (backed : call.Backed s)
    (same : t.workers call.slot = s.workers call.slot) : call.Backed t where
  named := by rw [same]; exact backed.named
  behind := by rw [same]; exact backed.behind
  generation := by rw [same]; exact backed.generation

structure Backed (s : State n) : Prop where
  unowned : ∀ {i : Fin n}, s.owner i = none → (s.workers i).workerType = .none
  backed : ∀ {c : ℕ} {call : Call n}, s.calls[c]? = some call → s.owner call.slot = some c → call.Backed s

theorem Backed.init : Backed (init n) where
  unowned _ := rfl
  backed found := by simp [WorkerStartup.init] at found

section Step

variable {s next : State n} {c : ℕ} {call : Call n} {event : Event n} {w : PGLogicalWorker} {pc : CallPc}
  {process : Process} {holder : Option ℕ}

/-- No step but a registration brings a record into use, or changes what it is for. -/
theorem Acts.named (acts : Acts s c call event w pc process holder) (used : w.workerType ≠ .none) :
    (s.workers call.slot).workerType ≠ .none ∧ ∀ key, w.isFor key = (s.workers call.slot).isFor key := by
  have same : ∀ {a b : PGLogicalWorker}, a.workerType = b.workerType → a.dboid = b.dboid → a.subid = b.subid →
      a.nspname = b.nspname → a.relname = b.relname → ∀ key, a.isFor key = b.isFor key := by
    intro a b type dboid subid nspname relname key
    cases key <;> simp [PGLogicalWorker.isFor, *]
  cases acts <;> first
    | exact ⟨used, same rfl rfl rfl rfl rfl⟩
    | skip
  next crash now attached unlocked set =>
    cases crash with
    | true => exact ⟨used, same rfl rfl rfl rfl rfl⟩
    | false => exact absurd rfl used

/-- Only the holder of the lock clears `crashed_at`. -/
theorem Acts.taken (acts : Acts s c call event w pc process holder) (taken : w.free = false) :
    (s.workers call.slot).free = false ∨ call.pc.isCopied = true := by
  cases acts with
  | setGeneration at_ => exact .inr (by simp [at_, CallPc.isCopied])
  | attach => exact .inl (by simpa using taken)
  | detach attached unlocked set => simp [set] at taken
  | refused at_ set | setCrashedAt at_ set => simp [PGLogicalWorker.free, set] at taken
  | _ => exact .inl taken

theorem Acts.generation_eq (acts : Acts s c call event w pc process holder) (copied : call.pc.isCopied = false) :
    w.generation = (s.workers call.slot).generation := by
  rcases acts.generation with at_ | ⟨same, -⟩
  · simp [at_, CallPc.isCopied] at copied
  · exact same

/-- A process that the postmaster has been asked for is alive, unless it has failed unnoticed. -/
theorem Call.alive_of_behind (behind : call.live = true ∨ call.awaited = true) (asked : call.pc.asking = false)
    (kept : call.process ≠ .failed) : call.process.alive = true := by
  rcases behind with live | awaited
  · rwa [Call.live, asked, Bool.or_false] at live
  · rw [Call.awaited, Bool.and_eq_true] at awaited
    exact absurd (of_decide_eq_true awaited.1) kept

/-- A registrant that goes on waiting will find out. -/
theorem Call.behind_goto (behind : call.live = true ∨ call.awaited = true) (asked : call.pc.asking = false)
    (waits : pc.over = false) :
    (call.process.alive || pc.asking) = true ∨ (decide (call.process = .failed) && !pc.over) = true := by
  by_cases failed : call.process = .failed
  · exact .inr (by rw [waits, failed]; rfl)
  · exact .inl (by rw [Call.alive_of_behind behind asked failed, Bool.true_or])

/-- The failure of the last registration of a slot is found out before the registrant leaves. -/
theorem Acts.behind (acts : Acts s c call event w pc process holder) (sound : call.Sound s c)
    (attended : Attended s event) (found : s.calls[c]? = some call) (backed : call.Backed s) (taken : w.free = false) :
    (process.alive || pc.asking) = true ∨ (decide (process = .failed) && !pc.over) = true := by
  rcases acts.taken taken with before | copied
  · have behind := backed.behind before
    cases acts with
    | setGeneration => exact .inl (by rw [CallPc.asking, Bool.or_true])
    | accepted | start | attach => exact .inl rfl
    | readGenerationFirst at_ | started at_ | stopped at_ | notYet at_ | procNull at_ | typeUsed at_
    | generationSame at_ | crashedAtZero at_ => exact Call.behind_goto behind (by rw [at_]; rfl) rfl
    | interrupt at_ =>
      have alive := Call.alive_of_behind behind (by rw [at_]; rfl) (attended call found)
      exact .inl (by rw [alive, Bool.true_or])
    | procSet at_ set =>
      have kept : call.process ≠ .failed := by
        intro failed
        rw [attended call found failed] at set
        cases set
      exact .inl (by rw [Call.alive_of_behind behind (by rw [at_]; rfl) kept, Bool.true_or])
    -- The registrant is told that the record is not its own any more, which it is.
    | typeNone at_ none => simp [PGLogicalWorker.free, none] at before
    | generationOther at_ other => exact absurd (backed.generation before (by rw [at_]; rfl)) other
    | crashedAtSet at_ set => simp [PGLogicalWorker.free, set] at before
    | refused at_ set | setCrashedAt at_ set => simp [PGLogicalWorker.free, set] at taken
    | fail early => exact .inr (by rw [attended call found]; rfl)
    | detach attached unlocked set => simp [set] at taken
    | exit exiting =>
      have asked : call.pc.asking = false := by
        by_contra asking
        have unregistered := sound.asking (Bool.eq_true_of_not_eq_false asking)
        rw [exiting] at unregistered
        cases unregistered
      have alive := Call.alive_of_behind behind asked (by rw [exiting]; exact fun failed => by cases failed)
      rw [exiting] at alive
      cases alive
  · have unregistered := sound.asking (CallPc.asking_of_isCopied copied)
    cases acts <;> simp_all [CallPc.isCopied, CallPc.asking]

theorem Backed.registered {key : WorkerKey} {i : Fin n} (backed : Backed s) :
    Backed (s.registered key i) where
  unowned {j} none := by
    by_cases same : j = i
    · subst same
      simp [State.registered] at none
    · simp only [State.registered, Function.update_of_ne same] at none ⊢
      exact backed.unowned none
  backed {d other} there owned := by
    rcases registered_calls.mp there with ⟨rfl, rfl⟩ | ⟨inside, there⟩
    · refine ⟨fun _ other => ?_, fun _ => .inl rfl, fun _ known => by cases known⟩
      simp only [State.registered, Function.update_self]
      exact WorkerKey.isFor_worker
    · have elsewhere : other.slot ≠ i := by
        rintro rfl
        simp only [State.registered, Function.update_self, Option.some.injEq] at owned
        omega
      have frame : (s.registered key i).workers other.slot = s.workers other.slot := by
        simp only [State.registered, Function.update_of_ne elsewhere]
      have before := backed.backed there (by simpa [State.registered, elsewhere] using owned)
      exact before.frame frame

theorem Backed.act (backed : Backed s) (base : Base s) (attended : Attended s event)
    (found : s.calls[c]? = some call) (acts : Acts s c call event w pc process holder) :
    Backed (s.act c call w pc process holder) where
  unowned {j} none := by
    by_cases same : j = call.slot
    · subst same
      simp only [State.act, Function.update_self]
      by_contra used
      exact (acts.named used).1 (backed.unowned none)
    · simp only [State.act, Function.update_of_ne same]
      exact backed.unowned none
  backed {d other} there owned := by
    have sound := base.sound found
    rcases (act_calls found).mp there with ⟨rfl, rfl⟩ | ⟨different, there⟩
    · have before := backed.backed found owned
      have here : (s.act d call w pc process holder).workers call.slot = w := by simp [State.act]
      refine ⟨fun used key => ?_, fun taken => ?_, fun {generation} taken waits => ?_⟩
      · rw [here] at used ⊢
        obtain ⟨used, same⟩ := acts.named used
        rw [same]
        exact before.named used key
      · rw [here] at taken
        exact acts.behind sound attended found before taken
      · rw [here] at taken ⊢
        have copied : call.pc.isCopied = false := by
          rcases acts.awaited waits with waits | ⟨-, entering, -⟩
          · cases at_ : call.pc <;> simp_all [CallPc.generation, CallPc.isCopied]
          · simp [entering, CallPc.isCopied]
        have same := acts.generation_eq copied
        have kept := (acts.taken taken).resolve_right (by simp [copied])
        rw [same]
        rcases acts.awaited waits with waits | ⟨-, -, read⟩
        · exact before.generation kept waits
        · exact read.symm
    · have before := backed.backed there owned
      by_cases same : other.slot = call.slot
      · -- The slot belongs to another call, so this one does not hold the lock.
        have copied : call.pc.isCopied = false := by
          by_contra isCopied
          have mine := (sound.copied (by simpa using isCopied)).2
          exact different (Option.some.inj (owned.symm.trans (same ▸ mine)))
        have here : (s.act c call w pc process holder).workers other.slot = w := by simp [State.act, same]
        refine ⟨fun used key => ?_, fun taken => ?_, fun {generation} taken waits => ?_⟩
        · rw [here] at used ⊢
          obtain ⟨used, named⟩ := acts.named used
          rw [named, ← same]
          exact before.named (same ▸ used) key
        · rw [here] at taken
          have kept := (acts.taken taken).resolve_right (by simp [copied])
          exact before.behind (same ▸ kept)
        · rw [here] at taken ⊢
          have kept := (acts.taken taken).resolve_right (by simp [copied])
          rw [acts.generation_eq copied, ← same]
          exact before.generation (same ▸ kept) waits
      · have frame : (s.act c call w pc process holder).workers other.slot = s.workers other.slot := by
          simp only [State.act, Function.update_of_ne same]
        exact before.frame frame

theorem Backed.setWorker_cleaned {i : Fin n} (backed : Backed s) :
    Backed (s.setWorker i (s.workers i).cleaned) := by
  by_cases crashed : (s.workers i).crashedAt = 0
  · have same : (s.workers i).cleaned = s.workers i := by simp [PGLogicalWorker.cleaned, crashed]
    rw [same, State.setWorker, Function.update_eq_self]
    exact ⟨backed.unowned, fun there owned => (backed.backed there owned).frame rfl⟩
  · have none : (s.workers i).cleaned.workerType = .none := by simp [PGLogicalWorker.cleaned, crashed]
    refine ⟨fun {j} unowned => ?_, fun {d other} there owned => ?_⟩
    · by_cases same : j = i
      · subst same
        simpa [State.setWorker] using none
      · simpa only [State.setWorker, Function.update_of_ne same] using backed.unowned unowned
    · by_cases same : other.slot = i
      · subst same
        have here : (s.setWorker other.slot (s.workers other.slot).cleaned).workers other.slot =
            (s.workers other.slot).cleaned := by simp [State.setWorker]
        refine ⟨fun used => ?_, fun taken => ?_, fun taken => ?_⟩
        · rw [here] at used
          exact absurd none used
        · rw [here] at taken
          simp [PGLogicalWorker.free, none] at taken
        · rw [here] at taken
          simp [PGLogicalWorker.free, none] at taken
      · refine (backed.backed there owned).frame ?_
        simp only [State.setWorker, Function.update_of_ne same]

theorem Backed.step (backed : Backed s) (base : Base s) (attended : Attended s event)
    (stepped : step s event = some next) : Backed next := by
  rcases step_cases stepped with ⟨key, i, rfl, -, -, rfl⟩ | ⟨i, rfl, -, rfl⟩ |
    ⟨c, call, w, pc, process, holder, found, acts, rfl⟩
  · exact backed.registered
  · exact backed.setWorker_cleaned
  · exact backed.act base attended found acts

end Step

/-- Every record in use that is not marked as crashed has a process that is alive or will be asked for,
or a registrant that is still waiting, from the last registration of the slot. -/
def NoneLeaked (s : State n) : Prop :=
  ∀ i, (s.workers i).workerType ≠ .none → (s.workers i).crashedAt = 0 →
    ∃ c call, s.owner i = some c ∧ s.calls[c]? = some call ∧ call.slot = i ∧
      (call.process.alive = true ∨ call.pc.over = false)

theorem Backed.owned {s : State n} (backed : Backed s) (base : Base s) {i : Fin n}
    (used : (s.workers i).workerType ≠ .none) :
    ∃ c call, s.owner i = some c ∧ s.calls[c]? = some call ∧ call.slot = i ∧ call.Backed s := by
  cases owned : s.owner i with
  | none => exact absurd (backed.unowned owned) used
  | some c =>
    obtain ⟨call, found, rfl, -⟩ := base.owner owned
    exact ⟨c, call, rfl, found, rfl, backed.backed found owned⟩

theorem Backed.noneLeaked {s : State n} (backed : Backed s) (base : Base s) : NoneLeaked s := by
  intro i used uncrashed
  obtain ⟨c, call, owned, found, rfl, mine⟩ := backed.owned base used
  refine ⟨c, call, owned, found, rfl, ?_⟩
  rcases mine.behind (by simp [PGLogicalWorker.free, used, uncrashed]) with live | awaited
  · rw [Call.live, Bool.or_eq_true] at live
    rcases live with alive | asking
    · exact .inl alive
    · refine .inr ?_
      cases at_ : call.pc <;> simp_all [CallPc.asking, CallPc.over]
  · rw [Call.awaited, Bool.and_eq_true] at awaited
    exact .inr (by simpa using awaited.2)

theorem run_backed {events : List (Event n)} {final : State n} (attended : Permitted step Attended (init n) events)
    (success : run step (init n) events = some final) : Base final ∧ Backed final := by
  have start : Base (init n) ∧ Backed (init n) := ⟨.init, .init⟩
  have preserved : ∀ {s next : State n} {event : Event n}, Base s ∧ Backed s → Attended s event →
      step s event = some next → Base next ∧ Backed next :=
    fun inv attended stepped => ⟨inv.1.step stepped, inv.2.step inv.1 attended stepped⟩
  exact run_invariant preserved start attended success

/-- In every run in which the registrants stay until their workers have attached or failed, no slot
leaks. -/
theorem no_slot_leaks (events : List (Event n)) (final : State n)
    (attended : Permitted step Attended (init n) events) (success : run step (init n) events = some final) :
    NoneLeaked final := by
  obtain ⟨base, backed⟩ := run_backed attended success
  exact backed.noneLeaked base

instance Attended.decidable (s : State n) : ∀ event, Decidable (Attended s event)
  | .call c .interrupt | .call c .readProc | .process c .fail => Option.decidableForallMem s.calls[c]?
  | .call _ .setGeneration | .call _ (.registerDynamicBackgroundWorker _ _) | .call _ .readGenerationFirst
  | .call _ .getBackgroundWorkerPid | .call _ .readWorkerType | .call _ .readGeneration | .call _ .readCrashedAt
  | .call _ (.setCrashedAt _) | .process _ .start | .process _ .attach | .process _ (.detach _ _) | .process _ .exit
  | .register _ | .cleanup _ => isTrue trivial

/-- A process exits before it attaches only by itself. -/
theorem Acts.failed {s : State n} {c : ℕ} {call : Call n} {event : Event n} {w : PGLogicalWorker} {pc : CallPc}
    {process : Process} {holder : Option ℕ} (acts : Acts s c call event w pc process holder)
    (failed : process = .failed) : call.process = .failed ∨ event = .process c .fail := by
  cases acts with
  | fail => exact .inr rfl
  | accepted | start | attach | detach | exit => cases failed
  | _ => exact .inl failed

theorem no_failed_step {s next : State n} {event : Event n} (attaches : ∀ call ∈ s.calls, call.process ≠ .failed)
    (noFail : ∀ c, event ≠ .process c .fail) (stepped : step s event = some next) :
    ∀ call ∈ next.calls, call.process ≠ .failed := by
  intro other inside
  obtain ⟨d, there⟩ := List.mem_iff_getElem?.mp inside
  rcases step_cases stepped with ⟨key, i, rfl, -, -, rfl⟩ | ⟨i, rfl, -, rfl⟩ |
    ⟨c, call, w, pc, process, holder, found, acts, rfl⟩
  · rcases registered_calls.mp there with ⟨-, rfl⟩ | ⟨-, old⟩
    · exact nofun
    · exact attaches other (List.mem_of_getElem? old)
  · exact attaches other inside
  · rcases (act_calls found).mp there with ⟨-, rfl⟩ | ⟨-, old⟩
    · intro failed
      rcases acts.failed failed with before | fails
      · exact attaches call (List.mem_of_getElem? found) before
      · exact noFail c fails
    · exact attaches other (List.mem_of_getElem? old)

/-- Where every process attaches, the registrants may leave at any time. -/
theorem attended_of_no_fail (events : List (Event n)) (noFail : ∀ event ∈ events, ∀ c, event ≠ .process c .fail) :
    Permitted step Attended (init n) events := by
  suffices general : ∀ s : State n, (∀ call ∈ s.calls, call.process ≠ .failed) → Permitted step Attended s events from
    general (init n) nofun
  induction events with
  | nil => exact fun _ _ => trivial
  | cons event rest ih =>
    intro s attaches
    have here := noFail event (List.mem_cons_self ..)
    refine ⟨?_, fun next taken => ?_⟩
    · unfold Attended
      split
      · exact fun call found => attaches call (List.mem_of_getElem? found)
      · exact fun call found failed => absurd failed (attaches call (List.mem_of_getElem? found))
      · exact absurd rfl (here _)
      · trivial
    · exact ih (fun event inside => noFail event (List.mem_cons_of_mem _ inside)) next
        (no_failed_step attaches here taken)

/-- SIGTERM ends the registrant's wait, and the process then exits before it attaches. -/
theorem slot_leaked_after_interrupt :
    ∃ final, run step (init 1) (launch 0 sampleKey ++ [.call 0 .readGenerationFirst, .call 0 .interrupt,
      .process 0 .start, .process 0 .fail]) = some final ∧ ¬ NoneLeaked final := by
  refine ⟨_, rfl, fun none => ?_⟩
  obtain ⟨c, call, owned, found, -, backed⟩ := none 0 (by decide) rfl
  cases owned
  cases found
  revert backed
  decide

theorem no_slot_leaks_prematureExit :
    ∃ final, run step (init 1) prematureExit = some final ∧ NoneLeaked final :=
  ⟨_, rfl, no_slot_leaks prematureExit _ (by decide +kernel) rfl⟩

/-! ## Lookups -/

/-- A manager or an apply worker is registered only while no worker with its key is live or starting. -/
def RegistersIdle (s : State n) : Event n → Prop
  | .register key => key.isSync = false → ∀ call ∈ s.calls, call.key = key → call.live = false ∧ call.awaited = false
  | _ => True

/-- No record before the slot of a live worker has its key. -/
def Ordered (s : State n) : Prop :=
  ∀ (c : ℕ) (call : Call n), s.calls[c]? = some call → call.live = true → call.key.isSync = false →
    ∀ j < call.slot, (s.workers j).isFor call.key = false

section Step

variable {s next : State n} {c : ℕ} {call : Call n} {event : Event n} {w : PGLogicalWorker} {pc : CallPc}
  {process : Process} {holder : Option ℕ}

/-- The records before the first free slot are in use, and none of them is for the key. -/
theorem Backed.not_isFor {key : WorkerKey} {i j : Fin n} (backed : Backed s) (base : Base s)
    (found : findEmptyWorkerSlot s.workers = some i) (before : j < i)
    (idle : ∀ call ∈ s.calls, call.key = key → call.live = false ∧ call.awaited = false) :
    (s.workers j).isFor key = false := by
  by_contra named
  rw [Bool.not_eq_false] at named
  have used := PGLogicalWorker.workerType_of_isFor named
  obtain ⟨c, call, -, there, rfl, mine⟩ := backed.owned base used
  obtain ⟨dead, noticed⟩ := idle call (List.mem_of_getElem? there) ((mine.named used key).mp named)
  rcases mine.behind ((findEmptyWorkerSlot_eq_some_iff.mp found).2 _ before) with live | awaited
  · rw [live] at dead
    cases dead
  · rw [awaited] at noticed
    cases noticed

theorem Ordered.registered {key : WorkerKey} {i : Fin n} (ordered : Ordered s) (backed : Backed s) (base : Base s)
    (found : findEmptyWorkerSlot s.workers = some i) (idle : RegistersIdle s (.register key)) :
    Ordered (s.registered key i) := by
  intro d other there live notSync j before
  rcases registered_calls.mp there with ⟨rfl, rfl⟩ | ⟨-, old⟩
  · simp only [State.registered, Function.update_of_ne (ne_of_lt before)]
    exact backed.not_isFor base found before (idle notSync)
  · by_cases same : j = i
    · subst same
      simp only [State.registered, Function.update_self]
      by_contra named
      rw [Bool.not_eq_false, WorkerKey.isFor_worker] at named
      subst named
      have dead := (idle notSync other (List.mem_of_getElem? old) rfl).1
      rw [live] at dead
      cases dead
    · simp only [State.registered, Function.update_of_ne same]
      exact ordered _ _ old live notSync j before

/-- Only a registration makes a record fit a key. -/
theorem Acts.isFor (acts : Acts s c call event w pc process holder) {key : WorkerKey} (named : w.isFor key = true) :
    (s.workers call.slot).isFor key = true := by
  rw [← (acts.named (PGLogicalWorker.workerType_of_isFor named)).2 key]
  exact named

theorem Ordered.act (ordered : Ordered s) (base : Base s) (found : s.calls[c]? = some call)
    (acts : Acts s c call event w pc process holder) : Ordered (s.act c call w pc process holder) := by
  have frame : ∀ {j : Fin n} {key : WorkerKey}, (s.workers j).isFor key = false →
      ((s.act c call w pc process holder).workers j).isFor key = false := by
    intro j key before
    by_cases same : j = call.slot
    · subst same
      simp only [State.act, Function.update_self]
      by_contra named
      rw [acts.isFor (by simpa using named)] at before
      cases before
    · simpa only [State.act, Function.update_of_ne same] using before
  intro d other there live notSync j before
  rcases (act_calls found).mp there with ⟨rfl, rfl⟩ | ⟨-, there⟩
  · exact frame (ordered _ _ found (acts.live (base.sound found) live).1 notSync j before)
  · exact frame (ordered _ _ there live notSync j before)

theorem Ordered.setWorker_cleaned {i : Fin n} (ordered : Ordered s) :
    Ordered (s.setWorker i (s.workers i).cleaned) := by
  intro d other there live notSync j before
  have unnamed := ordered _ _ there live notSync j before
  by_cases same : j = i
  · subst same
    simp only [State.setWorker, Function.update_self, PGLogicalWorker.cleaned]
    split
    · by_contra named
      exact PGLogicalWorker.workerType_of_isFor (by simpa using named) rfl
    · exact unnamed
  · simpa only [State.setWorker, Function.update_of_ne same] using unnamed

theorem Ordered.step (ordered : Ordered s) (backed : Backed s) (base : Base s) (idle : RegistersIdle s event)
    (stepped : step s event = some next) : Ordered next := by
  rcases step_cases stepped with ⟨key, i, rfl, -, found, rfl⟩ | ⟨i, rfl, -, rfl⟩ |
    ⟨c, call, w, pc, process, holder, found, acts, rfl⟩
  · exact ordered.registered backed base found idle
  · exact ordered.setWorker_cleaned
  · exact ordered.act base found acts

/-- The first record with the key of a live worker is its own. -/
theorem Ordered.workerFind (ordered : Ordered s) (possessed : Possessed s) (backed : Backed s)
    (found : s.calls[c]? = some call) (live : call.live = true) (notSync : call.key.isSync = false) :
    workerFind s.workers call.key = some call.slot := by
  obtain ⟨owned, taken⟩ := possessed _ _ found live
  rw [workerFind_eq_some_iff]
  refine ⟨?_, ordered _ _ found live notSync⟩
  have used : (s.workers call.slot).workerType ≠ .none := by
    intro none
    simp [PGLogicalWorker.free, none] at taken
  exact ((backed.backed found owned).named used call.key).mpr rfl

end Step

/-- In every run in which at most one worker with a key is live or starting, `crashed_at` is set only
for workers that are gone, and failures to start are noticed, the lookups return the live worker. -/
theorem lookup_returns_live_worker (events : List (Event n)) (final : State n)
    (idle : Permitted step RegistersIdle (init n) events) (marks : Permitted step MarksDead (init n) events)
    (attended : Permitted step Attended (init n) events) (success : run step (init n) events = some final) :
    ∀ call ∈ final.calls, call.live = true →
      (∀ dboid, call.key = .manager dboid → pglogicalManagerFind final.workers dboid = some call.slot) ∧
      (∀ dboid subid, call.key = .apply dboid subid →
        pglogicalApplyFind final.workers dboid subid = some call.slot) := by
  have start : (Base (init n) ∧ Backed (init n)) ∧ Possessed (init n) ∧ Ordered (init n) :=
    ⟨⟨.init, .init⟩, init_possessed, fun _ _ found => by simp [init] at found⟩
  have preserved : ∀ {s next : State n} {event : Event n}, (Base s ∧ Backed s) ∧ Possessed s ∧ Ordered s →
      RegistersIdle s event ∧ MarksDead s event ∧ Attended s event → step s event = some next →
        (Base next ∧ Backed next) ∧ Possessed next ∧ Ordered next := by
    rintro s next event ⟨⟨base, backed⟩, possessed, ordered⟩ ⟨idle, marks, attended⟩ stepped
    exact ⟨⟨base.step stepped, backed.step base attended stepped⟩, possessed.step base marks stepped,
      ordered.step backed base idle stepped⟩
  obtain ⟨⟨-, backed⟩, possessed, ordered⟩ :=
    run_invariant preserved start (idle.and (marks.and attended)) success
  intro call inside live
  obtain ⟨c, found⟩ := List.mem_iff_getElem?.mp inside
  have lookup := ordered.workerFind possessed backed found live
  refine ⟨fun dboid key => ?_, fun dboid subid key => ?_⟩
  · rw [key] at lookup
    exact lookup rfl
  · rw [key] at lookup
    exact lookup rfl

instance RegistersIdle.decidable (s : State n) : ∀ event, Decidable (RegistersIdle s event)
  | .register key => inferInstanceAs (Decidable (key.isSync = false → ∀ call ∈ s.calls, call.key = key →
      call.live = false ∧ call.awaited = false))
  | .call _ _ | .process _ _ | .cleanup _ => isTrue trivial

instance MarksDead.decidable (s : State n) : ∀ event, Decidable (MarksDead s event)
  | .call c (.setCrashedAt _) => inferInstanceAs (Decidable (∀ call ∈ s.calls[c]?, call.pc = .sawCrashedAt →
      ∀ d ∈ s.owner call.slot, ∀ other ∈ s.calls[d]?, other.live = false))
  | .call _ .setGeneration | .call _ (.registerDynamicBackgroundWorker _ _) | .call _ .readGenerationFirst
  | .call _ .interrupt | .call _ .getBackgroundWorkerPid | .call _ .readProc | .call _ .readWorkerType
  | .call _ .readGeneration | .call _ .readCrashedAt | .register _ | .process _ _ | .cleanup _ => isTrue trivial

/-- The apply worker in the second slot crashes, the worker in the first slot finishes, and the next
apply worker gets the first slot. The record of the crash is still there. -/
def crashAndRestart : List (Event 2) :=
  launch 0 (.manager 6) ++ attachAndReturn 0 ++ launch 1 sampleKey ++ attachAndReturn 1 ++
    [Event.process 1 (.detach true 30), .process 1 .exit, .process 0 (.detach false 31), .process 0 .exit] ++
    launch 2 sampleKey ++ attachAndReturn 2

theorem lookup_returns_restarted_worker :
    ∃ final, run step (init 2) crashAndRestart = some final ∧ (final.workers 1).isFor sampleKey = true ∧
      ∃ call ∈ final.calls, call.live = true ∧ pglogicalApplyFind final.workers 5 7 = some call.slot :=
  ⟨_, rfl, rfl, ⟨sampleKey, 0, .returned, .attached, 2⟩, by decide, rfl,
    (lookup_returns_live_worker crashAndRestart _ (by decide +kernel) (by decide +kernel)
      (attended_of_no_fail _ (by simp [crashAndRestart, launch, attachAndReturn])) rfl _ (by decide) rfl).2 5 7 rfl⟩

/-! ## Waiting for a sync worker -/

/-- A record that is not marked as crashed stands for a live worker, unless a failed start is just
being noticed. -/
theorem Backed.live_of_isFor {s : State n} {key : WorkerKey} {i : Fin n} (backed : Backed s) (base : Base s)
    (named : (s.workers i).isFor key = true) (unmarked : (s.workers i).crashedAt = 0)
    (noticed : ∀ call ∈ s.calls, call.key = key → call.awaited = false) :
    ∃ call ∈ s.calls, call.key = key ∧ call.live = true := by
  have used := PGLogicalWorker.workerType_of_isFor named
  obtain ⟨c, call, -, found, rfl, mine⟩ := backed.owned base used
  have same := (mine.named used key).mp named
  refine ⟨call, List.mem_of_getElem? found, same, ?_⟩
  rcases mine.behind (by simp [PGLogicalWorker.free, used, unmarked]) with live | awaited
  · exact live
  · rw [noticed call (List.mem_of_getElem? found) same] at awaited
    cases awaited

/-- In every run in which failures to start are noticed, an iteration that finds a record without a
crash goes on waiting only for a live sync worker; without one it returns false. -/
theorem waits_only_for_live_sync_worker (events : List (Event n)) (final : State n)
    (attended : Permitted step Attended (init n) events) (success : run step (init n) events = some final)
    (gotSigterm : Bool) (sync : Option SyncStatus) (dboid subid : Oid) (nspname relname : CString)
    (desiredState : SyncStatus)
    (unmarked : ∀ i, pglogicalSyncFind final.workers dboid subid nspname relname = some i →
      (final.workers i).crashedAt = 0)
    (noticed : ∀ call ∈ final.calls, call.key = .sync dboid subid nspname relname → call.awaited = false) :
    (waitForSyncStatusChange final.workers gotSigterm sync dboid subid nspname relname desiredState = .waits →
      ∃ call ∈ final.calls, call.key = .sync dboid subid nspname relname ∧ call.live = true) ∧
    ((∀ call ∈ final.calls, call.key = .sync dboid subid nspname relname → call.live = false) →
      sync ≠ some desiredState →
        waitForSyncStatusChange final.workers gotSigterm sync dboid subid nspname relname desiredState =
          .returns false) := by
  obtain ⟨base, backed⟩ := run_backed attended success
  have live : ∀ i, pglogicalSyncFind final.workers dboid subid nspname relname = some i →
      ∃ call ∈ final.calls, call.key = .sync dboid subid nspname relname ∧ call.live = true := fun i found =>
    backed.live_of_isFor base (workerFind_eq_some_iff.mp found).1 (unmarked i found) noticed
  refine ⟨fun waits => ?_, fun dead unreached => ?_⟩
  · unfold waitForSyncStatusChange at waits
    split at waits
    · cases waits
    · split at waits
      · cases waits
      · split at waits
        · cases waits
        · split at waits
          · next found =>
            obtain ⟨i, found⟩ := Option.isSome_iff_exists.mp found
            exact live i found
          · cases waits
  · have gone : pglogicalSyncFind final.workers dboid subid nspname relname = none := by
      rw [Option.eq_none_iff_forall_ne_some]
      intro i found
      obtain ⟨call, inside, key, alive⟩ := live i found
      rw [dead call inside key] at alive
      cases alive
    cases sync with
    | none => simp [waitForSyncStatusChange]
    | some status =>
      have other : status ≠ desiredState := fun same => unreached (by rw [same])
      simp [waitForSyncStatusChange, gone, other]

def sampleName : CString := .ofBytes [116]

def sampleSyncKey : WorkerKey := .sync 5 7 sampleName sampleName

/-- The sync worker crashes. Its record stays, and the apply worker keeps waiting for it. -/
theorem waits_for_crashed_sync_worker :
    ∃ final, run step (init 1) (launch 0 sampleSyncKey ++ attachAndReturn 0 ++
        [.process 0 (.detach true 30), .process 0 .exit]) = some final ∧
      (∀ call ∈ final.calls, call.live = false) ∧
      waitForSyncStatusChange final.workers false (some .catchup) 5 7 sampleName sampleName .ready = .waits :=
  ⟨_, rfl, by decide, rfl⟩

theorem waits_for_attached_sync_worker :
    ∃ final, run step (init 1) (launch 0 sampleSyncKey ++ attachAndReturn 0) = some final ∧
      waitForSyncStatusChange final.workers false (some .catchup) 5 7 sampleName sampleName .ready = .waits ∧
      ∃ call ∈ final.calls, call.key = sampleSyncKey ∧ call.live = true :=
  ⟨_, rfl, rfl, (waits_only_for_live_sync_worker (launch 0 sampleSyncKey ++ attachAndReturn 0) _ (by decide) rfl
    false (some .catchup) 5 7 sampleName sampleName .ready (by decide) (by decide)).1 rfl⟩

end PGLogical.WorkerStartup
