import Mathlib.Data.List.Basic

/-! # Finite runs of partial step functions

A machine is a step function that may refuse an event. `run` folds a tape of events over a state
and fails as soon as an event is refused. `Permitted` restricts a tape to events that satisfy a
guard in the state they are taken from, so that a property of guarded runs needs one step lemma.
Nothing here depends on what the states and events are.
-/

namespace Machine

universe u v

variable {σ : Type u} {ε : Type v} {step : σ → ε → Option σ}

/-- Fold a tape of events over a state; a refused event ends the run without a state. -/
def run (step : σ → ε → Option σ) : σ → List ε → Option σ
  | source, [] => some source
  | source, event :: rest => (step source event).bind fun next => run step next rest

/-- Every event of the tape satisfies the guard in the state it is taken from. -/
def Permitted (step : σ → ε → Option σ) (guard : σ → ε → Prop) : σ → List ε → Prop
  | _, [] => True
  | source, event :: rest =>
      guard source event ∧ ∀ next, step source event = some next → Permitted step guard next rest

instance Permitted.decidable (step : σ → ε → Option σ) (guard : σ → ε → Prop)
    [∀ source event, Decidable (guard source event)] :
    ∀ source events, Decidable (Permitted step guard source events)
  | _, [] => isTrue trivial
  | source, event :: rest =>
      match answer : step source event with
      | none => decidable_of_iff (guard source event)
          ⟨fun allowed => ⟨allowed, fun next taken => by rw [answer] at taken; cases taken⟩, And.left⟩
      | some next =>
          have := Permitted.decidable step guard next rest
          decidable_of_iff (guard source event ∧ Permitted step guard next rest)
            ⟨fun both => ⟨both.1, fun other taken => by
              rw [answer] at taken; cases taken; exact both.2⟩,
            fun both => ⟨both.1, both.2 next answer⟩⟩

@[simp] theorem run_nil (source : σ) : run step source [] = some source := rfl

theorem run_cons_eq_some_iff {source target : σ} {event : ε} {rest : List ε} :
    run step source (event :: rest) = some target ↔
      ∃ next, step source event = some next ∧ run step next rest = some target :=
  Option.bind_eq_some_iff

theorem run_append_eq_some_iff {source target : σ} {events rest : List ε} :
    run step source (events ++ rest) = some target ↔
      ∃ mid, run step source events = some mid ∧ run step mid rest = some target := by
  induction events generalizing source with
  | nil => simp
  | cons event events ih =>
    rw [List.cons_append, run_cons_eq_some_iff]
    simp only [ih, run_cons_eq_some_iff]
    constructor
    · rintro ⟨next, taken, mid, ran, later⟩
      exact ⟨mid, ⟨next, taken, ran⟩, later⟩
    · rintro ⟨mid, ⟨next, taken, ran⟩, later⟩
      exact ⟨next, taken, mid, ran, later⟩

/-- What every permitted step preserves holds at the end of every permitted run. -/
theorem run_invariant {guard : σ → ε → Prop} {Inv : σ → Prop}
    (preserved : ∀ {source next : σ} {event : ε}, Inv source → guard source event →
      step source event = some next → Inv next)
    {source target : σ} {events : List ε} (initial : Inv source)
    (allowed : Permitted step guard source events) (success : run step source events = some target) :
    Inv target := by
  induction events generalizing source with
  | nil => cases success; exact initial
  | cons event rest ih =>
    obtain ⟨next, taken, suffix⟩ := run_cons_eq_some_iff.mp success
    exact ih (preserved initial allowed.1 taken) (allowed.2 next taken) suffix

/-- A machine that can follow every permitted step of another can follow its permitted runs. -/
theorem run_simulation {τ : Type*} {follow : τ → ε → Option τ} {guard : σ → ε → Prop} {R : σ → τ → Prop}
    (forward : ∀ {source next : σ} {shadow : τ} {event : ε}, R source shadow → guard source event →
      step source event = some next → ∃ after, follow shadow event = some after ∧ R next after)
    {source target : σ} {shadow : τ} {events : List ε} (initial : R source shadow)
    (allowed : Permitted step guard source events) (success : run step source events = some target) :
    ∃ last, run follow shadow events = some last ∧ R target last := by
  induction events generalizing source shadow with
  | nil =>
    cases success
    exact ⟨shadow, rfl, initial⟩
  | cons event rest ih =>
    obtain ⟨next, taken, suffix⟩ := run_cons_eq_some_iff.mp success
    obtain ⟨after, followed, related⟩ := forward initial allowed.1 taken
    obtain ⟨last, finished, final⟩ := ih related (allowed.2 next taken) suffix
    exact ⟨last, run_cons_eq_some_iff.mpr ⟨after, followed, finished⟩, final⟩

/-- A guard that always holds restricts nothing. -/
theorem Permitted.of_forall {guard : σ → ε → Prop} (always : ∀ source event, guard source event) (source : σ)
    (events : List ε) : Permitted step guard source events := by
  induction events generalizing source with
  | nil => trivial
  | cons event rest ih => exact ⟨always source event, fun next _ => ih next⟩

theorem Permitted.imp {guard goal : σ → ε → Prop} (implies : ∀ source event, guard source event → goal source event)
    {source : σ} {events : List ε} (allowed : Permitted step guard source events) :
    Permitted step goal source events := by
  induction events generalizing source with
  | nil => trivial
  | cons event rest ih => exact ⟨implies source event allowed.1, fun next taken => ih (allowed.2 next taken)⟩

theorem Permitted.and {guard other : σ → ε → Prop} {source : σ} {events : List ε}
    (allowed : Permitted step guard source events) (also : Permitted step other source events) :
    Permitted step (fun source event => guard source event ∧ other source event) source events := by
  induction events generalizing source with
  | nil => trivial
  | cons event rest ih =>
    exact ⟨⟨allowed.1, also.1⟩, fun next taken => ih (allowed.2 next taken) (also.2 next taken)⟩

/-- A condition on the events alone adds to the guard. -/
theorem Permitted.and_forall {guard : σ → ε → Prop} {cond : ε → Prop} {source : σ} {events : List ε}
    (allowed : Permitted step guard source events) (all : ∀ event ∈ events, cond event) :
    Permitted step (fun source event => cond event ∧ guard source event) source events := by
  induction events generalizing source with
  | nil => trivial
  | cons event rest ih =>
    refine ⟨⟨all event (List.mem_cons_self ..), allowed.1⟩, fun next taken => ?_⟩
    exact ih (allowed.2 next taken) fun other inside => all other (List.mem_cons_of_mem _ inside)

/-- Guards that agree at the steps of an invariant permit the same of a finished run. -/
theorem Permitted.iff_of_run {guard other : σ → ε → Prop} {Inv : σ → Prop} {source target : σ} {events : List ε}
    (agree : ∀ {source next : σ} {event : ε}, event ∈ events → Inv source → step source event = some next →
      (guard source event ↔ other source event))
    (preserved : ∀ {source next : σ} {event : ε}, Inv source → guard source event →
      step source event = some next → Inv next)
    (initial : Inv source) (success : run step source events = some target) :
    Permitted step guard source events ↔ Permitted step other source events := by
  induction events generalizing source with
  | nil => rfl
  | cons event rest ih =>
    obtain ⟨next, taken, suffix⟩ := run_cons_eq_some_iff.mp success
    have here := agree (List.mem_cons_self ..) initial taken
    have behind (holds : guard source event) := ih (fun inside => agree (List.mem_cons_of_mem _ inside))
      (preserved initial holds taken) suffix
    constructor
    · intro allowed
      refine ⟨here.mp allowed.1, fun after again => ?_⟩
      cases taken.symm.trans again
      exact (behind allowed.1).mp (allowed.2 next taken)
    · intro allowed
      have holds := here.mpr allowed.1
      refine ⟨holds, fun after again => ?_⟩
      cases taken.symm.trans again
      exact (behind holds).mpr (allowed.2 next taken)

/-- What an invariant and the guard imply of a step holds at every step of a permitted tape. -/
theorem Permitted.of_invariant {guard goal : σ → ε → Prop} {Inv : σ → Prop}
    (preserved : ∀ {source next : σ} {event : ε}, Inv source → guard source event →
      step source event = some next → Inv next)
    (implies : ∀ {source : σ} {event : ε}, Inv source → guard source event → goal source event)
    {source : σ} {events : List ε} (initial : Inv source) (allowed : Permitted step guard source events) :
    Permitted step goal source events := by
  induction events generalizing source with
  | nil => trivial
  | cons event rest ih =>
    exact ⟨implies initial allowed.1, fun next taken =>
      ih (preserved initial allowed.1 taken) (allowed.2 next taken)⟩

end Machine
