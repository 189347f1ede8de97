import Mathlib.Order.Basic

/-! # Loops that can fail

A loop is a step function whose rounds end with another state, with a result or with an error. `loop` takes
a number of rounds, because nothing says in general that a loop ends. The rules show that it does when a
measure of the states falls, and read off what a loop that returns has done in its first round.
-/

namespace Machine

universe u v w

variable {σ : Type u} {ε : Type v} {ρ : Type w} {step : σ → Except ε (σ ⊕ ρ)}

/-- `none` when the rounds are used up. -/
def loop (step : σ → Except ε (σ ⊕ ρ)) : ℕ → σ → Option (Except ε ρ)
  | 0, _ => none
  | rounds + 1, state =>
      match step state with
      | .error fault => some (.error fault)
      | .ok (.inr result) => some (.ok result)
      | .ok (.inl next) => loop step rounds next

/-- Some number of rounds is enough. -/
def Returns (step : σ → Except ε (σ ⊕ ρ)) (state : σ) (result : ρ) : Prop :=
  ∃ rounds, loop step rounds state = some (.ok result)

/-- Under an invariant that excludes errors, a loop with a falling measure returns, and what holds of every
result of a round holds of its result. -/
theorem loop_of_measure {Inv : σ → Prop} {Post : ρ → Prop} (measure : σ → ℕ)
    (round : ∀ state, Inv state → (∃ next, step state = .ok (.inl next) ∧ Inv next ∧ measure next < measure state) ∨
      ∃ result, step state = .ok (.inr result) ∧ Post result)
    {rounds : ℕ} {state : σ} (inv : Inv state) (enough : measure state < rounds) :
    ∃ result, loop step rounds state = some (.ok result) ∧ Post result := by
  induction rounds generalizing state with
  | zero => exact absurd enough (Nat.not_lt_zero _)
  | succ rounds ih =>
    obtain ⟨next, taken, kept, falls⟩ | ⟨result, taken, post⟩ := round state inv
    · obtain ⟨result, rest, post⟩ := ih kept (Nat.lt_of_lt_of_le falls (Nat.le_of_lt_succ enough))
      exact ⟨result, by rw [loop, taken]; exact rest, post⟩
    · exact ⟨result, by rw [loop, taken], post⟩

/-- A loop that returns does so in its first round or goes on with a state from which it returns. -/
theorem Returns.round {state : σ} {result : ρ} (returns : Returns step state result) :
    step state = .ok (.inr result) ∨ ∃ next, step state = .ok (.inl next) ∧ Returns step next result := by
  obtain ⟨rounds, ran⟩ := returns
  cases rounds with
  | zero => cases ran
  | succ rounds =>
    rw [loop] at ran
    cases answer : step state with
    | error fault =>
      rw [answer] at ran
      cases ran
    | ok outcome =>
      rw [answer] at ran
      cases outcome with
      | inr finished =>
        cases ran
        exact .inl rfl
      | inl next => exact .inr ⟨next, rfl, rounds, ran⟩

/-- A round that can only fail or go on to `next`. -/
theorem Returns.next {state next : σ} {result : ρ} (returns : Returns step state result)
    (only : ∀ outcome, step state = .ok outcome → outcome = .inl next) : Returns step next result := by
  obtain finished | ⟨other, taken, rest⟩ := returns.round
  · cases only _ finished
  · cases only _ taken
    exact rest

/-- A round that can only fail or finish with `expected`. -/
theorem Returns.finish {state : σ} {result expected : ρ} (returns : Returns step state result)
    (only : ∀ outcome, step state = .ok outcome → outcome = .inr expected) : result = expected := by
  obtain finished | ⟨other, taken, -⟩ := returns.round
  · exact Sum.inr.inj (only _ finished)
  · cases only _ taken

end Machine
