import Mathlib.Data.List.Basic

/-! # Contracts of computations that may stop

A contract says what a stateful computation makes of the states in its precondition, and in which
states it may stop on the way. The rules follow the shape of a `do` block. The postcondition of a stop
is the same for all the statements of a block, as nothing behind the stop is run.
-/

namespace Machine

universe u

variable {ε σ α β : Type u} {P R : σ → Prop} {Q : α → σ → Prop} {T : β → σ → Prop} {E F : σ → Prop}
variable {m : EStateM ε σ α} {k : α → EStateM ε σ β}

/-- From a state in `P` the computation ends with `Q`, or stops in a state in `E`. -/
def Contract (P : σ → Prop) (m : EStateM ε σ α) (Q : α → σ → Prop) (E : σ → Prop) : Prop :=
  ∀ state, P state → match m state with
    | .ok value after => Q value after
    | .error _ after => E after

theorem Contract.pure {value : α} (holds : ∀ state, P state → Q value state) :
    Contract P (Pure.pure value : EStateM ε σ α) Q E := holds

theorem Contract.throw {stop : ε} (holds : ∀ state, P state → E state) :
    Contract P (MonadExcept.throw stop : EStateM ε σ α) Q E := holds

theorem Contract.modify {f : σ → σ} {Q : PUnit → σ → Prop} (holds : ∀ state, P state → Q ⟨⟩ (f state)) :
    Contract P (modify f : EStateM ε σ PUnit) Q E := holds

theorem Contract.bind {R : α → σ → Prop} (first : Contract P m R E) (second : ∀ value, Contract (R value) (k value) T E) :
    Contract P (m >>= k) T E := by
  intro state holds
  have ran := first state holds
  cases answer : m state with
  | error stop after =>
    rw [answer] at ran
    simpa [Bind.bind, EStateM.bind, answer] using ran
  | ok value after =>
    rw [answer] at ran
    simpa [Bind.bind, EStateM.bind, answer] using second value after ran

/-- The state that has been read is the one the rest starts from. -/
theorem Contract.get_bind {k : σ → EStateM ε σ β}
    (rest : ∀ state, P state → Contract (fun current => current = state) (k state) T E) :
    Contract P (get >>= k) T E := fun state holds => rest state holds state rfl

/-- A state that is read only to decide how to go on. -/
theorem Contract.get_keep {k : σ → EStateM ε σ β} (rest : ∀ state, Contract P (k state) T E) :
    Contract P (get >>= k) T E := fun state holds => rest state state holds

theorem Contract.ite {c : Prop} [Decidable c] {first second : EStateM ε σ α} (yes : c → Contract P first Q E)
    (no : ¬ c → Contract P second Q E) : Contract P (if c then first else second) Q E := by
  by_cases holds : c
  · rw [if_pos holds]
    exact yes holds
  · rw [if_neg holds]
    exact no holds

/-- A stop under a condition, in the middle of a block. -/
theorem Contract.guard {c : Prop} [Decidable c] {stop : ε} {rest : EStateM ε σ β} (stops : ∀ state, P state → E state)
    (no : ¬ c → Contract P rest T E) : Contract P (if c then (MonadExcept.throw stop >>= k) else rest) T E :=
  .ite (fun _ => .bind (R := fun _ _ => False) (.throw stops) fun _ _ impossible => impossible.elim) no

theorem Contract.weaken {S : α → σ → Prop} (contract : Contract P m Q E) (pre : ∀ state, R state → P state)
    (post : ∀ value state, Q value state → S value state) (stops : ∀ state, E state → F state) :
    Contract R m S F := by
  intro state holds
  have ran := contract state (pre state holds)
  cases answer : m state with
  | error stop after =>
    rw [answer] at ran
    exact stops after ran
  | ok value after =>
    rw [answer] at ran
    exact post value after ran

end Machine
