import Mathlib.Data.List.Basic

/-! # What a successful computation tells

Inversion rules for computations in `Except` and, with a state that survives an error, in `EStateM`:
what has been computed on the way when a sequence, a guard or a loop ends without an error. Guards
are stated in the shape that a `throw` under an `if` in the middle of a `do` block has.
-/

namespace Machine

universe u

variable {ε α β : Type u}

theorem bind_eq_ok {m : Except ε α} {k : α → Except ε β} {result : β} :
    (m >>= k) = .ok result ↔ ∃ value, m = .ok value ∧ k value = .ok result := by
  cases m with
  | error message => simp [bind, Except.bind]
  | ok value => simp [bind, Except.bind]

theorem map_eq_ok {m : Except ε α} {f : α → β} {result : β} :
    f <$> m = .ok result ↔ ∃ value, m = .ok value ∧ f value = result := by
  cases m with
  | error message => simp [Functor.map, Except.map]
  | ok value => simp [Functor.map, Except.map]

theorem eq_ok_of_toOption {m : Except ε α} {result : α} (found : m.toOption = some result) : m = .ok result := by
  cases m with
  | error message => cases found
  | ok value =>
    cases found
    rfl

/-- An error under a condition: a result means that the condition failed. -/
theorem guard_eq_ok {p : Prop} [Decidable p] {message : ε} {k : α → Except ε β} {rest : Except ε β}
    {result : β} :
    (if p then (throw message >>= k) else rest) = .ok result ↔ ¬ p ∧ rest = .ok result := by
  by_cases holds : p
  · simp [holds, throw, throwThe, MonadExceptOf.throw, bind, Except.bind]
  · simp [holds]

/-- What every successful round of a loop preserves holds at its end. -/
theorem foldlM_invariant {Inv : β → Prop} {f : β → α → Except ε β} {items : List α}
    (preserved : ∀ {state next : β} {item : α}, item ∈ items → Inv state → f state item = .ok next → Inv next)
    {first last : β} (initial : Inv first) (done : items.foldlM f first = .ok last) : Inv last := by
  induction items generalizing first with
  | nil =>
    cases done
    exact initial
  | cons item rest ih =>
    rw [List.foldlM_cons] at done
    obtain ⟨next, round, done⟩ := bind_eq_ok.1 done
    exact ih (fun inside => preserved (List.mem_cons_of_mem _ inside))
      (preserved (List.mem_cons_self ..) initial round) done

/-- A loop whose errors do not depend on its state ends when no item has one. -/
theorem foldlM_assign_iff {f : α → Except ε (β → β)} {items : List α} {first : β} :
    (∃ last, items.foldlM (fun state item => do return (← f item) state) first = .ok last) ↔
      ∀ item ∈ items, ∃ assign, f item = .ok assign := by
  induction items generalizing first with
  | nil => simp [pure, Except.pure]
  | cons item rest ih =>
    simp only [List.foldlM_cons, List.forall_mem_cons, bind_eq_ok]
    constructor
    · rintro ⟨last, next, ⟨assign, now, -⟩, later⟩
      exact ⟨⟨assign, now⟩, ih.mp ⟨last, later⟩⟩
    · rintro ⟨⟨assign, now⟩, later⟩
      obtain ⟨last, done⟩ := ih.mpr later
      exact ⟨last, assign first, ⟨assign, now, rfl⟩, done⟩

/-- A traversal that succeeds has a result for every item. -/
theorem exists_of_mapM_eq_ok {f : α → Except ε β} {items : List α} {results : List β}
    (done : items.mapM f = .ok results) {item : α} (inside : item ∈ items) :
    ∃ result ∈ results, f item = .ok result := by
  induction items generalizing results with
  | nil => cases inside
  | cons first rest ih =>
    rw [List.mapM_cons] at done
    obtain ⟨head, now, done⟩ := bind_eq_ok.1 done
    obtain ⟨tail, later, done⟩ := bind_eq_ok.1 done
    cases done
    rcases List.mem_cons.mp inside with rfl | inside
    · exact ⟨head, List.mem_cons_self .., now⟩
    · obtain ⟨result, listed, answer⟩ := ih later inside
      exact ⟨result, List.mem_cons_of_mem _ listed, answer⟩

theorem length_of_mapM_eq_ok {f : α → Except ε β} {items : List α} {results : List β}
    (done : items.mapM f = .ok results) : results.length = items.length := by
  induction items generalizing results with
  | nil =>
    cases done
    rfl
  | cons first rest ih =>
    rw [List.mapM_cons] at done
    obtain ⟨head, now, done⟩ := bind_eq_ok.1 done
    obtain ⟨tail, later, done⟩ := bind_eq_ok.1 done
    cases done
    rw [List.length_cons, List.length_cons, ih later]

/-- A traversal that succeeds has an item for every result. -/
theorem mem_of_mapM_eq_ok {f : α → Except ε β} {items : List α} {results : List β}
    (done : items.mapM f = .ok results) {result : β} (listed : result ∈ results) :
    ∃ item ∈ items, f item = .ok result := by
  induction items generalizing results with
  | nil =>
    cases done
    cases listed
  | cons first rest ih =>
    rw [List.mapM_cons] at done
    obtain ⟨head, now, done⟩ := bind_eq_ok.1 done
    obtain ⟨tail, later, done⟩ := bind_eq_ok.1 done
    cases done
    rcases List.mem_cons.mp listed with rfl | listed
    · exact ⟨first, List.mem_cons_self .., now⟩
    · obtain ⟨item, inside, answer⟩ := ih later listed
      exact ⟨item, List.mem_cons_of_mem _ inside, answer⟩

/-- Distinct items have distinct results where a result determines its item. -/
theorem nodup_of_mapM_eq_ok {f : α → Except ε β} {items : List α} {results : List β}
    (injective : ∀ {a b result}, f a = .ok result → f b = .ok result → a = b) (distinct : items.Nodup)
    (done : items.mapM f = .ok results) : results.Nodup := by
  induction items generalizing results with
  | nil =>
    cases done
    exact List.nodup_nil
  | cons first rest ih =>
    rw [List.mapM_cons] at done
    obtain ⟨head, now, done⟩ := bind_eq_ok.1 done
    obtain ⟨tail, later, done⟩ := bind_eq_ok.1 done
    cases done
    obtain ⟨fresh, distinct⟩ := List.nodup_cons.mp distinct
    refine List.nodup_cons.mpr ⟨fun again => ?_, ih distinct later⟩
    obtain ⟨item, inside, answer⟩ := mem_of_mapM_eq_ok later again
    exact fresh (injective now answer ▸ inside)

theorem of_forM_eq_ok {f : α → Except ε PUnit.{u + 1}} {items : List α} {finished : PUnit.{u + 1}}
    (done : items.forM f = .ok finished)
    {item : α} (inside : item ∈ items) : f item = .ok ⟨⟩ := by
  induction items with
  | nil => cases inside
  | cons first rest ih =>
    obtain ⟨result, now, done⟩ := bind_eq_ok.1 (show (f first >>= fun _ => rest.forM f) = .ok finished from done)
    rcases List.mem_cons.mp inside with rfl | later
    · exact now
    · exact ih done later

/-! ## With a state -/

section Stateful

variable {σ : Type u} {m : EStateM ε σ α} {k : α → EStateM ε σ β} {Inv : σ → Prop}

theorem run_bind_eq_ok {state after : σ} {result : β} :
    (m >>= k) state = .ok result after ↔ ∃ value mid, m state = .ok value mid ∧ k value mid = .ok result after := by
  cases ran : m state with
  | error message mid => simp [bind, EStateM.bind, ran]
  | ok value mid => simp [bind, EStateM.bind, ran]

theorem run_throw (message : ε) (state : σ) : (throw message : EStateM ε σ α) state = .error message state := rfl

theorem run_get (state : σ) : (get : EStateM ε σ σ) state = .ok state state := rfl

theorem run_modify (f : σ → σ) (state : σ) : (modify f : EStateM ε σ PUnit) state = .ok ⟨⟩ (f state) := rfl

theorem run_guard_eq_ok {p : Prop} [Decidable p] {message : ε} {rest : EStateM ε σ β} {state after : σ}
    {result : β} :
    (if p then (throw message >>= k) else rest) state = .ok result after ↔ ¬ p ∧ rest state = .ok result after := by
  by_cases holds : p
  · simp [holds, bind, EStateM.bind, run_throw]
  · simp [holds]

/-- The same at the end of a block. -/
theorem run_check_eq_ok {p : Prop} [Decidable p] {message : ε} {done : PUnit.{u + 1}} {state after : σ} :
    (if p then throw message else pure ⟨⟩ : EStateM ε σ PUnit.{u + 1}) state = .ok done after ↔
      ¬ p ∧ after = state := by
  by_cases holds : p
  · simp [holds, run_throw]
  · simp [holds, pure, EStateM.pure, eq_comm (b := after)]

theorem run_forM_cons_eq_ok {f : α → EStateM ε σ PUnit.{u + 1}} {item : α} {rest : List α} {state after : σ}
    {done : PUnit.{u + 1}} :
    (item :: rest).forM f state = .ok done after ↔
      ∃ mid, f item state = .ok ⟨⟩ mid ∧ rest.forM f mid = .ok done after := by
  show (f item >>= fun _ => rest.forM f) state = .ok done after ↔ _
  rw [run_bind_eq_ok]
  exact ⟨fun ⟨_, mid, now, later⟩ => ⟨mid, now, later⟩, fun ⟨mid, now, later⟩ => ⟨⟨⟩, mid, now, later⟩⟩

theorem run_forM_append_eq_ok {f : α → EStateM ε σ PUnit.{u + 1}} {items rest : List α} {state after : σ}
    {done : PUnit.{u + 1}} :
    (items ++ rest).forM f state = .ok done after ↔
      ∃ mid, items.forM f state = .ok ⟨⟩ mid ∧ rest.forM f mid = .ok done after := by
  induction items generalizing state with
  | nil =>
    constructor
    · intro ran
      exact ⟨state, rfl, ran⟩
    · rintro ⟨mid, same, ran⟩
      cases same
      exact ran
  | cons item items ih =>
    rw [List.cons_append, run_forM_cons_eq_ok]
    simp only [ih, run_forM_cons_eq_ok]
    constructor
    · rintro ⟨next, now, mid, ran, later⟩
      exact ⟨mid, ⟨next, now, ran⟩, later⟩
    · rintro ⟨mid, ⟨next, now, ran⟩, later⟩
      exact ⟨next, now, mid, ran, later⟩

/-- The state a computation leaves, also when it fails. -/
def stateOf : EStateM.Result ε σ α → σ
  | .ok _ state => state
  | .error _ state => state

/-- What holds before the computation holds behind it, whatever its outcome. -/
def Preserves (Inv : σ → Prop) (m : EStateM ε σ α) : Prop := ∀ ⦃state⦄, Inv state → Inv (stateOf (m state))

theorem Preserves.pure (value : α) : Preserves Inv (Pure.pure value : EStateM ε σ α) :=
  fun _ holds => holds

theorem Preserves.throw (message : ε) : Preserves Inv (MonadExcept.throw message : EStateM ε σ α) :=
  fun _ holds => holds

/-- What a computation establishes, the computations behind it have to preserve. -/
theorem Preserves.after (second : ∀ value, Preserves Inv (k value)) {state : σ} (first : Inv (stateOf (m state))) :
    Inv (stateOf ((m >>= k) state)) := by
  cases ran : m state with
  | error message after =>
    rw [ran] at first
    simpa [Bind.bind, EStateM.bind, ran, stateOf] using first
  | ok value after =>
    rw [ran] at first
    simpa [Bind.bind, EStateM.bind, ran, stateOf] using second value first

theorem Preserves.bind (first : Preserves Inv m) (second : ∀ value, Preserves Inv (k value)) :
    Preserves Inv (m >>= k) := fun _ holds => Preserves.after second (first holds)

theorem Preserves.guard {p : Prop} [Decidable p] {message : ε} {rest : EStateM ε σ β} (kept : Preserves Inv rest) :
    Preserves Inv (if p then (MonadExcept.throw message >>= k) else rest) := by
  by_cases holds : p
  · rw [if_pos holds]
    exact fun _ before => before
  · rwa [if_neg holds]

theorem Preserves.check {p : Prop} [Decidable p] {message : ε} :
    Preserves Inv (if p then MonadExcept.throw message else Pure.pure ⟨⟩ : EStateM ε σ PUnit.{u + 1}) := by
  by_cases holds : p
  · rw [if_pos holds]
    exact .throw message
  · rw [if_neg holds]
    exact .pure PUnit.unit

theorem Preserves.forM {f : α → EStateM ε σ PUnit.{u + 1}} {items : List α}
    (kept : ∀ item ∈ items, Preserves Inv (f item)) : Preserves Inv (items.forM f) := by
  induction items with
  | nil => exact .pure PUnit.unit
  | cons item rest ih =>
    exact (kept item (List.mem_cons_self ..)).bind fun _ => ih fun item inside => kept item (List.mem_cons_of_mem _ inside)

end Stateful

end Machine
