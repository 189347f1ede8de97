import PGLogical.Wire.StringInfo

/-! # What a writer has appended

The writing side on its own: `Emits` relates a writer to the bytes that it appends whenever it succeeds,
whatever is in the buffer. Its rules follow the shape of `do` blocks, each step knowing what the steps
before it have appended.
-/

namespace Wire

/-- What a successful writer appends satisfies `P`. -/
def Emits (w : Writer Unit) (P : Bytes → Prop) : Prop :=
  ∀ ⦃before after : Bytes⦄, w before = .ok ((), after) → ∃ out, after = before ++ out ∧ P out

section Rules

variable {w w' : Writer Unit} {P P' Q : Bytes → Prop}

theorem Emits.pure (holds : P []) : Emits (Pure.pure ()) P := by
  intro before after written
  cases written
  exact ⟨[], (List.append_nil _).symm, holds⟩

theorem Emits.throw (message : String) : Emits (MonadExcept.throw message) P := by
  intro before after written
  cases written

theorem Emits.imp (emits : Emits w P) (weaker : ∀ out, P out → P' out) : Emits w P' := by
  intro before after written
  obtain ⟨out, appended, holds⟩ := emits written
  exact ⟨out, appended, weaker out holds⟩

/-- The second writer goes on behind what the first one has appended. -/
theorem Emits.bind (first : Emits w P) (second : ∀ out, P out → Emits w' fun more => Q (out ++ more)) :
    Emits (w >>= fun _ => w') Q := by
  intro before after written
  obtain ⟨_, middle, now, later⟩ := bind_ok.mp written
  obtain ⟨out, rfl, holds⟩ := first now
  obtain ⟨more, rfl, holds'⟩ := second out holds later
  exact ⟨out ++ more, List.append_assoc .., holds'⟩

theorem Emits.call {γ : Type} {m : Except String γ} {k : γ → Writer Unit} (second : ∀ value, Emits (k value) P) :
    Emits ((liftM m : Writer γ) >>= k) P := by
  intro before after written
  obtain ⟨value, middle, called, continued⟩ := bind_ok.mp written
  cases m with
  | error message => cases called
  | ok result =>
    cases called
    exact second _ continued

theorem Emits.reserve {needed : ℕ} (second : Emits w P) : Emits (enlargeStringInfo needed >>= fun _ => w) P := by
  intro before after written
  obtain ⟨_, middle, now, later⟩ := bind_ok.mp written
  rw [enlargeStringInfo] at now
  split at now
  · cases now
  · cases now
    exact second later

theorem Emits.ite {c : Prop} [Decidable c] (yes : c → Emits w P) (no : ¬ c → Emits w' P) :
    Emits (if c then w else w') P := by
  by_cases holds : c
  · rw [if_pos holds]
    exact yes holds
  · rw [if_neg holds]
    exact no holds

/-- Data that could be appended is smaller than the allocation limit. -/
theorem emits_binary (data : Bytes) :
    Emits (appendBinaryStringInfo data) fun out => out = data ∧ data.length < maxAllocSize := by
  intro before after written
  obtain ⟨room, rfl⟩ := appendBinaryStringInfo_ok.mp written
  exact ⟨data, rfl, rfl, by omega⟩

theorem emits_bytes (data : Bytes) : Emits (appendBinaryStringInfo data) (· = data) :=
  (emits_binary data).imp fun _ holds => holds.1

/-- A fixed front. -/
theorem Emits.front {data : Bytes} (rest : Emits w fun more => Q (data ++ more)) :
    Emits (appendBinaryStringInfo data >>= fun _ => w) Q :=
  (emits_bytes data).bind fun _ same => same ▸ rest

end Rules

end Wire
