import PGLogical.Machine.Run
import PGLogical.Model.RowFilter

/-! # Rows of a filtered table

A row of the subscriber stays a published version of the provider's row as long as three things do not happen
to it: a DELETE whose key alone does not pass the filter, a change of the key to a row that does not
pass, and a forwarded UPDATE without the value of a TOASTed column that an earlier, filtered out UPDATE
has written. A change is then replayed without errors too, because the keys of the subscriber are keys
of the provider.
-/

namespace PGLogical.RowFilter

open Machine

variable {K C D Expr : Type}

/-- The filter decides about a change by the one tuple that it is given. -/
theorem filterByTableInfo_filterTuple (t : FilteredTable K C D Expr) (change : ReorderBufferChange (Tuple K C D))
    {tuple : Tuple K C D} (action : t.entry.replicates change.action = .ok true) (row : change.row = some tuple) :
    filterByTableInfo t.env t.entry change = .ok (filterTuple t tuple) := by
  unfold filterByTableInfo filterTuple
  rw [action, row]
  cases t.entry.rowFilter with
  | nil => rfl
  | cons => rfl

/-! ## Published versions -/

/-- The replicated columns are those of a version that passes the filter, from the table at the start or
written by a statement since. -/
def Published (t : FilteredTable K C D Expr) (initial : K → Option (Row C D)) (history : List (Tuple K C D)) (key : K)
    (row : Row C D) : Prop :=
  ∃ version, (initial key = some version ∨ ⟨key, version⟩ ∈ history) ∧ filterTuple t ⟨key, version⟩ = true ∧
    ∀ column, t.replicated column = true → row column = version column

structure Faithful (t : FilteredTable K C D Expr) (initial : K → Option (Row C D)) (s : State K C D) : Prop where
  published : ∀ key row, s.subscriber key = some row → Published t initial s.history key row
  known : ∀ key, s.subscriber key ≠ none → s.provider key ≠ none

/-- What a statement must not do to a row that the subscriber has. -/
def Safe (t : FilteredTable K C D Expr) (s : State K C D) : Event K C D → Prop
  | .insert _ _ => True
  | .update key newKey values unchanged => ∀ localtuple ∈ s.subscriber key, ∀ old ∈ s.provider key,
      (newKey ≠ key → filterTuple t ⟨newKey, updatedRow old values unchanged⟩ = true) ∧
      (filterTuple t ⟨newKey, updatedRow old values unchanged⟩ = true →
        ∀ column, t.replicated column = true → unchanged column = true → localtuple column = old column)
  | .delete key => s.subscriber key ≠ none → filterTuple t (keyOnly key) = true

variable {t : FilteredTable K C D Expr} {initial : K → Option (Row C D)}

theorem Published.append {history : List (Tuple K C D)} {key : K} {row : Row C D}
    (published : Published t initial history key row) (more : List (Tuple K C D)) :
    Published t initial (history ++ more) key row := by
  obtain ⟨version, had, passes, columns⟩ := published
  exact ⟨version, had.imp_right (List.mem_append_left _), passes, columns⟩

theorem published_last {history : List (Tuple K C D)} {key : K} {row version : Row C D}
    (passes : filterTuple t ⟨key, version⟩ = true)
    (columns : ∀ column, t.replicated column = true → row column = version column) :
    Published t initial (history ++ [⟨key, version⟩]) key row :=
  ⟨version, .inr (List.mem_append_right _ (List.mem_singleton_self _)), passes, columns⟩

theorem received_replicated (values : Row C D) {column : C} (sent : t.replicated column = true) :
    received t values column = values column := by
  simp [received, heapModifyTuple, sent]

/-- An UPDATE that is merged into the version at hand gives the provider's new version, if the columns
that are not sent are equal. -/
theorem merged_replicated {localtuple old values : Row C D} {unchanged : C → Bool} {column : C}
    (same : unchanged column = true → localtuple column = old column) (sent : t.replicated column = true) :
    heapModifyTuple localtuple (updatedRow old values unchanged)
      (fun column => t.replicated column && !unchanged column) column = updatedRow old values unchanged column := by
  cases kept : unchanged column with
  | false => simp [heapModifyTuple, sent, kept]
  | true => simp [heapModifyTuple, updatedRow, sent, kept, same kept]

theorem faithful_init (t : FilteredTable K C D Expr) (table : K → Option (Row C D)) :
    Faithful t table (init t table) where
  published key row copied := by
    obtain ⟨values, present, copied⟩ := Option.bind_eq_some_iff.mp copied
    split at copied
    · next passes =>
      cases copied
      exact ⟨values, .inl present, passes, fun _ sent => received_replicated values sent⟩
    · cases copied
  known key copied absent := copied (by simp only [init] at absent ⊢; rw [absent]; rfl)

variable [DecidableEq K] {s : State K C D}

/-! ## What a statement does to both sides -/

theorem step_insert {key : K} (values : Row C D) (absent : s.provider key = none) :
    step t s (.insert key values) = some ⟨Function.update s.provider key (some values),
      if filterTuple t ⟨key, values⟩ then handleInsert t s.subscriber ⟨key, values⟩ else s.subscriber,
      s.history ++ [⟨key, values⟩]⟩ := by
  have answer := filterByTableInfo_filterTuple t ⟨.insert, none, some ⟨key, values⟩⟩
    (congrArg Except.ok t.actions.1) rfl
  simp only [step, providerStep, absent, Option.isSome_none, Bool.false_eq_true, if_false, Option.bind_some, answer]
  cases filterTuple t ⟨key, values⟩ <;> rfl

theorem step_delete {key : K} {old : Row C D} (present : s.provider key = some old) :
    step t s (.delete key) = some ⟨Function.update s.provider key none,
      if filterTuple t (keyOnly key) then handleDelete s.subscriber key else s.subscriber, s.history⟩ := by
  have answer := filterByTableInfo_filterTuple t ⟨.delete, some (keyOnly key), none⟩
    (congrArg Except.ok t.actions.2.2) rfl
  simp only [step, providerStep, present, Option.map_some, Option.bind_some, answer]
  cases filterTuple t (keyOnly key) <;> simp [replay]

/-- An UPDATE searches the old key, whether it is sent or not. -/
theorem handleUpdate_search (table : K → Option (Row C D)) (key newKey : K) (values : Row C D) (changed : C → Bool) :
    handleUpdate table (if newKey = key then none else some key) ⟨newKey, values⟩ changed =
      match table key with
      | none => some table
      | some localtuple =>
        if newKey ≠ key ∧ (table newKey).isSome then none
        else some (Function.update (Function.update table key none) newKey
          (some (heapModifyTuple localtuple values changed))) := by
  have search : (if newKey = key then none else some key).getD newKey = key := by
    split
    · next same => exact same
    · rfl
  unfold handleUpdate
  rewrite [search]
  rfl

theorem step_update {key newKey : K} {old : Row C D} (values : Row C D) (unchanged : C → Bool)
    (present : s.provider key = some old) (free : newKey ≠ key → s.provider newKey = none) :
    step t s (.update key newKey values unchanged) =
      (if filterTuple t ⟨newKey, updatedRow old values unchanged⟩ then
        handleUpdate s.subscriber (if newKey = key then none else some key) ⟨newKey, updatedRow old values unchanged⟩
          fun column => t.replicated column && !unchanged column
      else some s.subscriber).map fun subscriber =>
        ⟨Function.update (Function.update s.provider key none) newKey (some (updatedRow old values unchanged)),
          subscriber, s.history ++ [⟨newKey, updatedRow old values unchanged⟩]⟩ := by
  have available : ¬(newKey ≠ key ∧ (s.provider newKey).isSome) := fun taken => by
    rw [free taken.1] at taken
    exact Bool.false_ne_true taken.2
  have answer := filterByTableInfo_filterTuple t ⟨.update,
      (if newKey = key then none else some key).map keyOnly, some ⟨newKey, updatedRow old values unchanged⟩⟩
    (congrArg Except.ok t.actions.2.1) rfl
  simp only [step, providerStep, present, Option.bind_some, if_neg available, answer]
  cases filterTuple t ⟨newKey, updatedRow old values unchanged⟩ <;> rfl

/-! ## One statement -/

/-- The row at a key is replaced on both sides. -/
theorem Faithful.replace (faithful : Faithful t initial s) (key : K) (provided kept : Option (Row C D))
    (more : List (Tuple K C D))
    (published : ∀ row, kept = some row → Published t initial (s.history ++ more) key row)
    (known : kept ≠ none → provided ≠ none) :
    Faithful t initial ⟨Function.update s.provider key provided, Function.update s.subscriber key kept,
      s.history ++ more⟩ where
  published other found present := by
    by_cases same : other = key
    · subst same
      simp only [Function.update_self] at present
      exact published found present
    · simp only [Function.update_of_ne same] at present
      exact (faithful.published other found present).append more
  known other present := by
    by_cases same : other = key
    · subst same
      simp only [Function.update_self] at present ⊢
      exact known present
    · simp only [Function.update_of_ne same] at present ⊢
      exact faithful.known other present

/-- A version that passes the filter is written on both sides. -/
theorem Faithful.put (faithful : Faithful t initial s) {key : K} {values row : Row C D}
    (passes : filterTuple t ⟨key, values⟩ = true)
    (columns : ∀ column, t.replicated column = true → row column = values column) :
    Faithful t initial ⟨Function.update s.provider key (some values), Function.update s.subscriber key (some row),
      s.history ++ [⟨key, values⟩]⟩ := by
  refine faithful.replace key (some values) (some row) _ (fun found present => ?_) fun _ => nofun
  cases present
  exact published_last passes columns

/-- Any version is written on the provider alone. -/
theorem Faithful.write (faithful : Faithful t initial s) (key : K) (values : Row C D) :
    Faithful t initial
      ⟨Function.update s.provider key (some values), s.subscriber, s.history ++ [⟨key, values⟩]⟩ := by
  have written := faithful.replace key (some values) (s.subscriber key) [⟨key, values⟩]
    (fun row present => (faithful.published key row present).append _) fun _ => nofun
  rwa [Function.update_eq_self] at written

/-- A row is removed on both sides. -/
theorem Faithful.remove (faithful : Faithful t initial s) (key : K) :
    Faithful t initial ⟨Function.update s.provider key none, Function.update s.subscriber key none, s.history⟩ := by
  have removed := faithful.replace key none none [] nofun (absurd rfl)
  rwa [List.append_nil] at removed

/-- A row that the subscriber does not have is removed on the provider. -/
theorem Faithful.remove_absent (faithful : Faithful t initial s) {key : K} (absent : s.subscriber key = none) :
    Faithful t initial ⟨Function.update s.provider key none, s.subscriber, s.history⟩ := by
  have kept : Function.update s.subscriber key none = s.subscriber := Function.update_eq_self_iff.mpr absent.symm
  have removed := faithful.remove key
  rwa [kept] at removed

theorem faithful_insert {key : K} (values : Row C D) (faithful : Faithful t initial s)
    (absent : s.provider key = none) :
    ∃ next, step t s (.insert key values) = some next ∧ Faithful t initial next := by
  refine ⟨_, step_insert values absent, ?_⟩
  split
  · next passes => exact faithful.put passes fun _ sent => received_replicated values sent
  · exact faithful.write key values

theorem faithful_delete {key : K} {old : Row C D} (faithful : Faithful t initial s)
    (safe : Safe t s (.delete key)) (present : s.provider key = some old) :
    ∃ next, step t s (.delete key) = some next ∧ Faithful t initial next := by
  refine ⟨_, step_delete present, ?_⟩
  split
  · exact faithful.remove key
  · next fails =>
    by_cases absent : s.subscriber key = none
    · exact faithful.remove_absent absent
    · exact absurd (safe absent) fails

theorem faithful_update {key newKey : K} {old values : Row C D} {unchanged : C → Bool} (faithful : Faithful t initial s)
    (safe : Safe t s (.update key newKey values unchanged)) (present : s.provider key = some old)
    (free : newKey ≠ key → s.provider newKey = none) :
    ∃ next, step t s (.update key newKey values unchanged) = some next ∧ Faithful t initial next := by
  rw [step_update values unchanged present free, handleUpdate_search]
  cases found : s.subscriber key with
  | none =>
    -- Nothing is found to update, whether the change is forwarded or not.
    refine ⟨_, by rw [ite_self]; rfl, ?_⟩
    exact (faithful.remove_absent found).write newKey _
  | some localtuple =>
    obtain ⟨moved, same⟩ := safe localtuple found old present
    by_cases passes : filterTuple t ⟨newKey, updatedRow old values unchanged⟩ = true
    · have available : ¬(newKey ≠ key ∧ (s.subscriber newKey).isSome) := by
        rintro ⟨other, taken⟩
        exact faithful.known newKey (Option.isSome_iff_ne_none.mp taken) (free other)
      rw [if_pos passes]
      simp only [if_neg available, Option.map_some]
      refine ⟨_, rfl, (faithful.remove key).put passes fun column sent => ?_⟩
      exact merged_replicated (same passes column sent) sent
    · have kept : newKey = key := by
        by_contra other
        exact passes (moved other)
      subst kept
      rw [if_neg passes, Function.update_idem]
      exact ⟨_, rfl, faithful.write newKey _⟩

/-- A statement that the provider accepts and that is safe is replayed without errors. -/
theorem faithful_step {event : Event K C D} (faithful : Faithful t initial s) (safe : Safe t s event)
    (accepted : (providerStep t s.provider event).isSome) :
    ∃ next, step t s event = some next ∧ Faithful t initial next := by
  obtain ⟨written, accepted⟩ := Option.isSome_iff_exists.mp accepted
  cases event with
  | insert key values =>
    simp only [providerStep] at accepted
    split at accepted
    · cases accepted
    · next absent => exact faithful_insert values faithful (Option.not_isSome_iff_eq_none.mp absent)
  | update key newKey values unchanged =>
    obtain ⟨old, present, accepted⟩ := Option.bind_eq_some_iff.mp accepted
    split at accepted
    · cases accepted
    · next available =>
      refine faithful_update faithful safe present fun other => ?_
      exact Option.not_isSome_iff_eq_none.mp fun taken => available ⟨other, taken⟩
  | delete key =>
    obtain ⟨old, present, -⟩ := Option.map_eq_some_iff.mp accepted
    exact faithful_delete faithful safe present

/-- In every run of safe statements each one is replayed without errors, and afterwards every row of the
subscriber is a published version of the row that the provider has, or had, at its key, which still exists. -/
theorem subscriber_rows_published (t : FilteredTable K C D Expr) (table : K → Option (Row C D))
    (events : List (Event K C D)) (safe : Permitted (step t) (Safe t) (init t table) events) :
    Permitted (step t) (fun s event => (providerStep t s.provider event).isSome → (step t s event).isSome)
      (init t table) events ∧
    ∀ final, run (step t) (init t table) events = some final → Faithful t table final := by
  have preserved : ∀ {s next : State K C D} {event : Event K C D}, Faithful t table s → Safe t s event →
      step t s event = some next → Faithful t table next := by
    intro s next event faithful safe stepped
    obtain ⟨written, accepted, -⟩ := Option.bind_eq_some_iff.mp stepped
    obtain ⟨target, taken, kept⟩ := faithful_step faithful safe (Option.isSome_of_eq_some accepted)
    rw [stepped] at taken
    cases taken
    exact kept
  refine ⟨Permitted.of_invariant preserved ?_ (faithful_init t table) safe, fun final success => ?_⟩
  · intro s event faithful safe accepted
    obtain ⟨target, taken, -⟩ := faithful_step faithful safe accepted
    rw [taken]
    rfl
  · exact run_invariant preserved (faithful_init t table) safe success

/-! ## A table of numbers -/

/-- A table with a number and a TOASTed column besides its key, and one filter. -/
def sampleTable (filter : Tuple ℕ Bool ℕ → Option Bool) : FilteredTable ℕ Bool ℕ (Tuple ℕ Bool ℕ → Option Bool) where
  env := {
    queueTableOid := 1
    replicationSetTableOid := 2
    getNamespaceOid := fun _ => 3
    repsetTable := []
    getattr := ⟨fun _ t => t.attList, fun _ t => t.rowFilter⟩
    queuedMessageFromTuple := fun _ => ⟨none, 'Q'⟩
    replicationSetFromTuple := fun _ => ⟨1, 1, .ofBytes [100], true, true, true, true⟩
    execEvalExpr := fun filter tuple => filter tuple }
  entry := ⟨10, true, true, true, true, none, [filter]⟩
  replicated _ := true
  defaults _ := none
  actions := ⟨rfl, rfl, rfl⟩

instance Safe.decidable [Fintype C] [DecidableEq D] (t : FilteredTable K C D Expr) (s : State K C D) :
    ∀ event, Decidable (Safe t s event)
  | .insert _ _ => isTrue trivial
  | .update key newKey values unchanged => inferInstanceAs (Decidable (∀ localtuple ∈ s.subscriber key,
      ∀ old ∈ s.provider key, (newKey ≠ key → filterTuple t ⟨newKey, updatedRow old values unchanged⟩ = true) ∧
      (filterTuple t ⟨newKey, updatedRow old values unchanged⟩ = true →
        ∀ column, t.replicated column = true → unchanged column = true → localtuple column = old column)))
  | .delete key => inferInstanceAs (Decidable (s.subscriber key ≠ none → filterTuple t (keyOnly key) = true))

/-- Rows with small keys are published. -/
def keyFilter (tuple : Tuple ℕ Bool ℕ) : Option Bool := some (decide (tuple.key < 10))

/-- Rows with a large number are published, and a NULL is unknown. -/
def numberFilter (tuple : Tuple ℕ Bool ℕ) : Option Bool := (tuple.values false).map fun number => decide (5 < number)

/-- A row on either side of the key filter. -/
def sampleRows : ℕ → Option (Row Bool ℕ) := fun key => if key = 3 ∨ key = 30 then some fun _ => some 1 else none

/-- The filter on the key passes every DELETE of a published row, and a change of the key within its range. -/
def sampleEvents : List (Event ℕ Bool ℕ) :=
  [.insert 1 fun _ => some 4, .update 1 2 (fun _ => some 5) id, .update 30 30 (fun _ => some 6) id,
    .update 3 3 (fun _ => some 7) id, .delete 2]

theorem sample_rows_published :
    ∃ final, run (step (sampleTable keyFilter)) (init (sampleTable keyFilter) sampleRows) sampleEvents = some final ∧
      final.subscriber 2 = none ∧ final.subscriber 3 ≠ none ∧ Faithful (sampleTable keyFilter) sampleRows final :=
  ⟨_, rfl, by decide, by decide,
    (subscriber_rows_published (sampleTable keyFilter) sampleRows sampleEvents (by decide)).2 _ rfl⟩

/-- A row is inserted that passes the filter and then deleted. The filter finds a NULL in the
old tuple, which has the key only, and the DELETE is not forwarded. -/
theorem deleted_row_kept_by_subscriber :
    ∃ final, run (step (sampleTable numberFilter)) (init (sampleTable numberFilter) fun _ => none)
        [.insert 1 fun _ => some 7, .delete 1] = some final ∧
      final.provider 1 = none ∧ final.subscriber 1 ≠ none ∧
      ¬Faithful (sampleTable numberFilter) (fun _ => none) final :=
  ⟨_, rfl, by decide, by decide, fun faithful => faithful.known 1 (by decide) (by decide)⟩

end PGLogical.RowFilter
