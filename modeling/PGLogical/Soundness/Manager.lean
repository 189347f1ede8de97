import PGLogical.Machine.Run
import PGLogical.Model.Manager

/-! # What a management pass starts and kills

A pass is meant to start a worker for every enabled subscription that has none, and to kill the
workers that belong to no enabled subscription. What it decides for a subscription without a record
depends on the last record that is still in the list when the subscription is checked. The list
holds slots, and what a slot holds may change until the final loop comes to it.
-/

namespace PGLogical

open Machine

variable {n : ℕ}

/-! ## The list of remaining workers -/

section List

variable {α : Type} {p : α → Bool}

theorem eraseP_eq_filter_find? [DecidableEq α] {l : List α} (nodup : l.Nodup) :
    l.eraseP p = l.filter fun a => decide (l.find? p ≠ some a) := by
  induction l with
  | nil => rfl
  | cons a rest ih =>
    obtain ⟨fresh, nodup⟩ := List.nodup_cons.mp nodup
    by_cases hit : p a = true
    · have others : rest.filter (fun b => decide (some a ≠ some b)) = rest := by
        refine List.filter_eq_self.mpr fun b inside => ?_
        have other : a ≠ b := fun same => fresh (same ▸ inside)
        simpa using other
      rw [List.eraseP_cons_of_pos hit, List.find?_cons_of_pos hit, List.filter_cons_of_neg (by simp), others]
    · have miss : rest.find? p ≠ some a := fun found => hit (List.find?_some found)
      rw [List.eraseP_cons_of_neg hit, List.find?_cons_of_neg hit, ih nodup,
        List.filter_cons_of_pos (by simpa using miss)]

theorem find?_filter_of_imp {q : α → Bool} {l : List α} (kept : ∀ a ∈ l, p a = true → q a = true) :
    (l.filter q).find? p = l.find? p := by
  induction l with
  | nil => rfl
  | cons a rest ih =>
    have tail := ih fun b inside => kept b (List.mem_cons_of_mem _ inside)
    by_cases hit : p a = true
    · rw [List.filter_cons_of_pos (kept a (List.mem_cons_self ..) hit), List.find?_cons_of_pos hit,
        List.find?_cons_of_pos hit]
    · rw [List.find?_cons_of_neg hit, ← tail]
      by_cases held : q a = true
      · rw [List.filter_cons_of_pos held, List.find?_cons_of_neg hit]
      · rw [List.filter_cons_of_neg held]

end List

/-- The record of a subscription that the search comes to first. -/
def firstRecord (workers : Workers n) (dboid id : Oid) : Option (Fin n) :=
  (pglogicalApplyFindAll workers dboid).find? fun i => decide ((workers i).subid = id)

/-- The apply workers of the database but for the first records of the enabled subscriptions. -/
def remaining (workers : Workers n) (dboid : Oid) (checked : List PGLogicalSubscription) : List (Fin n) :=
  (pglogicalApplyFindAll workers dboid).filter fun i =>
    decide (∀ sub ∈ checked, sub.enabled = true → firstRecord workers dboid sub.id ≠ some i)

section Search

variable {workers : Workers n} {dboid : Oid} {now : TimestampTz}

theorem nodup_pglogicalApplyFindAll : (pglogicalApplyFindAll workers dboid).Nodup :=
  (List.nodup_finRange n).filter _

/-- Where nothing is found, `apply` is the last record in the list. -/
theorem searchWorkers_fst (id : Oid) (list : List (Fin n)) (apply : Option (Fin n)) :
    (searchWorkers workers id list apply).1 =
      ((list.find? fun i => decide ((workers i).subid = id)).or list.getLast?).or apply := by
  induction list generalizing apply with
  | nil => rfl
  | cons wlc next ih =>
    by_cases hit : (workers wlc).subid = id
    · simp [searchWorkers, hit]
    · simp only [searchWorkers, ih, List.find?_cons, decide_false, hit, List.getLast?_cons]
      cases next.find? fun i => decide ((workers i).subid = id) <;> cases next.getLast? <;> rfl

theorem searchWorkers_snd (id : Oid) (list : List (Fin n)) (apply : Option (Fin n)) :
    (searchWorkers workers id list apply).2 = list.eraseP fun i => decide ((workers i).subid = id) := by
  induction list generalizing apply with
  | nil => rfl
  | cons wlc next ih =>
    by_cases hit : (workers wlc).subid = id
    · simp [searchWorkers, hit]
    · simp [searchWorkers, hit, ih]

theorem subid_of_firstRecord {id : Oid} {i : Fin n} (first : firstRecord workers dboid id = some i) :
    (workers i).subid = id := by
  simpa using List.find?_some first

/-- A record of a subscription that has not been checked is still in the list. -/
theorem find?_remaining {checked : List PGLogicalSubscription} {id : Oid} (fresh : id ∉ checked.map (·.id)) :
    (remaining workers dboid checked).find? (fun i => decide ((workers i).subid = id)) =
      firstRecord workers dboid id := by
  refine find?_filter_of_imp fun i _ named => ?_
  simp only [decide_eq_true_eq] at named ⊢
  intro sub inside _ first
  have same := subid_of_firstRecord first
  rw [named] at same
  exact fresh (List.mem_map.mpr ⟨sub, inside, same.symm⟩)

theorem nodup_remaining {checked : List PGLogicalSubscription} : (remaining workers dboid checked).Nodup :=
  nodup_pglogicalApplyFindAll.filter _

theorem remaining_concat {checked : List PGLogicalSubscription} {sub : PGLogicalSubscription}
    (fresh : sub.id ∉ checked.map (·.id)) (enabled : sub.enabled = true) :
    remaining workers dboid (checked ++ [sub]) =
      (remaining workers dboid checked).eraseP fun i => decide ((workers i).subid = sub.id) := by
  rw [eraseP_eq_filter_find? nodup_remaining, find?_remaining fresh, remaining, remaining, List.filter_filter]
  refine List.filter_congr fun i _ => ?_
  simp [enabled, forall_and, or_imp, and_comm]

theorem remaining_concat_disabled {checked : List PGLogicalSubscription} {sub : PGLogicalSubscription}
    (disabled : sub.enabled = false) :
    remaining workers dboid (checked ++ [sub]) = remaining workers dboid checked := by
  simp [remaining, disabled, or_imp, forall_and]

/-! ## The decisions of a pass -/

/-- A worker that crashed at least `MIN_SLEEP` ago. -/
def OldCrash (w : PGLogicalWorker) (now : TimestampTz) : Prop :=
  w.proc = none ∧ w.crashedAt ≠ 0 ∧ timestampTzPlusMilliseconds w.crashedAt minSleep ≤ now

instance OldCrash.decidable (w : PGLogicalWorker) (now : TimestampTz) : Decidable (OldCrash w now) :=
  inferInstanceAs (Decidable (_ ∧ _))

theorem checkApply_eq_start_iff {apply : Option (Fin n)} :
    checkApply workers now apply = .start ↔ ∀ i ∈ apply, OldCrash (workers i) now := by
  cases apply with
  | none => simp [checkApply, pglogicalWorkerRunning]
  | some i =>
    simp only [checkApply, pglogicalWorkerRunning, Option.any_some, Option.mem_def, Option.some.injEq, forall_eq',
      OldCrash, Option.isSome_iff_ne_none]
    grind

theorem checkApply_eq_running_iff {apply : Option (Fin n)} :
    checkApply workers now apply = .running ↔ ∃ i ∈ apply, (workers i).proc ≠ none := by
  cases apply with
  | none => simp [checkApply, pglogicalWorkerRunning]
  | some i =>
    simp only [checkApply, pglogicalWorkerRunning, Option.any_some, Option.mem_def, Option.some.injEq,
      Option.isSome_iff_ne_none]
    grind

/-- The pass once it has checked some subscriptions. -/
def passAfter (workers : Workers n) (dboid : Oid) (now : TimestampTz) (checked : List PGLogicalSubscription) : Pass n :=
  checked.foldl (checkSubscription workers now) ⟨pglogicalApplyFindAll workers dboid, [], true⟩

/-- The decision for a subscription, when the ones before it have been checked. -/
def decision (workers : Workers n) (dboid : Oid) (now : TimestampTz) (checked : List PGLogicalSubscription)
    (sub : PGLogicalSubscription) : SubscriptionCheck :=
  checkApply workers now ((firstRecord workers dboid sub.id).or (remaining workers dboid checked).getLast?)

/-- What one iteration does, in terms of the decision. -/
theorem checkSubscription_eq {pass : Pass n} {checked : List PGLogicalSubscription} {sub : PGLogicalSubscription}
    (list : pass.workers = remaining workers dboid checked) (fresh : sub.id ∉ checked.map (·.id)) :
    checkSubscription workers now pass sub =
      { workers := remaining workers dboid (checked ++ [sub])
        subsToStart := if sub.enabled = true ∧ decision workers dboid now checked sub = .start
          then pass.subsToStart ++ [sub] else pass.subsToStart
        ret := pass.ret && !(sub.enabled && decide (decision workers dboid now checked sub = .later)) } := by
  cases enabled : sub.enabled with
  | false => simp [checkSubscription, enabled, remaining_concat_disabled enabled, ← list]
  | true =>
    have decided : checkApply workers now (searchWorkers workers sub.id pass.workers none).1 =
        decision workers dboid now checked sub := by
      rw [searchWorkers_fst, list, find?_remaining fresh, Option.or_none, decision]
    have erased : (searchWorkers workers sub.id pass.workers none).2 = remaining workers dboid (checked ++ [sub]) := by
      rw [searchWorkers_snd, list, remaining_concat fresh enabled]
    cases check : decision workers dboid now checked sub <;>
      simp [checkSubscription, enabled, decided, erased, check]

theorem passAfter_concat {checked : List PGLogicalSubscription} {sub : PGLogicalSubscription} :
    passAfter workers dboid now (checked ++ [sub]) =
      checkSubscription workers now (passAfter workers dboid now checked) sub := by
  simp [passAfter, List.foldl_append]

/-- What the loop over the subscriptions leaves. -/
theorem passAfter_spec {rows : List PGLogicalSubscription} (unique : (rows.map (·.id)).Nodup) :
    (passAfter workers dboid now rows).workers = remaining workers dboid rows ∧
    (∀ sub, sub ∈ (passAfter workers dboid now rows).subsToStart ↔ ∃ earlier, earlier ++ [sub] <+: rows ∧
      sub.enabled = true ∧ decision workers dboid now earlier sub = .start) ∧
    ((passAfter workers dboid now rows).ret = true ↔ ∀ earlier sub, earlier ++ [sub] <+: rows →
      sub.enabled = true → decision workers dboid now earlier sub ≠ .later) := by
  induction rows using List.reverseRecOn with
  | nil => simp [passAfter, remaining]
  | append_singleton checked sub ih =>
    rw [List.map_append, List.nodup_append] at unique
    have fresh : sub.id ∉ checked.map (·.id) := fun inside => unique.2.2 _ inside _ (by simp) rfl
    obtain ⟨list, start, ret⟩ := ih unique.1
    rw [passAfter_concat, checkSubscription_eq list fresh]
    refine ⟨rfl, fun other => ?_, ?_⟩
    · simp only [List.prefix_concat_iff, List.append_singleton_inj, or_and_right, exists_or, ← start]
      split
      · next starts =>
        rw [List.mem_append, List.mem_singleton, or_comm]
        refine or_congr_left ⟨?_, fun ⟨_, ⟨_, same⟩, _⟩ => same⟩
        rintro rfl
        exact ⟨checked, ⟨rfl, rfl⟩, starts⟩
      · next starts =>
        refine (or_iff_right ?_).symm
        rintro ⟨_, ⟨rfl, rfl⟩, here⟩
        exact starts here
    · simp only [List.prefix_concat_iff, List.append_singleton_inj, Bool.and_eq_true, ret]
      constructor
      · rintro ⟨before, here⟩ earlier other (⟨rfl, rfl⟩ | inside) enabled
        · simpa [enabled] using here
        · exact before earlier other inside enabled
      · refine fun all => ⟨fun earlier other inside => all earlier other (.inr inside), ?_⟩
        have here := all checked sub (.inl ⟨rfl, rfl⟩)
        cases enabled : sub.enabled with
        | false => rfl
        | true => simpa using here enabled

/-- A subscription is checked once. -/
theorem earlier_unique {rows first second : List PGLogicalSubscription} {sub : PGLogicalSubscription}
    (unique : (rows.map (·.id)).Nodup) (one : first ++ [sub] <+: rows) (two : second ++ [sub] <+: rows) :
    first = second := by
  have once : ∀ {a b : List PGLogicalSubscription}, a ++ [sub] <+: rows → b ++ [sub] <+: a ++ [sub] → b = a := by
    intro a b inside shorter
    rcases List.prefix_concat_iff.mp shorter with same | within
    · exact (List.append_singleton_inj.mp same).1
    · have nodup := (unique.of_map _).sublist inside.sublist
      have member : sub ∈ a := within.subset (by simp)
      exact absurd rfl ((List.nodup_append.mp nodup).2.2 sub member sub (by simp))
  rcases List.prefix_or_prefix_of_prefix one two with within | within
  · exact once two within
  · exact (once one within).symm

/-- An enabled subscription without a record, or whose first record is an old crash. -/
def restartable (workers : Workers n) (dboid : Oid) (now : TimestampTz) (sub : PGLogicalSubscription) : Bool :=
  sub.enabled && decide (∀ i ∈ firstRecord workers dboid sub.id, OldCrash (workers i) now)

/-- Whenever an enabled subscription without a record is checked, the last record that is still in the
list is an old crash. -/
def LastIsOld (workers : Workers n) (dboid : Oid) (now : TimestampTz) (rows : List PGLogicalSubscription) : Prop :=
  ∀ earlier sub, earlier ++ [sub] <+: rows → sub.enabled = true → firstRecord workers dboid sub.id = none →
    ∀ i ∈ (remaining workers dboid earlier).getLast?, OldCrash (workers i) now

theorem decision_eq_start_iff {earlier : List PGLogicalSubscription} {sub : PGLogicalSubscription} :
    decision workers dboid now earlier sub = .start ↔
      (∀ i ∈ firstRecord workers dboid sub.id, OldCrash (workers i) now) ∧
      (firstRecord workers dboid sub.id = none →
        ∀ i ∈ (remaining workers dboid earlier).getLast?, OldCrash (workers i) now) := by
  rw [decision, checkApply_eq_start_iff]
  cases firstRecord workers dboid sub.id <;> simp

theorem subsToStart_of_lastIsOld {rows : List PGLogicalSubscription} (unique : (rows.map (·.id)).Nodup)
    (old : LastIsOld workers dboid now rows) :
    (passAfter workers dboid now rows).subsToStart = rows.filter (restartable workers dboid now) := by
  induction rows using List.reverseRecOn with
  | nil => rfl
  | append_singleton checked sub ih =>
    rw [List.map_append, List.nodup_append] at unique
    have fresh : sub.id ∉ checked.map (·.id) := fun inside => unique.2.2 _ inside _ (by simp) rfl
    have before := ih unique.1 fun earlier other inside => old earlier other (inside.trans (List.prefix_append ..))
    have here : (sub.enabled = true ∧ decision workers dboid now checked sub = .start) ↔
        restartable workers dboid now sub = true := by
      rw [restartable, Bool.and_eq_true, decide_eq_true_iff, decision_eq_start_iff]
      refine and_congr_right fun enabled => and_iff_left ?_
      exact old checked sub (List.prefix_refl _) enabled
    rw [passAfter_concat, checkSubscription_eq (passAfter_spec unique.1).1 fresh, List.filter_append, before]
    by_cases starts : restartable workers dboid now sub = true
    · simp [here.mpr starts, starts]
    · simp only [if_neg (fun both => starts (here.mp both)), List.filter_cons_of_neg starts, List.filter_nil,
        List.append_nil]

end Search

/-! ## What a pass starts -/

/-- The apply worker records of a subscription. -/
def Records (workers : Workers n) (dboid : Oid) (sub : PGLogicalSubscription) (i : Fin n) : Prop :=
  i ∈ pglogicalApplyFindAll workers dboid ∧ (workers i).subid = sub.id

/-- The purpose of a pass. -/
structure StartsMissing (workers : Workers n) (dboid : Oid) (subscriptions : Subscriptions) (now : TimestampTz)
    (result : PassResult n) : Prop where
  started : ∀ sub ∈ subscriptions.rows, sub.enabled = true →
    (∀ i, Records workers dboid sub i → OldCrash (workers i) now) → sub.id ∈ result.registered
  notTwice : ∀ sub ∈ subscriptions.rows, (∃ i, Records workers dboid sub i ∧ (workers i).proc ≠ none) →
    sub.id ∉ result.registered
  complete : result.ret = true → ∀ sub ∈ subscriptions.rows, sub.enabled = true →
    (∃ i, Records workers dboid sub i ∧ (workers i).proc ≠ none) ∨ sub.id ∈ result.registered

section Pass

variable {workers : Workers n} {dboid : Oid} {now : TimestampTz} {subscriptions : Subscriptions}

theorem Records.of_firstRecord {sub : PGLogicalSubscription} {i : Fin n}
    (first : firstRecord workers dboid sub.id = some i) : Records workers dboid sub i :=
  ⟨List.mem_of_find?_eq_some first, subid_of_firstRecord first⟩

theorem not_records {sub : PGLogicalSubscription} (none : firstRecord workers dboid sub.id = none) (i : Fin n) :
    ¬ Records workers dboid sub i := by
  rintro ⟨inside, named⟩
  have other := List.find?_eq_none.mp none i inside
  simp [named] at other

theorem exists_earlier {rows : List PGLogicalSubscription} {sub : PGLogicalSubscription} (inside : sub ∈ rows) :
    ∃ earlier, earlier ++ [sub] <+: rows := by
  obtain ⟨earlier, later, rfl⟩ := List.append_of_mem inside
  exact ⟨earlier, by simp⟩

/-- Which subscriptions a pass registers. -/
theorem mem_registered_iff {sub : PGLogicalSubscription} (inside : sub ∈ subscriptions.rows) :
    sub.id ∈ (passAfter workers dboid now subscriptions.rows).subsToStart.map (·.id) ↔
      sub ∈ (passAfter workers dboid now subscriptions.rows).subsToStart := by
  refine ⟨fun registered => ?_, fun starts => List.mem_map_of_mem starts⟩
  obtain ⟨other, starts, same⟩ := List.mem_map.mp registered
  obtain ⟨earlier, checked, -⟩ := ((passAfter_spec subscriptions.unique).2.1 other).mp starts
  have member : other ∈ subscriptions.rows := checked.subset (by simp)
  rwa [← List.inj_on_of_nodup_map subscriptions.unique member inside same]

theorem manageApplyWorkers_eq_ok_iff {launches : Oid → Launch} {result : PassResult n} :
    manageApplyWorkers workers dboid subscriptions now launches = .ok result ↔
      ∃ started, startWorkers dboid launches workers (passAfter workers dboid now subscriptions.rows).subsToStart =
          .ok started ∧
        result = ⟨(passAfter workers dboid now subscriptions.rows).ret,
          (passAfter workers dboid now subscriptions.rows).subsToStart.map (·.id),
          (killWorkers started (passAfter workers dboid now subscriptions.rows).workers).1,
          (killWorkers started (passAfter workers dboid now subscriptions.rows).workers).2⟩ := by
  unfold manageApplyWorkers passAfter
  dsimp only
  cases startWorkers dboid launches workers (subscriptions.rows.foldl (checkSubscription workers now)
      ⟨pglogicalApplyFindAll workers dboid, [], true⟩).subsToStart with
  | error message => simp
  | ok started => simp [eq_comm]

/-- What is registered without a record was decided on the last record in the list. -/
theorem StartsMissing.lastIsOld {result : PassResult n} (meets : StartsMissing workers dboid subscriptions now result)
    (registered : result.registered = (passAfter workers dboid now subscriptions.rows).subsToStart.map (·.id)) :
    LastIsOld workers dboid now subscriptions.rows := by
  intro earlier sub checked enabled none
  have inside : sub ∈ subscriptions.rows := checked.subset (by simp)
  have started := meets.started sub inside enabled fun i record => absurd record (not_records none i)
  rw [registered, mem_registered_iff inside] at started
  obtain ⟨before, same, -, start⟩ := ((passAfter_spec subscriptions.unique).2.1 sub).mp started
  obtain rfl := earlier_unique subscriptions.unique same checked
  exact (decision_eq_start_iff.mp start).2 none

theorem startsMissing_of_lastIsOld {result : PassResult n} (old : LastIsOld workers dboid now subscriptions.rows)
    (idle : ∀ sub ∈ subscriptions.rows, restartable workers dboid now sub = true →
      ∀ i, Records workers dboid sub i → (workers i).proc = none)
    (registered : result.registered = (passAfter workers dboid now subscriptions.rows).subsToStart.map (·.id))
    (ret : result.ret = (passAfter workers dboid now subscriptions.rows).ret) :
    StartsMissing workers dboid subscriptions now result := by
  have member : ∀ sub ∈ subscriptions.rows,
      (sub.id ∈ result.registered ↔ restartable workers dboid now sub = true) := by
    intro sub inside
    rw [registered, mem_registered_iff inside, subsToStart_of_lastIsOld subscriptions.unique old, List.mem_filter]
    exact and_iff_right inside
  refine ⟨fun sub inside enabled crashed => ?_, fun sub inside ⟨i, record, running⟩ again => ?_,
    fun all sub inside enabled => ?_⟩
  · rw [member sub inside, restartable, enabled, Bool.true_and, decide_eq_true_iff]
    exact fun i first => crashed i (.of_firstRecord first)
  · exact running (idle sub inside ((member sub inside).mp again) i record)
  · obtain ⟨earlier, checked⟩ := exists_earlier inside
    have decided := ((passAfter_spec subscriptions.unique).2.2.mp (ret.symm.trans all)) earlier sub checked enabled
    rw [member sub inside, restartable, enabled, Bool.true_and, decide_eq_true_iff]
    cases check : decision workers dboid now earlier sub with
    | later => exact absurd check decided
    | start => exact .inr (decision_eq_start_iff.mp check).1
    | running =>
      obtain ⟨i, found, running⟩ := checkApply_eq_running_iff.mp check
      cases first : firstRecord workers dboid sub.id with
      | some j =>
        rw [first] at found
        obtain rfl := Option.some.inj found
        exact .inl ⟨j, .of_firstRecord first, running⟩
      | none =>
        rw [first] at found
        exact absurd (old earlier sub checked enabled first i found).1 running

/-- A pass starts what is missing if and only if, whenever an enabled subscription without a record is
checked, the last record in the list is an old crash; no subscription whose first record is an old
crash has a running worker; and the registrations succeed. -/
theorem pass_starts_missing_iff (workers : Workers n) (dboid : Oid) (subscriptions : Subscriptions)
    (now : TimestampTz) (launches : Oid → Launch) :
    (∃ result, manageApplyWorkers workers dboid subscriptions now launches = .ok result ∧
      StartsMissing workers dboid subscriptions now result) ↔
    LastIsOld workers dboid now subscriptions.rows ∧
    (∀ sub ∈ subscriptions.rows, restartable workers dboid now sub = true →
      ∀ i, Records workers dboid sub i → (workers i).proc = none) ∧
    ∃ started, startWorkers dboid launches workers (subscriptions.rows.filter (restartable workers dboid now)) =
      .ok started := by
  constructor
  · rintro ⟨result, ok, meets⟩
    obtain ⟨started, success, same⟩ := manageApplyWorkers_eq_ok_iff.mp ok
    have old := meets.lastIsOld (by rw [same])
    have list := subsToStart_of_lastIsOld subscriptions.unique old
    refine ⟨old, fun sub inside restarts i record => ?_, started, by rw [← list]; exact success⟩
    by_contra running
    refine meets.notTwice sub inside ⟨i, record, running⟩ ?_
    rw [same]
    exact List.mem_map_of_mem (by rw [list]; exact List.mem_filter.mpr ⟨inside, restarts⟩)
  · rintro ⟨old, idle, started, success⟩
    rw [← subsToStart_of_lastIsOld subscriptions.unique old] at success
    exact ⟨_, manageApplyWorkers_eq_ok_iff.mpr ⟨started, success, rfl⟩, startsMissing_of_lastIsOld old idle rfl rfl⟩

end Pass

/-- The first of the two subscriptions has no record, the second one a running worker in the first slot. -/
def otherRunning : Workers 2
  | 0 => (WorkerKey.apply 5 8).worker.attached 1
  | 1 => .zero

def twoSubscriptions : Subscriptions := ⟨[⟨7, true⟩, ⟨8, true⟩], by decide⟩

/-- The search for the first subscription ends at the record of the second one, which is running. The
first is not started, and the pass reports that all is well. -/
theorem pass_skips_missing_subscription :
    ∃ result, manageApplyWorkers otherRunning 5 twoSubscriptions 0 (fun _ => .attached 2) = .ok result ∧
      result.ret = true ∧ result.registered = [] ∧ ¬ StartsMissing otherRunning 5 twoSubscriptions 0 result := by
  refine ⟨_, rfl, rfl, rfl, fun meets => ?_⟩
  have started := meets.started ⟨7, true⟩ (by decide) rfl fun i record => ?_
  · cases started
  · have other : ∀ i, (otherRunning i).subid ≠ 7 := by decide
    exact absurd record.2 (other i)

end PGLogical
