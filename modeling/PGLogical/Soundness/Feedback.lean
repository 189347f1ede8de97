import PGLogical.Model.Feedback
import Mathlib.Data.List.Pairwise

/-! # Feedback never confirms unflushed work

The list kept by the worker refines a simpler object: the commits that no call has found flushed.
The C code stops its walk at the first unflushed commit; because local positions never decrease,
that removes exactly the flushed ones. The reported flush position then stays below every commit
still in the list, and below the end of every transaction still to come, since it was either the
remote end of an earlier commit or a position received while nothing was outstanding.
-/

namespace PGLogical.Feedback

/-! ## Assumptions about the stream -/

/-- The positions in the header of a message. -/
def Event.positions : Event → List ℕ
  | .data startLsn endLsn => [startLsn, endLsn]
  | .commit startLsn endLsn _ _ => [startLsn, endLsn]
  | .keepalive endpos _ _ => [endpos]
  | .idle _ => []
  | .flush _ => []

def Event.remoteEnd? : Event → Option ℕ
  | .commit _ _ remoteEnd _ => some remoteEnd
  | _ => none

/-- The local commit an event produces. -/
def Event.localCommit? : Event → Option PGLFlushPosition
  | .commit _ _ remoteEnd (some localEnd) => some ⟨localEnd, remoteEnd⟩
  | _ => none

/-- How the provider and the local WAL order the positions of a run. -/
structure StreamOrder (events : List Event) : Prop where
  /-- An end LSN is a real position. -/
  valid : ∀ event ∈ events, ∀ e ∈ event.remoteEnd?, e ≠ invalidXLogRecPtr
  /-- End LSNs increase in commit order. -/
  increasing : events.Pairwise fun a b => ∀ x ∈ a.remoteEnd?, ∀ y ∈ b.remoteEnd?, x < y
  /-- `XactLastCommitEnd` never decreases. -/
  localEnds : events.Pairwise fun a b => ∀ x ∈ a.localCommit?, ∀ y ∈ b.localCommit?, x.localEnd ≤ y.localEnd
  /-- Whatever was received before the COMMIT of a transaction lies below its end LSN. -/
  below : events.Pairwise fun a b => ∀ p ∈ a.positions, ∀ e ∈ b.remoteEnd?, p < e

theorem StreamOrder.tail {event : Event} {rest : List Event} (order : StreamOrder (event :: rest)) :
    StreamOrder rest where
  valid := fun other member => order.valid other (List.mem_cons_of_mem _ member)
  increasing := (List.pairwise_cons.mp order.increasing).2
  localEnds := (List.pairwise_cons.mp order.localEnds).2
  below := (List.pairwise_cons.mp order.below).2

theorem StreamOrder.suffix {past future : List Event} (order : StreamOrder (past ++ future)) :
    StreamOrder future := by
  induction past with
  | nil => exact order
  | cons event rest ih => exact ih order.tail

/-! ## The commits not yet found flushed -/

/-- The abstract state: the flush pointer and the commits no call has found flushed. -/
structure Outstanding where
  localFlush : ℕ
  commits : List PGLFlushPosition

/-- A call of `send_feedback` finds every commit behind the flush pointer, wherever it stands. -/
def Outstanding.check (o : Outstanding) : Outstanding :=
  { o with commits := o.commits.filter fun c => decide (o.localFlush < c.localEnd) }

def Outstanding.step (o : Outstanding) : Event → Outstanding
  | .data _ _ => o
  | .commit _ _ remoteEnd localEnd =>
      { o with commits := o.commits ++ (localEnd.map (⟨·, remoteEnd⟩)).toList }
  | .keepalive _ _ _ => o.check
  | .idle _ => o.check
  | .flush upto => { o with localFlush := max o.localFlush upto }

def outstanding (o : Outstanding) (events : List Event) : Outstanding := events.foldl Outstanding.step o

/-! ## The list walk -/

theorem flushLoop_mapping (localFlush write flush : ℕ) (mapping : List PGLFlushPosition)
    (sorted : mapping.Pairwise fun a b => a.localEnd ≤ b.localEnd) :
    (flushLoop localFlush write flush mapping).mapping =
      mapping.filter fun c => decide (localFlush < c.localEnd) := by
  induction mapping generalizing write flush with
  | nil => rfl
  | cons pos rest ih =>
    obtain ⟨first, sorted⟩ := List.pairwise_cons.mp sorted
    rw [flushLoop]
    split
    · next flushed =>
      rw [ih _ _ sorted, List.filter_cons_of_neg (by simpa using flushed)]
    · next unflushed =>
      -- everything behind an unflushed commit is unflushed too, so nothing is filtered out
      have kept : ∀ c ∈ pos :: rest, decide (localFlush < c.localEnd) = true := by
        intro c member
        rcases List.mem_cons.mp member with rfl | member
        · simpa using unflushed
        · have := first c member
          simp only [decide_eq_true_eq]
          omega
      exact (List.filter_eq_self.mpr kept).symm

/-- The flush result stays below a bound that holds for the start value and every commit. -/
theorem flushLoop_flush_lt (localFlush write flush bound : ℕ)
    (mapping : List PGLFlushPosition) (start : flush < bound)
    (below : ∀ c ∈ mapping, c.remoteEnd < bound) :
    (flushLoop localFlush write flush mapping).flush < bound := by
  induction mapping generalizing write flush with
  | nil => exact start
  | cons pos rest ih =>
    rw [flushLoop]
    split
    · exact ih _ _ (below pos (List.mem_cons_self ..))
        fun c member => below c (List.mem_cons_of_mem _ member)
    · exact start

/-- It also stays below every commit that remains in the list. -/
theorem flushLoop_flush_lt_mapping (localFlush write flush : ℕ)
    (mapping : List PGLFlushPosition) (start : ∀ c ∈ mapping, flush < c.remoteEnd)
    (sorted : mapping.Pairwise fun a b => a.remoteEnd < b.remoteEnd) :
    ∀ c ∈ (flushLoop localFlush write flush mapping).mapping,
      (flushLoop localFlush write flush mapping).flush < c.remoteEnd := by
  induction mapping generalizing write flush with
  | nil => intro c member; cases member
  | cons pos rest ih =>
    obtain ⟨first, sorted⟩ := List.pairwise_cons.mp sorted
    rw [flushLoop]
    split
    · exact ih _ _ first sorted
    · exact start

/-! ## One step -/

/-- What the worker keeps, relative to the events that are still to come. -/
structure Tracks (s : ApplyWork) (o : Outstanding) (rest : List Event) : Prop where
  localFlush : s.localFlush = o.localFlush
  mapping : s.lsnMapping = o.commits
  sortedLocal : s.lsnMapping.Pairwise fun a b => a.localEnd ≤ b.localEnd
  sortedRemote : s.lsnMapping.Pairwise fun a b => a.remoteEnd < b.remoteEnd
  reported : ∀ c ∈ s.lsnMapping, s.lastFlushpos < c.remoteEnd
  reportedNext : ∀ event ∈ rest, ∀ e ∈ event.remoteEnd?, s.lastFlushpos < e
  receivedNext : ∀ event ∈ rest, ∀ e ∈ event.remoteEnd?, s.lastRecvpos < e ∧ s.lastReceived < e
  remoteNext : ∀ event ∈ rest, ∀ e ∈ event.remoteEnd?, ∀ c ∈ s.lsnMapping, c.remoteEnd < e
  localNext : ∀ event ∈ rest, ∀ d ∈ event.localCommit?, ∀ c ∈ s.lsnMapping, c.localEnd ≤ d.localEnd

theorem Tracks.init (localFlush : ℕ) {events : List Event} (order : StreamOrder events) :
    Tracks (.init localFlush) ⟨localFlush, []⟩ events where
  localFlush := rfl
  mapping := rfl
  sortedLocal := .nil
  sortedRemote := .nil
  reported := by intro c member; cases member
  reportedNext := fun event member e found => Nat.pos_of_ne_zero (order.valid event member e found)
  receivedNext := fun event member e found =>
    ⟨Nat.pos_of_ne_zero (order.valid event member e found),
      Nat.pos_of_ne_zero (order.valid event member e found)⟩
  remoteNext := by intro event _ e _ c member; cases member
  localNext := by intro event _ d _ c member; cases member

/-- The two lists agree after a call, because the local positions are sorted. -/
theorem Tracks.found {s : ApplyWork} {o : Outstanding} {rest : List Event} (tracks : Tracks s o rest) :
    (getFlushPosition s.localFlush s.lsnMapping).mapping = o.check.commits := by
  rw [getFlushPosition, flushLoop_mapping _ _ _ _ tracks.sortedLocal, tracks.mapping, tracks.localFlush]
  rfl

theorem mem_of_mem_found {s : ApplyWork} {o : Outstanding} {rest : List Event} (tracks : Tracks s o rest)
    {c : PGLFlushPosition} (member : c ∈ (getFlushPosition s.localFlush s.lsnMapping).mapping) :
    c ∈ s.lsnMapping := by
  rw [getFlushPosition, flushLoop_mapping _ _ _ _ tracks.sortedLocal] at member
  exact (List.mem_filter.mp member).1

/-- The next position to report is below every commit that stays in the list. -/
theorem Tracks.flushpos_lt_mapping {s : ApplyWork} {o : Outstanding} {rest : List Event}
    (tracks : Tracks s o rest) (recvpos : ℕ) :
    ∀ c ∈ (getFlushPosition s.localFlush s.lsnMapping).mapping, s.flushpos recvpos < c.remoteEnd := by
  intro c member
  have kept := mem_of_mem_found tracks member
  have walked : (getFlushPosition s.localFlush s.lsnMapping).flush < c.remoteEnd := by
    refine flushLoop_flush_lt_mapping _ _ _ _ ?_ tracks.sortedRemote c member
    exact fun d inside => Nat.lt_of_le_of_lt (Nat.zero_le _) (tracks.reported d inside)
  rw [ApplyWork.flushpos, if_neg (List.ne_nil_of_mem member)]
  exact max_lt walked (tracks.reported c kept)

/-- It is also below the end of every transaction whose COMMIT is still to come. -/
theorem Tracks.flushpos_lt_next {s : ApplyWork} {o : Outstanding} {rest : List Event}
    (tracks : Tracks s o rest) {recvpos e : ℕ} {event : Event} (member : event ∈ rest)
    (found : e ∈ event.remoteEnd?) (received : recvpos < e) : s.flushpos recvpos < e := by
  have walked : (getFlushPosition s.localFlush s.lsnMapping).flush < e :=
    flushLoop_flush_lt _ _ _ _ _ (Nat.lt_of_le_of_lt (Nat.zero_le _) received)
      (tracks.remoteNext event member e found)
  rw [ApplyWork.flushpos]
  refine max_lt ?_ (tracks.reportedNext event member e found)
  split
  · exact received
  · exact walked

theorem sendFeedback_tracks {s : ApplyWork} {o : Outstanding} {rest : List Event}
    (tracks : Tracks s o rest) (recvpos : ℕ) (now : ℤ) (force : Bool)
    (received : ∀ event ∈ rest, ∀ e ∈ event.remoteEnd?, recvpos < e) :
    Tracks (sendFeedback s recvpos now force).1 o.check rest := by
  have pos : ∀ event ∈ rest, ∀ e ∈ event.remoteEnd?, max recvpos s.lastRecvpos < e :=
    fun event member e found =>
      max_lt (received event member e found) (tracks.receivedNext event member e found).1
  have keeps := fun c => mem_of_mem_found tracks (c := c)
  have sortedLocal : (getFlushPosition s.localFlush s.lsnMapping).mapping.Pairwise
      fun a b => a.localEnd ≤ b.localEnd := by
    rw [getFlushPosition, flushLoop_mapping _ _ _ _ tracks.sortedLocal]
    exact tracks.sortedLocal.filter _
  have sortedRemote : (getFlushPosition s.localFlush s.lsnMapping).mapping.Pairwise
      fun a b => a.remoteEnd < b.remoteEnd := by
    rw [getFlushPosition, flushLoop_mapping _ _ _ _ tracks.sortedLocal]
    exact tracks.sortedRemote.filter _
  unfold sendFeedback
  dsimp only
  split
  · exact
      { localFlush := tracks.localFlush
        mapping := tracks.found
        sortedLocal := sortedLocal
        sortedRemote := sortedRemote
        reported := fun c member => tracks.reported c (keeps c member)
        reportedNext := tracks.reportedNext
        receivedNext := tracks.receivedNext
        remoteNext := fun event inside e found c member =>
          tracks.remoteNext event inside e found c (keeps c member)
        localNext := fun event inside d found c member =>
          tracks.localNext event inside d found c (keeps c member) }
  · exact
      { localFlush := tracks.localFlush
        mapping := tracks.found
        sortedLocal := sortedLocal
        sortedRemote := sortedRemote
        reported := fun c member =>
          max_lt (tracks.flushpos_lt_mapping _ c member) (tracks.reported c (keeps c member))
        reportedNext := fun event inside e found =>
          max_lt (tracks.flushpos_lt_next inside found (pos event inside e found))
            (tracks.reportedNext event inside e found)
        receivedNext := fun event inside e found =>
          ⟨max_lt (pos event inside e found) (tracks.receivedNext event inside e found).1,
            (tracks.receivedNext event inside e found).2⟩
        remoteNext := fun event inside e found c member =>
          tracks.remoteNext event inside e found c (keeps c member)
        localNext := fun event inside d found c member =>
          tracks.localNext event inside d found c (keeps c member) }

/-- Forget the next event; only the facts about later ones are needed from then on. -/
theorem Tracks.tail {s : ApplyWork} {o : Outstanding} {event : Event} {rest : List Event}
    (tracks : Tracks s o (event :: rest)) : Tracks s o rest where
  localFlush := tracks.localFlush
  mapping := tracks.mapping
  sortedLocal := tracks.sortedLocal
  sortedRemote := tracks.sortedRemote
  reported := tracks.reported
  reportedNext := fun other member => tracks.reportedNext other (List.mem_cons_of_mem _ member)
  receivedNext := fun other member => tracks.receivedNext other (List.mem_cons_of_mem _ member)
  remoteNext := fun other member => tracks.remoteNext other (List.mem_cons_of_mem _ member)
  localNext := fun other member => tracks.localNext other (List.mem_cons_of_mem _ member)

theorem receive_tracks {s : ApplyWork} {o : Outstanding} {rest : List Event} (tracks : Tracks s o rest)
    {startLsn endLsn : ℕ}
    (below : ∀ event ∈ rest, ∀ e ∈ event.remoteEnd?, startLsn < e ∧ endLsn < e) :
    Tracks (s.receive startLsn endLsn) o rest where
  localFlush := tracks.localFlush
  mapping := tracks.mapping
  sortedLocal := tracks.sortedLocal
  sortedRemote := tracks.sortedRemote
  reported := tracks.reported
  reportedNext := tracks.reportedNext
  receivedNext := fun event member e found =>
    ⟨(tracks.receivedNext event member e found).1,
      max_lt (max_lt (tracks.receivedNext event member e found).2 (below event member e found).1)
        (below event member e found).2⟩
  remoteNext := tracks.remoteNext
  localNext := tracks.localNext

/-- Appending a commit keeps the list sorted; its remote end lies above everything reported. -/
theorem handleCommit_tracks {s : ApplyWork} {o : Outstanding} {rest : List Event}
    (tracks : Tracks s o rest) {localEnd remoteEnd : ℕ}
    (reported : s.lastFlushpos < remoteEnd) (remote : ∀ c ∈ s.lsnMapping, c.remoteEnd < remoteEnd)
    (locals : ∀ c ∈ s.lsnMapping, c.localEnd ≤ localEnd)
    (remoteNext : ∀ event ∈ rest, ∀ e ∈ event.remoteEnd?, remoteEnd < e)
    (localNext : ∀ event ∈ rest, ∀ d ∈ event.localCommit?, localEnd ≤ d.localEnd) :
    Tracks (s.handleCommit remoteEnd (some localEnd))
      { o with commits := o.commits ++ [⟨localEnd, remoteEnd⟩] } rest where
  localFlush := tracks.localFlush
  mapping := by rw [ApplyWork.handleCommit, tracks.mapping]
  sortedLocal := List.pairwise_append.mpr
    ⟨tracks.sortedLocal, List.pairwise_singleton .., by simpa using locals⟩
  sortedRemote := List.pairwise_append.mpr
    ⟨tracks.sortedRemote, List.pairwise_singleton .., by simpa using remote⟩
  reported := by
    intro c member
    rcases List.mem_append.mp member with member | member
    · exact tracks.reported c member
    · rw [List.mem_singleton.mp member]
      exact reported
  reportedNext := tracks.reportedNext
  receivedNext := tracks.receivedNext
  remoteNext := by
    intro event inside e found c member
    rcases List.mem_append.mp member with member | member
    · exact tracks.remoteNext event inside e found c member
    · rw [List.mem_singleton.mp member]
      exact remoteNext event inside e found
  localNext := by
    intro event inside d found c member
    rcases List.mem_append.mp member with member | member
    · exact tracks.localNext event inside d found c member
    · rw [List.mem_singleton.mp member]
      exact localNext event inside d found

theorem flush_tracks {s : ApplyWork} {o : Outstanding} {rest : List Event} (tracks : Tracks s o rest)
    (upto : ℕ) :
    Tracks { s with localFlush := max s.localFlush upto } { o with localFlush := max o.localFlush upto } rest :=
  { tracks with localFlush := by rw [tracks.localFlush] }

/-- One event keeps the worker in step with the abstract list. -/
theorem applyWorkStep_tracks {s : ApplyWork} {o : Outstanding} {event : Event} {rest : List Event}
    (order : StreamOrder (event :: rest)) (tracks : Tracks s o (event :: rest)) :
    Tracks (applyWorkStep s event).1 (o.step event) rest := by
  have headers := (List.pairwise_cons.mp order.below).1
  have ends := (List.pairwise_cons.mp order.increasing).1
  have locals := (List.pairwise_cons.mp order.localEnds).1
  cases event with
  | data startLsn endLsn =>
    exact receive_tracks tracks.tail fun other member e found =>
      ⟨headers other member _ (by simp [Event.positions]) e found,
        headers other member _ (by simp [Event.positions]) e found⟩
  | commit startLsn endLsn remoteEnd localEnd =>
    have received : Tracks (s.receive startLsn endLsn) o rest :=
      receive_tracks tracks.tail fun other member e found =>
        ⟨headers other member _ (by simp [Event.positions]) e found,
          headers other member _ (by simp [Event.positions]) e found⟩
    cases localEnd with
    | none =>
      have same : o.step (.commit startLsn endLsn remoteEnd none) = o := by
        simp only [Outstanding.step, Option.map_none, Option.toList_none, List.append_nil]
      rw [same]
      exact received
    | some localEnd =>
      have here := List.mem_cons_self (a := Event.commit startLsn endLsn remoteEnd (some localEnd)) (l := rest)
      exact handleCommit_tracks received
        (tracks.reportedNext _ here remoteEnd rfl) (tracks.remoteNext _ here remoteEnd rfl)
        (fun c member => tracks.localNext _ here ⟨localEnd, remoteEnd⟩ rfl c member)
        (fun other member e found => ends other member remoteEnd rfl e found)
        (fun other member d found => locals other member ⟨localEnd, remoteEnd⟩ rfl d found)
  | keepalive endpos replyRequested now =>
    exact sendFeedback_tracks tracks.tail endpos now replyRequested fun other member e found =>
      headers other member endpos (by simp [Event.positions]) e found
  | idle now =>
    exact sendFeedback_tracks tracks.tail s.lastReceived now false fun other member e found =>
      (tracks.tail.receivedNext other member e found).2
  | flush upto => exact flush_tracks tracks.tail upto

/-! ## Whole runs -/

theorem applyWork_tracks {s : ApplyWork} {o : Outstanding} (past : List Event) {future : List Event}
    (order : StreamOrder (past ++ future)) (tracks : Tracks s o (past ++ future)) :
    Tracks (applyWork s past) (outstanding o past) future := by
  induction past generalizing s o with
  | nil => exact tracks
  | cons event rest ih => exact ih order.tail (applyWorkStep_tracks order tracks)

/-- A commit leaves the abstract list only when the flush pointer has reached it. -/
theorem outstanding_or_flushed (o : Outstanding) (events : List Event) (c : PGLFlushPosition)
    (member : c ∈ o.commits ∨ c.localEnd ≤ o.localFlush ∨ c ∈ events.filterMap Event.localCommit?) :
    c ∈ (outstanding o events).commits ∨ c.localEnd ≤ (outstanding o events).localFlush := by
  induction events generalizing o with
  | nil => simpa [outstanding] using member
  | cons event rest ih =>
    refine ih (o.step event) ?_
    cases event with
    | data startLsn endLsn => exact member
    | commit startLsn endLsn remoteEnd localEnd =>
      cases localEnd with
      | none => simpa [Outstanding.step, Event.localCommit?] using member
      | some localEnd =>
        simp only [List.filterMap_cons, Event.localCommit?, List.mem_cons] at member
        rcases member with member | member | rfl | member
        · exact .inl (List.mem_append_left _ member)
        · exact .inr (.inl member)
        · exact .inl (List.mem_append_right _ (List.mem_singleton_self _))
        · exact .inr (.inr member)
    | keepalive endpos replyRequested now => exact check_or_flushed o rest c member
    | idle now => exact check_or_flushed o rest c member
    | flush upto =>
      rcases member with member | member | member
      · exact .inl member
      · exact .inr (.inl (le_trans member (le_max_left _ _)))
      · exact .inr (.inr member)
where
  check_or_flushed (o : Outstanding) (rest : List Event) (c : PGLFlushPosition)
      (member : c ∈ o.commits ∨ c.localEnd ≤ o.localFlush ∨ c ∈ rest.filterMap Event.localCommit?) :
      c ∈ o.check.commits ∨ c.localEnd ≤ o.check.localFlush ∨ c ∈ rest.filterMap Event.localCommit? := by
    rcases member with member | member
    · by_cases flushed : c.localEnd ≤ o.localFlush
      · exact .inr (.inl flushed)
      · exact .inl (List.mem_filter.mpr ⟨member, by simpa using flushed⟩)
    · exact .inr member

/-- A status update reports `lastFlushpos` as the call leaves it, and never less than before. -/
theorem sendFeedback_flush {s : ApplyWork} {recvpos : ℕ} {now : ℤ} {force : Bool} {update : StatusUpdate}
    (sent : (sendFeedback s recvpos now force).2 = some update) :
    update.flush = (sendFeedback s recvpos now force).1.lastFlushpos ∧ s.lastFlushpos ≤ update.flush := by
  unfold sendFeedback at sent ⊢
  dsimp only at sent ⊢
  split_ifs at sent ⊢
  · cases sent
    have floor : s.lastFlushpos ≤ s.flushpos (max recvpos s.lastRecvpos) := le_max_right _ _
    exact ⟨(max_eq_left floor).symm, floor⟩

theorem sendFeedback_lastFlushpos (s : ApplyWork) (recvpos : ℕ) (now : ℤ) (force : Bool) :
    s.lastFlushpos ≤ (sendFeedback s recvpos now force).1.lastFlushpos := by
  unfold sendFeedback
  dsimp only
  split
  · exact le_rfl
  · exact le_max_right _ _

theorem applyWorkStep_lastFlushpos (s : ApplyWork) (event : Event) :
    s.lastFlushpos ≤ (applyWorkStep s event).1.lastFlushpos := by
  cases event with
  | data startLsn endLsn => exact le_rfl
  | commit startLsn endLsn remoteEnd localEnd => cases localEnd <;> exact le_rfl
  | keepalive endpos replyRequested now => exact sendFeedback_lastFlushpos ..
  | idle now => exact sendFeedback_lastFlushpos ..
  | flush upto => exact le_rfl

theorem applyWorkStep_flush {s : ApplyWork} {event : Event} {update : StatusUpdate}
    (sent : (applyWorkStep s event).2 = some update) :
    update.flush = (applyWorkStep s event).1.lastFlushpos ∧ s.lastFlushpos ≤ update.flush := by
  cases event with
  | data startLsn endLsn => cases sent
  | commit startLsn endLsn remoteEnd localEnd => cases sent
  | keepalive endpos replyRequested now => exact sendFeedback_flush sent
  | idle now => exact sendFeedback_flush sent
  | flush upto => cases sent

/-- An event that sends an update is a check, which keeps every unflushed commit. -/
theorem step_keeps_unflushed {s : ApplyWork} {o : Outstanding} {event : Event} {update : StatusUpdate}
    (sent : (applyWorkStep s event).2 = some update) {c : PGLFlushPosition} (waiting : c ∈ o.commits)
    (unflushed : o.localFlush < c.localEnd) : c ∈ (o.step event).commits := by
  have kept : c ∈ o.check.commits := List.mem_filter.mpr ⟨waiting, decide_eq_true unflushed⟩
  cases event with
  | data startLsn endLsn => cases sent
  | commit startLsn endLsn remoteEnd localEnd => cases sent
  | keepalive endpos replyRequested now => exact kept
  | idle now => exact kept
  | flush upto => cases sent

/-- The reported positions never decrease, whatever the stream looks like. -/
theorem statusUpdates_sorted (s : ApplyWork) (events : List Event) :
    (∀ update ∈ statusUpdates s events, s.lastFlushpos ≤ update.flush) ∧
      (statusUpdates s events).Pairwise fun a b => a.flush ≤ b.flush := by
  induction events generalizing s with
  | nil =>
    refine ⟨?_, .nil⟩
    intro update member
    cases member
  | cons event rest ih =>
    obtain ⟨floor, sorted⟩ := ih (applyWorkStep s event).1
    have later : ∀ update ∈ statusUpdates (applyWorkStep s event).1 rest, s.lastFlushpos ≤ update.flush :=
      fun update member => le_trans (applyWorkStep_lastFlushpos s event) (floor update member)
    rw [statusUpdates]
    cases sent : (applyWorkStep s event).2 with
    | none => exact ⟨later, sorted⟩
    | some update =>
      obtain ⟨reported, atLeast⟩ := applyWorkStep_flush sent
      refine ⟨?_, List.pairwise_cons.mpr ⟨?_, sorted⟩⟩
      · intro other member
        rcases List.mem_cons.mp member with rfl | member
        · exact atLeast
        · exact later other member
      · intro other member
        rw [reported]
        exact floor other member

/-- In every run: reported flush positions never decrease, no update reaches the end of a remote
transaction with an unflushed local commit, and the list holds exactly the commits that no call
has found flushed. -/
theorem feedback_confirms_only_flushed (localFlush : ℕ) (events : List Event) (order : StreamOrder events) :
    ((statusUpdates (.init localFlush) events).Pairwise fun a b => a.flush ≤ b.flush) ∧
    (∀ past event future, events = past ++ event :: future →
      ∀ update ∈ (applyWorkStep (applyWork (.init localFlush) past) event).2,
      ∀ c ∈ past.filterMap Event.localCommit?,
        (applyWork (.init localFlush) past).localFlush < c.localEnd → update.flush < c.remoteEnd) ∧
    (∀ past future, events = past ++ future →
      (applyWork (.init localFlush) past).lsnMapping = (outstanding ⟨localFlush, []⟩ past).commits) := by
  refine ⟨(statusUpdates_sorted _ events).2, ?_, ?_⟩
  · rintro past event future rfl update sent c member unflushed
    have tracks := applyWork_tracks past order (Tracks.init localFlush order)
    have waiting : c ∈ (outstanding ⟨localFlush, []⟩ past).commits := by
      rcases outstanding_or_flushed ⟨localFlush, []⟩ past c (.inr (.inr member)) with waiting | flushed
      · exact waiting
      · rw [tracks.localFlush] at unflushed
        omega
    have after := applyWorkStep_tracks order.suffix tracks
    rw [(applyWorkStep_flush sent).1]
    apply after.reported
    rw [after.mapping]
    exact step_keeps_unflushed sent waiting (tracks.localFlush ▸ unflushed)
  · rintro past future rfl
    exact (applyWork_tracks past order (Tracks.init localFlush order)).mapping

/-- Two transactions of which only the first is flushed when the second update is sent. -/
theorem feedback_confirms_only_flushed_two :
    let events : List Event := [.data 10 10, .commit 12 14 14 (some 7), .keepalive 20 true 0, .flush 7,
      .data 21 21, .commit 25 30 30 (some 9), .idle 1]
    StreamOrder events ∧ (statusUpdates (.init 5) events).map StatusUpdate.flush = [0, 14] ∧
      (applyWork (.init 5) events).lsnMapping = [⟨9, 30⟩] ∧
      (statusUpdates (.init 5) events).Pairwise fun a b => a.flush ≤ b.flush := by
  intro events
  have order : StreamOrder events := by
    constructor <;> decide
  exact ⟨order, by decide, by decide, (feedback_confirms_only_flushed 5 events order).1⟩

end PGLogical.Feedback
