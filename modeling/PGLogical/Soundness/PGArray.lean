import PGLogical.Machine.Fallible
import PGLogical.Model.PGArray

/-! # Reading an array is safe and undoes writing it

Every string and every pointer that `parsePGArray` writes has been paid for by a byte of the text that has
been passed, so both stay inside the allocation, and no loop goes round without passing a byte or ending.
What PostgreSQL prints for a list of strings is read back as that list.
-/

namespace PGLogical.PGArray

open Wire (Bytes CString comma quotationMark backslash)

variable {value : ResultValue}

/-! ## One round -/

theorem read_eq {index : ℕ} {c : UInt8} {rest : Bytes} (ahead : value.text.terminated.drop index = c :: rest) :
    value.read index = .ok c ∧ value.text.terminated.drop (index + 1) = rest := by
  have here : value.text.terminated[index]? = some c := by
    rw [← List.head?_drop, ahead]
    rfl
  refine ⟨by rw [ResultValue.read, here], ?_⟩
  rw [← List.tail_drop, ahead]
  rfl

/-- Up to the terminator there is something to read, and it is not zero before. -/
theorem exists_read {index : ℕ} (inside : index ≤ value.inputlen) :
    ∃ c, value.read index = .ok c ∧ (c ≠ 0 → index < value.inputlen) := by
  unfold ResultValue.read CString.terminated
  by_cases before : index < value.inputlen
  · have there : index < value.text.val.length := before
    refine ⟨value.text.val[index], ?_, fun _ => before⟩
    rw [List.getElem?_append_left there, List.getElem?_eq_getElem there]
  · have last : index = value.text.val.length := Nat.le_antisymm inside (Nat.not_lt.mp before)
    refine ⟨0, ?_, fun nonzero => absurd rfl nonzero⟩
    rw [last, List.getElem?_append_right (Nat.le_refl _), Nat.sub_self]
    rfl

theorem storeChar_eq {buffer : Buffer} (room : buffer.strings.length < value.inputlen) (c : UInt8) :
    value.storeChar buffer c = .ok { buffer with strings := buffer.strings ++ [c] } := if_pos room

theorem of_storeChar {buffer after : Buffer} {c : UInt8} (stored : value.storeChar buffer c = .ok after) :
    after = { buffer with strings := buffer.strings ++ [c] } := by
  rw [ResultValue.storeChar] at stored
  split at stored
  · exact (Except.ok.inj stored).symm
  · cases stored

theorem of_storeItem {buffer after : Buffer} (stored : value.storeItem buffer = .ok after) :
    after = { buffer with items := buffer.items ++ [buffer.strings.length] } := by
  rw [ResultValue.storeItem] at stored
  split at stored
  · exact (Except.ok.inj stored).symm
  · cases stored

theorem ok_bind {α β : Type} (a : α) (next : α → Except Fault β) : (Except.ok a >>= next) = next a := rfl

section Rounds

variable {index : ℕ} {buffer : Buffer} {c : UInt8}

theorem step_failed (loop : Loop) (here : value.read index = .ok 0) :
    step value ⟨loop, index, buffer⟩ = .ok buffer.failed := by
  cases loop <;> simp only [step, here, ok_bind] <;> rfl

theorem step_items_end (here : value.read index = .ok rightBrace) (behind : value.read (index + 1) = .ok 0) :
    step value ⟨.items, index, buffer⟩ = .ok (.inr ⟨true, buffer.items.length, some buffer⟩) := by
  simp only [step, here, behind, ok_bind]
  rfl

theorem step_items_embedded (here : value.read index = .ok rightBrace) (behind : value.read (index + 1) = .ok c)
    (more : c ≠ 0) : step value ⟨.items, index, buffer⟩ = .ok buffer.failed := by
  simp only [step, here, behind, ok_bind, if_pos more]
  rfl

theorem step_items_item (here : value.read index = .ok c) (more : c ≠ 0) (open_list : c ≠ rightBrace) :
    step value ⟨.items, index, buffer⟩ =
      (value.storeItem buffer >>= fun after => .ok (.inl ⟨.item, index, after⟩)) := by
  simp only [step, here, ok_bind, if_neg more, if_neg open_list]
  rfl

theorem step_item_end (here : value.read index = .ok c) (ends : c = rightBrace ∨ c = comma) :
    step value ⟨.item, index, buffer⟩ = (value.storeChar buffer 0 >>= fun after =>
      .ok (.inl ⟨.items, if c = comma then index + 1 else index, after⟩)) := by
  have closed : ¬ (c ≠ rightBrace ∧ c ≠ comma) := by tauto
  simp only [step, here, ok_bind, if_neg closed]
  rfl

theorem step_item_quote (here : value.read index = .ok quotationMark) :
    step value ⟨.item, index, buffer⟩ = .ok (.inl ⟨.quoted, index + 1, buffer⟩) := by
  simp only [step, here, ok_bind]
  rfl

theorem step_item_char (here : value.read index = .ok c) (more : c ≠ 0) (plain : c ≠ quotationMark)
    (open_item : c ≠ rightBrace ∧ c ≠ comma) : step value ⟨.item, index, buffer⟩ =
      (value.storeChar buffer c >>= fun after => .ok (.inl ⟨.item, index + 1, after⟩)) := by
  simp only [step, here, ok_bind, if_pos open_item, if_neg more, if_pos plain]
  rfl

theorem step_quoted_end (here : value.read index = .ok quotationMark) :
    step value ⟨.quoted, index, buffer⟩ = .ok (.inl ⟨.item, index + 1, buffer⟩) := by
  simp only [step, here, ok_bind]
  rfl

theorem step_quoted_cut (here : value.read index = .ok backslash) (behind : value.read (index + 1) = .ok 0) :
    step value ⟨.quoted, index, buffer⟩ = .ok buffer.failed := by
  simp only [step, here, behind, ok_bind]
  rfl

theorem step_quoted_escape (here : value.read index = .ok backslash) (behind : value.read (index + 1) = .ok c)
    (more : c ≠ 0) : step value ⟨.quoted, index, buffer⟩ =
      (value.storeChar buffer c >>= fun after => .ok (.inl ⟨.quoted, index + 2, after⟩)) := by
  simp only [step, here, behind, ok_bind, if_neg more]
  rfl

theorem step_quoted_char (here : value.read index = .ok c) (more : c ≠ 0) (plain : c ≠ quotationMark)
    (unescaped : c ≠ backslash) : step value ⟨.quoted, index, buffer⟩ =
      (value.storeChar buffer c >>= fun after => .ok (.inl ⟨.quoted, index + 1, after⟩)) := by
  simp only [step, here, ok_bind, if_neg more, if_pos plain, if_neg unescaped]
  rfl

end Rounds

/-! ## Safety -/

/-- Every pointer leads to a string that is terminated inside the allocation. -/
def Buffer.Terminated (buffer : Buffer) : Prop :=
  ∀ first ∈ buffer.items, ∃ last, first ≤ last ∧ buffer.strings[last]? = some 0

/-- Between two rounds. At the brace that ends the list the last terminator has not been paid for. -/
structure Inv (value : ResultValue) (state : State) : Prop where
  inText : state.atext ≤ value.inputlen
  items : state.buffer.items.length < value.inputlen
  strings : state.buffer.strings.length < state.atext ∨
    state.loop = .items ∧ value.read state.atext = .ok rightBrace ∧ state.buffer.strings.length ≤ state.atext
  passed : state.buffer.items.length ≤ state.atext
  opens : state.loop = .items → state.buffer.items.length < state.atext ∨ value.read state.atext = .ok rightBrace
  started : ∀ first ∈ state.buffer.items, first ≤ state.buffer.strings.length
  terminated : state.loop = .items → state.buffer.Terminated

/-- What may be said of every result. -/
structure WithinAllocation (value : ResultValue) (parsed : Parsed) : Prop where
  items : ∀ buffer, parsed.itemarray = some buffer → buffer.items.length < value.inputlen
  strings : ∀ buffer, parsed.itemarray = some buffer → buffer.strings.length ≤ value.inputlen
  returned : parsed.success = true →
    ∃ buffer, parsed.itemarray = some buffer ∧ parsed.nitems = buffer.items.length ∧ buffer.Terminated
  failed : parsed.success = false → parsed.nitems = 0

/-- Of the rounds that pass no byte, how many can follow. -/
def phase (value : ResultValue) (state : State) : ℕ :=
  match state.loop with
  | .items => if value.read state.atext = .ok rightBrace then 0 else 2
  | .item => 1
  | .quoted => 0

def measure (value : ResultValue) (state : State) : ℕ := 3 * (value.inputlen + 1 - state.atext) + phase value state

theorem phase_le (value : ResultValue) (state : State) : phase value state ≤ 2 := by
  unfold phase
  split
  · split <;> omega
  · omega
  · omega

theorem measure_lt {state next : State} (inText : state.atext ≤ value.inputlen) (passed : state.atext < next.atext) :
    measure value next < measure value state := by
  have bound := phase_le value next
  unfold measure
  omega

/-- A round goes on with the invariant and a smaller measure, or ends with a good result. -/
def GoesOn (value : ResultValue) (state : State) : Prop :=
  (∃ next, step value state = .ok (.inl next) ∧ Inv value next ∧ measure value next < measure value state) ∨
    ∃ parsed, step value state = .ok (.inr parsed) ∧ WithinAllocation value parsed

section Safety

variable {index : ℕ} {buffer : Buffer} {c : UInt8}

theorem Inv.strings_le {state : State} (inv : Inv value state) :
    state.buffer.strings.length ≤ value.inputlen := by
  have inText := inv.inText
  obtain less | ⟨-, -, le⟩ := inv.strings <;> omega

theorem Inv.strings_lt {state : State} (inv : Inv value state) (inner : state.loop ≠ .items) :
    state.buffer.strings.length < state.atext := by
  obtain less | ⟨outer, -⟩ := inv.strings
  · exact less
  · exact absurd outer inner

theorem Inv.fails {state : State} (inv : Inv value state) (stopped : step value state = .ok state.buffer.failed) :
    GoesOn value state := by
  refine .inr ⟨_, stopped, ?_, ?_, ?_, fun _ => rfl⟩
  · rintro buffer ⟨⟩
    exact inv.items
  · rintro buffer ⟨⟩
    exact inv.strings_le
  · intro success
    cases success

/-- A byte of the current item has been copied. -/
theorem Inv.copied {loop : Loop} (inner : loop ≠ .items) (inv : Inv value ⟨loop, index, buffer⟩) {further : ℕ}
    (passed : index < further) (inText : further ≤ value.inputlen)
    (taken : step value ⟨loop, index, buffer⟩ =
      (value.storeChar buffer c >>= fun after => .ok (.inl ⟨loop, further, after⟩))) :
    GoesOn value ⟨loop, index, buffer⟩ := by
  have room := inv.strings_lt inner
  have before := inv.inText
  dsimp only at room before
  rw [storeChar_eq (Nat.lt_of_lt_of_le room before), ok_bind] at taken
  refine .inl ⟨_, taken, ⟨inText, inv.items, .inl ?_, ?_, ?_, ?_, ?_⟩, measure_lt before passed⟩
  · rw [List.length_append, List.length_singleton]
    exact Nat.lt_of_le_of_lt (Nat.succ_le_of_lt room) passed
  · exact Nat.le_trans inv.passed passed.le
  · exact fun outer => absurd outer inner
  · intro first member
    rw [List.length_append]
    exact Nat.le_add_right_of_le (inv.started first member)
  · exact fun outer => absurd outer inner

/-- The program enters or leaves a quoted part. -/
theorem Inv.turns {loop next : Loop} (inner : loop ≠ .items) (turned : next ≠ .items)
    (inv : Inv value ⟨loop, index, buffer⟩) (inText : index < value.inputlen)
    (taken : step value ⟨loop, index, buffer⟩ = .ok (.inl ⟨next, index + 1, buffer⟩)) :
    GoesOn value ⟨loop, index, buffer⟩ :=
  .inl ⟨_, taken,
    ⟨inText, inv.items, .inl (Nat.lt_succ_of_lt (inv.strings_lt inner)), Nat.le_succ_of_le inv.passed,
      fun outer => absurd outer turned, inv.started, fun outer => absurd outer turned⟩,
    measure_lt inv.inText (Nat.lt_succ_self index)⟩

theorem goesOn_quoted (inv : Inv value ⟨.quoted, index, buffer⟩) : GoesOn value ⟨.quoted, index, buffer⟩ := by
  obtain ⟨c, here, before⟩ := exists_read inv.inText
  by_cases ended : c = 0
  · subst ended
    exact inv.fails (step_failed .quoted here)
  have inText := before ended
  by_cases quote : c = quotationMark
  · subst quote
    exact inv.turns (by decide) (by decide) inText (step_quoted_end here)
  by_cases escape : c = backslash
  · subst escape
    obtain ⟨escaped, behind, before⟩ := exists_read (Nat.succ_le_of_lt inText)
    by_cases cut : escaped = 0
    · subst cut
      exact inv.fails (step_quoted_cut here behind)
    · exact inv.copied (by decide) (Nat.lt_add_of_pos_right Nat.two_pos) (before cut)
        (step_quoted_escape here behind cut)
  · exact inv.copied (by decide) (Nat.lt_succ_self index) inText (step_quoted_char here ended quote escape)

/-- The item is terminated at the end of what has been written. -/
theorem Inv.ended (inv : Inv value ⟨.item, index, buffer⟩) (here : value.read index = .ok c)
    (inText : index < value.inputlen) (ends : c = rightBrace ∨ c = comma) : GoesOn value ⟨.item, index, buffer⟩ := by
  have room := inv.strings_lt Loop.noConfusion
  have few := inv.passed
  dsimp only at room few
  have taken : step value ⟨.item, index, buffer⟩ = _ := step_item_end here ends
  rw [storeChar_eq (Nat.lt_trans room inText), ok_bind] at taken
  refine .inl ⟨_, taken, ⟨?_, inv.items, ?_, ?_, fun _ => ?_, ?_, fun _ => ?_⟩, ?_⟩
  · dsimp only
    split <;> omega
  · rw [List.length_append, List.length_singleton]
    by_cases separated : c = comma
    · rw [if_pos separated]
      exact .inl (Nat.succ_lt_succ room)
    · rw [if_neg separated]
      obtain rfl := ends.resolve_right separated
      exact .inr ⟨rfl, here, room⟩
  · dsimp only
    split <;> omega
  · by_cases separated : c = comma
    · rw [if_pos separated]
      exact .inl (Nat.lt_succ_of_le few)
    · rw [if_neg separated]
      obtain rfl := ends.resolve_right separated
      exact .inr here
  · intro first member
    rw [List.length_append]
    exact Nat.le_add_right_of_le (inv.started first member)
  · intro first member
    exact ⟨buffer.strings.length, inv.started first member, by simp⟩
  · by_cases separated : c = comma
    · rw [if_pos separated]
      exact measure_lt inv.inText (Nat.lt_succ_self index)
    · rw [if_neg separated]
      obtain rfl := ends.resolve_right separated
      simp [measure, phase, here]

theorem goesOn_item (inv : Inv value ⟨.item, index, buffer⟩) : GoesOn value ⟨.item, index, buffer⟩ := by
  obtain ⟨c, here, before⟩ := exists_read inv.inText
  by_cases ended : c = 0
  · subst ended
    exact inv.fails (step_failed .item here)
  have inText := before ended
  by_cases ends : c = rightBrace ∨ c = comma
  · exact inv.ended here inText ends
  have open_item := not_or.mp ends
  by_cases quote : c = quotationMark
  · subst quote
    exact inv.turns (by decide) (by decide) inText (step_item_quote here)
  · exact inv.copied (by decide) (Nat.lt_succ_self index) inText (step_item_char here ended quote open_item)

/-- A pointer is stored at a byte that has not been passed. -/
theorem Inv.opened (inv : Inv value ⟨.items, index, buffer⟩) (here : value.read index = .ok c)
    (inText : index < value.inputlen) (more : c ≠ 0) (open_list : c ≠ rightBrace) :
    GoesOn value ⟨.items, index, buffer⟩ := by
  have not_end : value.read index ≠ .ok rightBrace := by
    rw [here]
    exact fun same => open_list (Except.ok.inj same)
  have few := (inv.opens rfl).resolve_right not_end
  have room := inv.strings.resolve_right fun ends => not_end ends.2.1
  dsimp only at few room
  have taken : step value ⟨.items, index, buffer⟩ = _ := step_items_item here more open_list
  rw [ResultValue.storeItem, if_pos inv.items, ok_bind] at taken
  refine .inl ⟨_, taken, ⟨inv.inText, ?_, .inl room, ?_, ?_, ?_, ?_⟩, ?_⟩
  · rw [List.length_append, List.length_singleton]
    omega
  · rw [List.length_append, List.length_singleton]
    exact few
  · intro outer
    cases outer
  · intro first member
    obtain earlier | rfl := List.mem_append.mp member |>.imp_right List.mem_singleton.mp
    · exact inv.started first earlier
    · exact Nat.le_refl _
  · intro outer
    cases outer
  · simp [measure, phase, not_end]

theorem goesOn_items (inv : Inv value ⟨.items, index, buffer⟩) : GoesOn value ⟨.items, index, buffer⟩ := by
  obtain ⟨c, here, before⟩ := exists_read inv.inText
  by_cases ended : c = 0
  · subst ended
    exact inv.fails (step_failed .items here)
  have inText := before ended
  by_cases close : c = rightBrace
  · subst close
    obtain ⟨behind, read, -⟩ := exists_read (Nat.succ_le_of_lt inText)
    by_cases last : behind = 0
    · subst last
      refine .inr ⟨_, step_items_end here read, ?_, ?_, fun _ => ⟨buffer, rfl, rfl, inv.terminated rfl⟩, ?_⟩
      · rintro _ ⟨⟩
        exact inv.items
      · rintro _ ⟨⟩
        exact inv.strings_le
      · intro failed
        cases failed
    · exact inv.fails (step_items_embedded here read last)
  · exact inv.opened here inText ended close

end Safety

theorem goesOn {state : State} (inv : Inv value state) : GoesOn value state := by
  obtain ⟨loop, index, buffer⟩ := state
  cases loop with
  | items => exact goesOn_items inv
  | item => exact goesOn_item inv
  | quoted => exact goesOn_quoted inv

theorem two_le_inputlen (braced : value.braced = true) : 2 ≤ value.inputlen := by
  simp only [ResultValue.braced, Bool.and_eq_true, decide_eq_true_eq] at braced
  exact braced.1.1

theorem inv_start (braced : value.braced = true) : Inv value start := by
  have long := two_le_inputlen braced
  refine ⟨?_, ?_, .inl (by decide), by decide, fun _ => .inl (by decide), ?_, fun _ => ?_⟩
  · exact Nat.le_of_succ_le long
  · exact Nat.lt_of_lt_of_le (by decide) long
  · intro first member
    cases member
  · intro first member
    cases member

/-- It returns, without a fault, and stays inside what it has allocated. -/
theorem parsePGArray_within (value : ResultValue) (malloc : Bool) :
    ∃ parsed, parsePGArray value malloc = some (.ok parsed) ∧ WithinAllocation value parsed := by
  unfold parsePGArray
  by_cases refused : (!value.braced || !malloc) = true
  · rw [if_pos refused]
    refine ⟨_, rfl, ?_, ?_, ?_, fun _ => rfl⟩
    · intro buffer allocated
      cases allocated
    · intro buffer allocated
      cases allocated
    · intro success
      cases success
  · rw [if_neg refused]
    have braced : value.braced = true := by
      cases same : value.braced
      · simp [same] at refused
      · rfl
    refine Machine.loop_of_measure (measure value) (fun state inv => goesOn inv) (inv_start braced) ?_
    have long := two_le_inputlen braced
    have bound := phase_le value start
    unfold measure
    simp only [start] at bound ⊢
    omega

/-! ## What PostgreSQL prints -/

def arrayIsspace (ch : UInt8) : Bool := ch = 32 || 9 ≤ ch && ch ≤ 13

/-- An element in quotes, with a backslash before each quotation mark and backslash. -/
def escapeElement : Bytes → Bytes
  | [] => []
  | ch :: rest =>
      if ch = quotationMark ∨ ch = backslash then backslash :: ch :: escapeElement rest else ch :: escapeElement rest

/-- `needquotes` of `array_out`: the element is empty, reads as NULL or has a special byte. -/
def needsQuotes (locale : Wire.Locale) (element : Bytes) : Bool :=
  element.isEmpty || element.map locale.downcase == (Wire.ascii "NULL").map locale.downcase ||
    element.any fun ch => ch = quotationMark || ch = backslash || ch = leftBrace || ch = rightBrace || ch = comma ||
      arrayIsspace ch

def printElement (locale : Wire.Locale) (element : Bytes) : Bytes :=
  if needsQuotes locale element then quotationMark :: escapeElement element ++ [quotationMark] else element

/-- `array_out` for the elements of a one-dimensional array without NULLs. -/
def arrayOut (locale : Wire.Locale) (elements : List CString) : Bytes :=
  leftBrace :: [comma].intercalate (elements.map fun element => printElement locale element.val) ++ [rightBrace]

/-! ## Reading it back -/

/-- The allocation with one more string. -/
def Buffer.append (buffer : Buffer) (element : CString) : Buffer :=
  ⟨buffer.items ++ [buffer.strings.length], buffer.strings ++ element.terminated⟩

/-- The pointers lead to these strings, whatever is written behind them. -/
def Buffer.Holds (buffer : Buffer) (elements : List CString) : Prop :=
  ∀ behind, buffer.items.map (fun first => CString.ofBytes ((buffer.strings ++ behind).drop first)) = elements

theorem Buffer.Holds.append {buffer : Buffer} {elements : List CString} (holds : buffer.Holds elements)
    (element : CString) : (buffer.append element).Holds (elements ++ [element]) := by
  intro behind
  rw [Buffer.append, List.map_append, List.map_singleton, List.append_assoc, holds (element.terminated ++ behind),
    List.drop_left, CString.ofBytes_terminated]

theorem Buffer.Holds.foldl {buffer : Buffer} {elements : List CString} (holds : buffer.Holds elements)
    (further : List CString) : (further.foldl Buffer.append buffer).Holds (elements ++ further) := by
  induction further generalizing buffer elements with
  | nil => rwa [List.append_nil]
  | cons element further ih =>
    have rest := ih (holds.append element)
    rwa [List.append_assoc] at rest

theorem Buffer.Holds.length {buffer : Buffer} {elements : List CString} (holds : buffer.Holds elements) :
    buffer.items.length = elements.length := by
  have same := congrArg List.length (holds [])
  rwa [List.length_map] at same

section ReadBack

variable {index : ℕ} {items : List ℕ} {strings rest : Bytes} {c : UInt8} {parsed : Parsed}

/-- A stored byte and where the program goes on. -/
theorem returns_store {state : State} {index : ℕ} {loop : Loop} (returns : Machine.Returns (step value) state parsed)
    (taken : step value state =
      (value.storeChar state.buffer c >>= fun after => .ok (.inl ⟨loop, index, after⟩))) :
    Machine.Returns (step value)
      ⟨loop, index, ⟨state.buffer.items, state.buffer.strings ++ [c]⟩⟩ parsed := by
  refine returns.next fun outcome ran => ?_
  rw [taken] at ran
  obtain ⟨after, stored, done⟩ := Machine.bind_eq_ok.1 ran
  obtain rfl := of_storeChar stored
  exact (Except.ok.inj done).symm

/-- The text of an item that needs no quotes is copied. -/
theorem returns_plain {element : Bytes}
    (plain : ∀ ch ∈ element, ch ≠ 0 ∧ ch ≠ quotationMark ∧ ch ≠ rightBrace ∧ ch ≠ comma)
    (ahead : value.text.terminated.drop index = element ++ rest)
    (returns : Machine.Returns (step value) ⟨.item, index, ⟨items, strings⟩⟩ parsed) :
    Machine.Returns (step value) ⟨.item, index + element.length, ⟨items, strings ++ element⟩⟩ parsed := by
  induction element generalizing index strings with
  | nil => simpa using returns
  | cons ch element ih =>
    obtain ⟨here, behind⟩ := read_eq ahead
    obtain ⟨⟨more, unquoted, open_list, open_item⟩, plain⟩ := List.forall_mem_cons.mp plain
    have stored := returns_store returns (step_item_char here more unquoted ⟨open_list, open_item⟩)
    have copied := ih plain behind stored
    rw [List.append_assoc, List.singleton_append] at copied
    rw [List.length_cons, ← Nat.add_assoc, Nat.add_right_comm]
    exact copied

/-- Between quotes the backslashes go. -/
theorem returns_quoted {element : Bytes} (nonzero : ∀ ch ∈ element, ch ≠ 0)
    (ahead : value.text.terminated.drop index = escapeElement element ++ quotationMark :: rest)
    (returns : Machine.Returns (step value) ⟨.quoted, index, ⟨items, strings⟩⟩ parsed) :
    Machine.Returns (step value) ⟨.item, index + (escapeElement element).length + 1, ⟨items, strings ++ element⟩⟩
      parsed := by
  induction element generalizing index strings with
  | nil =>
    obtain ⟨here, -⟩ := read_eq ahead
    rw [List.append_nil]
    refine returns.next fun outcome ran => ?_
    rw [step_quoted_end here] at ran
    exact (Except.ok.inj ran).symm
  | cons ch element ih =>
    obtain ⟨more, nonzero⟩ := List.forall_mem_cons.mp nonzero
    rw [escapeElement] at ahead ⊢
    by_cases special : ch = quotationMark ∨ ch = backslash
    · rw [if_pos special] at ahead ⊢
      obtain ⟨here, behind⟩ := read_eq ahead
      obtain ⟨escaped, behind⟩ := read_eq behind
      have stored := returns_store returns (step_quoted_escape here escaped more)
      have copied := ih nonzero behind stored
      rw [List.append_assoc, List.singleton_append] at copied
      have passed : index + (backslash :: ch :: escapeElement element).length + 1 =
          index + 2 + (escapeElement element).length + 1 := by
        simp only [List.length_cons]
        omega
      rw [passed]
      exact copied
    · rw [if_neg special] at ahead ⊢
      obtain ⟨here, behind⟩ := read_eq ahead
      obtain ⟨plain, unescaped⟩ := not_or.mp special
      have stored := returns_store returns (step_quoted_char here more plain unescaped)
      have copied := ih nonzero behind stored
      rw [List.append_assoc, List.singleton_append] at copied
      have passed : index + (ch :: escapeElement element).length + 1 =
          index + 1 + (escapeElement element).length + 1 := by
        simp only [List.length_cons]
        omega
      rw [passed]
      exact copied

theorem drop_append {front behind : Bytes} (ahead : value.text.terminated.drop index = front ++ behind) :
    value.text.terminated.drop (index + front.length) = behind := by
  rw [← List.drop_drop, ahead, List.drop_left]

variable {locale : Wire.Locale} {element : CString}

theorem plain_of_not_needsQuotes (unquoted : needsQuotes locale element.val = false) :
    element.val ≠ [] ∧ ∀ ch ∈ element.val, ch ≠ 0 ∧ ch ≠ quotationMark ∧ ch ≠ rightBrace ∧ ch ≠ comma := by
  simp only [needsQuotes, Bool.or_eq_false_iff, List.isEmpty_eq_false_iff, List.any_eq_false,
    decide_eq_true_eq, Bool.or_eq_true, not_or] at unquoted
  refine ⟨unquoted.1.1, fun ch inside => ?_⟩
  obtain ⟨⟨⟨⟨⟨quote, -⟩, -⟩, brace⟩, separator⟩, -⟩ := unquoted.2 ch inside
  exact ⟨fun zero => element.property (zero ▸ inside), quote, brace, separator⟩

/-- No element starts like the end of the list. -/
theorem exists_printElement (locale : Wire.Locale) (element : CString) :
    ∃ ch rest, printElement locale element.val = ch :: rest ∧ ch ≠ 0 ∧ ch ≠ rightBrace := by
  cases quoted : needsQuotes locale element.val with
  | true =>
    rw [printElement, if_pos quoted]
    exact ⟨quotationMark, _, rfl, by decide, by decide⟩
  | false =>
    obtain ⟨nonempty, plain⟩ := plain_of_not_needsQuotes quoted
    obtain ⟨ch, rest, shape⟩ := List.exists_cons_of_ne_nil nonempty
    have first := plain ch (by rw [shape]; exact List.mem_cons_self)
    rw [printElement, if_neg (by rw [quoted]; exact Bool.false_ne_true)]
    exact ⟨ch, rest, shape, first.1, first.2.2.1⟩

/-- From the start of an element to its end. -/
theorem returns_printElement (ahead : value.text.terminated.drop index = printElement locale element.val ++ rest)
    (returns : Machine.Returns (step value) ⟨.item, index, ⟨items, strings⟩⟩ parsed) :
    Machine.Returns (step value)
      ⟨.item, index + (printElement locale element.val).length, ⟨items, strings ++ element.val⟩⟩ parsed := by
  cases quoted : needsQuotes locale element.val with
  | true =>
    rw [printElement, if_pos quoted] at ahead
    obtain ⟨here, behind⟩ := read_eq ahead
    have content : value.text.terminated.drop (index + 1) = escapeElement element.val ++ quotationMark :: rest :=
      behind.trans (List.append_assoc _ _ _)
    have opened : Machine.Returns (step value) ⟨.quoted, index + 1, ⟨items, strings⟩⟩ parsed := by
      refine returns.next fun outcome ran => ?_
      rw [step_item_quote here] at ran
      exact (Except.ok.inj ran).symm
    have copied := returns_quoted (fun ch inside zero => element.property (zero ▸ inside)) content opened
    have passed : index + (printElement locale element.val).length =
        index + 1 + (escapeElement element.val).length + 1 := by
      rw [printElement, if_pos quoted]
      simp only [List.length_cons, List.length_append, List.length_nil]
      omega
    rw [passed]
    exact copied
  | false =>
    have unquoted : ¬ needsQuotes locale element.val = true := by
      rw [quoted]
      exact Bool.false_ne_true
    rw [printElement, if_neg unquoted] at ahead ⊢
    exact returns_plain (plain_of_not_needsQuotes quoted).2 ahead returns

/-- One element, with the byte that ends it. -/
theorem returns_element {buffer : Buffer} (ends : c = rightBrace ∨ c = comma)
    (ahead : value.text.terminated.drop index = printElement locale element.val ++ c :: rest)
    (returns : Machine.Returns (step value) ⟨.items, index, buffer⟩ parsed) :
    ∃ further, Machine.Returns (step value) ⟨.items, further, buffer.append element⟩ parsed ∧
      value.text.terminated.drop further = if c = comma then rest else c :: rest := by
  have opened : Machine.Returns (step value)
      ⟨.item, index, ⟨buffer.items ++ [buffer.strings.length], buffer.strings⟩⟩ parsed := by
    obtain ⟨ch, more, shape, nonzero, open_list⟩ := exists_printElement locale element
    rw [shape, List.cons_append] at ahead
    refine returns.next fun outcome ran => ?_
    rw [step_items_item (read_eq ahead).1 nonzero open_list] at ran
    obtain ⟨after, stored, done⟩ := Machine.bind_eq_ok.1 ran
    obtain rfl := of_storeItem stored
    exact (Except.ok.inj done).symm
  have copied := returns_printElement ahead opened
  have behind := drop_append ahead
  obtain ⟨here, next⟩ := read_eq behind
  have closed := returns_store copied (step_item_end here ends)
  rw [List.append_assoc] at closed
  refine ⟨_, closed, ?_⟩
  by_cases separated : c = comma
  · rw [if_pos separated, if_pos separated]
    exact next
  · rw [if_neg separated, if_neg separated]
    exact behind

theorem returns_close {buffer : Buffer} (ahead : value.text.terminated.drop index = [rightBrace, 0])
    (returns : Machine.Returns (step value) ⟨.items, index, buffer⟩ parsed) :
    parsed = ⟨true, buffer.items.length, some buffer⟩ := by
  obtain ⟨here, behind⟩ := read_eq ahead
  refine returns.finish fun outcome ran => ?_
  rw [step_items_end here (read_eq behind).1] at ran
  exact (Except.ok.inj ran).symm

/-- All the elements, one after the other. -/
theorem returns_elements {elements : List CString} {buffer : Buffer}
    (ahead : value.text.terminated.drop index =
      [comma].intercalate (elements.map fun element => printElement locale element.val) ++ [rightBrace, 0])
    (returns : Machine.Returns (step value) ⟨.items, index, buffer⟩ parsed) :
    parsed = ⟨true, (elements.foldl Buffer.append buffer).items.length,
      some (elements.foldl Buffer.append buffer)⟩ := by
  induction elements generalizing index buffer with
  | nil => exact returns_close ahead returns
  | cons element elements ih =>
    cases elements with
    | nil =>
      rw [List.map_singleton, List.intercalate_singleton] at ahead
      obtain ⟨further, rest, behind⟩ := returns_element (.inl rfl) ahead returns
      exact returns_close behind rest
    | cons next elements =>
      rw [List.map_cons, List.map_cons, List.intercalate_cons_cons, List.append_assoc, List.append_assoc,
        List.singleton_append] at ahead
      obtain ⟨further, rest, behind⟩ := returns_element (.inr rfl) ahead returns
      exact ih behind rest

end ReadBack

/-- Text that is read back as these strings. -/
structure ReadsAs (value : ResultValue) (elements : List CString) : Prop where
  parses : ∃ parsed, parsePGArray value true = some (.ok parsed) ∧ parsed.success = true ∧
    parsed.nitems = elements.length ∧ parsed.strings = elements
  attnames : remoteAttnames value true = some (.ok (.ok elements))

theorem braced_arrayOut {locale : Wire.Locale} {elements : List CString}
    (printed : value.text.val = arrayOut locale elements) : value.braced = true := by
  have length : value.inputlen = (arrayOut locale elements).length := congrArg List.length printed
  rw [ResultValue.braced, length, printed]
  simp [arrayOut]

theorem readsAs_arrayOut {locale : Wire.Locale} {elements : List CString}
    (printed : value.text.val = arrayOut locale elements) : ReadsAs value elements := by
  obtain ⟨parsed, ran, -⟩ := parsePGArray_within value true
  have looped := ran
  rw [parsePGArray, braced_arrayOut printed] at looped
  have ahead : value.text.terminated.drop 1 =
      [comma].intercalate (elements.map fun element => printElement locale element.val) ++ [rightBrace, 0] := by
    rw [CString.terminated, printed, arrayOut]
    simp
  have shape := returns_elements ahead ⟨_, looped⟩
  have empty : (⟨[], []⟩ : Buffer).Holds [] := fun _ => rfl
  have holds := empty.foldl elements
  rw [List.nil_append] at holds
  have strings : parsed.strings = elements := by
    rw [shape]
    have read := holds []
    rw [List.append_nil] at read
    dsimp only [Parsed.strings]
    rw [List.take_length]
    exact read
  have success : parsed.success = true := by rw [shape]
  refine ⟨⟨parsed, ran, success, ?_, strings⟩, ?_⟩
  · rw [shape]
    exact holds.length
  · rw [remoteAttnames, ran]
    simp [success, strings, Except.map]

/-- For every text the program ends without a fault, inside its allocation, and what PostgreSQL prints for
a list of strings is read back as that list. -/
theorem parsePGArray_safe_and_inverse (locale : Wire.Locale) :
    (∀ value malloc, ∃ parsed, parsePGArray value malloc = some (.ok parsed) ∧ WithinAllocation value parsed) ∧
      ∀ value elements, value.text.val = arrayOut locale elements → ReadsAs value elements :=
  ⟨parsePGArray_within, fun _ _ => readsAs_arrayOut⟩

def plainLocale : Wire.Locale := ⟨fun _ => false, id, List.length⟩

/-- An empty string, a word, a reserved word and special characters. -/
def sampleElements : List CString :=
  [CString.ofString "", CString.ofString "id", CString.ofString "Null", CString.ofString "a,\x7d b\"\\"]

theorem parsePGArray_sample :
    ReadsAs ⟨CString.ofString "\x7b\"\",id,\"Null\",\"a,\x7d b\\\"\\\\\"\x7d", by decide⟩ sampleElements :=
  (parsePGArray_safe_and_inverse plainLocale).2 _ _ (by decide)

end PGLogical.PGArray
