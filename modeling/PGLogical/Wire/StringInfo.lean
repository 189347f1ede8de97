import Mathlib.Data.List.TakeWhile
import Mathlib.Data.Nat.Digits.Lemmas

/-! # Message buffers and paired readers

A `StringInfo` is a growing byte buffer when a message is written and a shrinking one when it is
read. Both sides are state monads over byte lists that may raise an error. `Decodes` relates a
writer to the reader of the same field: whatever a successful write appends, the reader consumes
exactly those bytes, whatever follows them, and its result satisfies the postcondition. The rules
for `Decodes` follow the shape of `do` blocks, so a round trip is proved field by field.
-/

namespace Wire

abbrev Bytes := List UInt8

/-- The state is what has been written so far. -/
abbrev Writer := StateT Bytes (Except String)

/-- The state is the part of the message behind the cursor. -/
abbrev Reader := StateT Bytes (Except String)

/-- A C string: its bytes without the terminator. -/
abbrev CString := { bytes : Bytes // (0 : UInt8) ∉ bytes }

instance : LawfulBEq CString := Subtype.instLawfulBEq

def CString.strlen (s : CString) : ℕ := s.val.length

/-- The memory of a C string, terminator included. -/
def CString.terminated (s : CString) : Bytes := s.val ++ [0]

/-- As text, for messages. -/
def CString.toString (s : CString) : String := String.ofList (s.val.map fun b => Char.ofNat b.toNat)

/-- The C string that starts where `bytes` does. -/
def CString.ofBytes (bytes : Bytes) : CString :=
  ⟨bytes.takeWhile (· ≠ 0), fun inside => by simpa using List.mem_takeWhile_imp inside⟩

/-- A string constant of the source. -/
def CString.ofString (s : String) : CString := CString.ofBytes (s.toList.map fun c => UInt8.ofNat c.toNat)

theorem CString.ofBytes_terminated (s : CString) (rest : Bytes) :
    CString.ofBytes (s.terminated ++ rest) = s := by
  apply Subtype.ext
  simp only [ofBytes, terminated, List.append_assoc, List.singleton_append]
  rw [List.takeWhile_append_of_pos]
  · simp
  · intro b inside
    simpa using fun zero : b = 0 => s.property (zero ▸ inside)

theorem CString.length_terminated (s : CString) : s.terminated.length = s.strlen + 1 := by
  simp [terminated, strlen]

/-! ## Network byte order -/

/-- The low `width` bytes of a number, most significant first. -/
def bigEndian (width value : ℕ) : Bytes :=
  (List.range width).reverse.map fun k => UInt8.ofNat (value / 256 ^ k)

def ofBigEndian (bytes : Bytes) : ℕ := Nat.ofDigits 256 (bytes.reverse.map UInt8.toNat)

@[simp] theorem length_bigEndian (width value : ℕ) : (bigEndian width value).length = width := by
  simp [bigEndian]

/-- The low digits of a number give it back, up to the power of the base they reach. -/
theorem ofDigits_range (base value width : ℕ) :
    Nat.ofDigits base ((List.range width).map fun k => value / base ^ k % base) = value % base ^ width := by
  induction width with
  | zero => simp [Nat.mod_one]
  | succ width ih =>
    rw [List.range_succ, List.map_append, Nat.ofDigits_append, ih, List.length_map, List.length_range,
      Nat.mod_pow_succ, List.map_singleton, Nat.ofDigits_singleton]

theorem ofBigEndian_bigEndian (width value : ℕ) : ofBigEndian (bigEndian width value) = value % 256 ^ width := by
  have digits : (bigEndian width value).reverse.map UInt8.toNat =
      (List.range width).map fun k => value / 256 ^ k % 256 := by
    simp [bigEndian, Function.comp_def]
  rw [ofBigEndian, digits, ofDigits_range]

/-! ## Writing -/

def maxAllocSize : ℕ := 0x3fffffff

/-- Make room, or fail at the allocation limit. -/
def enlargeStringInfo (needed : ℕ) : Writer Unit := fun out =>
  if maxAllocSize - out.length ≤ needed then throw "out of memory" else pure ((), out)

def appendBinaryStringInfo (data : Bytes) : Writer Unit := do
  enlargeStringInfo data.length
  modify (· ++ data)

def pqSendbytes (data : Bytes) : Writer Unit := appendBinaryStringInfo data

def pqSendbyte (byte : UInt8) : Writer Unit := appendBinaryStringInfo [byte]

/-- The low `b` bytes of `i` in network byte order. -/
def pqSendint (i : ℕ) (b : ℕ) : Writer Unit := appendBinaryStringInfo (bigEndian b i)

def pqSendint64 (i : Int64) : Writer Unit := appendBinaryStringInfo (bigEndian 8 i.toUInt64.toNat)

/-! ## Reading -/

def pqGetmsgbyte : Reader UInt8 := fun
  | [] => throw "no data left in message"
  | byte :: rest => pure (byte, rest)

def pqGetmsgbytes (datalen : ℕ) : Reader Bytes := fun input =>
  if input.length < datalen then throw "insufficient data left in message"
  else pure (input.take datalen, input.drop datalen)

def pqGetmsgint (b : ℕ) : Reader ℕ := return ofBigEndian (← pqGetmsgbytes b)

def pqGetmsgint64 : Reader Int64 := return (UInt64.ofNat (ofBigEndian (← pqGetmsgbytes 8))).toInt64

/-- `pq_getmsgbytes` whose result is used as a C string: the string ends at the first NUL of the
buffer, wherever that is, and not at the length that was checked. -/
def pqGetmsgCString (datalen : ℕ) : Reader CString := fun input => do
  let (_, rest) ← pqGetmsgbytes datalen input
  pure (CString.ofBytes input, rest)

/-- A C string that must end inside the message. -/
def pqGetmsgstring : Reader CString := fun input =>
  let str := CString.ofBytes input
  if input.length ≤ str.strlen then throw "invalid string in message" else pure (str, input.drop (str.strlen + 1))

/-- An `elog(ERROR)` taken unless the condition holds. -/
def ensure (condition : Bool) (message : String) : Reader Unit :=
  if condition then pure () else throw message

/-! ## Paired writers and readers -/

/-- What a successful `w` appends, `r` consumes, and returns a value that satisfies `P`. -/
def Decodes {α : Type} (w : Writer Unit) (r : Reader α) (P : α → Prop) : Prop :=
  ∀ ⦃before after : Bytes⦄, w before = .ok ((), after) →
    ∃ appended value, after = before ++ appended ∧ P value ∧ ∀ rest, r (appended ++ rest) = .ok (value, rest)

section Rules

variable {α β : Type} {w w' : Writer Unit} {P : α → Prop} {Q : β → Prop}

theorem bind_ok {γ δ σ : Type} {m : StateT σ (Except String) γ} {k : γ → StateT σ (Except String) δ}
    {s : σ} {result : δ × σ} :
    (m >>= k) s = .ok result ↔ ∃ value middle, m s = .ok (value, middle) ∧ k value middle = .ok result := by
  change (m s >>= fun p => k p.1 p.2) = _ ↔ _
  cases m s with
  | error message => simp [bind, Except.bind]
  | ok p =>
    obtain ⟨value, middle⟩ := p
    simp [bind, Except.bind]

theorem Decodes.pure {a : α} (holds : P a) : Decodes (Pure.pure ()) (Pure.pure a) P := by
  intro before after written
  cases written
  exact ⟨[], a, (List.append_nil _).symm, holds, fun rest => rfl⟩

theorem Decodes.bind {r : Reader α} {r' : α → Reader β} (first : Decodes w r P)
    (second : ∀ a, P a → Decodes w' (r' a) Q) : Decodes (w >>= fun _ => w') (r >>= r') Q := by
  intro before after written
  obtain ⟨_, middle, writtenFirst, writtenSecond⟩ := bind_ok.1 written
  obtain ⟨bytes, a, rfl, holds, reads⟩ := first writtenFirst
  obtain ⟨bytes', b, rfl, holds', reads'⟩ := second a holds writtenSecond
  refine ⟨bytes ++ bytes', b, List.append_assoc .., holds', fun rest => bind_ok.2 ⟨a, bytes' ++ rest, ?_, reads' rest⟩⟩
  rw [List.append_assoc]
  exact reads _

/-- A reader step that consumes nothing, such as a check that passes or a lookup. -/
theorem Decodes.lookup {r : Reader α} {r' : α → Reader β} {a : α} (found : ∀ input, r input = .ok (a, input))
    (second : Decodes w (r' a) Q) : Decodes w (r >>= r') Q := by
  intro before after written
  obtain ⟨bytes, b, appended, holds, reads⟩ := second written
  exact ⟨bytes, b, appended, holds, fun rest => bind_ok.2 ⟨a, bytes ++ rest, found _, reads rest⟩⟩

/-- A writer step that appends nothing. -/
theorem Decodes.reserve {r : Reader β} {needed : ℕ} (second : Decodes w r Q) :
    Decodes (enlargeStringInfo needed >>= fun _ => w) r Q := by
  intro before after written
  obtain ⟨_, middle, writtenFirst, writtenSecond⟩ := bind_ok.1 written
  rw [enlargeStringInfo] at writtenFirst
  split at writtenFirst
  · cases writtenFirst
  · cases writtenFirst
    exact second writtenSecond

theorem Decodes.imp {r : Reader α} {P' : α → Prop} (decodes : Decodes w r P) (weaker : ∀ a, P a → P' a) :
    Decodes w r P' := by
  intro before after written
  obtain ⟨bytes, a, appended, holds, reads⟩ := decodes written
  exact ⟨bytes, a, appended, weaker a holds, reads⟩

/-- The last steps of a reader only compute. -/
theorem Decodes.finish {r : Reader α} {r' : α → Reader β} (first : Decodes w r P)
    (second : ∀ a, P a → ∃ b, Q b ∧ ∀ input, r' a input = .ok (b, input)) : Decodes w (r >>= r') Q := by
  intro before after written
  obtain ⟨bytes, a, appended, holds, reads⟩ := first written
  obtain ⟨b, holds', computes⟩ := second a holds
  exact ⟨bytes, b, appended, holds', fun rest => bind_ok.2 ⟨a, rest, reads rest, computes rest⟩⟩

/-- A writer step that calls a fallible function. -/
theorem Decodes.call {γ : Type} {r : Reader β} {m : Except String γ} {k : γ → Writer Unit}
    (second : ∀ value, m = .ok value → Decodes (k value) r Q) :
    Decodes ((liftM m : Writer γ) >>= k) r Q := by
  intro before after written
  obtain ⟨value, middle, called, continued⟩ := bind_ok.1 written
  cases m with
  | error message => cases called
  | ok result =>
    cases called
    exact second _ rfl continued

/-- A reader step that calls a fallible function. -/
theorem liftM_ok {γ : Type} {m : Except String γ} {value : γ} (called : m = .ok value) (input : Bytes) :
    (liftM m : Reader γ) input = .ok (value, input) := by
  subst called
  rfl

theorem ensure_true {condition : Bool} {message : String} (holds : condition = true) (input : Bytes) :
    ensure condition message input = .ok ((), input) := by
  rw [ensure, if_pos holds]
  rfl

end Rules

/-! ## Fields -/

theorem appendBinaryStringInfo_ok {data before after : Bytes} {u : Unit} :
    appendBinaryStringInfo data before = .ok (u, after) ↔
      data.length < maxAllocSize - before.length ∧ after = before ++ data := by
  unfold appendBinaryStringInfo
  rw [bind_ok, enlargeStringInfo]
  split
  · next full =>
    simp only [throw, throwThe, MonadExceptOf.throw, reduceCtorEq, false_and, exists_const, false_iff]
    omega
  · next room =>
    constructor
    · rintro ⟨_, _, entered, left⟩
      cases entered
      cases left
      exact ⟨by omega, rfl⟩
    · rintro ⟨_, rfl⟩
      exact ⟨(), before, rfl, rfl⟩

theorem pqGetmsgbytes_append {front : Bytes} {datalen : ℕ} (width : front.length = datalen) (rest : Bytes) :
    pqGetmsgbytes datalen (front ++ rest) = .ok (front, rest) := by
  subst width
  rw [pqGetmsgbytes, if_neg (by simp), List.take_left, List.drop_left]
  rfl

theorem decodes_bytes (data : Bytes) :
    Decodes (appendBinaryStringInfo data) (pqGetmsgbytes data.length) (· = data) := by
  intro before after written
  obtain ⟨-, rfl⟩ := appendBinaryStringInfo_ok.1 written
  exact ⟨data, data, rfl, rfl, pqGetmsgbytes_append rfl⟩

theorem decodes_byte (byte : UInt8) : Decodes (pqSendbyte byte) pqGetmsgbyte (· = byte) := by
  intro before after written
  obtain ⟨-, rfl⟩ := appendBinaryStringInfo_ok.1 written
  exact ⟨[byte], byte, rfl, rfl, fun rest => rfl⟩

theorem decodes_int {i b : ℕ} (fits : i < 256 ^ b) : Decodes (pqSendint i b) (pqGetmsgint b) (· = i) := by
  have bytes := decodes_bytes (bigEndian b i)
  rw [length_bigEndian] at bytes
  refine bytes.finish ?_
  rintro _ rfl
  refine ⟨_, ?_, fun input => rfl⟩
  rw [ofBigEndian_bigEndian, Nat.mod_eq_of_lt fits]

theorem decodes_int64 (i : Int64) : Decodes (pqSendint64 i) pqGetmsgint64 (· = i) := by
  have bytes := decodes_bytes (bigEndian 8 i.toUInt64.toNat)
  rw [length_bigEndian] at bytes
  refine bytes.finish ?_
  rintro _ rfl
  refine ⟨_, ?_, fun input => rfl⟩
  rw [ofBigEndian_bigEndian, Nat.mod_eq_of_lt (lt_of_lt_of_eq (UInt64.toNat_lt _) (by norm_num)),
    UInt64.ofNat_toNat, Int64.toInt64_toUInt64]

/-- A field that could be written is smaller than the allocation limit. -/
theorem Decodes.assumeRoom {β : Type} {w : Writer Unit} {data : Bytes} {r : Reader β} {Q : β → Prop}
    (decodes : data.length < maxAllocSize → Decodes (w >>= fun _ => appendBinaryStringInfo data) r Q) :
    Decodes (w >>= fun _ => appendBinaryStringInfo data) r Q := by
  intro before after written
  obtain ⟨_, middle, -, second⟩ := bind_ok.1 written
  have room := (appendBinaryStringInfo_ok.1 second).1
  exact decodes (by omega) written

theorem decodes_cstring {s : CString} {datalen : ℕ} (width : s.strlen + 1 = datalen) :
    Decodes (appendBinaryStringInfo s.terminated) (pqGetmsgCString datalen) (· = s) := by
  intro before after written
  obtain ⟨-, rfl⟩ := appendBinaryStringInfo_ok.1 written
  refine ⟨s.terminated, s, rfl, rfl, fun rest => ?_⟩
  rw [pqGetmsgCString, pqGetmsgbytes_append (s.length_terminated.trans width)]
  exact congrArg (fun c => Except.ok (c, rest)) (s.ofBytes_terminated rest)

/-! ## Writers without a reader -/

/-- Whatever the writer succeeds in writing stands behind what was there. -/
def Appends (w : Writer Unit) : Prop := ∀ ⦃before after : Bytes⦄, w before = .ok ((), after) → before <+: after

/-- The writer needs at most `size` bytes and does not fail while there is room for them. -/
def Fits (size : ℕ) (w : Writer Unit) : Prop :=
  ∀ ⦃before : Bytes⦄, before.length + size < maxAllocSize →
    ∃ after, w before = .ok ((), after) ∧ after.length ≤ before.length + size

section Writers

variable {w w' : Writer Unit}

theorem appends_binary (data : Bytes) : Appends (appendBinaryStringInfo data) := by
  intro before after written
  obtain ⟨-, rfl⟩ := appendBinaryStringInfo_ok.1 written
  exact List.prefix_append before data

theorem Appends.pure : Appends (Pure.pure ()) := by
  intro before after written
  cases written
  exact List.prefix_refl before

theorem Appends.throw (message : String) : Appends (MonadExcept.throw message) := by
  intro before after written
  cases written

theorem Appends.bind (first : Appends w) (second : Appends w') : Appends (w >>= fun _ => w') := by
  intro before after written
  obtain ⟨_, middle, now, later⟩ := bind_ok.1 written
  exact (first now).trans (second later)

theorem Appends.call {γ : Type} {m : Except String γ} {k : γ → Writer Unit} (second : ∀ value, Appends (k value)) :
    Appends ((liftM m : Writer γ) >>= k) := by
  intro before after written
  obtain ⟨value, middle, called, continued⟩ := bind_ok.1 written
  cases m with
  | error message => cases called
  | ok result =>
    cases called
    exact second _ continued

theorem Appends.reserve {needed : ℕ} (second : Appends w) :
    Appends (enlargeStringInfo needed >>= fun _ => w) := by
  intro before after written
  obtain ⟨_, middle, now, later⟩ := bind_ok.1 written
  rw [enlargeStringInfo] at now
  split at now
  · cases now
  · cases now
    exact second later

theorem Appends.ite {p : Prop} [Decidable p] (yes : Appends w) (no : Appends w') : Appends (if p then w else w') := by
  by_cases holds : p
  · rwa [if_pos holds]
  · rwa [if_neg holds]

/-- What is written first stands right behind what was there. -/
theorem Appends.begins {data before after : Bytes} (rest : Appends w)
    (written : (appendBinaryStringInfo data >>= fun _ => w) before = .ok ((), after)) : before ++ data <+: after := by
  obtain ⟨_, middle, now, later⟩ := bind_ok.1 written
  obtain ⟨-, rfl⟩ := appendBinaryStringInfo_ok.1 now
  exact rest later

theorem fits_binary {data : Bytes} {size : ℕ} (small : data.length ≤ size) : Fits size (appendBinaryStringInfo data) := by
  intro before room
  refine ⟨before ++ data, appendBinaryStringInfo_ok.2 ⟨by omega, rfl⟩, ?_⟩
  rw [List.length_append]
  omega

theorem fits_byte (byte : UInt8) : Fits 1 (pqSendbyte byte) := fits_binary le_rfl

theorem fits_int (i b : ℕ) : Fits b (pqSendint i b) := fits_binary (le_of_eq (length_bigEndian b i))

theorem fits_int64 (i : Int64) : Fits 8 (pqSendint64 i) := fits_binary (le_of_eq (length_bigEndian 8 _))

theorem Fits.bind {size size' : ℕ} (first : Fits size w) (second : Fits size' w') :
    Fits (size + size') (w >>= fun _ => w') := by
  intro before room
  obtain ⟨middle, now, grown⟩ := @first before (by omega)
  obtain ⟨after, later, grown'⟩ := @second middle (by omega)
  exact ⟨after, bind_ok.2 ⟨(), middle, now, later⟩, by omega⟩

theorem Fits.ite {size : ℕ} {p : Prop} [Decidable p] (yes : Fits size w) (no : Fits size w') :
    Fits size (if p then w else w') := by
  by_cases holds : p
  · rwa [if_pos holds]
  · rwa [if_neg holds]

theorem Fits.pure {size : ℕ} : Fits size (Pure.pure ()) := fun before _ => ⟨before, rfl, by omega⟩

end Writers

/-! ## Whole messages -/

/-- Whatever the writer appends to a buffer, the reader consumes to its end, with a result in `P`. -/
def RoundTrip {α : Type} (w : Writer Unit) (r : Reader α) (P : α → Prop) : Prop :=
  ∀ before after, w before = .ok ((), after) →
    ∃ message result, after = before ++ message ∧ P result ∧ r message = .ok (result, [])

theorem Decodes.roundTrip {α : Type} {w : Writer Unit} {r : Reader α} {P : α → Prop} (decodes : Decodes w r P) :
    RoundTrip w r P := by
  intro before after written
  obtain ⟨message, result, appended, holds, reads⟩ := decodes written
  have whole := reads []
  rw [List.append_nil] at whole
  exact ⟨message, result, appended, holds, whole⟩

end Wire
