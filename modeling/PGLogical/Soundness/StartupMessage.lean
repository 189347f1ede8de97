import PGLogical.Model.Callbacks
import PGLogical.Model.StartupMessage

/-! # Reading back the startup message

What the writer has sent is handed over pair by pair. Of other messages exactly those are refused that
are not a version and an even number of strings, none of the keys being empty.
-/

namespace PGLogical.Startup

open Wire

variable {param : CString → CString → Except String Unit}

/-! ## Strings of a message -/

/-- A string is read exactly where one ends in front of the rest. -/
theorem pqGetmsgstring_eq_ok_iff {input rest : Bytes} {s : CString} :
    pqGetmsgstring input = .ok (s, rest) ↔ input = s.terminated ++ rest := by
  constructor
  · intro read
    obtain ⟨front, split, rfl⟩ := consumes_string read
    exact split
  · rintro rfl
    have longer : ¬(s.terminated ++ rest).length ≤ s.strlen := by
      rw [List.length_append, CString.length_terminated]
      omega
    have behind : (s.terminated ++ rest).drop (s.strlen + 1) = rest :=
      List.drop_left' (CString.length_terminated s)
    rw [pqGetmsgstring]
    simp only [CString.ofBytes_terminated, if_neg longer, behind]
    rfl

/-- The strings that end in the message, and the bytes behind the last end. -/
def splitStrings : Bytes → List Bytes × Bytes
  | [] => ([], [])
  | byte :: rest =>
      if byte = 0 then ([] :: (splitStrings rest).1, (splitStrings rest).2)
      else match splitStrings rest with
        | ([], tail) => ([], byte :: tail)
        | (s :: strings, tail) => ((byte :: s) :: strings, tail)

theorem splitStrings_append {front : Bytes} (noNul : 0 ∉ front) (rest : Bytes) :
    splitStrings (front ++ 0 :: rest) = (front :: (splitStrings rest).1, (splitStrings rest).2) := by
  induction front with
  | nil => simp [splitStrings]
  | cons byte front ih =>
    obtain ⟨first, others⟩ := not_or.mp (List.mem_cons.not.mp noNul)
    rw [List.cons_append, splitStrings, if_neg (Ne.symm first), ih others]

@[simp] theorem splitStrings_terminated (s : CString) (rest : Bytes) :
    splitStrings (s.terminated ++ rest) = (s.val :: (splitStrings rest).1, (splitStrings rest).2) := by
  rw [CString.terminated, List.append_assoc, List.singleton_append]
  exact splitStrings_append s.property rest

theorem splitStrings_eq_nil {bytes : Bytes} (noNul : 0 ∉ bytes) : splitStrings bytes = ([], bytes) := by
  induction bytes with
  | nil => rfl
  | cons byte bytes ih =>
    obtain ⟨first, others⟩ := not_or.mp (List.mem_cons.not.mp noNul)
    rw [splitStrings, if_neg (Ne.symm first), ih others]

/-- Without an end there is nothing to read. -/
theorem pqGetmsgstring_eq_error {input : Bytes} {message : String} (refused : pqGetmsgstring input = .error message) :
    0 ∉ input := by
  intro inside
  obtain ⟨front, rest, rfl, noNul⟩ := List.eq_append_cons_of_mem inside
  have read : pqGetmsgstring (front ++ 0 :: rest) = .ok (⟨front, noNul⟩, rest) :=
    pqGetmsgstring_eq_ok_iff.mpr (by simp [CString.terminated])
  rw [read] at refused
  cases refused

/-! ## Handing the pairs over -/

/-- The pairs in order, up to the first that is refused. -/
def callParams (param : CString → CString → Except String Unit) : List Param → Outcome
  | [] => ([], .ok [])
  | (k, v) :: rest =>
      match param k v with
      | .error message => ([(k, v)], .error message)
      | .ok () => ((k, v) :: (callParams param rest).1, (callParams param rest).2)

theorem callParams_accepted {params : List Param} (accepted : ∀ pair ∈ params, param pair.1 pair.2 = .ok ()) :
    callParams param params = (params, .ok []) := by
  induction params with
  | nil => rfl
  | cons pair params ih =>
    rw [callParams, accepted pair (.head _), ih fun other inside => accepted other (.tail _ inside)]

def encodeParams (params : List Param) : Bytes := params.flatMap fun param => param.1.terminated ++ param.2.terminated

theorem encodeParams_cons (k v : CString) (params : List Param) :
    encodeParams ((k, v) :: params) = k.terminated ++ (v.terminated ++ encodeParams params) := by
  rw [encodeParams, List.flatMap_cons, List.append_assoc, encodeParams]

@[simp] theorem terminated_ne_nil (s : CString) : s.terminated ≠ [] := by simp [CString.terminated]

/-- One round of the loop. -/
theorem handleStartupPairs_pair {k v : CString} (named : k.strlen ≠ 0) (rest : Bytes) :
    handleStartupPairs param (k.terminated ++ (v.terminated ++ rest)) =
      match param k v with
      | .error message => ([(k, v)], .error message)
      | .ok () =>
        if rest = [] then ([(k, v)], .ok rest)
        else ((k, v) :: (handleStartupPairs param rest).1, (handleStartupPairs param rest).2) := by
  have readKey : pqGetmsgstring (k.terminated ++ (v.terminated ++ rest)) = .ok (k, v.terminated ++ rest) :=
    pqGetmsgstring_eq_ok_iff.mpr rfl
  have readValue : pqGetmsgstring (v.terminated ++ rest) = .ok (v, rest) := pqGetmsgstring_eq_ok_iff.mpr rfl
  rw [handleStartupPairs]
  split
  · next message refused => rw [readKey] at refused; cases refused
  · next k' afterKey read =>
    rw [readKey] at read
    cases read
    rw [if_neg named, if_neg (by simp)]
    split
    · next message refused => rw [readValue] at refused; cases refused
    · next v' rest' read =>
      rw [readValue] at read
      cases read
      rfl

theorem handleStartupPairs_encodeParams {params : List Param} (some : params ≠ [])
    (named : ∀ param ∈ params, param.1.strlen ≠ 0) :
    handleStartupPairs param (encodeParams params) = callParams param params := by
  induction params with
  | nil => exact absurd rfl some
  | cons pair params ih =>
    obtain ⟨k, v⟩ := pair
    rw [encodeParams_cons, handleStartupPairs_pair (named (k, v) (.head _)), callParams]
    cases param k v with
    | error message => rfl
    | ok =>
      cases params with
      | nil => simp [encodeParams, callParams]
      | cons next params =>
        have more : encodeParams (next :: params) ≠ [] := by
          rw [encodeParams_cons]
          simp
        simp only [if_neg more]
        rw [ih (by simp) fun other inside => named other (.tail _ inside)]

/-! ## What is refused -/

/-- The pairs are not: an even number of strings, none of the keys being empty, and nothing behind. -/
def MalformedPairs (body : Bytes) : Prop :=
  body = [] ∨ (splitStrings body).2 ≠ [] ∨ (∃ i, (splitStrings body).1[2 * i]? = some []) ∨
    (splitStrings body).1.length % 2 = 1

/-- The version is missing or not 1, there is nothing behind it, a string has no end, a key is empty,
or the last key has no value. -/
def Malformed : Bytes → Prop
  | [] => True
  | msgver :: body => msgver ≠ 1 ∨ MalformedPairs body

/-- A pair that has been handed over was refused. -/
def Refused (param : CString → CString → Except String Unit) (outcome : Outcome) : Prop :=
  ∃ pair ∈ outcome.1, ∃ message, param pair.1 pair.2 = .error message

theorem malformedPairs_pair {k v : CString} (named : k.strlen ≠ 0) (rest : Bytes) :
    MalformedPairs (k.terminated ++ (v.terminated ++ rest)) ↔ rest ≠ [] ∧ MalformedPairs rest := by
  have keyed : k.val ≠ [] := fun empty => named (by rw [CString.strlen, empty, List.length_nil])
  have emptyKey : (∃ i, (k.val :: v.val :: (splitStrings rest).1)[2 * i]? = some []) ↔
      ∃ i, (splitStrings rest).1[2 * i]? = some [] := by
    constructor
    · rintro ⟨i, empty⟩
      cases i with
      | zero => exact absurd (by simpa using empty) keyed
      | succ i => exact ⟨i, by simpa [Nat.mul_succ] using empty⟩
    · rintro ⟨i, empty⟩
      exact ⟨i + 1, by simpa [Nat.mul_succ] using empty⟩
  have odd : ((k.val :: v.val :: (splitStrings rest).1).length % 2 = 1) ↔ (splitStrings rest).1.length % 2 = 1 := by
    simp only [List.length_cons]
    omega
  unfold MalformedPairs
  rw [splitStrings_terminated, splitStrings_terminated, emptyKey, odd]
  by_cases ended : rest = []
  · simp [ended, splitStrings]
  · simp [ended]

/-- Nothing is handed over before an error of the loop itself. -/
theorem error_iff_of_malformed {body : Bytes} {message : String} (malformed : MalformedPairs body) :
    (∃ raised, (([], .error message) : Outcome).2 = .error raised) ↔
      MalformedPairs body ∨ Refused param ([], .error message) :=
  ⟨fun _ => .inl malformed, fun _ => ⟨message, rfl⟩⟩

/-- What is left is not the text of a string. -/
theorem malformedPairs_of_error {input : Bytes} {message : String} (refused : pqGetmsgstring input = .error message) :
    MalformedPairs input := by
  have strings := splitStrings_eq_nil (pqGetmsgstring_eq_error refused)
  by_cases empty : input = []
  · exact .inl empty
  · exact .inr (.inl (by rw [strings]; exact empty))

theorem refused_cons {k v : CString} (accepted : param k v = .ok ()) (calls : List Param) (ended : Except String Bytes) :
    Refused param ((k, v) :: calls, ended) ↔ Refused param (calls, ended) := by
  constructor
  · rintro ⟨pair, inside, message, refused⟩
    rcases List.mem_cons.mp inside with rfl | later
    · rw [accepted] at refused
      cases refused
    · exact ⟨pair, later, message, refused⟩
  · rintro ⟨pair, inside, refusal⟩
    exact ⟨pair, .tail _ inside, refusal⟩

theorem handleStartupPairs_error_iff (input : Bytes) :
    (∃ message, (handleStartupPairs param input).2 = .error message) ↔
      MalformedPairs input ∨ Refused param (handleStartupPairs param input) := by
  fun_induction handleStartupPairs param input with
  | case1 input message refused => exact error_iff_of_malformed (malformedPairs_of_error refused)
  | case2 input k rest readKey unnamed =>
    obtain rfl := pqGetmsgstring_eq_ok_iff.mp readKey
    refine error_iff_of_malformed (.inr (.inr (.inl ⟨0, ?_⟩)))
    simpa [CString.strlen] using unnamed
  | case3 input k named readKey =>
    obtain rfl := pqGetmsgstring_eq_ok_iff.mp readKey
    exact error_iff_of_malformed (.inr (.inr (.inr (by rw [splitStrings_terminated]; rfl))))
  | case4 input k afterKey readKey named more message refused =>
    obtain rfl := pqGetmsgstring_eq_ok_iff.mp readKey
    have strings := splitStrings_eq_nil (pqGetmsgstring_eq_error refused)
    exact error_iff_of_malformed (.inr (.inl (by simpa [strings] using more)))
  | case5 input k afterKey readKey named more v rest readValue message refused =>
    exact ⟨fun _ => .inr ⟨(k, v), .head _, message, refused⟩, fun _ => ⟨message, rfl⟩⟩
  | case6 input k afterKey readKey named more v accepted readValue =>
    obtain rfl := pqGetmsgstring_eq_ok_iff.mp readValue
    obtain rfl := pqGetmsgstring_eq_ok_iff.mp readKey
    rw [malformedPairs_pair named, refused_cons accepted]
    simp [Refused]
  | case7 input k afterKey readKey named more v rest readValue accepted unread calls ended loop ih =>
    obtain rfl := pqGetmsgstring_eq_ok_iff.mp readValue
    obtain rfl := pqGetmsgstring_eq_ok_iff.mp readKey
    rw [loop] at ih
    rw [malformedPairs_pair named, refused_cons accepted, ih]
    simp [unread]

theorem handleStartup_error_iff (message : Bytes) :
    (∃ raised, (handleStartup param message).2 = .error raised) ↔
      Malformed message ∨ Refused param (handleStartup param message) := by
  cases message with
  | nil => simp [handleStartup, pqGetmsgbyte, throw, throwThe, MonadExceptOf.throw, Malformed]
  | cons msgver body =>
    have read : pqGetmsgbyte (msgver :: body) = .ok (msgver, body) := rfl
    rw [handleStartup, read]
    by_cases version : msgver = 1
    · simp only [version, ne_eq, not_true_eq_false, ↓reduceIte, Malformed, false_or]
      exact handleStartupPairs_error_iff body
    · simp [version, Malformed]

/-! ## The whole message -/

theorem writeStartupParams_ok {params : List Param} {before after : Bytes}
    (written : Callbacks.writeStartupParams params before = .ok ((), after)) :
    after = before ++ encodeParams params := by
  induction params generalizing before with
  | nil =>
    cases written
    simp [encodeParams]
  | cons pair params ih =>
    obtain ⟨k, v⟩ := pair
    obtain ⟨_, afterKey, writeKey, rest⟩ := bind_ok.mp written
    obtain ⟨-, rfl⟩ := appendBinaryStringInfo_ok.mp writeKey
    obtain ⟨_, afterValue, writeValue, rest⟩ := bind_ok.mp rest
    obtain ⟨-, rfl⟩ := appendBinaryStringInfo_ok.mp writeValue
    rw [ih rest, encodeParams_cons, List.append_assoc, List.append_assoc]

theorem writeStartupMessage_ok {params : List Param} {message : Bytes}
    (written : Callbacks.writeStartupMessage params [] = .ok ((), message)) :
    message = 'S'.toUInt8 :: 1 :: encodeParams params := by
  obtain ⟨_, afterType, writeType, rest⟩ := bind_ok.mp written
  obtain ⟨-, rfl⟩ := appendBinaryStringInfo_ok.mp writeType
  obtain ⟨_, afterVersion, writeVersion, rest⟩ := bind_ok.mp rest
  obtain ⟨-, rfl⟩ := appendBinaryStringInfo_ok.mp writeVersion
  exact writeStartupParams_ok rest

/-- Pairs that have been written are handed over in order, to the end of the message or the first that
is refused. Of all messages exactly the malformed ones raise an error where no pair is refused. -/
theorem startup_messages (param : CString → CString → Except String Unit) :
    (∀ params message, params ≠ [] → (∀ pair ∈ params, pair.1.strlen ≠ 0) →
      Callbacks.writeStartupMessage params [] = .ok ((), message) →
        ∃ body, message = 'S'.toUInt8 :: body ∧ handleStartup param body = callParams param params ∧
          ((∀ pair ∈ params, param pair.1 pair.2 = .ok ()) → handleStartup param body = (params, .ok []))) ∧
    ∀ body, (∃ raised, (handleStartup param body).2 = .error raised) ↔
      Malformed body ∨ Refused param (handleStartup param body) := by
  refine ⟨fun params message some named written => ?_, handleStartup_error_iff⟩
  have handed : handleStartup param (1 :: encodeParams params) = callParams param params :=
    handleStartupPairs_encodeParams some named
  exact ⟨1 :: encodeParams params, writeStartupMessage_ok written, handed,
    fun accepted => handed.trans (callParams_accepted accepted)⟩

/-! ## Two parameters -/

def sampleReceiver : Receiver := ⟨CString.ofString "UTF8", (· = CString.ofString "UTF8"), fun value =>
  if value.val = [116] then some true else if value.val = [102] then some false else none⟩

/-- The second value is empty and its key is not one of those looked at. -/
def sampleParams : List Param :=
  [(CString.ofString "encoding", CString.ofString "UTF8"), (CString.ofString "pg_version", CString.ofBytes [])]

theorem startup_messages_sample : ∃ body, Callbacks.writeStartupMessage sampleParams [] = .ok ((), 83 :: body) ∧
    handleStartup (handleStartupParam sampleReceiver) body = (sampleParams, .ok []) := by
  have written : Callbacks.writeStartupMessage sampleParams [] = .ok ((), 83 :: 1 :: encodeParams sampleParams) := by
    decide +kernel
  obtain ⟨body, split, -, handed⟩ := (startup_messages (handleStartupParam sampleReceiver)).1 sampleParams _
    (by decide +kernel) (by decide +kernel) written
  refine ⟨body, ?_, handed (by decide +kernel)⟩
  rw [written, split]
  rfl

end PGLogical.Startup
