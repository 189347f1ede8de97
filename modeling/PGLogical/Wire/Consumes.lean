import PGLogical.Wire.StringInfo

/-! # What a reader has consumed

The other direction of a round trip: from a result of a reader to the bytes it has read. `Consumes`
relates the two for each field, and its rules follow the shape of `do` blocks. Encodings of which none
starts another one are told apart field by field.
-/

namespace Wire

/-! ## Network byte order -/

theorem ofBigEndian_lt (bytes : Bytes) : ofBigEndian bytes < 256 ^ bytes.length := by
  have bound := Nat.ofDigits_lt_base_pow_length (b := 256) (l := bytes.reverse.map UInt8.toNat) (by decide)
    (by
      intro digit inside
      obtain ⟨byte, -, rfl⟩ := List.mem_map.mp inside
      exact byte.toNat_lt)
  simpa [ofBigEndian] using bound

/-- The digits of a number are the ones it was made from. -/
theorem ofDigits_div_pow (base : ℕ) (digits : List ℕ) (small : ∀ digit ∈ digits, digit < base) :
    (List.range digits.length).map (fun k => Nat.ofDigits base digits / base ^ k % base) = digits := by
  induction digits with
  | nil => rfl
  | cons digit rest ih =>
    have low : digit < base := small digit (List.mem_cons_self ..)
    have positive : 0 < base := by omega
    rw [List.length_cons, List.range_succ_eq_map, List.map_cons, List.map_map]
    congr 1
    · simp [Nat.ofDigits_cons, Nat.add_mod, Nat.mod_eq_of_lt low]
    · refine Eq.trans (List.map_congr_left fun k _ => ?_)
        (ih fun digit inside => small digit (List.mem_cons_of_mem _ inside))
      simp only [Function.comp_apply, Nat.succ_eq_add_one, pow_succ', Nat.ofDigits_cons, ← Nat.div_div_eq_div_mul]
      rw [Nat.add_mul_div_left _ _ positive, Nat.div_eq_of_lt low, Nat.zero_add]

theorem bigEndian_ofBigEndian (bytes : Bytes) : bigEndian bytes.length (ofBigEndian bytes) = bytes := by
  have digits := ofDigits_div_pow 256 (bytes.reverse.map UInt8.toNat) (by
      intro digit inside
      obtain ⟨byte, -, rfl⟩ := List.mem_map.mp inside
      exact byte.toNat_lt)
  have bytewise := congrArg (List.map UInt8.ofNat) digits
  rw [List.map_map, List.map_map, List.length_map, List.length_reverse] at bytewise
  have cut : ∀ n : ℕ, UInt8.ofNat (n % 256) = UInt8.ofNat n := by
    intro n
    apply UInt8.toNat_inj.mp
    rw [UInt8.toNat_ofNat', UInt8.toNat_ofNat', Nat.mod_mod]
  have back : (UInt8.ofNat ∘ UInt8.toNat) = id := by
    funext byte
    simp
  rw [bigEndian, List.map_reverse, List.reverse_eq_iff]
  rw [back, List.map_id] at bytewise
  exact (List.map_congr_left fun k _ => (cut _).symm).trans bytewise

theorem bigEndian_inj {width a b : ℕ} (small : a < 256 ^ width) (small' : b < 256 ^ width)
    (same : bigEndian width a = bigEndian width b) : a = b := by
  have values := congrArg ofBigEndian same
  rwa [ofBigEndian_bigEndian, ofBigEndian_bigEndian, Nat.mod_eq_of_lt small, Nat.mod_eq_of_lt small'] at values

/-! ## Rules -/

/-- What a successful reader has consumed, with its result. -/
def Consumes {α : Type} (r : Reader α) (P : α → Bytes → Prop) : Prop :=
  ∀ ⦃input : Bytes⦄ ⦃value : α⦄ ⦃rest : Bytes⦄, r input = .ok (value, rest) →
    ∃ front, input = front ++ rest ∧ P value front

section Readers

variable {α β : Type} {r : Reader α} {r' : α → Reader β} {P P' : α → Bytes → Prop} {Q : β → Bytes → Prop}

theorem Consumes.pure {a : α} (holds : P a []) : Consumes (Pure.pure a) P := by
  intro input value rest read
  cases read
  exact ⟨[], rfl, holds⟩

theorem Consumes.throw (message : String) : Consumes (MonadExcept.throw message) P := by
  intro input value rest read
  cases read

theorem Consumes.imp (consumes : Consumes r P) (weaker : ∀ a front, P a front → P' a front) : Consumes r P' := by
  intro input value rest read
  obtain ⟨front, split, holds⟩ := consumes read
  exact ⟨front, split, weaker _ _ holds⟩

theorem Consumes.bind (first : Consumes r P)
    (second : ∀ a front, P a front → Consumes (r' a) fun b more => Q b (front ++ more)) : Consumes (r >>= r') Q := by
  intro input value rest read
  obtain ⟨a, middle, now, later⟩ := bind_ok.mp read
  obtain ⟨front, rfl, holds⟩ := first now
  obtain ⟨more, rfl, holds'⟩ := second a front holds later
  exact ⟨front ++ more, (List.append_assoc ..).symm, holds'⟩

theorem Consumes.ite {p : Prop} [Decidable p] {s t : Reader α} (yes : p → Consumes s P) (no : ¬ p → Consumes t P) :
    Consumes (if p then s else t) P := by
  by_cases holds : p
  · rw [if_pos holds]
    exact yes holds
  · rw [if_neg holds]
    exact no holds

/-- A check passes and consumes nothing. -/
theorem Consumes.ensure {condition : Bool} {message : String} {r : Reader β}
    (second : condition = true → Consumes r Q) : Consumes (Wire.ensure condition message >>= fun _ => r) Q := by
  intro input value rest read
  obtain ⟨_, middle, now, later⟩ := bind_ok.mp read
  cases holds : condition with
  | false =>
    rw [Wire.ensure, holds] at now
    cases now
  | true =>
    rw [Wire.ensure, holds] at now
    cases now
    exact second holds later

/-- A fallible function consumes nothing. -/
theorem Consumes.call {γ : Type} {m : Except String γ} {k : γ → Reader β}
    (second : ∀ value, m = .ok value → Consumes (k value) Q) : Consumes ((liftM m : Reader γ) >>= k) Q := by
  intro input value rest read
  obtain ⟨result, middle, called, later⟩ := bind_ok.mp read
  cases m with
  | error message => cases called
  | ok result =>
    cases called
    exact second _ rfl later

/-! ## Fields -/

theorem consumes_byte : Consumes pqGetmsgbyte fun byte front => front = [byte] := by
  intro input value rest read
  cases input with
  | nil => cases read
  | cons byte tail =>
    cases read
    exact ⟨[value], rfl, rfl⟩

theorem consumes_bytes (datalen : ℕ) :
    Consumes (pqGetmsgbytes datalen) fun data front => front = data ∧ data.length = datalen := by
  intro input value rest read
  rw [pqGetmsgbytes] at read
  split at read
  · cases read
  · next enough =>
    cases read
    exact ⟨input.take datalen, (List.take_append_drop ..).symm, rfl, List.length_take_of_le (by omega)⟩

theorem consumes_int (b : ℕ) : Consumes (pqGetmsgint b) fun value front => front = bigEndian b value ∧ value < 256 ^ b := by
  refine (consumes_bytes b).bind ?_
  rintro data front ⟨same, rfl⟩
  subst same
  refine .pure ⟨?_, ofBigEndian_lt front⟩
  rw [List.append_nil, bigEndian_ofBigEndian]

theorem consumes_int64 : Consumes pqGetmsgint64 fun value front => front = bigEndian 8 value.toUInt64.toNat := by
  refine (consumes_bytes 8).bind ?_
  rintro data front ⟨same, width⟩
  subst same
  refine .pure ?_
  have small := ofBigEndian_lt front
  rw [width] at small
  have exact := bigEndian_ofBigEndian front
  rw [width] at exact
  rw [List.append_nil, UInt64.toUInt64_toInt64, UInt64.toNat_ofNat_of_lt' (by simpa using small), exact]

/-- Where the string itself ends does not matter. -/
theorem consumes_cstring (datalen : ℕ) : Consumes (pqGetmsgCString datalen) fun _ front => front.length = datalen := by
  intro input value rest read
  cases got : pqGetmsgbytes datalen input with
  | error message => simp [pqGetmsgCString, got, bind, Except.bind] at read
  | ok result =>
    obtain ⟨front, split, same, width⟩ := consumes_bytes datalen got
    simp only [pqGetmsgCString, got, bind, Except.bind, Except.ok.injEq, pure, Except.pure, Prod.mk.injEq] at read
    exact ⟨front, by rw [split, read.2], same ▸ width⟩

theorem consumes_string : Consumes pqGetmsgstring fun s front => front = s.terminated := by
  intro input value rest read
  rw [pqGetmsgstring] at read
  split at read
  · cases read
  · next longer =>
    cases read
    have split := List.takeWhile_append_dropWhile (p := (· ≠ (0 : UInt8))) (l := input)
    cases behind : input.dropWhile (· ≠ (0 : UInt8)) with
    | nil =>
      rw [behind, List.append_nil] at split
      exact absurd (congrArg List.length split) (by simp only [CString.strlen, CString.ofBytes] at longer; omega)
    | cons byte tail =>
      have zero : byte = 0 := by
        have head := List.head_dropWhile_not (· ≠ (0 : UInt8)) (l := input) (by rw [behind]; simp)
        simp only [behind, List.head_cons] at head
        simpa using head
      rw [behind, zero] at split
      have dropped : input.drop ((CString.ofBytes input).strlen + 1) = tail := by
        have cut := congrArg (List.drop ((CString.ofBytes input).strlen + 1)) split
        rw [← cut]
        simp [CString.strlen, CString.ofBytes, List.drop_append]
      refine ⟨(CString.ofBytes input).terminated, ?_, rfl⟩
      rw [dropped, CString.terminated, List.append_assoc, List.singleton_append]
      exact split.symm

end Readers

/-! ## Telling encodings apart -/

/-- A number of fixed width. -/
theorem number_inj {width a b : ℕ} {rest rest' : Bytes} (small : a < 256 ^ width) (small' : b < 256 ^ width)
    (same : bigEndian width a ++ rest = bigEndian width b ++ rest') : a = b ∧ rest = rest' := by
  obtain ⟨front, behind⟩ := List.append_inj same (by simp)
  exact ⟨bigEndian_inj small small' front, behind⟩

/-- Data behind its length. -/
theorem sized_inj {width : ℕ} {data data' rest rest' : Bytes} (small : data.length < 256 ^ width)
    (small' : data'.length < 256 ^ width)
    (same : bigEndian width data.length ++ (data ++ rest) = bigEndian width data'.length ++ (data' ++ rest')) :
    data = data' ∧ rest = rest' := by
  obtain ⟨length, behind⟩ := number_inj small small' same
  exact List.append_inj behind length

theorem CString.terminated_inj {s t : CString} {rest rest' : Bytes}
    (same : s.terminated ++ rest = t.terminated ++ rest') : s = t ∧ rest = rest' := by
  have strings := congrArg CString.ofBytes same
  rw [s.ofBytes_terminated, t.ofBytes_terminated] at strings
  subst strings
  exact ⟨rfl, List.append_cancel_left same⟩

/-- Items one after the other, as many of them on both sides. -/
theorem items_inj {α : Type} {encode : α → Bytes} {Fits : α → Prop}
    (inj : ∀ {x y : α} {rest rest' : Bytes}, Fits x → Fits y → encode x ++ rest = encode y ++ rest' → x = y ∧ rest = rest')
    {items items' : List α} {rest rest' : Bytes} (count : items.length = items'.length)
    (fits : ∀ item ∈ items, Fits item) (fits' : ∀ item ∈ items', Fits item)
    (same : items.flatMap encode ++ rest = items'.flatMap encode ++ rest') : items = items' ∧ rest = rest' := by
  induction items generalizing items' with
  | nil =>
    cases items' with
    | nil => exact ⟨rfl, same⟩
    | cons item more => cases count
  | cons item more ih =>
    cases items' with
    | nil => cases count
    | cons item' more' =>
      simp only [List.flatMap_cons, List.append_assoc] at same
      obtain ⟨rfl, others⟩ := inj (fits item (List.mem_cons_self ..)) (fits' item' (List.mem_cons_self ..)) same
      obtain ⟨rfl, behind⟩ := ih (by simpa using count) (fun item inside => fits item (List.mem_cons_of_mem _ inside))
        (fun item inside => fits' item (List.mem_cons_of_mem _ inside)) others
      exact ⟨rfl, behind⟩

end Wire
