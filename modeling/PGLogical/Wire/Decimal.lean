import PGLogical.Wire.Identifier

/-! # Numbers in text

Decimal text as `printf` writes it for unsigned numbers and for sixty-four bit integers, and
PostgreSQL's `scanint8`, which reads the latter. A sign may stand in front of the digits and spaces around both.
-/

namespace Wire

def digitByte (digit : ℕ) : UInt8 := UInt8.ofNat (48 + digit)

def minusSign : UInt8 := 45
def plusSign : UInt8 := 43

/-- An unsigned number (`%u`). -/
def decimal (n : ℕ) : Bytes := if n = 0 then [digitByte 0] else (Nat.digits 10 n).reverse.map digitByte

/-- A signed number (`%d`, `INT64_FORMAT`). -/
def decimalInt (n : ℤ) : Bytes := if n < 0 then minusSign :: decimal n.natAbs else decimal n.natAbs

/-- What decimal digits stand for. -/
def digitsValue (digits : Bytes) : ℕ := Nat.ofDigits 10 (digits.reverse.map fun b => b.toNat - 48)

/-- The sign in front of a number, and the text behind it. -/
def scanSign : Bytes → Bool × Bytes
  | [] => (false, [])
  | b :: rest => if b = minusSign then (true, rest) else if b = plusSign then (false, rest) else (false, b :: rest)

/-- The digits of -2^63, which `scanint8` compares as text. -/
def int64MinDigits : Bytes := [57, 50, 50, 51, 51, 55, 50, 48, 51, 54, 56, 53, 52, 55, 55, 53, 56, 48, 56]

/-- A `bigint` that fills the text but for spaces. -/
def scanint8 (locale : Locale) (str : CString) : Except String Int64 :=
  let (negative, unsigned) := scanSign (str.val.dropWhile locale.isspace)
  if negative = true ∧ int64MinDigits <+: unsigned then
    if (unsigned.drop int64MinDigits.length).dropWhile locale.isspace ≠ [] then
      .error s!"invalid input syntax for integer: \"{str.toString}\""
    else .ok Int64.minValue
  else
    let digits := unsigned.takeWhile isDigit
    if digits = [] then .error s!"invalid input syntax for integer: \"{str.toString}\""
    else if 2 ^ 63 ≤ digitsValue digits then
      .error s!"value \"{str.toString}\" is out of range for type bigint"
    else if (unsigned.dropWhile isDigit).dropWhile locale.isspace ≠ [] then
      .error s!"invalid input syntax for integer: \"{str.toString}\""
    else .ok (Int64.ofInt (if negative then -digitsValue digits else digitsValue digits))

/-- A text that denotes an integer in the input syntax of `bigint`: a sign or none and digits, with spaces around. No
zeros stand in front of the digits of -2^63. -/
def Denotes (locale : Locale) (text : Bytes) (n : ℤ) : Prop :=
  ∃ before sign digits behind, text = before ++ (sign ++ (digits ++ behind)) ∧
    (∀ b ∈ before, locale.isspace b = true) ∧ (∀ b ∈ behind, locale.isspace b = true) ∧
    digits ≠ [] ∧ (∀ b ∈ digits, isDigit b = true) ∧
    (sign = [minusSign] ∧ n = -digitsValue digits ∧ (n = -2 ^ 63 → digits = int64MinDigits) ∨
      (sign = [] ∨ sign = [plusSign]) ∧ n = digitsValue digits)

theorem toNat_digitByte {digit : ℕ} (small : digit < 10) : (digitByte digit).toNat = 48 + digit := by
  rw [digitByte, UInt8.toNat_ofNat']
  omega

theorem isDigit_digitByte {digit : ℕ} (small : digit < 10) : isDigit (digitByte digit) = true := by
  simp only [isDigit, Bool.and_eq_true, decide_eq_true_eq, UInt8.le_iff_toNat_le, toNat_digitByte small,
    UInt8.reduceToNat]
  omega

theorem isDigit_of_mem_decimal {n : ℕ} {b : UInt8} (written : b ∈ decimal n) : isDigit b = true := by
  unfold decimal at written
  split at written
  · obtain rfl := List.mem_singleton.mp written
    exact isDigit_digitByte (by decide)
  · obtain ⟨digit, listed, rfl⟩ := List.mem_map.mp written
    exact isDigit_digitByte (Nat.digits_lt_base (by decide) (List.mem_reverse.mp listed))

theorem decimal_ne_nil (n : ℕ) : decimal n ≠ [] := by
  unfold decimal
  split
  · exact List.cons_ne_nil _ _
  next nonzero =>
    intro empty
    exact Nat.digits_ne_nil_iff_ne_zero.mpr nonzero (List.reverse_eq_nil_iff.mp (List.map_eq_nil_iff.mp empty))

theorem digitsValue_decimal (n : ℕ) : digitsValue (decimal n) = n := by
  unfold decimal
  split
  next zero => exact zero.symm ▸ rfl
  next =>
    have digits : ((Nat.digits 10 n).reverse.map digitByte).reverse.map (fun b => b.toNat - 48) = Nat.digits 10 n := by
      rw [← List.map_reverse, List.reverse_reverse, List.map_map]
      conv_rhs => rw [← List.map_id (Nat.digits 10 n)]
      refine List.map_congr_left fun digit listed => ?_
      simp [toNat_digitByte (Nat.digits_lt_base (by decide) listed)]
    rw [digitsValue, digits, Nat.ofDigits_digits]

theorem isDigit_visible (locale : Locale) {b : UInt8} (digit : isDigit b) : locale.isspace b = false :=
  isSafe_visible locale (by simp [isSafe, digit])

/-- Digits are not signs. -/
theorem scanSign_digits {text : Bytes} (digits : ∀ b ∈ text, isDigit b = true) : scanSign text = (false, text) := by
  cases text with
  | nil => rfl
  | cons b rest =>
    have digit := digits b List.mem_cons_self
    have unsigned : b ≠ minusSign ∧ b ≠ plusSign := by
      constructor <;> rintro rfl <;> exact absurd digit (by decide)
    simp [scanSign, unsigned]

theorem dropWhile_decimalInt (locale : Locale) (n : ℤ) :
    (decimalInt n).dropWhile locale.isspace = decimalInt n := by
  unfold decimalInt
  split
  · have visible : locale.isspace minusSign = false := by simp [Locale.isspace, minusSign]
    simp [visible]
  · obtain ⟨b, rest, written⟩ := List.exists_cons_of_ne_nil (decimal_ne_nil n.natAbs)
    have digit : isDigit b = true := isDigit_of_mem_decimal (written ▸ List.mem_cons_self)
    rw [written]
    simp [isDigit_visible locale digit]

theorem scanSign_decimalInt (n : ℤ) : scanSign (decimalInt n) = (decide (n < 0), decimal n.natAbs) := by
  unfold decimalInt
  split
  next negative => simp [scanSign, negative]
  next positive =>
    rw [scanSign_digits fun b => isDigit_of_mem_decimal]
    simp [positive]

theorem scanSign_append (text : Bytes) : ∃ sign, text = sign ++ (scanSign text).2 ∧
    (sign = [minusSign] ∧ (scanSign text).1 = true ∨ (sign = [] ∨ sign = [plusSign]) ∧ (scanSign text).1 = false) := by
  cases text with
  | nil => exact ⟨[], rfl, .inr ⟨.inl rfl, rfl⟩⟩
  | cons b rest =>
    by_cases minus : b = minusSign
    · exact ⟨[b], by simp [scanSign, minus], .inl ⟨by rw [minus], by simp [scanSign, minus]⟩⟩
    · by_cases plus : b = plusSign
      · have scanned : scanSign (b :: rest) = (false, rest) := by rw [scanSign, if_neg minus, if_pos plus]
        exact ⟨[b], by simp [scanned], .inr ⟨.inr (by rw [plus]), by simp [scanned]⟩⟩
      · exact ⟨[], by simp [scanSign, minus, plus], .inr ⟨.inl rfl, by simp [scanSign, minus, plus]⟩⟩

theorem takeWhile_isDigit (locale : Locale) {digits behind : Bytes} (all_digits : ∀ b ∈ digits, isDigit b = true)
    (spaces : ∀ b ∈ behind, locale.isspace b = true) :
    (digits ++ behind).takeWhile isDigit = digits ∧ (digits ++ behind).dropWhile isDigit = behind := by
  rw [List.takeWhile_append_of_pos all_digits, List.dropWhile_append_of_pos all_digits]
  cases behind with
  | nil => simp
  | cons b rest =>
    have other : isDigit b = false := by
      by_contra digit
      have space := spaces b List.mem_cons_self
      rw [isDigit_visible locale (by simpa using digit)] at space
      cases space
    simp [other]

theorem dropWhile_isspace_digits (locale : Locale) {digits : Bytes} (behind : Bytes) (some_digits : digits ≠ [])
    (all_digits : ∀ b ∈ digits, isDigit b = true) :
    (digits ++ behind).dropWhile locale.isspace = digits ++ behind ∧
      scanSign (digits ++ behind) = (false, digits ++ behind) := by
  obtain ⟨b, rest, rfl⟩ := List.exists_cons_of_ne_nil some_digits
  have digit := all_digits b List.mem_cons_self
  have unsigned : b ≠ minusSign ∧ b ≠ plusSign := by
    constructor <;> rintro rfl <;> exact absurd digit (by decide)
  simp [isDigit_visible locale digit, scanSign, unsigned]

theorem digitsValue_le_append (digits more : Bytes) : digitsValue digits ≤ digitsValue (digits ++ more) := by
  rw [digitsValue, digitsValue, List.reverse_append, List.map_append, Nat.ofDigits_append]
  have scaled := Nat.le_mul_of_pos_left (Nat.ofDigits 10 (digits.reverse.map fun b => b.toNat - 48))
    (Nat.pow_pos (by decide : 0 < 10) (n := (more.reverse.map fun b => b.toNat - 48).length))
  omega

theorem isDigit_int64MinDigits : ∀ b ∈ int64MinDigits, isDigit b = true :=
  List.all_eq_true.mp rfl

theorem digitsValue_int64MinDigits : digitsValue int64MinDigits = 2 ^ 63 := rfl

/-- `scanint8` behind the sign and the digits of -2^63. -/
theorem scanint8_min {locale : Locale} {str : CString} {n : Int64} {behind : Bytes}
    (scanned : scanSign (str.val.dropWhile locale.isspace) = (true, int64MinDigits ++ behind)) :
    scanint8 locale str = .ok n ↔ behind.dropWhile locale.isspace = [] ∧ n.toInt = -2 ^ 63 := by
  unfold scanint8
  simp only [scanned, List.prefix_append, and_self, if_true, List.drop_left]
  by_cases ended : behind.dropWhile locale.isspace = []
  · simp only [ended, ne_eq, not_true_eq_false, if_false, Except.ok.injEq, true_and]
    constructor
    · rintro rfl
      rfl
    · intro least
      exact Int64.toInt_inj.mp least.symm
  · simp [ended]

/-- `scanint8` behind the sign. -/
theorem scanint8_unsigned {locale : Locale} {str : CString} {n : Int64} {negative : Bool} {unsigned : Bytes}
    (scanned : scanSign (str.val.dropWhile locale.isspace) = (negative, unsigned)) :
    scanint8 locale str = .ok n ↔ unsigned.takeWhile isDigit ≠ [] ∧
      (unsigned.dropWhile isDigit).dropWhile locale.isspace = [] ∧
      (if negative then -(digitsValue (unsigned.takeWhile isDigit) : ℤ) else digitsValue (unsigned.takeWhile isDigit)) =
        n.toInt ∧
      (negative = true → n.toInt = -2 ^ 63 → unsigned.takeWhile isDigit = int64MinDigits) := by
  have lower := n.le_toInt
  have upper := n.toInt_lt
  by_cases least : negative = true ∧ int64MinDigits <+: unsigned
  · obtain ⟨rfl, behind, rfl⟩ := least
    rw [scanint8_min scanned, List.takeWhile_append_of_pos isDigit_int64MinDigits,
      List.dropWhile_append_of_pos isDigit_int64MinDigits]
    constructor
    · rintro ⟨ended, value⟩
      obtain ⟨taken, dropped⟩ := takeWhile_isDigit locale isDigit_int64MinDigits (List.dropWhile_eq_nil_iff.mp ended)
      rw [List.takeWhile_append_of_pos isDigit_int64MinDigits] at taken
      rw [List.dropWhile_append_of_pos isDigit_int64MinDigits] at dropped
      rw [taken, dropped, digitsValue_int64MinDigits]
      exact ⟨by decide, ended, by simp [value], fun _ _ => rfl⟩
    · rintro ⟨-, ended, value, exactly⟩
      -- more digits would make the number too small
      have bound := digitsValue_le_append int64MinDigits (behind.takeWhile isDigit)
      rw [digitsValue_int64MinDigits] at bound
      rw [if_pos rfl] at value
      have same : n.toInt = -2 ^ 63 := by omega
      have none : behind.takeWhile isDigit = [] := List.append_right_eq_self.mp (exactly rfl same)
      have dropped : behind.dropWhile isDigit = behind := by
        have split := List.takeWhile_append_dropWhile (p := isDigit) (l := behind)
        rwa [none, List.nil_append] at split
      rw [dropped] at ended
      exact ⟨ended, same⟩
  have notLeast : negative = true → unsigned.takeWhile isDigit ≠ int64MinDigits := fun isNegative same =>
    least ⟨isNegative, same ▸ List.takeWhile_prefix _⟩
  unfold scanint8
  simp only [scanned, least, if_false]
  generalize unsigned.takeWhile isDigit = digits at notLeast
  by_cases empty : digits = []
  · simp [empty]
  by_cases range : 2 ^ 63 ≤ digitsValue digits
  · simp only [empty, range, if_true, if_false, ne_eq, not_false_eq_true, true_and, reduceCtorEq, false_iff, not_and]
    intro _ value exactly
    cases negative with
    | true =>
      rw [if_pos rfl] at value
      exact notLeast rfl (exactly rfl (by omega))
    | false =>
      rw [if_neg Bool.false_ne_true] at value
      omega
  by_cases ended : (unsigned.dropWhile isDigit).dropWhile locale.isspace = []
  · simp only [empty, range, ended, if_false, ne_eq, not_true_eq_false, not_false_eq_true, true_and, Except.ok.injEq]
    constructor
    · rintro rfl
      have bounds : -2 ^ 63 < (if negative then -(digitsValue digits : ℤ) else digitsValue digits) ∧
          (if negative then -(digitsValue digits : ℤ) else digitsValue digits) < 2 ^ 63 := by
        split <;> omega
      rw [Int64.toInt_ofInt_of_le (by omega) (by omega)]
      exact ⟨rfl, fun _ same => by omega⟩
    · rintro ⟨value, -⟩
      rw [value]
      exact Int64.ofInt_toInt n
  · rw [if_neg empty, if_neg range, if_pos ended]
    simp [ended]

/-- `scanint8` accepts exactly what denotes a sixty-four bit integer. -/
theorem scanint8_eq_ok_iff {locale : Locale} {str : CString} {n : Int64} :
    scanint8 locale str = .ok n ↔ Denotes locale str.val n.toInt := by
  have signs : locale.isspace minusSign = false ∧ locale.isspace plusSign = false ∧ plusSign ≠ minusSign := by
    simp [Locale.isspace, minusSign, plusSign]
  constructor
  · intro read
    obtain ⟨sign, split, kind⟩ := scanSign_append (str.val.dropWhile locale.isspace)
    obtain ⟨negative, unsigned, scanned⟩ : ∃ negative unsigned, scanSign (str.val.dropWhile locale.isspace) =
      (negative, unsigned) := ⟨_, _, rfl⟩
    obtain ⟨some_digits, ended, value, least⟩ := (scanint8_unsigned scanned).mp read
    rw [scanned] at split kind
    refine ⟨str.val.takeWhile locale.isspace, sign, _, _, ?_, fun b inside => List.mem_takeWhile_imp inside,
      List.dropWhile_eq_nil_iff.mp ended, some_digits, fun b inside => List.mem_takeWhile_imp inside, ?_⟩
    · rw [List.takeWhile_append_dropWhile, ← split, List.takeWhile_append_dropWhile]
    · obtain ⟨rfl, rfl⟩ | ⟨plain, rfl⟩ := kind
      · exact .inl ⟨rfl, value.symm, least rfl⟩
      · exact .inr ⟨plain, value.symm⟩
  · rintro ⟨before, sign, digits, behind, text, spaces, blanks, some_digits, all_digits, kind⟩
    obtain ⟨unspaced, unsigned⟩ := dropWhile_isspace_digits locale behind some_digits all_digits
    obtain ⟨taken, dropped⟩ := takeWhile_isDigit locale all_digits blanks
    have scanned : ∃ negative, scanSign (str.val.dropWhile locale.isspace) = (negative, digits ++ behind) ∧
        (if negative then -(digitsValue digits : ℤ) else digitsValue digits) = n.toInt ∧
        (negative = true → n.toInt = -2 ^ 63 → digits = int64MinDigits) := by
      rw [text, List.dropWhile_append_of_pos spaces]
      obtain ⟨rfl, value, least⟩ | ⟨rfl | rfl, value⟩ := kind
      · exact ⟨true, by simp [signs.1, scanSign], by simp [value], fun _ => least⟩
      · exact ⟨false, by rw [List.nil_append, unspaced, unsigned], by simp [value], fun negative => by cases negative⟩
      · exact ⟨false, by simp [signs.2, scanSign], by simp [value], fun negative => by cases negative⟩
    obtain ⟨negative, scanned, value, least⟩ := scanned
    refine (scanint8_unsigned scanned).mpr ⟨?_, ?_, ?_, ?_⟩
    · rwa [taken]
    · rw [dropped, List.dropWhile_eq_nil_iff.mpr blanks]
    · rw [taken, value]
    · rwa [taken]

/-- `scanint8` reads what was printed with `INT64_FORMAT`, over the whole range. -/
theorem scanint8_decimalInt (locale : Locale) (n : Int64) {str : CString} (printed : str.val = decimalInt n.toInt) :
    scanint8 locale str = .ok n := by
  have scanned : scanSign (str.val.dropWhile locale.isspace) = (decide (n.toInt < 0), decimal n.toInt.natAbs) := by
    rw [printed, dropWhile_decimalInt, scanSign_decimalInt]
  have all_digits : ∀ b ∈ decimal n.toInt.natAbs, isDigit b = true := fun b => isDigit_of_mem_decimal
  obtain ⟨taken, dropped⟩ := takeWhile_isDigit locale all_digits (List.forall_mem_nil _)
  rw [List.append_nil] at taken dropped
  refine (scanint8_unsigned scanned).mpr ⟨?_, ?_, ?_, fun _ least => ?_⟩
  · rw [taken]
    exact decimal_ne_nil _
  · rw [dropped]
    rfl
  · simp only [taken, digitsValue_decimal, decide_eq_true_eq]
    split <;> omega
  · rw [taken, least]
    decide +kernel

end Wire
