import PGLogical.Wire.JsonText

/-! # Values in JSON text

A reader for all of JSON. Text is bytes, and those beyond ASCII stand for themselves; only an escape can
name a character by its code. A text that is read keeps its meaning in a longer one, so that arrays and
objects are put together from the texts of their parts.
-/

namespace Wire

/-! ## The reader -/

/-- A byte of a string, or a character beyond ASCII that was written as its code. -/
inductive JsonUnit where
  | byte (b : UInt8)
  | code (n : ℕ)
deriving DecidableEq

inductive JsonValue where
  | null
  | bool (value : Bool)
  | number (digits : Bytes)
  | string (units : List JsonUnit)
  | array (elements : List JsonValue)
  | object (members : List (List JsonUnit × JsonValue))

def JsonValue.text (s : Bytes) : JsonValue := .string (s.map .byte)

/-- The unit of an escape with four digits. -/
def codeUnit (a b c d : UInt8) : Option JsonUnit := do
  let a ← hexValue a
  let b ← hexValue b
  let c ← hexValue c
  let d ← hexValue d
  let code := 4096 * a.toNat + 256 * b.toNat + 16 * c.toNat + d.toNat
  return if code < 128 then .byte (UInt8.ofNat code) else .code code

def prependUnit (unit : JsonUnit) (read : List JsonUnit × Bytes) : List JsonUnit × Bytes := (unit :: read.1, read.2)

/-- A string behind its opening quotation mark, and what follows it. -/
def readString : Bytes → Option (List JsonUnit × Bytes)
  | [] => none
  | b :: rest =>
      if b = quotationMark then some ([], rest)
      else if b = backslash then
        match rest with
        | 117 :: a :: b :: c :: d :: rest =>
            (codeUnit a b c d).bind fun unit => (readString rest).map (prependUnit unit)
        | escape :: rest =>
            ((shortEscapes ++ [(47, 47)]).lookup escape).bind fun code => (readString rest).map (prependUnit (.byte code))
        | [] => none
      else if b < 32 then none
      else (readString rest).map (prependUnit (.byte b))

/-- The bytes of numbers and of the three words. -/
def isBareByte (b : UInt8) : Bool := isLower b || isUpper b || isDigit b || b == 43 || b == 45 || b == 46

def isExponent : Bytes → Bool
  | [] => true
  | e :: rest =>
      let digits := match rest with
        | sign :: digits => if sign = 43 ∨ sign = 45 then digits else rest
        | [] => []
      (e == 101 || e == 69) && !digits.isEmpty && digits.all isDigit

def isFraction : Bytes → Bool
  | [] => true
  | b :: rest =>
      if b = 46 then !(rest.takeWhile isDigit).isEmpty && isExponent (rest.dropWhile isDigit) else isExponent (b :: rest)

def isUnsigned (text : Bytes) : Bool :=
  match text.takeWhile isDigit with
  | [] => false
  | first :: more => (first != 48 || more.isEmpty) && isFraction (text.dropWhile isDigit)

def isNumber : Bytes → Bool
  | [] => false
  | b :: rest => if b = 45 then isUnsigned rest else isUnsigned (b :: rest)

def bareValue (word : Bytes) : Option JsonValue :=
  if word = ascii "null" then some .null
  else if word = ascii "true" then some (.bool true)
  else if word = ascii "false" then some (.bool false)
  else if isNumber word then some (.number word)
  else none

def leftBracket : UInt8 := 91
def rightBracket : UInt8 := 93

/-- Items with commas between them, up to what closes the list. Every round but the last passes a comma. -/
def readItems {α : Type} (close : UInt8) (item : Bytes → Option (α × Bytes)) : ℕ → Bytes → Option (List α × Bytes)
  | 0, _ => none
  | rounds + 1, text =>
      (item text).bind fun read =>
        match read.2.dropWhile isJsonSpace with
        | [] => none
        | b :: rest =>
            if b = comma then (readItems close item rounds rest).map fun others => (read.1 :: others.1, others.2)
            else if b = close then some ([read.1], rest)
            else none

/-- An item or nothing before what closes the list. -/
def readList {α : Type} (close : UInt8) (item : Bytes → Option (α × Bytes)) (text : Bytes) : Option (List α × Bytes) :=
  match text.dropWhile isJsonSpace with
  | [] => none
  | b :: rest => if b = close then some ([], rest) else readItems close item text.length text

/-- A key and its colon. -/
def readKey (text : Bytes) : Option (List JsonUnit × Bytes) :=
  match text.dropWhile isJsonSpace with
  | [] => none
  | b :: rest =>
      if b = quotationMark then
        (readString rest).bind fun read =>
          match read.2.dropWhile isJsonSpace with
          | [] => none
          | c :: rest => if c = colon then some (read.1, rest) else none
      else none

def readMember (value : Bytes → Option (JsonValue × Bytes)) (text : Bytes) :
    Option ((List JsonUnit × JsonValue) × Bytes) :=
  (readKey text).bind fun key => (value key.2).map fun read => ((key.1, read.1), read.2)

/-- A value that is nested less than `depth` deep, and what follows it. -/
def readValue : ℕ → Bytes → Option (JsonValue × Bytes)
  | 0, _ => none
  | depth + 1, text =>
      match text.dropWhile isJsonSpace with
      | [] => none
      | b :: rest =>
          if b = quotationMark then (readString rest).map fun read => (.string read.1, read.2)
          else if b = leftBracket then
            (readList rightBracket (readValue depth) rest).map fun read => (.array read.1, read.2)
          else if b = leftBrace then
            (readList rightBrace (readMember (readValue depth)) rest).map fun read => (.object read.1, read.2)
          else
            (bareValue ((b :: rest).takeWhile isBareByte)).map fun value => (value, (b :: rest).dropWhile isBareByte)

/-- The value that fills the text but for spaces. A value is not nested deeper than its text is long. -/
def parseJson (text : Bytes) : Option JsonValue :=
  (readValue (text.length + 1) text).bind fun read => if read.2.all isJsonSpace then some read.1 else none

/-- The only member with this key. -/
def JsonValue.field (key : Bytes) : JsonValue → Option JsonValue
  | .object members =>
      match members.filter fun member => decide (member.1 = key.map .byte) with
      | [member] => some member.2
      | _ => none
  | _ => none

/-! ## Strings -/

/-- The inside of a string with the mark that closes it, and what it stands for. -/
inductive StringText : Bytes → List JsonUnit → Prop where
  | close : StringText [quotationMark] []
  | plain {b : UInt8} {inside : Bytes} {units : List JsonUnit} (printable : ¬ b < 32) (unmarked : b ≠ quotationMark)
      (unescaped : b ≠ backslash) (rest : StringText inside units) : StringText (b :: inside) (.byte b :: units)
  | short {escape code : UInt8} {inside : Bytes} {units : List JsonUnit}
      (decoded : (shortEscapes ++ [(47, 47)]).lookup escape = some code) (rest : StringText inside units) :
      StringText (backslash :: escape :: inside) (.byte code :: units)
  | unicode {a b c d : UInt8} {unit : JsonUnit} {inside : Bytes} {units : List JsonUnit}
      (decoded : codeUnit a b c d = some unit) (rest : StringText inside units) :
      StringText (backslash :: 117 :: a :: b :: c :: d :: inside) (unit :: units)

theorem map_prependUnit_eq_some {read : Option (List JsonUnit × Bytes)} {unit : JsonUnit} {units : List JsonUnit}
    {rest : Bytes} (mapped : read.map (prependUnit unit) = some (units, rest)) :
    ∃ others, units = unit :: others ∧ read = some (others, rest) := by
  obtain ⟨⟨others, behind⟩, rfl, same⟩ := Option.map_eq_some_iff.mp mapped
  cases same
  exact ⟨others, rfl, rfl⟩

theorem exists_stringText {input rest : Bytes} {units : List JsonUnit} (read : readString input = some (units, rest)) :
    ∃ inside, input = inside ++ rest ∧ StringText inside units := by
  fun_induction readString input generalizing units rest with
  | case1 => cases read
  | case2 behind =>
    cases read
    exact ⟨[quotationMark], rfl, .close⟩
  | case3 a b c d behind other ih =>
    obtain ⟨unit, decoded, mapped⟩ := Option.bind_eq_some_iff.mp read
    obtain ⟨others, rfl, tail⟩ := map_prependUnit_eq_some mapped
    obtain ⟨inside, rfl, shape⟩ := ih tail
    exact ⟨_, rfl, .unicode decoded shape⟩
  | case4 escape behind other marks ih =>
    obtain ⟨code, decoded, mapped⟩ := Option.bind_eq_some_iff.mp read
    obtain ⟨others, rfl, tail⟩ := map_prependUnit_eq_some mapped
    obtain ⟨inside, rfl, shape⟩ := ih tail
    exact ⟨_, rfl, .short decoded shape⟩
  | case5 => cases read
  | case6 => cases read
  | case7 b behind unmarked unescaped printable ih =>
    obtain ⟨others, rfl, tail⟩ := map_prependUnit_eq_some read
    obtain ⟨inside, rfl, shape⟩ := ih tail
    exact ⟨_, rfl, .plain printable unmarked unescaped shape⟩

theorem StringText.read {inside : Bytes} {units : List JsonUnit} (shape : StringText inside units) (rest : Bytes) :
    readString (inside ++ rest) = some (units, rest) := by
  have other : backslash ≠ quotationMark := by decide
  induction shape with
  | close =>
    rw [List.singleton_append, readString.eq_def]
    rfl
  | plain printable unmarked unescaped _ ih =>
    rw [List.cons_append, readString.eq_def]
    simp only [unmarked, unescaped, printable, if_false, ih]
    rfl
  | @short escape code inside units decoded _ ih =>
    have unlike : escape ≠ 117 := by
      rintro rfl
      have absent : (shortEscapes ++ [(47, 47)]).lookup 117 = none := by decide
      rw [absent] at decoded
      cases decoded
    simp only [List.cons_append]
    generalize inside ++ rest = input at ih
    rw [readString.eq_def]
    simp only [other, if_false, if_true]
    split
    next same =>
      cases same
      exact absurd rfl unlike
    next same =>
      cases same
      rw [decoded, Option.bind_some, ih]
      rfl
    next same => cases same
  | unicode decoded _ ih =>
    simp only [List.cons_append]
    rw [readString.eq_def]
    simp only [other, if_false, if_true, decoded, Option.bind_some, ih]
    rfl

/-- A byte that stands for itself in a string. -/
def isUnescaped (b : UInt8) : Bool := !decide (b < 32) && b != quotationMark && b != backslash

theorem isUnescaped_iff {b : UInt8} : isUnescaped b = true ↔ ¬ b < 32 ∧ b ≠ quotationMark ∧ b ≠ backslash := by
  simp [isUnescaped, and_assoc]

theorem stringText_unescaped {s : Bytes} (plain : ∀ b ∈ s, isUnescaped b = true) :
    StringText (s ++ [quotationMark]) (s.map .byte) := by
  induction s with
  | nil => exact .close
  | cons b s ih =>
    obtain ⟨here, plain⟩ := List.forall_mem_cons.mp plain
    obtain ⟨printable, unmarked, unescaped⟩ := isUnescaped_iff.mp here
    exact .plain printable unmarked unescaped (ih plain)

theorem lt_of_hexValue {b v : UInt8} (decoded : hexValue b = some v) : v.toNat < 16 := by
  have bound := b.toNat_lt
  simp only [hexValue, Bool.and_eq_true, decide_eq_true_eq, UInt8.le_iff_toNat_le, UInt8.reduceToNat] at decoded
  split_ifs at decoded
  all_goals
    cases decoded
    rw [UInt8.toNat_sub]
    simp only [UInt8.reduceToNat]
    omega

theorem codeUnit_of_unicodeEscape {a b c d code : UInt8} (decoded : unicodeEscape a b c d = some code) :
    codeUnit a b c d = some (.byte code) := by
  simp only [unicodeEscape, Option.bind_eq_bind, Option.bind_eq_some_iff] at decoded
  obtain ⟨a, hex_a, b, hex_b, c, hex_c, d, hex_d, ascii_code⟩ := decoded
  split at ascii_code
  next zeros =>
    obtain ⟨rfl, rfl, -, small⟩ := zeros
    cases ascii_code
    have c_small := lt_of_hexValue hex_c
    have d_small := lt_of_hexValue hex_d
    have value : (16 * c + d).toNat = 16 * c.toNat + d.toNat := by
      simp only [UInt8.toNat_add, UInt8.toNat_mul, UInt8.reduceToNat]
      omega
    simp only [UInt8.lt_iff_toNat_lt, UInt8.reduceToNat] at small
    simp only [codeUnit, hex_a, hex_b, hex_c, hex_d, Option.bind_eq_bind, Option.bind_some, UInt8.reduceToNat,
      Nat.mul_zero, Nat.zero_add, if_pos small, ← value, UInt8.ofNat_toNat]
    rfl
  next => cases ascii_code

/-- What the other reader reads as ASCII is the same string. -/
theorem readString_of_scanString {input s rest : Bytes} (scanned : scanString input = some (s, rest)) :
    readString input = some (s.map .byte, rest) := by
  fun_induction scanString input generalizing s rest with
  | case1 => cases scanned
  | case2 behind =>
    cases scanned
    exact StringText.close.read _
  | case3 a b c d behind other ih =>
    obtain ⟨code, decoded, mapped⟩ := Option.bind_eq_some_iff.mp scanned
    obtain ⟨⟨others, behind⟩, tail, same⟩ := Option.map_eq_some_iff.mp mapped
    cases same
    obtain ⟨inside, rfl, shape⟩ := exists_stringText (ih tail)
    exact (StringText.unicode (codeUnit_of_unicodeEscape decoded) shape).read _
  | case4 escape behind other marks ih =>
    obtain ⟨code, decoded, mapped⟩ := Option.bind_eq_some_iff.mp scanned
    obtain ⟨⟨others, behind⟩, tail, same⟩ := Option.map_eq_some_iff.mp mapped
    cases same
    obtain ⟨inside, rfl, shape⟩ := exists_stringText (ih tail)
    exact (StringText.short decoded shape).read _
  | case5 => cases scanned
  | case6 => cases scanned
  | case7 b behind unmarked unescaped printable ih =>
    obtain ⟨⟨others, behind⟩, tail, same⟩ := Option.map_eq_some_iff.mp scanned
    cases same
    obtain ⟨inside, rfl, shape⟩ := exists_stringText (ih tail)
    exact (StringText.plain printable unmarked unescaped shape).read _

/-! ### Strings that are written as they are -/

theorem cons_eq_append_mark {b mark : UInt8} {rest front behind : Bytes} (same : b :: rest = front ++ mark :: behind)
    (other : b ≠ mark) : ∃ more, front = b :: more ∧ rest = more ++ mark :: behind := by
  cases front with
  | nil => exact absurd (List.cons.inj same).1 other
  | cons c more =>
    obtain ⟨rfl, tail⟩ := List.cons.inj same
    exact ⟨more, rfl, tail⟩

theorem codeUnit_marks {a b c d : UInt8} {unit : JsonUnit} (decoded : codeUnit a b c d = some unit) :
    a ≠ quotationMark ∧ b ≠ quotationMark ∧ c ≠ quotationMark ∧ d ≠ quotationMark := by
  have none_of_mark : hexValue quotationMark = none := by decide
  refine ⟨?_, ?_, ?_, ?_⟩
  all_goals
    rintro rfl
    simp [codeUnit, none_of_mark] at decoded

/-- The first quotation mark closes the string or is itself in it. In the first case every unit has cost at
least a byte, and those that cost no more stand for themselves. -/
theorem StringText.first_mark {inside : Bytes} {units : List JsonUnit} (shape : StringText inside units)
    {front behind rest : Bytes} (same : inside ++ rest = front ++ quotationMark :: behind)
    (unmarked : quotationMark ∉ front) :
    (rest = behind ∧ units.length ≤ front.length ∧ (units.length = front.length → ∀ b ∈ front, isUnescaped b = true)) ∨
      ∃ position < front.length, units[position]? = some (.byte quotationMark) := by
  have other : backslash ≠ quotationMark := by decide
  induction shape generalizing front with
  | close =>
    cases front with
    | nil => exact .inl ⟨(List.cons.inj same).2, Nat.le_refl _, fun _ b inside => by cases inside⟩
    | cons c more =>
      obtain ⟨rfl, -⟩ := List.cons.inj same
      exact absurd List.mem_cons_self unmarked
  | plain printable no_mark unescaped _ ih =>
    obtain ⟨more, rfl, tail⟩ := cons_eq_append_mark same no_mark
    rw [List.mem_cons, not_or] at unmarked
    obtain ⟨closed, short, exact_length⟩ | ⟨position, before, marked⟩ := ih tail unmarked.2
    · refine .inl ⟨closed, Nat.succ_le_succ short, fun equal => ?_⟩
      have more_plain := exact_length (Nat.succ_injective equal)
      exact List.forall_mem_cons.mpr ⟨isUnescaped_iff.mpr ⟨printable, no_mark, unescaped⟩, more_plain⟩
    · exact .inr ⟨position + 1, Nat.succ_lt_succ before, marked⟩
  | @short escape code _ _ decoded _ ih =>
    simp only [List.cons_append] at same
    obtain ⟨more, rfl, escaped⟩ := cons_eq_append_mark same other
    rw [List.mem_cons, not_or] at unmarked
    by_cases marks : escape = quotationMark
    · subst marks
      obtain rfl : code = quotationMark := by
        have found : (shortEscapes ++ [(47, 47)]).lookup quotationMark = some quotationMark := by decide
        exact Option.some.inj (decoded.symm.trans found)
      exact .inr ⟨0, Nat.succ_pos _, rfl⟩
    · obtain ⟨after, rfl, tail⟩ := cons_eq_append_mark escaped marks
      rw [List.mem_cons, not_or] at unmarked
      obtain ⟨closed, short, -⟩ | ⟨position, before, marked⟩ := ih tail unmarked.2.2
      · refine .inl ⟨closed, ?_, fun equal => ?_⟩
        all_goals
          simp only [List.length_cons] at *
          omega
      · refine .inr ⟨position + 1, ?_, marked⟩
        simp only [List.length_cons]
        omega
  | unicode decoded _ ih =>
    obtain ⟨a_mark, b_mark, c_mark, d_mark⟩ := codeUnit_marks decoded
    simp only [List.cons_append] at same
    obtain ⟨_, rfl, escaped⟩ := cons_eq_append_mark same other
    obtain ⟨_, rfl, first⟩ := cons_eq_append_mark escaped (by decide : (117 : UInt8) ≠ quotationMark)
    obtain ⟨_, rfl, second⟩ := cons_eq_append_mark first a_mark
    obtain ⟨_, rfl, third⟩ := cons_eq_append_mark second b_mark
    obtain ⟨_, rfl, fourth⟩ := cons_eq_append_mark third c_mark
    obtain ⟨after, rfl, tail⟩ := cons_eq_append_mark fourth d_mark
    have after_unmarked : quotationMark ∉ after := fun inside => unmarked (by simp [inside])
    obtain ⟨closed, short, -⟩ | ⟨position, before, marked⟩ := ih tail after_unmarked
    · refine .inl ⟨closed, ?_, fun equal => ?_⟩
      all_goals
        simp only [List.length_cons] at *
        omega
    · refine .inr ⟨position + 1, ?_, marked⟩
      simp only [List.length_cons]
      omega

/-- A string that is written between marks as it is and read back as it is needs no escapes. -/
theorem unescaped_of_readString {s behind rest : Bytes}
    (read : readString (s ++ quotationMark :: behind) = some (s.map .byte, rest)) :
    (∀ b ∈ s, isUnescaped b = true) ∧ rest = behind := by
  obtain ⟨inside, same, shape⟩ := exists_stringText read
  by_cases marked : quotationMark ∈ s
  · obtain ⟨front, after, rfl, unmarked⟩ := List.eq_append_cons_of_mem marked
    rw [List.append_assoc, List.cons_append] at same
    obtain ⟨-, short, -⟩ | ⟨position, before, mark⟩ := shape.first_mark same.symm unmarked
    · simp only [List.length_map, List.length_append, List.length_cons] at short
      omega
    · rw [List.getElem?_map, List.getElem?_append_left before, List.getElem?_eq_getElem before, Option.map_some,
        Option.some.injEq, JsonUnit.byte.injEq] at mark
      exact absurd (mark ▸ List.getElem_mem before) unmarked
  · obtain ⟨closed, -, plain⟩ | ⟨position, before, mark⟩ := shape.first_mark same.symm marked
    · exact ⟨plain (List.length_map _), closed⟩
    · rw [List.getElem?_map, List.getElem?_eq_getElem before, Option.map_some, Option.some.injEq,
        JsonUnit.byte.injEq] at mark
      exact absurd (mark ▸ List.getElem_mem before) marked

/-! ## Texts inside longer texts -/

/-- Nothing that could go on with a number or a word. -/
def Stops (more : Bytes) : Prop := ∀ b ∈ more.head?, isBareByte b = false

theorem stops_nil : Stops [] := fun _ first => by cases first

theorem stops_cons {b : UInt8} (more : Bytes) (stop : isBareByte b = false) : Stops (b :: more) := by
  rintro _ ⟨⟩
  exact stop

/-- What one reader reads in a text, the other reads in every longer one. -/
def Extends {α : Type} (item other : Bytes → Option (α × Bytes)) : Prop :=
  ∀ ⦃text value rest⦄, item text = some (value, rest) → ∀ more, rest ≠ [] ∨ Stops more →
    other (text ++ more) = some (value, rest ++ more)

theorem dropWhile_append_of_cons {p : UInt8 → Bool} {text rest : Bytes} {b : UInt8} (dropped : text.dropWhile p = b :: rest)
    (more : Bytes) : (text ++ more).dropWhile p = b :: (rest ++ more) := by
  rw [List.dropWhile_append, dropped]
  rfl

section Extension

variable {α : Type} {item other : Bytes → Option (α × Bytes)} {close : UInt8}

theorem readItems_extend (extends_item : Extends item other) {rounds further : ℕ} (enough : rounds ≤ further)
    {text rest : Bytes} {values : List α} (read : readItems close item rounds text = some (values, rest)) (more : Bytes) :
    readItems close other further (text ++ more) = some (values, rest ++ more) := by
  induction rounds generalizing further text values with
  | zero => cases read
  | succ rounds ih =>
    obtain ⟨further, rfl⟩ : ∃ fewer, further = fewer + 1 := ⟨further - 1, by omega⟩
    rw [readItems] at read ⊢
    obtain ⟨⟨value, behind⟩, first, next⟩ := Option.bind_eq_some_iff.mp read
    dsimp only at next
    cases dropped : behind.dropWhile isJsonSpace with
    | nil =>
      rw [dropped] at next
      cases next
    | cons b behind' =>
      rw [dropped] at next
      have nonempty : behind ≠ [] := by
        rintro rfl
        cases dropped
      rw [extends_item first more (.inl nonempty), Option.bind_some]
      dsimp only at next ⊢
      rw [dropWhile_append_of_cons dropped]
      dsimp only
      split at next
      · rename_i separated
        obtain ⟨⟨values', _⟩, tail, same⟩ := Option.map_eq_some_iff.mp next
        cases same
        rw [if_pos separated, ih (Nat.le_of_succ_le_succ enough) tail]
        rfl
      · rename_i unseparated
        split at next
        · rename_i closed
          cases next
          rw [if_neg unseparated, if_pos closed]
        · cases next

theorem readList_extend (extends_item : Extends item other) {text rest : Bytes} {values : List α}
    (read : readList close item text = some (values, rest)) (more : Bytes) :
    readList close other (text ++ more) = some (values, rest ++ more) := by
  unfold readList at read ⊢
  cases dropped : text.dropWhile isJsonSpace with
  | nil =>
    rw [dropped] at read
    cases read
  | cons b behind =>
    rw [dropped] at read
    rw [dropWhile_append_of_cons dropped]
    dsimp only at read ⊢
    by_cases closed : b = close
    · rw [if_pos closed] at read ⊢
      cases read
      rfl
    · rw [if_neg closed] at read ⊢
      exact readItems_extend extends_item (by simp) read more

end Extension

theorem readString_extend {text rest : Bytes} {units : List JsonUnit} (read : readString text = some (units, rest))
    (more : Bytes) : readString (text ++ more) = some (units, rest ++ more) := by
  obtain ⟨inside, rfl, shape⟩ := exists_stringText read
  rw [List.append_assoc]
  exact shape.read _

/-- The shape of a text that starts with a key. -/
theorem readKey_eq_some_iff {text rest : Bytes} {key : List JsonUnit} : readKey text = some (key, rest) ↔
    ∃ inside behind, text.dropWhile isJsonSpace = quotationMark :: inside ∧ readString inside = some (key, behind) ∧
      behind.dropWhile isJsonSpace = colon :: rest := by
  unfold readKey
  constructor
  · intro read
    cases dropped : text.dropWhile isJsonSpace with
    | nil =>
      rw [dropped] at read
      cases read
    | cons b inside =>
      rw [dropped] at read
      dsimp only at read
      by_cases marked : b = quotationMark
      · rw [if_pos marked] at read
        obtain ⟨⟨units, behind⟩, string, next⟩ := Option.bind_eq_some_iff.mp read
        dsimp only at next
        cases following : behind.dropWhile isJsonSpace with
        | nil =>
          rw [following] at next
          cases next
        | cons c others =>
          rw [following] at next
          dsimp only at next
          by_cases separated : c = colon
          · rw [if_pos separated] at next
            cases next
            exact ⟨inside, behind, by rw [marked], string, by rw [following, separated]⟩
          · rw [if_neg separated] at next
            cases next
      · rw [if_neg marked] at read
        cases read
  · rintro ⟨inside, behind, dropped, string, following⟩
    simp [dropped, string, following]

theorem readKey_extend {text rest : Bytes} {key : List JsonUnit} (read : readKey text = some (key, rest)) (more : Bytes) :
    readKey (text ++ more) = some (key, rest ++ more) := by
  obtain ⟨inside, behind, dropped, string, following⟩ := readKey_eq_some_iff.mp read
  exact readKey_eq_some_iff.mpr ⟨inside ++ more, behind ++ more, dropWhile_append_of_cons dropped more,
    readString_extend string more, dropWhile_append_of_cons following more⟩

theorem readMember_eq_some_iff {value : Bytes → Option (JsonValue × Bytes)} {text rest : Bytes} {key : List JsonUnit}
    {v : JsonValue} : readMember value text = some ((key, v), rest) ↔
      ∃ behind, readKey text = some (key, behind) ∧ value behind = some (v, rest) := by
  simp [readMember, Option.bind_eq_some_iff, Option.map_eq_some_iff, and_assoc]

theorem readMember_extends {value other : Bytes → Option (JsonValue × Bytes)} (extends_value : Extends value other) :
    Extends (readMember value) (readMember other) := by
  intro text member rest read more stops
  obtain ⟨behind, first, second⟩ := readMember_eq_some_iff.mp read
  exact readMember_eq_some_iff.mpr ⟨behind ++ more, readKey_extend first more, extends_value second more stops⟩

/-- A number or a word ends where the text does or at a byte that stops it. -/
theorem bare_append {text more : Bytes} (stops : text.dropWhile isBareByte ≠ [] ∨ Stops more) :
    (text ++ more).takeWhile isBareByte = text.takeWhile isBareByte ∧
      (text ++ more).dropWhile isBareByte = text.dropWhile isBareByte ++ more := by
  induction text with
  | nil =>
    have stops := stops.resolve_left fun nonempty => nonempty rfl
    cases more with
    | nil => exact ⟨rfl, rfl⟩
    | cons b more => simp [stops b rfl]
  | cons b text ih =>
    cases bare : isBareByte b with
    | true =>
      rw [List.dropWhile_cons_of_pos bare] at stops
      obtain ⟨front, back⟩ := ih stops
      simp [bare, front, back]
    | false => simp [bare]

theorem readValue_extends {depth deeper : ℕ} (enough : depth ≤ deeper) : Extends (readValue depth) (readValue deeper) := by
  induction depth generalizing deeper with
  | zero =>
    intro text value rest read
    cases read
  | succ depth ih =>
    obtain ⟨deeper, rfl⟩ : ∃ less, deeper = less + 1 := ⟨deeper - 1, by omega⟩
    have inner := ih (Nat.le_of_succ_le_succ enough)
    intro text value rest read more stops
    rw [readValue] at read ⊢
    cases dropped : text.dropWhile isJsonSpace with
    | nil =>
      rw [dropped] at read
      cases read
    | cons b behind =>
      rw [dropped] at read
      rw [dropWhile_append_of_cons dropped]
      dsimp only at read ⊢
      by_cases string : b = quotationMark
      · rw [if_pos string] at read ⊢
        obtain ⟨⟨units, _⟩, inside, same⟩ := Option.map_eq_some_iff.mp read
        cases same
        rw [readString_extend inside more]
        rfl
      rw [if_neg string] at read ⊢
      by_cases array : b = leftBracket
      · rw [if_pos array] at read ⊢
        obtain ⟨⟨elements, _⟩, inside, same⟩ := Option.map_eq_some_iff.mp read
        cases same
        rw [readList_extend inner inside more]
        rfl
      rw [if_neg array] at read ⊢
      by_cases object : b = leftBrace
      · rw [if_pos object] at read ⊢
        obtain ⟨⟨members, _⟩, inside, same⟩ := Option.map_eq_some_iff.mp read
        cases same
        rw [readList_extend (readMember_extends inner) inside more]
        rfl
      rw [if_neg object] at read ⊢
      obtain ⟨bare, word, same⟩ := Option.map_eq_some_iff.mp read
      cases same
      obtain ⟨front, back⟩ := bare_append stops
      rw [List.cons_append] at front back
      rw [front, back, word]
      rfl

/-! ## Arrays and objects from the texts of their parts -/

/-- Whatever follows the text, only spaces are left of it. -/
def ReadsAs {α : Type} (item : Bytes → Option (α × Bytes)) (text : Bytes) (value : α) : Prop :=
  ∀ more, Stops more → ∃ spaces, spaces.all isJsonSpace = true ∧ item (text ++ more) = some (value, spaces ++ more)

theorem readsAs_of_parseJson {text : Bytes} {value : JsonValue} (parsed : parseJson text = some value) {depth : ℕ}
    (enough : text.length < depth) : ReadsAs (readValue depth) text value := by
  intro more stops
  obtain ⟨⟨read_value, spaces⟩, read, rest⟩ := Option.bind_eq_some_iff.mp parsed
  dsimp only at rest
  split at rest
  · rename_i blank_rest
    cases rest
    exact ⟨spaces, blank_rest, readValue_extends (Nat.succ_le_of_lt enough) read more (.inr stops)⟩
  · cases rest

theorem parseJson_of_readsAs {text : Bytes} {value : JsonValue} (reads : ReadsAs (readValue (text.length + 1)) text value) :
    parseJson text = some value := by
  obtain ⟨spaces, blank_rest, read⟩ := reads [] stops_nil
  rw [List.append_nil, List.append_nil] at read
  rw [parseJson, read, Option.bind_some, if_pos blank_rest]

theorem dropWhile_spaces {spaces : Bytes} (blank_spaces : spaces.all isJsonSpace = true) {b : UInt8}
    (visible : isJsonSpace b = false) (rest : Bytes) : (spaces ++ b :: rest).dropWhile isJsonSpace = b :: rest := by
  rw [List.dropWhile_append_of_pos (List.all_eq_true.mp blank_spaces), List.dropWhile_cons_of_neg (by simp [visible])]

/-- A space in front changes nothing. -/
theorem parseJson_space {text : Bytes} {value : JsonValue} (parsed : parseJson text = some value) :
    parseJson (32 :: text) = some value := by
  refine parseJson_of_readsAs fun more stops => ?_
  obtain ⟨spaces, blank_rest, read⟩ := readsAs_of_parseJson parsed (Nat.lt_succ_of_lt (Nat.lt_succ_self text.length))
    more stops
  refine ⟨spaces, blank_rest, ?_⟩
  rw [← read]
  rfl

/-- The text of a string, with marks around it. -/
theorem parseJson_string {inside : Bytes} {units : List JsonUnit} (shape : StringText inside units) :
    parseJson (quotationMark :: inside) = some (.string units) := by
  have read := shape.read []
  rw [List.append_nil] at read
  have visible : isJsonSpace quotationMark = false := by decide
  simp [parseJson, readValue, visible, read]

theorem parseJson_text {s : Bytes} (plain : ∀ b ∈ s, isUnescaped b = true) :
    parseJson (quotationMark :: s ++ [quotationMark]) = some (.text s) := parseJson_string (stringText_unescaped plain)

theorem bareValue_ne_string {word : Bytes} {units : List JsonUnit} : bareValue word ≠ some (.string units) := by
  intro same
  unfold bareValue at same
  split_ifs at same <;> cases same

theorem readValue_string {depth : ℕ} {text rest : Bytes} {units : List JsonUnit}
    (read : readValue (depth + 1) text = some (.string units, rest)) :
    ∃ inside, text.dropWhile isJsonSpace = quotationMark :: inside ∧ readString inside = some (units, rest) := by
  rw [readValue] at read
  cases dropped : text.dropWhile isJsonSpace with
  | nil =>
    rw [dropped] at read
    cases read
  | cons b inside =>
    rw [dropped] at read
    dsimp only at read
    split_ifs at read with string array object
    · obtain ⟨⟨_, _⟩, found, same⟩ := Option.map_eq_some_iff.mp read
      cases same
      exact ⟨inside, by rw [string], found⟩
    · obtain ⟨_, -, same⟩ := Option.map_eq_some_iff.mp read
      cases same
    · obtain ⟨_, -, same⟩ := Option.map_eq_some_iff.mp read
      cases same
    · obtain ⟨_, word, same⟩ := Option.map_eq_some_iff.mp read
      cases same
      exact absurd word bareValue_ne_string

/-- What reads as a string is a key in front of a colon. -/
theorem readKey_of_parseJson {text : Bytes} {key : List JsonUnit} (parsed : parseJson text = some (.string key))
    (more : Bytes) : readKey (text ++ colon :: more) = some (key, more) := by
  obtain ⟨spaces, blank_spaces, read⟩ := readsAs_of_parseJson parsed (Nat.lt_succ_self _) (colon :: more)
    (stops_cons more (by decide))
  obtain ⟨inside, dropped, string⟩ := readValue_string read
  exact readKey_eq_some_iff.mpr ⟨inside, _, dropped, string, dropWhile_spaces blank_spaces (by decide) more⟩

section Lists

variable {α : Type} {item : Bytes → Option (α × Bytes)} {close : UInt8}

/-- What may stand at the end of a list. -/
structure Closes (close : UInt8) : Prop where
  visible : isJsonSpace close = false
  bare : isBareByte close = false
  separate : close ≠ comma

theorem readItems_intercalate (closes : Closes close) {chunks : List (Bytes × α)} (some_chunks : chunks ≠ [])
    (reads : ∀ chunk ∈ chunks, ReadsAs item chunk.1 chunk.2) {rounds : ℕ} (enough : chunks.length ≤ rounds) (more : Bytes) :
    readItems close item rounds ([comma].intercalate (chunks.map Prod.fst) ++ close :: more) =
      some (chunks.map Prod.snd, more) := by
  induction chunks generalizing rounds with
  | nil => exact absurd rfl some_chunks
  | cons chunk chunks ih =>
    obtain ⟨rounds, rfl⟩ : ∃ fewer, rounds = fewer + 1 := ⟨rounds - 1, by simp at enough; omega⟩
    obtain ⟨here, reads⟩ := List.forall_mem_cons.mp reads
    cases chunks with
    | nil =>
      obtain ⟨spaces, blank_spaces, read⟩ := here (close :: more) (stops_cons more closes.bare)
      rw [List.map_singleton, List.intercalate_singleton, readItems, read, Option.bind_some]
      dsimp only
      rw [dropWhile_spaces blank_spaces closes.visible]
      dsimp only
      rw [if_neg closes.separate, if_pos rfl]
      rfl
    | cons next chunks =>
      have tail := ih (List.cons_ne_nil _ _) reads (Nat.le_of_succ_le_succ enough)
      obtain ⟨spaces, blank_spaces, read⟩ := here
        (comma :: ([comma].intercalate ((next :: chunks).map Prod.fst) ++ close :: more)) (stops_cons _ (by decide))
      rw [List.map_cons, List.map_cons, List.intercalate_cons_cons, List.append_assoc, List.append_assoc,
        List.singleton_append, ← List.map_cons, readItems, read, Option.bind_some]
      dsimp only
      rw [dropWhile_spaces blank_spaces (by decide)]
      dsimp only
      rw [if_pos rfl, tail]
      rfl

theorem length_le_intercalate_succ (chunks : List (Bytes × α)) :
    chunks.length ≤ ([comma].intercalate (chunks.map Prod.fst)).length + 1 := by
  induction chunks with
  | nil => exact Nat.zero_le _
  | cons chunk chunks ih =>
    cases chunks with
    | nil => exact Nat.succ_le_succ (Nat.zero_le _)
    | cons next chunks =>
      rw [List.map_cons, List.map_cons, List.intercalate_cons_cons, ← List.map_cons]
      simp only [List.length_append, List.length_cons, List.length_nil] at ih ⊢
      omega

theorem length_le_of_mem_intercalate {chunks : List (Bytes × α)} {chunk : Bytes × α} (inside : chunk ∈ chunks) :
    chunk.1.length ≤ ([comma].intercalate (chunks.map Prod.fst)).length := by
  induction chunks with
  | nil => cases inside
  | cons first chunks ih =>
    cases chunks with
    | nil =>
      obtain rfl := List.mem_singleton.mp inside
      rw [List.map_singleton, List.intercalate_singleton]
    | cons next chunks =>
      rw [List.map_cons, List.map_cons, List.intercalate_cons_cons, ← List.map_cons]
      simp only [List.length_append]
      obtain rfl | later := List.mem_cons.mp inside
      · omega
      · have rest := ih later
        omega

/-- A list of items, or of none. No item starts with what closes the list. -/
theorem readList_intercalate (closes : Closes close)
    (unopened : ∀ text rest, text.dropWhile isJsonSpace = close :: rest → item text = none)
    {chunks : List (Bytes × α)} (reads : ∀ chunk ∈ chunks, ReadsAs item chunk.1 chunk.2) (more : Bytes) :
    readList close item ([comma].intercalate (chunks.map Prod.fst) ++ close :: more) =
      some (chunks.map Prod.snd, more) := by
  have visible : (close :: more).dropWhile isJsonSpace = close :: more :=
    List.dropWhile_cons_of_neg (by simp [closes.visible])
  cases chunks with
  | nil =>
    rw [readList, List.map_nil, List.intercalate_nil, List.nil_append, visible]
    exact if_pos rfl
  | cons chunk chunks =>
    have enough : (chunk :: chunks).length ≤
        ([comma].intercalate ((chunk :: chunks).map Prod.fst) ++ close :: more).length := by
      refine (length_le_intercalate_succ (chunk :: chunks)).trans ?_
      rw [List.length_append]
      exact Nat.add_le_add_left (Nat.succ_le_succ (Nat.zero_le _)) _
    have items := readItems_intercalate closes (List.cons_ne_nil chunk chunks) reads enough more
    have closing : close ∈ [comma].intercalate ((chunk :: chunks).map Prod.fst) ++ close :: more :=
      List.mem_append_right _ List.mem_cons_self
    generalize [comma].intercalate ((chunk :: chunks).map Prod.fst) ++ close :: more = text at items closing
    rw [readList]
    cases dropped : text.dropWhile isJsonSpace with
    | nil =>
      have space := List.dropWhile_eq_nil_iff.mp dropped close closing
      rw [closes.visible] at space
      cases space
    | cons b rest =>
      dsimp only
      by_cases opened : b = close
      · subst opened
        obtain ⟨rounds, length⟩ := Nat.exists_eq_succ_of_ne_zero (List.length_pos_of_mem closing).ne'
        rw [length, readItems, unopened text rest dropped] at items
        cases items
      · rw [if_neg opened]
        exact items

/-- What a list that was read starts with. -/
theorem readItems_first {rounds : ℕ} {text rest : Bytes} {values : List α}
    (read : readItems close item rounds text = some (values, rest)) :
    ∃ value behind others, item text = some (value, behind) ∧ values = value :: others ∧
      ∀ more, behind.dropWhile isJsonSpace = comma :: more →
        ∃ fewer, readItems close item fewer more = some (others, rest) := by
  cases rounds with
  | zero => cases read
  | succ rounds =>
    rw [readItems] at read
    obtain ⟨⟨value, behind⟩, first, next⟩ := Option.bind_eq_some_iff.mp read
    dsimp only at next
    cases dropped : behind.dropWhile isJsonSpace with
    | nil =>
      rw [dropped] at next
      cases next
    | cons b more =>
      rw [dropped] at next
      dsimp only at next
      split at next
      · obtain ⟨⟨others, _⟩, tail, same⟩ := Option.map_eq_some_iff.mp next
        cases same
        refine ⟨value, behind, others, first, rfl, fun following same => ⟨rounds, ?_⟩⟩
        obtain ⟨-, rfl⟩ := List.cons.inj (dropped.symm.trans same)
        exact tail
      · rename_i unseparated
        split at next
        · cases next
          refine ⟨value, behind, [], first, rfl, fun following same => ?_⟩
          exact absurd (List.cons.inj (dropped.symm.trans same)).1 unseparated
        · cases next

/-- A text that always reads as one value is the first item. -/
theorem readItems_pass {rounds : ℕ} {chunk more rest : Bytes} {value : α} {values : List α}
    (reads : ReadsAs item chunk value) (read : readItems close item rounds (chunk ++ comma :: more) = some (values, rest)) :
    ∃ others fewer, values = value :: others ∧ readItems close item fewer more = some (others, rest) := by
  obtain ⟨_, _, others, first, rfl, next⟩ := readItems_first read
  obtain ⟨spaces, blank_spaces, here⟩ := reads (comma :: more) (stops_cons more (by decide))
  rw [here] at first
  cases first
  obtain ⟨fewer, tail⟩ := next more (dropWhile_spaces blank_spaces (by decide) more)
  exact ⟨others, fewer, rfl, tail⟩

/-- A list that does not start with what closes it. -/
theorem readItems_of_readList {b : UInt8} {text rest : Bytes} {values : List α} (visible : isJsonSpace b = false)
    (opened : b ≠ close) (read : readList close item (b :: text) = some (values, rest)) :
    ∃ rounds, readItems close item rounds (b :: text) = some (values, rest) := by
  rw [readList, List.dropWhile_cons_of_neg (by simp [visible])] at read
  dsimp only at read
  rw [if_neg opened] at read
  exact ⟨_, read⟩

end Lists

theorem closes_bracket : Closes rightBracket := ⟨by decide, by decide, by decide⟩

theorem closes_brace : Closes rightBrace := ⟨by decide, by decide, by decide⟩

theorem readValue_bracket (depth : ℕ) {text rest : Bytes} (dropped : text.dropWhile isJsonSpace = rightBracket :: rest) :
    readValue depth text = none := by
  cases depth with
  | zero => rfl
  | succ depth =>
    rw [readValue, dropped]
    rfl

theorem readMember_brace (value : Bytes → Option (JsonValue × Bytes)) {text rest : Bytes}
    (dropped : text.dropWhile isJsonSpace = rightBrace :: rest) : readMember value text = none := by
  rw [readMember, readKey, dropped]
  rfl

theorem readValue_array (depth : ℕ) (rest : Bytes) : readValue (depth + 1) (leftBracket :: rest) =
    (readList rightBracket (readValue depth) rest).map fun read => (.array read.1, read.2) := by
  have visible : isJsonSpace leftBracket = false ∧ leftBracket ≠ quotationMark := by decide
  rw [readValue, List.dropWhile_cons_of_neg (by simp [visible.1])]
  dsimp only
  rw [if_neg visible.2, if_pos rfl]

theorem readValue_object (depth : ℕ) (rest : Bytes) : readValue (depth + 1) (leftBrace :: rest) =
    (readList rightBrace (readMember (readValue depth)) rest).map fun read => (.object read.1, read.2) := by
  have visible : isJsonSpace leftBrace = false ∧ leftBrace ≠ quotationMark ∧ leftBrace ≠ leftBracket := by decide
  rw [readValue, List.dropWhile_cons_of_neg (by simp [visible.1])]
  dsimp only
  rw [if_neg visible.2.1, if_neg visible.2.2, if_pos rfl]

/-- An element that is written between marks as it is and read as that needs no escapes. -/
theorem unescaped_of_readItems {depth rounds : ℕ} {s behind rest : Bytes} {others : List JsonValue}
    (read : readItems rightBracket (readValue depth) rounds (quotationMark :: (s ++ quotationMark :: behind)) =
      some (.text s :: others, rest)) :
    (∀ b ∈ s, isUnescaped b = true) ∧ ∀ more, behind = comma :: more →
      ∃ fewer, readItems rightBracket (readValue depth) fewer more = some (others, rest) := by
  have visible : isJsonSpace quotationMark = false ∧ isJsonSpace comma = false := by decide
  obtain ⟨_, _, _, first, same, next⟩ := readItems_first read
  cases same
  cases depth with
  | zero => cases first
  | succ depth =>
    obtain ⟨inside, dropped, string⟩ := readValue_string first
    rw [List.dropWhile_cons_of_neg (by simp [visible.1])] at dropped
    obtain ⟨-, rfl⟩ := List.cons.inj dropped
    obtain ⟨plain, rfl⟩ := unescaped_of_readString string
    refine ⟨plain, ?_⟩
    rintro more rfl
    exact next more (List.dropWhile_cons_of_neg (by simp [visible.2]))

/-- An array of strings that are written as they are. -/
theorem unescaped_of_readArray {depth rounds : ℕ} {strings : List Bytes} {more rest : Bytes} (read : readItems rightBracket
    (readValue depth) rounds ([comma].intercalate (strings.map fun s => quotationMark :: s ++ [quotationMark]) ++ more) =
      some (strings.map .text, rest)) : ∀ s ∈ strings, ∀ b ∈ s, isUnescaped b = true := by
  induction strings generalizing rounds with
  | nil => exact fun _ inside => by cases inside
  | cons s strings ih =>
    rw [List.map_cons, List.map_cons] at read
    cases strings with
    | nil =>
      rw [List.map_nil, List.intercalate_singleton, List.append_assoc] at read
      exact List.forall_mem_singleton.mpr (unescaped_of_readItems read).1
    | cons next strings =>
      rw [List.map_cons, List.intercalate_cons_cons, ← List.map_cons, List.append_assoc, List.append_assoc,
        List.append_assoc] at read
      obtain ⟨plain, later⟩ := unescaped_of_readItems read
      obtain ⟨fewer, tail⟩ := later _ rfl
      exact List.forall_mem_cons.mpr ⟨plain, ih tail⟩

/-- An array of values that were read on their own. -/
theorem parseJson_array (elements : List (Bytes × JsonValue)) (parsed : ∀ element ∈ elements,
    parseJson element.1 = some element.2) :
    parseJson (leftBracket :: ([comma].intercalate (elements.map Prod.fst) ++ [rightBracket])) =
      some (.array (elements.map Prod.snd)) := by
  refine parseJson_of_readsAs fun more _ => ⟨[], rfl, ?_⟩
  have inner : ∀ element ∈ elements, ReadsAs (readValue (leftBracket ::
      ([comma].intercalate (elements.map Prod.fst) ++ [rightBracket])).length) element.1 element.2 := by
    intro element inside
    refine readsAs_of_parseJson (parsed element inside) ?_
    have short := length_le_of_mem_intercalate inside
    simp only [List.length_cons, List.length_append, List.length_nil]
    omega
  have list := readList_intercalate closes_bracket (fun text rest dropped => readValue_bracket _ dropped) inner more
  rw [List.cons_append, readValue_array, List.append_assoc, List.singleton_append, list]
  rfl

/-- A member is a string, a colon and a value. -/
structure MemberText (text : Bytes) (member : List JsonUnit × JsonValue) : Prop where
  parts : ∃ keyText valueText, text = keyText ++ colon :: valueText ∧
    parseJson keyText = some (.string member.1) ∧ parseJson valueText = some member.2

/-- With a space in front it is the same member. -/
theorem MemberText.space {chunk : Bytes} {member : List JsonUnit × JsonValue} (written : MemberText chunk member) :
    MemberText (32 :: chunk) member := by
  obtain ⟨keyText, valueText, rfl, key, value⟩ := written.parts
  exact ⟨⟨32 :: keyText, valueText, rfl, parseJson_space key, value⟩⟩

theorem MemberText.readsAs {text : Bytes} {member : List JsonUnit × JsonValue} (written : MemberText text member)
    {depth : ℕ} (enough : text.length < depth) : ReadsAs (readMember (readValue depth)) text member := by
  obtain ⟨keyText, valueText, rfl, key, value⟩ := written.parts
  intro more stops
  have short : valueText.length < depth := by
    simp only [List.length_append, List.length_cons] at enough
    omega
  obtain ⟨spaces, blank_spaces, read⟩ := readsAs_of_parseJson value short more stops
  refine ⟨spaces, blank_spaces, readMember_eq_some_iff.mpr ⟨valueText ++ more, ?_, read⟩⟩
  rw [List.append_assoc, List.cons_append]
  exact readKey_of_parseJson key (valueText ++ more)

/-- A member whose key is known, whatever its value is. -/
theorem key_of_readItems {value : Bytes → Option (JsonValue × Bytes)} {close : UInt8} {rounds : ℕ}
    {keyText more rest : Bytes} {key : List JsonUnit} {members : List (List JsonUnit × JsonValue)}
    (parsed : parseJson keyText = some (.string key))
    (read : readItems close (readMember value) rounds (keyText ++ colon :: more) = some (members, rest)) :
    ∃ v behind others, value more = some (v, behind) ∧ members = (key, v) :: others := by
  obtain ⟨⟨_, v⟩, behind, others, first, rfl, -⟩ := readItems_first read
  obtain ⟨_, found, second⟩ := readMember_eq_some_iff.mp first
  rw [readKey_of_parseJson parsed] at found
  cases found
  exact ⟨v, behind, others, second, rfl⟩

/-- An object of members. -/
theorem parseJson_object (members : List (Bytes × (List JsonUnit × JsonValue)))
    (written : ∀ member ∈ members, MemberText member.1 member.2) :
    parseJson (leftBrace :: ([comma].intercalate (members.map Prod.fst) ++ [rightBrace])) =
      some (.object (members.map Prod.snd)) := by
  refine parseJson_of_readsAs fun more _ => ⟨[], rfl, ?_⟩
  have inner : ∀ member ∈ members, ReadsAs (readMember (readValue (leftBrace ::
      ([comma].intercalate (members.map Prod.fst) ++ [rightBrace])).length)) member.1 member.2 := by
    intro member inside
    refine (written member inside).readsAs ?_
    have short := length_le_of_mem_intercalate inside
    simp only [List.length_cons, List.length_append, List.length_nil]
    omega
  have list := readList_intercalate closes_brace (fun text rest dropped => readMember_brace _ dropped) inner more
  rw [List.cons_append, readValue_object, List.append_assoc, List.singleton_append, list]
  rfl

/-! ### Members by their keys -/

/-- A first member whose key does not come again. -/
theorem field_cons {key : Bytes} {value : JsonValue} {members : List (List JsonUnit × JsonValue)}
    (others : ∀ member ∈ members, member.1 ≠ key.map .byte) :
    (JsonValue.object ((key.map .byte, value) :: members)).field key = some value := by
  have rest : members.filter (fun member => decide (member.1 = key.map .byte)) = [] := by
    rw [List.filter_eq_nil_iff]
    intro member inside
    simpa using others member inside
  simp [JsonValue.field, rest]

theorem field_cons_of_ne {key : Bytes} {member : List JsonUnit × JsonValue} (other : member.1 ≠ key.map .byte)
    (members : List (List JsonUnit × JsonValue)) :
    (JsonValue.object (member :: members)).field key = (JsonValue.object members).field key := by
  rw [JsonValue.field, List.filter_cons_of_neg (by simpa using other), JsonValue.field]

theorem eq_of_field_cons {key : Bytes} {value found : JsonValue} {members : List (List JsonUnit × JsonValue)}
    (field : (JsonValue.object ((key.map .byte, value) :: members)).field key = some found) : value = found := by
  rw [JsonValue.field, List.filter_cons_of_pos (by simp)] at field
  split at field
  next same =>
    obtain ⟨rfl, -⟩ := List.cons.inj same
    exact Option.some.inj field
  next => cases field

end Wire
