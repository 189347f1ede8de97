import PGLogical.Wire.Identifier

/-! # Strings and objects in JSON text

The part of JSON that messages between servers use: strings, and objects of strings. A string is
written byte by byte, with a backslash in front of what may not stand for itself, and read until its
closing quotation mark; an object is written by hand around its strings.
-/

namespace Wire

/-! ## Strings -/

/-- A byte that stands for itself whoever writes it: printable ASCII but for quotation mark and backslash. -/
def isPlain (b : UInt8) : Bool := 32 ≤ b && b < 127 && b != quotationMark && b != backslash

def hexDigit (n : UInt8) : UInt8 := if n < 10 then 48 + n else 87 + n

/-- The letters of the short escapes, with what they stand for. -/
def shortEscapes : List (UInt8 × UInt8) := [(98, 8), (102, 12), (110, 10), (114, 13), (116, 9), (34, 34), (92, 92)]

def escapeByte (b : UInt8) : Bytes :=
  match shortEscapes.find? fun escape => escape.2 == b with
  | some escape => [backslash, escape.1]
  | none => if b < 32 then backslash :: ascii "u00" ++ [hexDigit (b / 16), hexDigit (b % 16)] else [b]

/-- `escape_json` -/
def escapeJson (s : Bytes) : Bytes := quotationMark :: s.flatMap escapeByte ++ [quotationMark]

def hexValue (b : UInt8) : Option UInt8 :=
  if 48 ≤ b && b ≤ 57 then some (b - 48)
  else if 97 ≤ b && b ≤ 102 then some (b - 87)
  else if 65 ≤ b && b ≤ 70 then some (b - 55)
  else none

/-- The character of an escape with four digits, as far as it is ASCII; a zero is refused. -/
def unicodeEscape (a b c d : UInt8) : Option UInt8 := do
  let a ← hexValue a
  let b ← hexValue b
  let c ← hexValue c
  let d ← hexValue d
  let code := 16 * c + d
  if a = 0 ∧ b = 0 ∧ 0 < code ∧ code < 128 then some code else none

/-- A byte in front of what has been read. -/
def prepend (b : UInt8) (read : Bytes × Bytes) : Bytes × Bytes := (b :: read.1, read.2)

/-- A string behind its opening quotation mark, and what follows it. -/
def scanString : Bytes → Option (Bytes × Bytes)
  | [] => none
  | b :: rest =>
      if b = quotationMark then some ([], rest)
      else if b = backslash then
        match rest with
        | 117 :: a :: b :: c :: d :: rest =>
            (unicodeEscape a b c d).bind fun code => (scanString rest).map (prepend code)
        | escape :: rest =>
            ((shortEscapes ++ [(47, 47)]).lookup escape).bind fun code => (scanString rest).map (prepend code)
        | [] => none
      else if b < 32 then none
      else (scanString rest).map (prepend b)

theorem scanString_close (rest : Bytes) : scanString (quotationMark :: rest) = some ([], rest) := by
  rw [scanString.eq_def]
  rfl

theorem scanString_cons {b : UInt8} (printable : ¬ b < 32) (unmarked : b ≠ quotationMark) (unescaped : b ≠ backslash)
    (rest : Bytes) : scanString (b :: rest) = (scanString rest).map (prepend b) := by
  rw [scanString.eq_def]
  simp only [unmarked, unescaped, printable, if_false]

theorem scanString_short {escape code : UInt8} (short : escape ≠ 117)
    (decoded : (shortEscapes ++ [(47, 47)]).lookup escape = some code) (rest : Bytes) :
    scanString (backslash :: escape :: rest) = (scanString rest).map (prepend code) := by
  have other : backslash ≠ quotationMark := by decide
  rw [scanString.eq_def]
  simp only [other, if_false, if_true]
  split
  next same =>
    cases same
    exact absurd rfl short
  next same =>
    cases same
    rw [decoded, Option.bind_some]
  next same => cases same

theorem scanString_unicode {b : UInt8} (control : b < 32) (nonzero : b ≠ 0) (rest : Bytes) :
    scanString (backslash :: ascii "u00" ++ [hexDigit (b / 16), hexDigit (b % 16)] ++ rest) =
      (scanString rest).map (prepend b) := by
  have decoded : ∀ n : Fin 32, n.val ≠ 0 →
      unicodeEscape 48 48 (hexDigit (UInt8.ofNat n / 16)) (hexDigit (UInt8.ofNat n % 16)) = some (UInt8.ofNat n) := by
    decide +kernel
  have code := decoded ⟨b.toNat, by simpa [UInt8.lt_iff_toNat_lt] using control⟩
    (fun zero => nonzero (UInt8.toNat_inj.mp zero))
  simp only [UInt8.ofNat_toNat] at code
  have split : backslash :: ascii "u00" ++ [hexDigit (b / 16), hexDigit (b % 16)] ++ rest =
      backslash :: 117 :: 48 :: 48 :: hexDigit (b / 16) :: hexDigit (b % 16) :: rest := rfl
  have other : backslash ≠ quotationMark := by decide
  rw [split, scanString.eq_def]
  simp only [other, if_true, if_false, code, Option.bind_some]

/-- Every byte but zero is read as it was written. -/
theorem scanString_escapeByte {b : UInt8} (nonzero : b ≠ 0) (rest : Bytes) :
    scanString (escapeByte b ++ rest) = (scanString rest).map (prepend b) := by
  unfold escapeByte
  split
  next escape found =>
    have listed := List.mem_of_find?_eq_some found
    have same : escape.2 = b := by simpa using List.find?_some found
    subst same
    have inverse : (shortEscapes.all fun escape => decide (escape.1 ≠ 117 ∧
        (shortEscapes ++ [(47, 47)]).lookup escape.1 = some escape.2)) = true := by decide
    obtain ⟨short, decoded⟩ := of_decide_eq_true (List.all_eq_true.mp inverse escape listed)
    exact scanString_short short decoded rest
  next absent =>
    have unlisted := List.find?_eq_none.mp absent
    split
    next control => exact scanString_unicode control nonzero rest
    next printable =>
      refine scanString_cons printable ?_ ?_ rest
      · rintro rfl
        exact unlisted (34, 34) (by decide) (by decide)
      · rintro rfl
        exact unlisted (92, 92) (by decide) (by decide)

theorem scanString_escaped {s : Bytes} (text : (0 : UInt8) ∉ s) (rest : Bytes) :
    scanString (s.flatMap escapeByte ++ quotationMark :: rest) = some (s, rest) := by
  induction s with
  | nil => exact scanString_close rest
  | cons b s ih =>
    rw [List.mem_cons, not_or] at text
    rw [List.flatMap_cons, List.append_assoc, scanString_escapeByte (Ne.symm text.1), ih text.2]
    rfl

theorem scanString_plain {s : Bytes} (plain : ∀ b ∈ s, isPlain b = true) (rest : Bytes) :
    scanString (s ++ quotationMark :: rest) = some (s, rest) := by
  induction s with
  | nil => exact scanString_close rest
  | cons b s ih =>
    obtain ⟨letter, plain⟩ := List.forall_mem_cons.mp plain
    simp only [isPlain, Bool.and_eq_true, decide_eq_true_eq, bne_iff_ne, ne_eq] at letter
    obtain ⟨⟨⟨printable, -⟩, unmarked⟩, unescaped⟩ := letter
    rw [List.cons_append, scanString_cons (UInt8.not_lt.mpr printable) unmarked unescaped, ih plain]
    rfl

/-! ## Objects -/

def leftBrace : UInt8 := 123
def rightBrace : UInt8 := 125
def colon : UInt8 := 58

def isJsonSpace (b : UInt8) : Bool := b = 32 || b = 9 || b = 10 || b = 13

/-- A key and the text of its value. -/
def memberText (member : Bytes × Bytes) : Bytes :=
  quotationMark :: member.1 ++ quotationMark :: colon :: 32 :: member.2

def objectText (members : List (Bytes × Bytes)) : Bytes :=
  leftBrace :: [comma].intercalate (members.map memberText) ++ [rightBrace]

/-- A string with spaces on both sides. -/
def scanStringToken (text : Bytes) : Option (Bytes × Bytes) :=
  match text.dropWhile isJsonSpace with
  | [] => none
  | b :: rest =>
      if b = quotationMark then (scanString rest).map fun read => (read.1, read.2.dropWhile isJsonSpace) else none

def scanMember (text : Bytes) : Option ((Bytes × Bytes) × Bytes) :=
  match scanStringToken text with
  | some (key, b :: rest) =>
      if b = colon then (scanStringToken rest).map fun read => ((key, read.1), read.2) else none
  | _ => none

/-- The members up to the closing brace, in at most `rounds` rounds. -/
def scanMembers : ℕ → Bytes → Option (List (Bytes × Bytes) × Bytes)
  | 0, _ => none
  | rounds + 1, text =>
      match scanMember text with
      | some (member, b :: rest) =>
          if b = comma then (scanMembers rounds rest).map fun read => (member :: read.1, read.2)
          else if b = rightBrace then some ([member], rest)
          else none
      | _ => none

inductive JsonText where
  | string (s : Bytes)
  | object (members : List (Bytes × Bytes))
deriving DecidableEq

/-- A string or an object of strings that fills the text but for spaces. -/
def readJson (text : Bytes) : Option JsonText :=
  match text.dropWhile isJsonSpace with
  | [] => none
  | b :: rest =>
      if b = quotationMark then
        match scanString rest with
        | some (s, rest) => if rest.dropWhile isJsonSpace = [] then some (.string s) else none
        | none => none
      else if b = leftBrace then
        if (rest.dropWhile isJsonSpace).head? = some rightBrace then
          if (rest.dropWhile isJsonSpace).tail.dropWhile isJsonSpace = [] then some (.object []) else none
        else
          match scanMembers rest.length rest with
          | some (members, rest) => if rest.dropWhile isJsonSpace = [] then some (.object members) else none
          | none => none
      else none

/-- A text that is the string `s`, whatever follows it. -/
def Writes (text s : Bytes) : Prop :=
  ∃ inside, text = quotationMark :: inside ∧ ∀ rest, scanString (inside ++ rest) = some (s, rest)

theorem writes_escapeJson {s : Bytes} (text : (0 : UInt8) ∉ s) : Writes (escapeJson s) s :=
  ⟨s.flatMap escapeByte ++ [quotationMark], rfl, fun rest => by
    rw [List.append_assoc, List.singleton_append, scanString_escaped text]⟩

theorem writes_plain {s : Bytes} (plain : ∀ b ∈ s, isPlain b = true) :
    Writes (quotationMark :: s ++ [quotationMark]) s :=
  ⟨s ++ [quotationMark], rfl, fun rest => by
    rw [List.append_assoc, List.singleton_append, scanString_plain plain]⟩

theorem readJson_string {text s : Bytes} (writes : Writes text s) : readJson text = some (.string s) := by
  obtain ⟨inside, rfl, read⟩ := writes
  have whole := read []
  rw [List.append_nil] at whole
  have visible : isJsonSpace quotationMark = false := by decide
  simp [readJson, visible, whole]

theorem scanMember_memberText {key text s : Bytes} {b : UInt8} (plain : ∀ b ∈ key, isPlain b = true)
    (writes : Writes text s) (ended : isJsonSpace b = false) (rest : Bytes) :
    scanMember (memberText (key, text) ++ b :: rest) = some ((key, s), b :: rest) := by
  obtain ⟨inside, rfl, read⟩ := writes
  have marks : isJsonSpace quotationMark = false ∧ isJsonSpace colon = false ∧ isJsonSpace 32 = true := by decide
  have first := scanString_plain plain (colon :: 32 :: quotationMark :: (inside ++ b :: rest))
  simp [memberText, scanMember, scanStringToken, marks, first, read, ended]

theorem scanMembers_intercalate {members : List (Bytes × Bytes × Bytes)} (some_members : members ≠ [])
    (plain : ∀ member ∈ members, ∀ b ∈ member.1, isPlain b = true)
    (writes : ∀ member ∈ members, Writes member.2.1 member.2.2) {rounds : ℕ} (enough : members.length ≤ rounds) :
    scanMembers rounds ([comma].intercalate (members.map fun member => memberText (member.1, member.2.1)) ++
        [rightBrace]) =
      some (members.map fun member => (member.1, member.2.2), []) := by
  have marks : isJsonSpace comma = false ∧ isJsonSpace rightBrace = false ∧ rightBrace ≠ comma := by decide
  induction members generalizing rounds with
  | nil => exact absurd rfl some_members
  | cons member members ih =>
    obtain ⟨rounds, rfl⟩ : ∃ more, rounds = more + 1 := ⟨rounds - 1, by simp at enough; omega⟩
    obtain ⟨letters, plain⟩ := List.forall_mem_cons.mp plain
    obtain ⟨here, writes⟩ := List.forall_mem_cons.mp writes
    cases members with
    | nil =>
      have read := scanMember_memberText letters here marks.2.1 []
      rw [List.map_singleton, List.intercalate_singleton, scanMembers, read]
      simp [marks]
    | cons next members =>
      have tail := ih (List.cons_ne_nil _ _) plain writes (Nat.le_of_succ_le_succ enough)
      have read := scanMember_memberText letters here marks.1 ([comma].intercalate ((next :: members).map fun member =>
        memberText (member.1, member.2.1)) ++ [rightBrace])
      simp only [List.map_cons] at tail read ⊢
      rw [List.intercalate_cons_cons, List.append_assoc, List.append_assoc, List.singleton_append, scanMembers, read]
      simp only [if_true, tail]
      rfl

/-- An object is read back if its keys are plain and its values are strings. -/
theorem readJson_objectText (members : List (Bytes × Bytes × Bytes))
    (plain : ∀ member ∈ members, ∀ b ∈ member.1, isPlain b = true)
    (writes : ∀ member ∈ members, Writes member.2.1 member.2.2) :
    readJson (objectText (members.map fun member => (member.1, member.2.1))) =
      some (.object (members.map fun member => (member.1, member.2.2))) := by
  have marks : isJsonSpace leftBrace = false ∧ isJsonSpace rightBrace = false ∧ isJsonSpace quotationMark = false ∧
      leftBrace ≠ quotationMark ∧ quotationMark ≠ rightBrace := by decide
  cases members with
  | nil => simp [objectText, readJson, marks]
  | cons member members =>
    have longer : ((member :: members).map fun member => memberText (member.1, member.2.1)).length ≤
        ([comma].intercalate ((member :: members).map fun member => memberText (member.1, member.2.1))).length := by
      refine length_le_intercalate fun text inside => ?_
      obtain ⟨other, -, rfl⟩ := List.mem_map.mp inside
      exact List.cons_ne_nil _ _
    obtain ⟨tail, starts⟩ : ∃ tail, [comma].intercalate ((member :: members).map fun member =>
        memberText (member.1, member.2.1)) ++ [rightBrace] = quotationMark :: tail := by
      cases members with
      | nil => exact ⟨_, rfl⟩
      | cons next members => exact ⟨_, by rw [List.map_cons, List.map_cons, List.intercalate_cons_cons]; rfl⟩
    have enough : (member :: members).length ≤ (quotationMark :: tail).length := by
      rw [← starts, List.length_append]
      rw [List.length_map] at longer
      omega
    have read := scanMembers_intercalate (List.cons_ne_nil _ _) plain writes enough
    rw [starts, List.length_cons] at read
    have text : objectText ((member :: members).map fun member => (member.1, member.2.1)) =
        leftBrace :: quotationMark :: tail := by
      rw [objectText, List.map_map, List.cons_append]
      exact congrArg (leftBrace :: ·) starts
    rw [text, readJson]
    simp [marks, read]

end Wire
