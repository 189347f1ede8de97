import Mathlib.Logic.Function.Basic
import PGLogical.Wire.Identifier

/-! # Connection strings

The `keyword=value` strings of libpq and the reader for them, with the quotes and backslashes that values
may have. Which keywords there are depends on the version of libpq, and the other form of a connection
string, the URI, is read by a function of its own: both are parameters.
-/

namespace Wire

def equalsSign : UInt8 := 61
def blank : UInt8 := 32

/-! ## Values -/

section Values

variable (isspace : UInt8 → Bool)

/-- A value without quotes ends with a blank, which is passed. A backslash stands for the next byte. -/
def scanPlainValue : Bytes → Bytes × Bytes
  | [] => ([], [])
  | [c] => if isspace c || c == backslash then ([], []) else ([c], [])
  | c :: next :: rest =>
      if isspace c then ([], next :: rest)
      else if c = backslash then
        let (value, behind) := scanPlainValue rest
        (next :: value, behind)
      else
        let (value, behind) := scanPlainValue (next :: rest)
        (c :: value, behind)

/-- A value in quotes, behind the first one. -/
def scanQuotedValue : Bytes → Option (Bytes × Bytes)
  | [] => none
  | [c] => if c = apostrophe then some ([], []) else none
  | c :: next :: rest =>
      if c = backslash then (scanQuotedValue rest).map fun read => (next :: read.1, read.2)
      else if c = apostrophe then some ([], next :: rest)
      else (scanQuotedValue (next :: rest)).map fun read => (c :: read.1, read.2)

/-- The value at the start of the text. -/
def scanValue : Bytes → Option (Bytes × Bytes)
  | [] => some ([], [])
  | c :: rest => if c = apostrophe then scanQuotedValue rest else some (scanPlainValue isspace (c :: rest))

/-- A keyword, an equals sign and a value, with blanks around the sign. -/
def scanPair (text : Bytes) : Option ((Bytes × Bytes) × Bytes) :=
  let inName : UInt8 → Bool := fun c => c != equalsSign && !isspace c
  match (text.dropWhile inName).dropWhile isspace with
  | [] => none
  | c :: rest =>
      if c = equalsSign then
        (scanValue isspace (rest.dropWhile isspace)).map fun read => ((text.takeWhile inName, read.1), read.2)
      else none

/-- Every round passes an equals sign, so as many rounds as there are bytes are enough. -/
def scanPairs : ℕ → Bytes → Option (List (Bytes × Bytes))
  | 0, _ => none
  | rounds + 1, text =>
      match text.dropWhile isspace with
      | [] => some []
      | c :: rest =>
          (scanPair isspace (c :: rest)).bind fun (pair, behind) => (scanPairs rounds behind).map (pair :: ·)

end Values

section Reading

variable {isspace : UInt8 → Bool}

theorem scanPlainValue_cons {c : UInt8} (visible : isspace c = false) (plain : c ≠ backslash) (rest : Bytes) :
    scanPlainValue isspace (c :: rest) = (c :: (scanPlainValue isspace rest).1, (scanPlainValue isspace rest).2) := by
  cases rest with
  | nil => simp [scanPlainValue, visible, plain]
  | cons next rest => simp [scanPlainValue, visible, plain]

/-- A plain value is read up to its end or to the blank behind it. -/
theorem scanPlainValue_append {value tail : Bytes} (plain : ∀ c ∈ value, isspace c = false ∧ c ≠ backslash)
    (ended : ∀ c ∈ tail.head?, isspace c = true) : scanPlainValue isspace (value ++ tail) = (value, tail.drop 1) := by
  induction value with
  | nil =>
    match tail, ended with
    | [], _ => rfl
    | [c], ended => simp [scanPlainValue, ended c rfl]
    | c :: next :: rest, ended => simp [scanPlainValue, ended c rfl]
  | cons c value ih =>
    obtain ⟨⟨visible, unescaped⟩, plain⟩ := List.forall_mem_cons.mp plain
    rw [List.cons_append, scanPlainValue_cons visible unescaped, ih plain]

theorem scanQuotedValue_close (tail : Bytes) : scanQuotedValue (apostrophe :: tail) = some ([], tail) := by
  cases tail with
  | nil => rfl
  | cons next rest => simp [scanQuotedValue, apostrophe, backslash]

theorem scanQuotedValue_escape (c : UInt8) (rest : Bytes) : scanQuotedValue (backslash :: c :: rest) =
    (scanQuotedValue rest).map fun read => (c :: read.1, read.2) := by
  simp [scanQuotedValue]

theorem scanQuotedValue_cons {c : UInt8} (plain : c ≠ apostrophe ∧ c ≠ backslash) (rest : Bytes) :
    scanQuotedValue (c :: rest) = (scanQuotedValue rest).map fun read => (c :: read.1, read.2) := by
  cases rest with
  | nil => simp [scanQuotedValue, plain.1]
  | cons next rest => simp [scanQuotedValue, plain.1, plain.2]

/-- What is in front of the equals sign is the keyword. -/
theorem scanPair_append {name rest : Bytes} (named : ∀ c ∈ name, c ≠ equalsSign ∧ isspace c = false)
    (solid : isspace equalsSign = false) : scanPair isspace (name ++ equalsSign :: rest) =
      (scanValue isspace (rest.dropWhile isspace)).map fun read => ((name, read.1), read.2) := by
  have inName : ∀ c ∈ name, (c != equalsSign && !isspace c) = true := by
    intro c inside
    obtain ⟨other, visible⟩ := named c inside
    simp [other, visible]
  rw [scanPair]
  simp only [List.dropWhile_append_of_pos inName, List.takeWhile_append_of_pos inName]
  simp [solid]

/-- Blanks in front do not matter. -/
theorem scanPairs_congr {text other : Bytes} (same : text.dropWhile isspace = other.dropWhile isspace) (rounds : ℕ) :
    scanPairs isspace rounds text = scanPairs isspace rounds other := by
  cases rounds with
  | zero => rfl
  | succ rounds => rw [scanPairs, scanPairs, same]

theorem scanPairs_succ {text behind : Bytes} {pair : Bytes × Bytes} (starts : text.dropWhile isspace = text)
    (scanned : scanPair isspace text = some (pair, behind)) (rounds : ℕ) :
    scanPairs isspace (rounds + 1) text = (scanPairs isspace rounds behind).map (pair :: ·) := by
  cases text with
  | nil => cases scanned
  | cons c rest =>
    rw [scanPairs, starts]
    dsimp only
    rw [scanned]
    rfl

/-- A string that is read without an equals sign has nothing in it. -/
theorem scanPairs_of_not_mem {text : Bytes} {pairs : List (Bytes × Bytes)} {rounds : ℕ} (unset : equalsSign ∉ text)
    (read : scanPairs isspace rounds text = some pairs) : pairs = [] := by
  cases rounds with
  | zero => cases read
  | succ rounds =>
    rw [scanPairs] at read
    cases visible : text.dropWhile isspace with
    | nil =>
      rw [visible] at read
      exact (Option.some.inj read).symm
    | cons c rest =>
      rw [visible] at read
      obtain ⟨pair, scanned, -⟩ := Option.bind_eq_some_iff.mp read
      have inside : ∀ b ∈ c :: rest, b ≠ equalsSign := fun b member same =>
        unset (same ▸ (List.dropWhile_suffix isspace).subset (visible ▸ member))
      unfold scanPair at scanned
      dsimp only at scanned
      split at scanned
      · cases scanned
      · rename_i b behind stop
        split at scanned
        · rename_i sign
          have suffix := (List.dropWhile_suffix isspace).trans (List.dropWhile_suffix (l := c :: rest)
            fun c => c != equalsSign && !isspace c)
          exact absurd sign (inside b (suffix.subset (stop ▸ List.mem_cons_self)))
        · cases scanned

end Reading

/-! ## Options -/

/-- The bytes of keywords. -/
def isKeywordByte (c : UInt8) : Bool := isLower c || c == underscore

/-- The keywords of a version of libpq. -/
structure ConninfoKeywords where
  keywords : List Bytes
  nodup : keywords.Nodup
  lower : ∀ keyword ∈ keywords, keyword ≠ [] ∧ ∀ c ∈ keyword, isKeywordByte c = true
  dbname : ascii "dbname" ∈ keywords
  /-- It is translated to `sslmode`. -/
  noRequiressl : ascii "requiressl" ∉ keywords

/-- What a connection string sets. -/
abbrev ConninfoOptions := Bytes → Option Bytes

variable (libpq : ConninfoKeywords) (locale : Locale)

def conninfoStoreval (options : ConninfoOptions) (pair : Bytes × Bytes) : Option ConninfoOptions :=
  let (keyword, value) :=
    if pair.1 = ascii "requiressl" then
      (ascii "sslmode", if pair.2.head? = some 49 then ascii "require" else ascii "prefer")
    else pair
  if libpq.keywords.contains keyword then some (Function.update options keyword (some value)) else none

def conninfoParse (text : Bytes) : Option ConninfoOptions :=
  (scanPairs locale.isspace (text.length + 1) text).bind fun pairs =>
    pairs.foldlM (conninfoStoreval libpq) fun _ => none

def hasUriPrefix (text : Bytes) : Bool :=
  (ascii "postgresql://").isPrefixOf text || (ascii "postgres://").isPrefixOf text

/-- `PQconninfoParse` -/
def pqconninfoParse (uriParse : Bytes → Option ConninfoOptions) (text : Bytes) : Option ConninfoOptions :=
  if hasUriPrefix text then uriParse text else conninfoParse libpq locale text

/-- One assignment after the other. -/
def assign (options : ConninfoOptions) (pairs : List (Bytes × Bytes)) : ConninfoOptions :=
  pairs.foldl (fun options pair => Function.update options pair.1 (some pair.2)) options

section Assignments

variable {options : ConninfoOptions} {pairs : List (Bytes × Bytes)}

theorem assign_of_not_mem {keyword : Bytes} (other : keyword ∉ pairs.map Prod.fst) :
    assign options pairs keyword = options keyword := by
  induction pairs generalizing options with
  | nil => rfl
  | cons pair pairs ih =>
    rw [List.map_cons, List.mem_cons, not_or] at other
    exact (ih other.2).trans (Function.update_of_ne other.1 ..)

theorem assign_of_mem {pair : Bytes × Bytes} (distinct : (pairs.map Prod.fst).Nodup) (inside : pair ∈ pairs) :
    assign options pairs pair.1 = some pair.2 := by
  induction pairs generalizing options with
  | nil => cases inside
  | cons first pairs ih =>
    rw [List.map_cons, List.nodup_cons] at distinct
    obtain rfl | later := List.mem_cons.mp inside
    · exact (assign_of_not_mem distinct.1).trans (Function.update_self ..)
    · exact ih distinct.2 later

variable {libpq}

theorem conninfoStoreval_of_mem {pair : Bytes × Bytes} (known : pair.1 ∈ libpq.keywords) :
    conninfoStoreval libpq options pair = some (Function.update options pair.1 (some pair.2)) := by
  have modern : pair.1 ≠ ascii "requiressl" := fun same => libpq.noRequiressl (same ▸ known)
  simp [conninfoStoreval, modern, known]

theorem foldlM_conninfoStoreval (known : ∀ pair ∈ pairs, pair.1 ∈ libpq.keywords) :
    pairs.foldlM (conninfoStoreval libpq) options = some (assign options pairs) := by
  induction pairs generalizing options with
  | nil => rfl
  | cons pair pairs ih =>
    obtain ⟨here, known⟩ := List.forall_mem_cons.mp known
    rw [List.foldlM_cons, conninfoStoreval_of_mem here]
    exact ih known

end Assignments

theorem isKeywordByte_visible {c : UInt8} (named : isKeywordByte c = true) :
    c ≠ equalsSign ∧ locale.isspace c = false := by
  refine ⟨?_, isSafe_visible locale ?_⟩
  · rintro rfl
    exact absurd named (by decide)
  · rw [isKeywordByte, Bool.or_eq_true] at named
    obtain lower | line := named
    · simp [isSafe, lower]
    · simp [isSafe, line]

/-- Where a keyword has its equals sign, a URI has a colon. -/
theorem isPrefixOf_keyword {keyword stem behind rest : Bytes} (named : ∀ c ∈ keyword, isKeywordByte c = true)
    (scheme : ∀ c ∈ stem, isKeywordByte c = true) :
    (stem ++ 58 :: behind).isPrefixOf (keyword ++ equalsSign :: rest) = false := by
  rw [Bool.eq_false_iff]
  intro starts
  obtain ⟨more, same⟩ := List.isPrefixOf_iff_prefix.mp starts
  have stops := congrArg (List.dropWhile isKeywordByte) same
  rw [List.append_assoc, List.dropWhile_append_of_pos scheme, List.dropWhile_append_of_pos named] at stops
  exact absurd (List.cons.inj stops).1 (by decide)

/-- No connection string that starts with a keyword is a URI. -/
theorem hasUriPrefix_keyword {keyword : Bytes} (known : keyword ∈ libpq.keywords) (rest : Bytes) :
    hasUriPrefix (keyword ++ equalsSign :: rest) = false := by
  have named := (libpq.lower keyword known).2
  have long : ascii "postgresql://" = ascii "postgresql" ++ 58 :: ascii "//" := by decide
  have short : ascii "postgres://" = ascii "postgres" ++ 58 :: ascii "//" := by decide
  have long_scheme : (ascii "postgresql").all isKeywordByte = true := by decide
  have short_scheme : (ascii "postgres").all isKeywordByte = true := by decide
  rw [hasUriPrefix, long, short, isPrefixOf_keyword named (List.all_eq_true.mp long_scheme),
    isPrefixOf_keyword named (List.all_eq_true.mp short_scheme), Bool.or_self]

end Wire
