import PGLogical.Wire.StringInfo

/-! # Names in text

Names travel inside SQL text and option values as identifiers, which are written plainly or between
double quotes, and lists of them are separated by a character. What writes them (`quote_identifier`)
and what reads them (`SplitIdentifierString`, the SQL lexer) do not agree on which names may go
without quotes. String literals are the same with an apostrophe. Letters beyond ASCII depend on the
server's locale, which is a parameter.
-/

namespace Wire

/-- A string constant of ASCII characters. -/
def ascii (s : String) : Bytes := s.toList.map fun c => UInt8.ofNat c.toNat

def quotationMark : UInt8 := 34
def apostrophe : UInt8 := 39
def comma : UInt8 := 44
def backslash : UInt8 := 92
def underscore : UInt8 := 95

def isLower (b : UInt8) : Bool := 97 ≤ b && b ≤ 122
def isUpper (b : UInt8) : Bool := 65 ≤ b && b ≤ 90
def isDigit (b : UInt8) : Bool := 48 ≤ b && b ≤ 57

/-! ## Between quotation marks -/

/-- Every mark of the text twice. -/
def doubled (mark : UInt8) : Bytes → Bytes
  | [] => []
  | b :: rest => if b = mark then b :: b :: doubled mark rest else b :: doubled mark rest

/-- The text up to the closing mark, behind the opening one, and what follows. Two marks in a row are one
mark of the text. -/
def scanQuoted (mark : UInt8) : Bytes → Option (Bytes × Bytes)
  | [] => none
  | [b] => if b = mark then some ([], []) else none
  | b :: next :: rest =>
      if b = mark then
        if next = mark then (scanQuoted mark rest).map fun read => (mark :: read.1, read.2)
        else some ([], next :: rest)
      else (scanQuoted mark (next :: rest)).map fun read => (b :: read.1, read.2)

theorem scanQuoted_close {mark : UInt8} {rest : Bytes} (ended : rest.head? ≠ some mark) :
    scanQuoted mark (mark :: rest) = some ([], rest) := by
  cases rest with
  | nil => simp [scanQuoted]
  | cons next rest =>
    have other : next ≠ mark := by simpa using ended
    simp [scanQuoted, other]

theorem scanQuoted_cons {mark b : UInt8} (other : b ≠ mark) (rest : Bytes) :
    scanQuoted mark (b :: rest) = (scanQuoted mark rest).map fun read => (b :: read.1, read.2) := by
  cases rest with
  | nil => simp [scanQuoted, other]
  | cons next rest => simp [scanQuoted, other]

/-- What was doubled is read back. -/
theorem scanQuoted_doubled {mark : UInt8} (text : Bytes) {rest : Bytes} (ended : rest.head? ≠ some mark) :
    scanQuoted mark (doubled mark text ++ mark :: rest) = some (text, rest) := by
  induction text with
  | nil => exact scanQuoted_close ended
  | cons b text ih =>
    by_cases same : b = mark
    · subst same
      simp [doubled, scanQuoted, ih]
    · simp [doubled, same, scanQuoted_cons same, ih]

/-- Reading costs at least one byte more than the text has. -/
theorem scanQuoted_length {mark : UInt8} {input text rest : Bytes} (read : scanQuoted mark input = some (text, rest)) :
    text.length + rest.length < input.length := by
  fun_induction scanQuoted mark input generalizing text rest with
  | case1 => cases read
  | case2 =>
    cases read
    simp
  | case3 => cases read
  | case4 following ih =>
    obtain ⟨inner, scanned, equal⟩ := Option.map_eq_some_iff.mp read
    cases equal
    have shorter := ih scanned
    simp only [List.length_cons]
    omega
  | case5 next following other =>
    cases read
    simp
  | case6 b next following other ih =>
    obtain ⟨inner, scanned, equal⟩ := Option.map_eq_some_iff.mp read
    cases equal
    have shorter := ih scanned
    simp only [List.length_cons] at shorter ⊢
    omega

/-! ## Lists of names -/

section Lists

variable (isspace : UInt8 → Bool) (separator : UInt8) (scan : Bytes → Option (Bytes × Bytes))

/-- The names in `text`, which starts with one. Every round but the last reads a separator, so as many
rounds as there are bytes are enough. -/
def splitNames : ℕ → Bytes → Option (List Bytes)
  | 0, _ => none
  | rounds + 1, text =>
      match scan text with
      | none => none
      | some (name, rest) =>
          match rest.dropWhile isspace with
          | [] => some [name]
          | b :: rest =>
              if b = separator then (splitNames rounds (rest.dropWhile isspace)).map (name :: ·) else none

variable {isspace separator scan}

theorem length_le_intercalate {texts : List Bytes} (written : ∀ text ∈ texts, text ≠ []) :
    texts.length ≤ ([separator].intercalate texts).length := by
  induction texts with
  | nil => simp
  | cons text texts ih =>
    have some_bytes := List.length_pos_iff.mpr (written text List.mem_cons_self)
    cases texts with
    | nil =>
      rw [List.intercalate_singleton]
      exact some_bytes
    | cons next texts =>
      have tail := ih fun other member => written other (List.mem_cons_of_mem _ member)
      rw [List.intercalate_cons_cons]
      simp only [List.length_append, List.length_cons, List.length_nil] at tail ⊢
      omega

/-- A list starts like its first text. -/
theorem dropWhile_intercalate {texts : List Bytes}
    (starts : ∀ text ∈ texts, ∃ b rest, text = b :: rest ∧ isspace b = false) :
    ([separator].intercalate texts).dropWhile isspace = [separator].intercalate texts := by
  cases texts with
  | nil => rfl
  | cons text texts =>
    obtain ⟨b, rest, rfl, visible⟩ := starts text List.mem_cons_self
    cases texts with
    | nil => simp [visible]
    | cons next texts => simp [List.intercalate_cons_cons, visible]

/-- A list is read back if its names are, each up to the separator. -/
theorem splitNames_intercalate {render : Bytes → Bytes} (solid : isspace separator = false) {names : List Bytes}
    (reads : ∀ name ∈ names, ∀ rest, (rest = [] ∨ rest.head? = some separator) →
      scan (render name ++ rest) = some (name, rest))
    (starts : ∀ name ∈ names, ∃ b rest, render name = b :: rest ∧ isspace b = false)
    (some_name : names ≠ []) {rounds : ℕ} (enough : names.length ≤ rounds) :
    splitNames isspace separator scan rounds ([separator].intercalate (names.map render)) = some names := by
  induction names generalizing rounds with
  | nil => exact absurd rfl some_name
  | cons name names ih =>
    obtain ⟨rounds, rfl⟩ : ∃ more, rounds = more + 1 := ⟨rounds - 1, by simp at enough; omega⟩
    cases names with
    | nil =>
      have read := reads name List.mem_cons_self [] (.inl rfl)
      rw [List.append_nil] at read
      simp [splitNames, read]
    | cons next names =>
      have tail := ih (fun name member => reads name (List.mem_cons_of_mem _ member))
        (fun name member => starts name (List.mem_cons_of_mem _ member)) (List.cons_ne_nil _ _)
        (Nat.le_of_succ_le_succ enough)
      have read := reads name List.mem_cons_self
        (separator :: [separator].intercalate ((next :: names).map render)) (.inr rfl)
      have unspaced : ([separator].intercalate ((next :: names).map render)).dropWhile isspace =
          [separator].intercalate ((next :: names).map render) := dropWhile_intercalate fun text member => by
        obtain ⟨other, listed, rfl⟩ := List.mem_map.mp member
        exact starts other (List.mem_cons_of_mem _ listed)
      rw [List.map_cons, List.map_cons, List.intercalate_cons_cons, ← List.map_cons, List.append_assoc,
        List.singleton_append, splitNames, read]
      simp only [List.dropWhile_cons, solid, Bool.false_eq_true, if_false, if_true]
      rw [unspaced, tail]
      rfl

/-- A name, then either the end or a separator and the rest of the list. -/
theorem splitNames_succ {rounds : ℕ} {text : Bytes} {names : List Bytes}
    (read : splitNames isspace separator scan (rounds + 1) text = some names) :
    ∃ name rest, scan text = some (name, rest) ∧
      (rest.dropWhile isspace = [] ∧ names = [name] ∨
        ∃ after more, rest.dropWhile isspace = separator :: after ∧
          splitNames isspace separator scan rounds (after.dropWhile isspace) = some more ∧ names = name :: more) := by
  rw [splitNames] at read
  cases scanned : scan text with
  | none =>
    rw [scanned] at read
    cases read
  | some front =>
    obtain ⟨name, rest⟩ := front
    rw [scanned] at read
    refine ⟨name, rest, rfl, ?_⟩
    cases shape : rest.dropWhile isspace with
    | nil =>
      simp only [shape] at read
      cases read
      exact .inl ⟨rfl, rfl⟩
    | cons b after =>
      simp only [shape] at read
      by_cases same : b = separator
      · rw [if_pos same] at read
        obtain ⟨more, later, equal⟩ := Option.map_eq_some_iff.mp read
        subst same
        exact .inr ⟨after, more, rfl, later, equal.symm⟩
      · rw [if_neg same] at read
        cases read

theorem splitNames_ne_nil {rounds : ℕ} {text : Bytes} {names : List Bytes}
    (read : splitNames isspace separator scan rounds text = some names) : names ≠ [] := by
  cases rounds with
  | zero => cases read
  | succ rounds =>
    obtain ⟨name, rest, -, ⟨-, rfl⟩ | ⟨after, more, -, -, rfl⟩⟩ := splitNames_succ read
    · exact List.cons_ne_nil _ _
    · exact List.cons_ne_nil _ _

theorem length_intercalate_congr {texts others : List Bytes}
    (lengths : List.Forall₂ (fun text other => text.length = other.length) texts others) :
    ([separator].intercalate texts).length = ([separator].intercalate others).length := by
  induction lengths with
  | nil => rfl
  | cons first rest ih =>
    cases rest with
    | nil => simpa using first
    | cons second rest =>
      rw [List.intercalate_cons_cons, List.intercalate_cons_cons]
      simp only [List.length_append, first, ih]

/-- Lists whose texts have the same lengths are told apart by what they are joined to. -/
theorem intercalate_injective {texts others : List Bytes}
    (lengths : List.Forall₂ (fun text other => text.length = other.length) texts others)
    (joined : [separator].intercalate texts = [separator].intercalate others) : texts = others := by
  induction lengths with
  | nil => rfl
  | cons first rest ih =>
    cases rest with
    | nil => simpa using joined
    | cons second rest =>
      rw [List.intercalate_cons_cons, List.intercalate_cons_cons, List.append_assoc, List.append_assoc] at joined
      obtain ⟨rfl, behind⟩ := List.append_inj joined first
      rw [ih (List.append_cancel_left behind)]

theorem dropWhile_shorter {α : Type} (p : α → Bool) (l : List α) :
    (l.dropWhile p).length < l.length ∨ l.dropWhile p = l := by
  cases l with
  | nil => exact .inr rfl
  | cons a l =>
    have shorter := l.length_dropWhile_le p
    cases visible : p a with
    | true =>
      left
      simp [visible]
      omega
    | false => simp [visible]

/-- A reader that never yields more bytes than it takes reads a list from a text that is longer than the
list, unless the text is nothing but words as long as the names they are read as. -/
theorem splitNames_exact {Reads : Bytes → Bytes → Prop}
    (exact : ∀ text name rest, scan text = some (name, rest) → name.length + rest.length < text.length ∨
      ∃ word, text = word ++ rest ∧ word.length = name.length ∧ Reads word name)
    {rounds : ℕ} {text : Bytes} {names : List Bytes} (read : splitNames isspace separator scan rounds text = some names) :
    ([separator].intercalate names).length < text.length ∨ ∃ words, text = [separator].intercalate words ∧
      List.Forall₂ (fun word name => word.length = name.length ∧ Reads word name) words names := by
  induction rounds generalizing text names with
  | zero => cases read
  | succ rounds ih =>
    obtain ⟨name, rest, scanned, ⟨ended, rfl⟩ | ⟨after, more, next, later, rfl⟩⟩ := splitNames_succ read
    · rw [List.intercalate_singleton]
      have cost := exact text name rest scanned
      have spaces := dropWhile_shorter isspace rest
      rw [ended] at spaces
      obtain strict | ⟨word, rfl, same, reads⟩ := cost
      · left
        omega
      · obtain some_space | rfl := spaces
        · left
          simp only [List.length_nil, List.length_append] at some_space ⊢
          omega
        · right
          exact ⟨[word], by simp, .cons ⟨same, reads⟩ .nil⟩
    · rw [List.intercalate_cons_of_ne_nil (splitNames_ne_nil later)]
      have cost := exact text name rest scanned
      have spaces := dropWhile_shorter isspace rest
      have blanks := dropWhile_shorter isspace after
      have tail := ih later
      rw [next] at spaces
      have behind : after.length < rest.length := by
        obtain shorter | equal := spaces
        · exact lt_trans (by simp) shorter
        · rw [← equal]
          simp
      have suffix : (after.dropWhile isspace).length ≤ after.length := after.length_dropWhile_le isspace
      have tailLength : ([separator].intercalate more).length ≤ (after.dropWhile isspace).length := by
        obtain shorter | ⟨words, equal, pairs⟩ := tail
        · exact le_of_lt shorter
        · rw [equal, length_intercalate_congr (pairs.imp fun _ _ both => both.1)]
      simp only [List.length_append, List.length_singleton]
      obtain strict | ⟨word, rfl, same, reads⟩ := cost
      · left
        omega
      · simp only [List.length_append]
        obtain shorter | rfl := spaces
        · left
          simp only [List.length_cons] at shorter
          omega
        · obtain blank | unspaced := blanks
          · left
            simp only [List.length_cons]
            omega
          · rw [unspaced] at tail
            obtain shorter | ⟨words, equal, pairs⟩ := tail
            · left
              simp only [List.length_cons]
              omega
            · right
              have some_words : words ≠ [] := by
                rintro rfl
                cases pairs
                exact splitNames_ne_nil later rfl
              refine ⟨word :: words, ?_, .cons ⟨same, reads⟩ pairs⟩
              rw [List.intercalate_cons_of_ne_nil some_words, ← equal]
              simp

/-- A list that is read from its own names joined together is read word by word. -/
theorem splitNames_self {Reads : Bytes → Bytes → Prop}
    (exact : ∀ text name rest, scan text = some (name, rest) → name.length + rest.length < text.length ∨
      ∃ word, text = word ++ rest ∧ word.length = name.length ∧ Reads word name)
    {rounds : ℕ} {names : List Bytes}
    (read : splitNames isspace separator scan rounds ([separator].intercalate names) = some names) :
    ∀ name ∈ names, Reads name name := by
  obtain strict | ⟨words, equal, pairs⟩ := splitNames_exact exact read
  · exact absurd strict (lt_irrefl _)
  · obtain rfl := intercalate_injective (pairs.imp fun _ _ both => both.1) equal.symm
    intro name member
    obtain ⟨i, bound, rfl⟩ := List.getElem_of_mem member
    exact (pairs.get bound bound).2

end Lists

/-! ## The server's words and letters -/

/-- What the locale says about letters beyond ASCII, and how many of the bytes that fit are whole characters. -/
structure Locale where
  isspaceHigh : UInt8 → Bool
  tolowerHigh : UInt8 → UInt8
  mbcliplen : Bytes → ℕ

inductive KeywordCategory where
  | unreserved
  | colName
  | typeFuncName
  | reserved
deriving DecidableEq

/-- How the server understands a name without quotes. -/
structure Lexicon extends Locale where
  keyword : Bytes → Option KeywordCategory
  quoteAllIdentifiers : Bool

def identifierLimit : ℕ := 64

namespace Locale

variable (locale : Locale)

def isspace (b : UInt8) : Bool := b = 32 || 9 ≤ b && b ≤ 13 || 128 ≤ b && locale.isspaceHigh b

def downcase (b : UInt8) : UInt8 := if isUpper b then b + 32 else if 128 ≤ b then locale.tolowerHigh b else b

def truncateIdentifier (ident : Bytes) : Bytes :=
  if ident.length < identifierLimit then ident else ident.take (min (identifierLimit - 1) (locale.mbcliplen ident))

def downcaseTruncateIdentifier (ident : Bytes) : Bytes := locale.truncateIdentifier (ident.map locale.downcase)

theorem truncateIdentifier_short {ident : Bytes} (short : ident.length < identifierLimit) :
    locale.truncateIdentifier ident = ident := if_pos short

theorem length_truncateIdentifier_le (ident : Bytes) : (locale.truncateIdentifier ident).length ≤ ident.length := by
  unfold truncateIdentifier
  split
  · exact le_refl _
  · exact List.length_take_le' ..

/-- What is cut off is missed. -/
theorem short_of_length_truncateIdentifier {ident : Bytes}
    (same : (locale.truncateIdentifier ident).length = ident.length) : ident.length < identifierLimit := by
  by_contra long
  rw [truncateIdentifier, if_neg long, List.length_take] at same
  simp only [identifierLimit] at same long
  omega

theorem length_downcaseTruncateIdentifier_le (ident : Bytes) :
    (locale.downcaseTruncateIdentifier ident).length ≤ ident.length := by
  have shorter := locale.length_truncateIdentifier_le (ident.map locale.downcase)
  rwa [List.length_map] at shorter

end Locale

/-! ## Writing and splitting lists of names -/

def isSafe (b : UInt8) : Bool := isLower b || isDigit b || b == underscore

def startsSafe : Bytes → Bool
  | [] => false
  | b :: _ => isLower b || b == underscore

namespace Lexicon

variable (lexicon : Lexicon)

/-- Whether `quote_identifier` leaves a name as it is. -/
def safe (ident : Bytes) : Bool :=
  startsSafe ident && ident.all isSafe && !lexicon.quoteAllIdentifiers &&
    (lexicon.keyword ident == none || lexicon.keyword ident == some .unreserved)

def quoteIdentifier (ident : Bytes) : Bytes :=
  if lexicon.safe ident then ident else quotationMark :: doubled quotationMark ident ++ [quotationMark]

variable {lexicon}

theorem safe_cons {ident : Bytes} (plain : lexicon.safe ident) :
    ∃ b rest, ident = b :: rest ∧ ∀ c ∈ b :: rest, isSafe c := by
  simp only [safe, Bool.and_eq_true] at plain
  obtain ⟨⟨⟨start, all_safe⟩, -⟩, -⟩ := plain
  cases ident with
  | nil => cases start
  | cons b rest => exact ⟨b, rest, rfl, List.all_eq_true.mp all_safe⟩

end Lexicon

/-- A name of `SplitIdentifierString`: between quotation marks, or up to a space or separator. -/
def scanListed (locale : Locale) (separator : UInt8) : Bytes → Option (Bytes × Bytes)
  | [] => none
  | b :: rest =>
      if b = quotationMark then
        (scanQuoted quotationMark rest).map fun read => (locale.truncateIdentifier read.1, read.2)
      else
        let inName := fun b => b != separator && !locale.isspace b
        if inName b then
          some (locale.downcaseTruncateIdentifier ((b :: rest).takeWhile inName), (b :: rest).dropWhile inName)
        else none

/-- The empty text is the empty list. -/
def splitIdentifierString (locale : Locale) (rawstring : Bytes) (separator : UInt8) : Option (List Bytes) :=
  match rawstring.dropWhile locale.isspace with
  | [] => some []
  | text => splitNames locale.isspace separator (scanListed locale separator) text.length text

theorem splitIdentifierString_visible {locale : Locale} {separator b : UInt8} {rest : Bytes}
    (visible : locale.isspace b = false) :
    splitIdentifierString locale (b :: rest) separator =
      splitNames locale.isspace separator (scanListed locale separator) (b :: rest).length (b :: rest) := by
  have unspaced : (b :: rest).dropWhile locale.isspace = b :: rest := by simp [visible]
  simp only [splitIdentifierString, unspaced]

theorem isSafe_visible (locale : Locale) {b : UInt8} (safe : isSafe b) : locale.isspace b = false := by
  simp only [isSafe, isLower, isDigit, underscore, Locale.isspace, Bool.or_eq_true, Bool.and_eq_true,
    decide_eq_true_eq, beq_iff_eq, Bool.or_eq_false_iff, Bool.and_eq_false_iff, decide_eq_false_iff_not,
    UInt8.le_iff_toNat_le, ← UInt8.toNat_inj, UInt8.reduceToNat] at safe ⊢
  omega

theorem isSafe_downcase (locale : Locale) {b : UInt8} (safe : isSafe b) : locale.downcase b = b := by
  have lower : isUpper b = false := by
    simp only [isSafe, isLower, isDigit, isUpper, underscore, Bool.or_eq_true, Bool.and_eq_true,
      decide_eq_true_eq, beq_iff_eq, Bool.and_eq_false_iff, decide_eq_false_iff_not,
      UInt8.le_iff_toNat_le, ← UInt8.toNat_inj, UInt8.reduceToNat] at safe ⊢
    omega
  have ascii : ¬ 128 ≤ b := by
    simp only [isSafe, isLower, isDigit, underscore, Bool.or_eq_true, Bool.and_eq_true,
      decide_eq_true_eq, beq_iff_eq, UInt8.le_iff_toNat_le, ← UInt8.toNat_inj, UInt8.reduceToNat] at safe ⊢
    omega
  simp [Locale.downcase, lower, ascii]

theorem map_downcase_safe (locale : Locale) {name : Bytes} (safe : ∀ b ∈ name, isSafe b = true) :
    name.map locale.downcase = name := by
  conv_rhs => rw [← List.map_id name]
  exact List.map_congr_left fun b member => isSafe_downcase locale (safe b member)

/-- A name that `quote_identifier` wrote is read back, if it is short enough. -/
theorem scanListed_quoteIdentifier (lexicon : Lexicon) (locale : Locale) {separator : UInt8}
    (unsafe_separator : isSafe separator = false) (unquoted : separator ≠ quotationMark) {name : Bytes}
    (short : name.length < identifierLimit) (rest : Bytes) (ended : rest = [] ∨ rest.head? = some separator) :
    scanListed locale separator (lexicon.quoteIdentifier name ++ rest) = some (name, rest) := by
  unfold Lexicon.quoteIdentifier
  split
  next plain =>
    obtain ⟨b, tail, rfl, all_safe⟩ := Lexicon.safe_cons plain
    have inName : ∀ c ∈ b :: tail, (c != separator && !locale.isspace c) = true := by
      intro c member
      have other : c ≠ separator := by
        rintro rfl
        rw [all_safe c member] at unsafe_separator
        cases unsafe_separator
      simp [other, isSafe_visible locale (all_safe c member)]
    have lower := map_downcase_safe locale all_safe
    have unmarked : b ≠ quotationMark := by
      rintro rfl
      exact absurd (all_safe _ List.mem_cons_self) (by decide)
    have stops : rest.takeWhile (fun c => c != separator && !locale.isspace c) = [] ∧
        rest.dropWhile (fun c => c != separator && !locale.isspace c) = rest := by
      obtain rfl | head := ended
      · exact ⟨rfl, rfl⟩
      · obtain ⟨following, rfl⟩ := List.head?_eq_some_iff.mp head
        simp
    have front := @List.takeWhile_append_of_pos _ _ _ rest inName
    have behind := @List.dropWhile_append_of_pos _ _ _ rest inName
    rw [List.cons_append] at front behind ⊢
    simp only [scanListed, unmarked, if_false, inName b List.mem_cons_self, if_true]
    rw [front, behind, stops.1, stops.2, List.append_nil, Locale.downcaseTruncateIdentifier, lower,
      Locale.truncateIdentifier_short _ short]
  next =>
    have closes : rest.head? ≠ some quotationMark := by
      obtain rfl | head := ended
      · simp
      · simpa [head] using unquoted
    rw [List.append_assoc, List.cons_append, List.singleton_append, scanListed, if_pos rfl,
      scanQuoted_doubled name closes, Option.map_some, Locale.truncateIdentifier_short _ short]

theorem quoteIdentifier_starts (lexicon : Lexicon) (locale : Locale) (name : Bytes) :
    ∃ b rest, lexicon.quoteIdentifier name = b :: rest ∧ locale.isspace b = false := by
  unfold Lexicon.quoteIdentifier
  split
  next plain =>
    obtain ⟨b, tail, rfl, all_safe⟩ := Lexicon.safe_cons plain
    exact ⟨b, tail, rfl, isSafe_visible _ (all_safe b List.mem_cons_self)⟩
  next => exact ⟨quotationMark, _, rfl, by simp [Locale.isspace, quotationMark]⟩

/-- `SplitIdentifierString` undoes a list of names that were quoted as needed, also on another server. -/
theorem splitIdentifierString_intercalate (lexicon : Lexicon) (locale : Locale) {separator : UInt8}
    (unsafe_separator : isSafe separator = false) (unquoted : separator ≠ quotationMark)
    (solid : locale.isspace separator = false) {names : List Bytes}
    (short : ∀ name ∈ names, name.length < identifierLimit) :
    splitIdentifierString locale ([separator].intercalate (names.map lexicon.quoteIdentifier)) separator =
      some names := by
  cases names with
  | nil => rfl
  | cons name names =>
    obtain ⟨b, tail, begins, visible⟩ := quoteIdentifier_starts lexicon locale name
    obtain ⟨following, whole⟩ : ∃ following,
        [separator].intercalate ((name :: names).map lexicon.quoteIdentifier) = b :: following := by
      cases names with
      | nil => exact ⟨tail, by simp [begins]⟩
      | cons next names => exact ⟨_, by rw [List.map_cons, List.map_cons, List.intercalate_cons_cons, begins]; rfl⟩
    have enough : ((name :: names).map lexicon.quoteIdentifier).length ≤
        ([separator].intercalate ((name :: names).map lexicon.quoteIdentifier)).length := by
      refine length_le_intercalate fun text member => ?_
      obtain ⟨other, -, rfl⟩ := List.mem_map.mp member
      obtain ⟨c, rest, written, -⟩ := quoteIdentifier_starts lexicon locale other
      exact written ▸ List.cons_ne_nil _ _
    rw [List.length_map] at enough
    rw [whole, splitIdentifierString_visible visible, ← whole]
    exact splitNames_intercalate solid
      (fun other member => scanListed_quoteIdentifier lexicon locale unsafe_separator unquoted (short other member))
      (fun other _ => quoteIdentifier_starts lexicon locale other) (List.cons_ne_nil _ _) enough

/-! ## Column names in SQL -/

def isIdentStart (b : UInt8) : Bool := isLower b || isUpper b || b == underscore || 128 ≤ b

def isIdentCont (b : UInt8) : Bool := isIdentStart b || isDigit b || b == 36

def isSqlSpace (b : UInt8) : Bool := b == 32 || b == 9 || b == 10 || b == 12 || b == 13

def asciiDowncase (b : UInt8) : UInt8 := if isUpper b then b + 32 else b

namespace Lexicon

variable (lexicon : Lexicon)

/-- Words the grammar does not take for the name of a column. -/
def barred (word : Bytes) : Bool :=
  lexicon.keyword (word.map asciiDowncase) == some .reserved ||
    lexicon.keyword (word.map asciiDowncase) == some .typeFuncName

/-- A column name of an SQL statement (`ColId`) in front of other text. -/
def scanColId : Bytes → Option (Bytes × Bytes)
  | [] => none
  | b :: rest =>
      if b = quotationMark then
        match scanQuoted quotationMark rest with
        | none => none
        | some ([], _) => none
        | some (name, rest) => some (lexicon.truncateIdentifier name, rest)
      else if isIdentStart b then
        let word := (b :: rest).takeWhile isIdentCont
        if lexicon.barred word then none
        else some (lexicon.downcaseTruncateIdentifier word, (b :: rest).dropWhile isIdentCont)
      else none

/-- The columns a list in an SQL statement names. -/
def parseColumnList (text : Bytes) : Option (List Bytes) :=
  let text := text.dropWhile isSqlSpace
  splitNames isSqlSpace comma lexicon.scanColId text.length text

/-- What a name has to be for SQL to read it as itself without quotes. -/
structure Unquoted (name : Bytes) : Prop where
  start : ∃ b rest, name = b :: rest ∧ isIdentStart b
  cont : ∀ b ∈ name, isIdentCont b
  lower : name.map lexicon.downcase = name
  short : name.length < identifierLimit
  free : lexicon.barred name = false

instance decidableUnquoted (name : Bytes) : Decidable (lexicon.Unquoted name) :=
  decidable_of_iff ((match name with | [] => false | b :: _ => isIdentStart b) = true ∧ name.all isIdentCont = true ∧
      name.map lexicon.downcase = name ∧ name.length < identifierLimit ∧ lexicon.barred name = false) <| by
    rw [List.all_eq_true]
    constructor
    · rintro ⟨start, cont, lower, short, free⟩
      refine ⟨?_, cont, lower, short, free⟩
      cases name with
      | nil => cases start
      | cons b rest => exact ⟨b, rest, rfl, start⟩
    · rintro ⟨⟨b, rest, rfl, start⟩, cont, lower, short, free⟩
      exact ⟨start, cont, lower, short, free⟩

variable {lexicon}

theorem scanColId_unquoted {name : Bytes} (plain : lexicon.Unquoted name) {rest : Bytes}
    (ended : rest = [] ∨ rest.head? = some comma) : lexicon.scanColId (name ++ rest) = some (name, rest) := by
  obtain ⟨b, tail, rfl, start⟩ := plain.start
  have unmarked : b ≠ quotationMark := by
    rintro rfl
    exact absurd start (by decide)
  have stops : rest.takeWhile isIdentCont = [] ∧ rest.dropWhile isIdentCont = rest := by
    obtain rfl | head := ended
    · exact ⟨rfl, rfl⟩
    · obtain ⟨following, rfl⟩ := List.head?_eq_some_iff.mp head
      have other : isIdentCont comma = false := by decide
      simp [other]
  have front := @List.takeWhile_append_of_pos _ _ _ rest plain.cont
  have behind := @List.dropWhile_append_of_pos _ _ _ rest plain.cont
  rw [stops.1, List.append_nil] at front
  rw [stops.2] at behind
  rw [List.cons_append] at front behind ⊢
  simp only [scanColId, unmarked, if_false, start, if_true, front, behind, plain.free, Bool.false_eq_true]
  rw [Locale.downcaseTruncateIdentifier, plain.lower, Locale.truncateIdentifier_short _ plain.short]

theorem scanColId_exact (text name rest : Bytes) (read : lexicon.scanColId text = some (name, rest)) :
    name.length + rest.length < text.length ∨
      ∃ word, text = word ++ rest ∧ word.length = name.length ∧ (word = name → lexicon.Unquoted name) := by
  cases text with
  | nil => cases read
  | cons b tail =>
    simp only [scanColId] at read
    split at read
    next =>
      left
      cases scanned : scanQuoted quotationMark tail with
      | none =>
        rw [scanned] at read
        cases read
      | some front =>
        obtain ⟨inner, after⟩ := front
        have cost := scanQuoted_length scanned
        rw [scanned] at read
        cases inner with
        | nil => cases read
        | cons c inner =>
          cases read
          have shorter := lexicon.length_truncateIdentifier_le (c :: inner)
          simp only [List.length_cons] at cost shorter ⊢
          omega
    next =>
      split at read
      next start =>
        split at read
        next => cases read
        next free =>
          cases read
          have split := List.takeWhile_append_dropWhile (p := isIdentCont) (l := b :: tail)
          have total := congrArg List.length split
          rw [List.length_append] at total
          have shorter := lexicon.length_downcaseTruncateIdentifier_le ((b :: tail).takeWhile isIdentCont)
          obtain less | same := lt_or_eq_of_le shorter
          · left
            omega
          · right
            refine ⟨(b :: tail).takeWhile isIdentCont, split.symm, same.symm, fun itself => ?_⟩
            have cont : ∀ c ∈ (b :: tail).takeWhile isIdentCont, isIdentCont c :=
              fun c member => List.mem_takeWhile_imp member
            have starts : ∃ c rest, (b :: tail).takeWhile isIdentCont = c :: rest ∧ isIdentStart c :=
              ⟨b, tail.takeWhile isIdentCont, by simp [isIdentCont, start], start⟩
            have short := lexicon.short_of_length_truncateIdentifier (by rw [List.length_map]; exact same)
            have lower := itself
            rw [Locale.downcaseTruncateIdentifier, Locale.truncateIdentifier_short _ short] at lower
            rw [List.length_map] at short
            rw [← itself]
            exact ⟨starts, cont, lower.symm, short, by simpa using free⟩
      next => cases read

theorem Unquoted.starts {name : Bytes} (plain : lexicon.Unquoted name) :
    ∃ b rest, name = b :: rest ∧ isSqlSpace b = false := by
  obtain ⟨b, rest, rfl, start⟩ := plain.start
  refine ⟨b, rest, rfl, ?_⟩
  simp only [isIdentStart, isLower, isUpper, underscore, isSqlSpace, Bool.or_eq_true, Bool.and_eq_true,
    decide_eq_true_eq, beq_iff_eq, Bool.or_eq_false_iff, beq_eq_false_iff_ne, ne_eq,
    UInt8.le_iff_toNat_le, ← UInt8.toNat_inj, UInt8.reduceToNat] at start ⊢
  omega

/-- SQL reads a list of bare names as those names exactly when each of them goes without quotes. -/
theorem parseColumnList_intercalate (names : List Bytes) :
    lexicon.parseColumnList ([comma].intercalate names) = some names ↔
      names ≠ [] ∧ ∀ name ∈ names, lexicon.Unquoted name := by
  constructor
  · intro read
    refine ⟨splitNames_ne_nil read, ?_⟩
    have blanks := dropWhile_shorter isSqlSpace ([comma].intercalate names)
    obtain shorter | same := blanks
    · have exact := splitNames_exact scanColId_exact read
      obtain strict | ⟨words, equal, pairs⟩ := exact
      · omega
      · have length : ([comma].intercalate words).length = ([comma].intercalate names).length :=
          length_intercalate_congr (pairs.imp fun _ _ both => both.1)
        rw [← equal] at length
        omega
    · rw [parseColumnList, same] at read
      exact fun name member => splitNames_self scanColId_exact read name member rfl
  · rintro ⟨some_name, plain⟩
    have starts := fun name member => (plain name member).starts
    have unspaced : ([comma].intercalate names).dropWhile isSqlSpace = [comma].intercalate names :=
      dropWhile_intercalate starts
    have enough : names.length ≤ ([comma].intercalate names).length := length_le_intercalate fun name member => by
      obtain ⟨b, rest, rfl, -⟩ := starts name member
      exact List.cons_ne_nil _ _
    have read : splitNames isSqlSpace comma lexicon.scanColId ([comma].intercalate names).length
        ([comma].intercalate (names.map id)) = some names :=
      splitNames_intercalate (by decide) (fun name member rest => scanColId_unquoted (plain name member)) starts
        some_name enough
    rw [List.map_id] at read
    rw [parseColumnList, unspaced]
    exact read

end Lexicon

/-! ## String literals -/

/-- `quote_literal_cstr`: a text with a backslash is written in the escape syntax. -/
def quoteLiteralCstr (text : Bytes) : Bytes :=
  (if backslash ∈ text then [69] else []) ++
    apostrophe :: doubled backslash (doubled apostrophe text) ++ [apostrophe]

/-- `PQescapeLiteral`, which also keeps away from what stands before. -/
def pqEscapeLiteral (text : Bytes) : Bytes := (if backslash ∈ text then [32] else []) ++ quoteLiteralCstr text

/-- `PQescapeIdentifier`. -/
def pqEscapeIdentifier (text : Bytes) : Bytes := quotationMark :: doubled quotationMark text ++ [quotationMark]

theorem doubled_of_notMem {mark : UInt8} {text : Bytes} (absent : mark ∉ text) : doubled mark text = text := by
  induction text with
  | nil => rfl
  | cons b text ih =>
    rw [List.mem_cons, not_or] at absent
    rw [doubled, if_neg (Ne.symm absent.1), ih absent.2]

theorem mem_doubled {mark c : UInt8} {text : Bytes} : c ∈ doubled mark text ↔ c ∈ text := by
  induction text with
  | nil => rfl
  | cons b text ih =>
    rw [doubled]
    split <;> simp [ih]

end Wire
