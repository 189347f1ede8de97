import PGLogical.Machine.Loop
import PGLogical.Wire.Identifier

/-! # Reading an array

`parsePGArray` splits the text of a one-dimensional array. It has three loops inside one another, which
move one pointer through the text and fill an array of pointers and the memory for the strings behind it,
both allocated at once. The model goes from one evaluation of a loop condition to the next; to read behind
the end of the text or to write behind the end of either part of the allocation is a fault.
-/

namespace PGLogical.PGArray

open Wire (Bytes CString)

/-- What `PQgetvalue` returns: libpq keeps the length of a value in an int. -/
structure ResultValue where
  text : CString
  lengthInt : text.strlen < 2 ^ 31

def ResultValue.inputlen (value : ResultValue) : ℕ := value.text.strlen

inductive Fault where
  | readPastEnd
  | itemPastEnd
  | stringPastEnd
deriving DecidableEq

/-- The allocation, as far as it has been written. Each item is where its string starts. -/
structure Buffer where
  items : List ℕ
  strings : Bytes
deriving DecidableEq

/-- What the caller sees. -/
structure Parsed where
  success : Bool
  nitems : ℕ
  itemarray : Option Buffer
deriving DecidableEq

/-- The loop whose condition is evaluated next. -/
inductive Loop where
  | items
  | item
  | quoted
deriving DecidableEq

/-- The local variables. `curitem` is the number of stored items in the outer loop, and one less inside. -/
structure State where
  loop : Loop
  atext : ℕ
  buffer : Buffer
deriving DecidableEq

/-! ## Memory -/

section Memory

variable (value : ResultValue)

def ResultValue.read (index : ℕ) : Except Fault UInt8 :=
  match value.text.terminated[index]? with
  | some c => .ok c
  | none => .error .readPastEnd

/-- `items[curitem] = strings` -/
def ResultValue.storeItem (buffer : Buffer) : Except Fault Buffer :=
  if buffer.items.length < value.inputlen then .ok { buffer with items := buffer.items ++ [buffer.strings.length] }
  else .error .itemPastEnd

/-- `*strings++ = c` -/
def ResultValue.storeChar (buffer : Buffer) (c : UInt8) : Except Fault Buffer :=
  if buffer.strings.length < value.inputlen then .ok { buffer with strings := buffer.strings ++ [c] }
  else .error .stringPastEnd

end Memory

/-! ## The loops -/

def leftBrace : UInt8 := 123
def rightBrace : UInt8 := 125

open Wire (comma quotationMark backslash)

def Buffer.failed (buffer : Buffer) : State ⊕ Parsed := .inr ⟨false, 0, some buffer⟩

variable (value : ResultValue)

/-- From one loop condition to the next, or to the end. -/
def step (state : State) : Except Fault (State ⊕ Parsed) := do
  let c ← value.read state.atext
  match state.loop with
  | .items =>
      if c = rightBrace then
        -- an embedded brace is bogus syntax
        if (← value.read (state.atext + 1)) ≠ 0 then return state.buffer.failed
        else return .inr ⟨true, state.buffer.items.length, some state.buffer⟩
      else if c = 0 then return state.buffer.failed
      else return .inl { state with loop := .item, buffer := ← value.storeItem state.buffer }
  | .item =>
      if c ≠ rightBrace ∧ c ≠ comma then
        if c = 0 then return state.buffer.failed
        else if c ≠ quotationMark then
          return .inl { state with atext := state.atext + 1, buffer := ← value.storeChar state.buffer c }
        else return .inl { state with loop := .quoted, atext := state.atext + 1 }
      else
        let buffer ← value.storeChar state.buffer 0
        return .inl ⟨.items, if c = comma then state.atext + 1 else state.atext, buffer⟩
  | .quoted =>
      if c ≠ quotationMark then
        if c = 0 then return state.buffer.failed
        else if c = backslash then
          let escaped ← value.read (state.atext + 1)
          if escaped = 0 then return state.buffer.failed
          else return .inl { state with atext := state.atext + 2, buffer := ← value.storeChar state.buffer escaped }
        else return .inl { state with atext := state.atext + 1, buffer := ← value.storeChar state.buffer c }
      else return .inl { state with loop := .item, atext := state.atext + 1 }

/-- "We expect input in the form of {item,item,item}". -/
def ResultValue.braced : Bool :=
  decide (2 ≤ value.inputlen) && value.text.val.head? == some leftBrace &&
    value.text.val[value.inputlen - 1]? == some rightBrace

/-- Behind the initial brace, with an empty allocation. -/
def start : State := ⟨.items, 1, ⟨[], []⟩⟩

/-- `none` if it goes on for longer than the bound; `malloc` tells whether there was memory. -/
def parsePGArray (malloc : Bool) : Option (Except Fault Parsed) :=
  if !value.braced || !malloc then some (.ok ⟨false, 0, none⟩)
  else Machine.loop (step value) (3 * value.inputlen + 3) start

/-- The strings that the pointers lead to. -/
def Parsed.strings (parsed : Parsed) : List CString :=
  match parsed.itemarray with
  | none => []
  | some buffer => (buffer.items.take parsed.nitems).map fun first => CString.ofBytes (buffer.strings.drop first)

/-- How the subscriber gets the replicated columns of a table. -/
def remoteAttnames (malloc : Bool) : Option (Except Fault (Except String (List CString))) :=
  (parsePGArray value malloc).map fun run => run.map fun parsed =>
    if parsed.success then .ok parsed.strings else .error "could not parse column list for table"

end PGLogical.PGArray
