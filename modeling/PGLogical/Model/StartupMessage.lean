import PGLogical.Model.Proto
import PGLogical.Wire.Consumes

/-! # The startup message at the receiver

`handle_startup` reads a version and then pairs of strings, until its cursor is at the end of the
message. Each pair is handed to `handle_startup_param`, which may refuse it. There is neither a count
nor a terminator, so the loop ends because every pair moves the cursor forward.
-/

namespace PGLogical.Startup

open Wire

/-! ## Parameters -/

/-- What the receiver knows about its own server, and PostgreSQL's `parse_bool`. -/
structure Receiver where
  databaseEncodingName : CString
  /-- Whether the name stands for the encoding of the database. -/
  isDatabaseEncoding : CString → Bool
  parseBool : CString → Option Bool

def parseBoolParam (receiver : Receiver) (key value : CString) : Except String Bool :=
  match receiver.parseBool value with
  | some result => .ok result
  | none => .error s!"couldn't parse value '{value.toString}' for key '{key.toString}' as boolean"

/-- A hook that was asked for has to be there. -/
def requireHook (receiver : Receiver) (key value : CString) (hook : String) : Except String Unit := do
  if !(← parseBoolParam receiver key value) then
    throw s!"pglogical requested a {hook} hook, but it was not activated"

/-- Keys that are not listed are ignored. -/
def handleStartupParam (receiver : Receiver) (key value : CString) : Except String Unit := do
  if key = CString.ofString "encoding" then
    if !receiver.isDatabaseEncoding value then
      throw s!"expected encoding={receiver.databaseEncodingName.toString} from upstream but got {value.toString}"
  if key = CString.ofString "forward_changeset_origins" then
    let _ ← parseBoolParam receiver key value
  if key = CString.ofString "hooks.startup_hook_enabled" then
    requireHook receiver key value "startup"
  if key = CString.ofString "hooks.row_filter_enabled" then
    requireHook receiver key value "row filter"
  if key = CString.ofString "hooks.transaction_filter_enabled" then
    requireHook receiver key value "transaction filter"

/-! ## The loop -/

abbrev Param := CString × CString

/-- The pairs that have been handed over, and what is left of the message or an error. -/
abbrev Outcome := List Param × Except String Bytes

variable (param : CString → CString → Except String Unit)

theorem pqGetmsgstring_length {input rest : Bytes} {s : CString} (read : pqGetmsgstring input = .ok (s, rest)) :
    rest.length < input.length := by
  obtain ⟨front, split, rfl⟩ := consumes_string read
  rw [split, List.length_append, CString.length_terminated]
  omega

def handleStartupPairs (input : Bytes) : Outcome :=
  match readKey : pqGetmsgstring input with
  | .error message => ([], .error message)
  | .ok (k, afterKey) =>
    if k.strlen = 0 then ([], .error "invalid startup message: key has zero length")
    else if afterKey = [] then
      ([], .error s!"invalid startup message: key '{k.toString}' has no following value")
    else
      match readValue : pqGetmsgstring afterKey with
      | .error message => ([], .error message)
      | .ok (v, rest) =>
        match param k v with
        | .error message => ([(k, v)], .error message)
        | .ok () =>
          if rest = [] then ([(k, v)], .ok rest)
          else
            let (calls, ended) := handleStartupPairs rest
            ((k, v) :: calls, ended)
termination_by input.length
decreasing_by
  have key := pqGetmsgstring_length readKey
  have value := pqGetmsgstring_length readValue
  omega

/-- The message type has been read already. -/
def handleStartup (message : Bytes) : Outcome :=
  match pqGetmsgbyte message with
  | .error message => ([], .error message)
  | .ok (msgver, rest) =>
    if msgver ≠ 1 then ([], .error s!"Expected startup message version 1, but got {msgver}")
    else handleStartupPairs param rest

end PGLogical.Startup
