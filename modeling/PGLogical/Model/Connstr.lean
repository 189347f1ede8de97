import PGLogical.Wire.Conninfo

/-! # Connection strings of the setup program

`get_connstr` of `pglogical_create_subscriber` takes a connection string or the name of a database apart
and puts it together again, with another database if one is given. The options are collected in two
arrays, which are allocated with zeros and end at the first one that is left.
-/

namespace PGLogical.Connstr

open Wire

/-- `PQconninfoOption`, as far as it is used. -/
structure PQconninfoOption where
  keyword : Bytes
  val : Option Bytes
deriving DecidableEq

/-- The arrays of keywords and values. -/
structure Arguments where
  size : ℕ
  entries : List (Bytes × Bytes)
deriving DecidableEq

inductive Failure where
  /-- "Invalid connection string", and the end of the program. -/
  | die
  | pastArray
deriving DecidableEq

def Arguments.store (args : Arguments) (keyword value : Bytes) : Except Failure Arguments :=
  if args.entries.length < args.size then .ok { args with entries := args.entries ++ [(keyword, value)] }
  else .error .pastArray

/-! ## Putting a connection string together -/

def plainByte (c : UInt8) : Bool := isLower c || isUpper c || isDigit c || c == underscore || c == 46

/-- "' and \ must be escaped by to \' and \\". -/
def escapeConnstrValue : Bytes → Bytes
  | [] => []
  | c :: rest =>
      if c = apostrophe ∨ c = backslash then backslash :: c :: escapeConnstrValue rest
      else c :: escapeConnstrValue rest

def appendPQExpBufferConnstrValue (str : Bytes) : Bytes :=
  if str.all plainByte then str else apostrophe :: (escapeConnstrValue str ++ [apostrophe])

def connstrPair (pair : Bytes × Bytes) : Bytes := pair.1 ++ equalsSign :: appendPQExpBufferConnstrValue pair.2

/-- The slot behind the last entry is read as well. -/
def pqconninfoParamsToConnstr (args : Arguments) : Except Failure Bytes :=
  if args.entries.length < args.size then .ok ([blank].intercalate (args.entries.map connstrPair))
  else .error .pastArray

/-! ## `get_connstr` -/

variable (libpq : ConninfoKeywords) (locale : Wire.Locale) (uriParse : Bytes → Option ConninfoOptions)

def conninfoOptions (parsed : ConninfoOptions) : List PQconninfoOption :=
  libpq.keywords.map fun keyword => ⟨keyword, parsed keyword⟩

def PQconninfoOption.nonempty (option : PQconninfoOption) : Bool :=
  match option.val with
  | some (_ :: _) => true
  | _ => false

/-- "If db* parameters were provided, we'll fill them later." -/
def storeOption (dbname : Option Bytes) (args : Arguments) (option : PQconninfoOption) : Except Failure Arguments :=
  if dbname.isSome ∧ option.keyword = ascii "dbname" then .ok args
  else match option.val with
    | some (c :: rest) => args.store option.keyword (c :: rest)
    | _ => .ok args

/-- The string is not just the name of a database. -/
def isConnstr (connstr : Bytes) : Bool := hasUriPrefix connstr || connstr.contains equalsSign

def argcount (options : List PQconninfoOption) : ℕ := 4 + (options.filter PQconninfoOption.nonempty).length

/-- The options of the connection string, and the name of the database. -/
def mergeOptions (connstr dbname : Option Bytes) : Except Failure (Arguments × Option Bytes) :=
  match connstr.filter isConnstr with
  | some connstr =>
      match pqconninfoParse libpq locale uriParse connstr with
      | none => .error .die
      | some parsed => do
          let options := conninfoOptions libpq parsed
          let args ← options.foldlM (storeOption dbname) ⟨argcount options + 1, []⟩
          return (args, dbname)
  | none => .ok (⟨argcount [] + 1, []⟩, if dbname.isSome then dbname else connstr)

def getConnstr (connstr dbname : Option Bytes) : Except Failure Bytes := do
  let (args, dbname) ← mergeOptions libpq locale uriParse connstr dbname
  let args ← match dbname with
    | some dbname => args.store (ascii "dbname") dbname
    | none => pure args
  pqconninfoParamsToConnstr args

end PGLogical.Connstr
