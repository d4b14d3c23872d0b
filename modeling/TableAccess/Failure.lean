import TableAccess.Value.Text
import TableAccess.Text.Utf8

/-! Failures, by cause. A `Refusal` is raised by this library on purpose and can be built from the
values it reports; the other causes are values of a wrong shape, numbers that are none, files, and
failures that a backend, a pool or a callback raised. `message` is the text a reader sees. -/

namespace TableAccess

/-- The broad family by which a handler that knows nothing of this library can catch a failure. -/
inductive Family where
  | general | type | value | lookup | key | index | member | runtime | overflow | decoding | system
  | stop | missingFile | directory | notDirectory
  deriving DecidableEq, Repr

/-- A failure that the library reports about its own use. -/
inductive Refusal where
  | general (details : List Value)
  | invalidFormat (argument : Value)
  | missingArgument (argument : Value)
  | empty (argument : Value)
  | columnMissing (details : List Value)
  | columnSpec (details : List Value)
  | unknownHook (name : Value)
  | unknownCollection (name : Value)
  | countMissing (details : List Value)
  | notConnected (table : Value)

namespace Refusal

/-- Nothing for no detail, the text of one, and all of them as a tuple otherwise. -/
def detailText : List Value → String
  | [] => ""
  | [v] => v.toText
  | vs => (Value.tuple vs).toText

def message : Refusal → String
  | .general details => detailText details
  | .invalidFormat argument => "Invalid format: " ++ argument.toText
  | .missingArgument argument => "Missing argument: " ++ argument.toText
  | .empty argument => argument.toText ++ " cannot be empty."
  | .columnMissing details => detailText details
  | .columnSpec details => detailText details
  | .unknownHook name => "Unknown hook: " ++ name.toText
  | .unknownCollection name => name.toText ++ " is missing in collections"
  | .countMissing details => detailText details
  | .notConnected table =>
    "Collection '" ++ table.toText ++ "' has no connection. Call set_connection() first."

def family : Refusal → Family
  | .general _ => .general
  | .invalidFormat _ => .type
  | .missingArgument _ => .type
  | .empty _ => .value
  | .columnMissing _ => .value
  | .columnSpec _ => .value
  | .unknownHook _ => .lookup
  | .unknownCollection _ => .lookup
  | .countMissing _ => .lookup
  | .notConnected _ => .runtime

/-- The values that a refusal keeps for its handler, by name. -/
def attributes : Refusal → Entries
  | .invalidFormat argument => [("argument", argument)]
  | .missingArgument argument => [("argument", argument)]
  | .empty argument => [("argument", argument)]
  | .unknownHook name => [("name", name)]
  | .unknownCollection name => [("name", name)]
  | .notConnected table => [("table_name", table)]
  | _ => []

end Refusal

/-- What can go wrong with a file. -/
inductive FileProblem where
  | missing
  | isDirectory
  | notDirectory
  | nameTooLong
  deriving DecidableEq, Repr

namespace FileProblem

def message : FileProblem → String
  | .missing => "[Errno 2] No such file or directory"
  | .isDirectory => "[Errno 21] Is a directory"
  | .notDirectory => "[Errno 20] Not a directory"
  | .nameTooLong => "[Errno 36] File name too long"

def family : FileProblem → Family
  | .missing => .missingFile
  | .isDirectory => .directory
  | .notDirectory => .notDirectory
  | .nameTooLong => .system

end FileProblem

def Outside.family : Outside → Family
  | .value => .value
  | .runtime => .runtime
  | .key => .key
  | .type => .type
  | .lookup => .lookup
  | .system => .system
  | .stop => .stop

inductive Failure where
  | refused (r : Refusal)
  /-- A value of a kind that the step cannot work on. -/
  | wrongType
  /-- A value without the operation that the step needs. -/
  | noMember
  /-- A value that is no text and cannot be parted at a separator. -/
  | notPartible (v : Value)
  | noKey (key : String)
  | noIndex
  /-- A text that is no whole number. -/
  | malformedWhole (source : Value)
  | tooManyDigits (digits : Nat)
  /-- A value of a kind that no whole number can be made from. -/
  | notNumeric (v : Value)
  | nanToWhole (decimal : Bool)
  | infinityToWhole (decimal : Bool)
  | orderDirection
  | notNonNegative (option : String)
  | emptyRow
  | emptyUpdates
  | clientClosed
  | rowsChanged
  | awaitedTwice
  | credentialsMissing (path : String)
  | credentialsUnreadable (path : String)
  | credentialsShape (path : String)
  | credentialsIncomplete (path : String) (names : List String)
  | undecodable (e : Text.Utf8.Error)
  | nullByte
  | nullByteInPath
  | file (problem : FileProblem) (path : String)
  | outside (kind : Outside) (text : String)

namespace Failure

def invalidFormat (argument : String) : Failure := .refused (.invalidFormat (.text argument))

def general (text : String) : Failure := .refused (.general [.text text])

/-- The name of the kind of a value, as far as a credentials file or a command can give it. -/
def kindName : Value → String
  | .null => "NoneType"
  | .list _ => "list"
  | .tuple _ => "tuple"
  | .map _ => "dict"
  | _ => "object"

def quoted (s : String) : String := String.ofList (Text.literal s.toList)

def message : Failure → String
  | .refused r => r.message
  | .wrongType | .noMember | .noIndex => ""
  | .notPartible v => quoted (kindName v) ++ " object has no attribute 'partition'"
  | .noKey key => quoted key
  | .malformedWhole source =>
    "invalid literal for int() with base 10: " ++ String.ofList (source.literal.take 200)
  | .tooManyDigits digits =>
    "Exceeds the limit (4300 digits) for integer string conversion: value has " ++
      toString digits ++ " digits; use sys.set_int_max_str_digits() to increase the limit"
  | .notNumeric v =>
    "int() argument must be a string, a bytes-like object or a real number, not " ++
      quoted (kindName v)
  | .nanToWhole decimal =>
    if decimal then "cannot convert NaN to integer" else "cannot convert float NaN to integer"
  | .infinityToWhole decimal =>
    if decimal then "cannot convert Infinity to integer"
    else "cannot convert float infinity to integer"
  | .orderDirection => "order direction must be 'ASC' or 'DESC'"
  | .notNonNegative option => option ++ " must be a non-negative integer."
  | .emptyRow => "Data dictionary is empty."
  | .emptyUpdates => "Updates dictionary is empty."
  | .clientClosed => "PSQLClient is closed."
  | .rowsChanged => "dictionary changed size during iteration"
  | .awaitedTwice => "cannot reuse already awaited coroutine"
  | .credentialsMissing path =>
    "No credentials at " ++ path ++ "; run `pg-collections connect` first."
  | .credentialsUnreadable path => "Failed to parse credentials file: " ++ path
  | .credentialsShape path => "Unsupported credentials structure in " ++ path
  | .credentialsIncomplete path names =>
    "Credentials file " ++ path ++ " is missing: " ++ (Value.list (names.map .text)).toLiteral
  | .undecodable e => e.message
  | .nullByte => "embedded null byte"
  | .nullByteInPath => "lstat: embedded null character in path"
  | .file problem path => problem.message ++ ": " ++ quoted path
  | .outside .key text => quoted text
  | .outside _ text => text

def family : Failure → Family
  | .refused r => r.family
  | .wrongType => .type
  | .noMember | .notPartible _ => .member
  | .noKey _ => .key
  | .noIndex => .index
  | .malformedWhole _ | .tooManyDigits _ | .nanToWhole _ => .value
  | .notNumeric _ => .type
  | .infinityToWhole _ => .overflow
  | .orderDirection | .notNonNegative _ | .emptyRow | .emptyUpdates => .value
  | .clientClosed | .rowsChanged | .awaitedTwice => .runtime
  | .credentialsMissing _ => .missingFile
  | .credentialsUnreadable _ | .credentialsShape _ | .credentialsIncomplete _ _ => .value
  | .undecodable _ => .decoding
  | .nullByte | .nullByteInPath => .value
  | .file problem _ => problem.family
  | .outside kind _ => kind.family

/-- What a failure in a coroutine is for whoever waits for it: the end of an iterator would be taken
for the end of the waiting, and arrives as another failure. -/
def awaited : Failure → Failure
  | .outside .stop _ => .outside .runtime "coroutine raised StopIteration"
  | e => e

end Failure

end TableAccess
