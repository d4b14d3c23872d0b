import TableAccess.Workplace
import TableAccess.Settings
import TableAccess.Json

/-! The credentials file: connection settings as one JSON mapping. Loading turns every setting into
a text and the port into a whole number. -/

namespace TableAccess.Credentials

def defaultName : String := ".pg_collections_credentials.json"

/-- A value that counts as given, then the variable, then the default file. -/
def path (given : Value) : Act Workplace Path := do
  if given.truthy then return .ofText given.toText
  match (← get).credentials? with
  | some s => if s.isEmpty then return (← Workplace.here).child defaultName else return .ofText s
  | none => return (← Workplace.here).child defaultName

/-- The settings as a JSON text. -/
def encode (s : Settings) : Except Failure (List Char) :=
  let document := Value.map s.entries
  if document.isDocument then .ok (document.jsonText .spaced) else .error .wrongType

def required : List String := ["host", "port", "database", "user", "password"]

/-- The settings in a mapping that has all of them. -/
def ofEntries (es : Entries) : Except Failure Settings := do
  let text (name : String) : Value := (es.get name).asText
  let port ← Settings.wholeNumber (es.get "port")
  return ⟨text "host", .int port, text "database", text "user", text "password"⟩

/-- How deep a credentials file may be nested before it counts as unreadable: the reader gives up at
1000 calls inside one another, of which fourteen are there before it opens the first list or mapping,
as measured for a caller at the top of a program. For a caller further in there is less. -/
def depthLimit : Nat := 986

/-- The JSON value of a file, if it has one. -/
def document? (content : List UInt8) : Option Value :=
  match Text.Utf8.decode content with
  | .ok cs => Json.readWithin depthLimit (String.ofList cs)
  | .error _ => none

/-- Reads the content of the file with this name. -/
def decode (name : String) (content : List UInt8) : Except Failure Settings :=
  match document? content with
  | none => .error (.credentialsUnreadable name)
  | some (.map es) =>
    let missing := required.filter fun key => !Entries.has es key
    if missing.isEmpty then ofEntries es else .error (.credentialsIncomplete name missing)
  | some _ => .error (.credentialsShape name)

def load (p : Path) : Act Workplace Settings := do
  match ← Workplace.file? p with
  | none => throw (.credentialsMissing p.toText)
  | some place => Act.settle (decode p.toText (← Workplace.content place))

def save (p : Path) (s : Settings) : Act Workplace Unit := do
  Workplace.write p (← Act.settle (encode s))
  Workplace.say .debug ("Wrote credentials to " ++ p.toText)

/-- Removes the file, if there is one. -/
def remove (p : Path) : Act Workplace Bool := do
  match ← Workplace.file? p with
  | none => return false
  | some place =>
    Workplace.delete place
    Workplace.say .debug ("Removed credentials " ++ p.toText)
    return true

end TableAccess.Credentials
