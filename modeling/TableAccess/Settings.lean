import TableAccess.Failure
import TableAccess.Text.Split

/-! Connection settings: five values, from an address `host:port` or from a credentials file. -/

namespace TableAccess

structure Settings where
  host : Value
  port : Value
  database : Value
  user : Value
  password : Value

namespace Settings

/-- The settings as connection keywords. -/
def entries (s : Settings) : Entries :=
  [("host", s.host), ("port", s.port), ("database", s.database), ("user", s.user),
    ("password", s.password)]

/-- A whole number written in a text or in ASCII bytes. -/
def wholeOfText (source : Value) (cs : List Char) : Except Failure Int :=
  match Number.readWhole cs with
  | .ok n => .ok n
  | .error .malformed => .error (.malformedWhole source)
  | .error (.tooLong digits) => .error (.tooManyDigits digits)

/-- The whole number that a value stands for: fractions are cut off, texts are read. -/
def wholeNumber (v : Value) : Except Failure Int :=
  match v with
  | .bool b => .ok (if b then 1 else 0)
  | .int n => .ok n
  | .float x =>
    match x with
    | .nan => .error (.nanToWhole false)
    | .infinite _ => .error (.infinityToWhole false)
    | x => .ok (x.truncate?.getD 0)
  | .decimal x =>
    match x with
    | .nan .. => .error (.nanToWhole true)
    | .infinite _ => .error (.infinityToWhole true)
    | x => .ok (x.truncate?.getD 0)
  | .fraction q => .ok (q.num.tdiv q.den)
  | .text s => wholeOfText v s.toList
  | .ragged t => wholeOfText v t.shown
  | .bytes bs =>
    if bs.all (· < 0x80) then wholeOfText v (bs.map fun b => Char.ofNat b.toNat)
    else .error (.malformedWhole v)
  | v => .error (.notNumeric v)

/-- The first of the four arguments that is missing. -/
def missing? (address database user password : Value) : Option String :=
  ([("address", address), ("db", database), ("user", user), ("password", password)].find?
    fun (_, v) => v.isNull).map (·.1)

/-- The host and the port text of an address: a host, a colon, and figures of any script. -/
def splitAddress? (address : String) : Option (String × List Char) :=
  match Text.cut ':' address.toList with
  | (host, some port) =>
    if !host.isEmpty && !port.isEmpty && port.all Text.isFigure then
      some (String.ofList host, port)
    else none
  | _ => none

def ofAddress (address database user password : Value) : Except Failure Settings := do
  if let some label := missing? address database user password then
    throw (.refused (.missingArgument (.text label)))
  match address.text?, address with
  | some s, _ =>
    match splitAddress? s with
    | none => throw (.invalidFormat "address (expected host:port)")
    | some (host, port) =>
      let n ← wholeOfText (.text (String.ofList port)) port
      return ⟨.text host, .int n, database, user, password⟩
  | none, .bytes _ => throw .wrongType
  | none, v => throw (.notPartible v)

end Settings

end TableAccess
