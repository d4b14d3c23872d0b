import TableAccess.Collection

/-! Requests to a collection. Everything that can be said about a request without the database is
said at once: `Collection.accept` checks the arguments, then the connection, and only then runs the
formatter on the payload. An accepted request is pending until it is performed. -/

namespace TableAccess

inductive Request where
  | get (id : Value)
  | count (conditions : Value)
  | flush (resetSequence : Value)
  | insert (data : Value)
  | update (id data : Value)
  | updateAll (conditions data : Value)
  | remove (id : Value)
  | removeAll (conditions : Value)
  | find (conditions options : Value)

/-- An accepted request whose payload has been formatted. -/
structure Pending where
  request : Request

namespace Request

def operation : Request → Operation
  | .get _ => .get
  | .count _ => .count
  | .flush _ => .flush
  | .insert _ => .insert
  | .update .. => .update
  | .updateAll .. => .updateAll
  | .remove _ => .remove
  | .removeAll _ => .removeAll
  | .find .. => .find

def requireId (id : Value) : Except Failure Unit :=
  if id.isReal then .ok () else .error (.invalidFormat "id")

def requireMap (v : Value) (label : String) : Except Failure Unit :=
  if v.isMap then .ok () else .error (.invalidFormat label)

def requirePayload (data : Value) : Except Failure Unit := do
  requireMap data "data"
  if !data.truthy then throw (.refused (.empty (.text "data")))

def requireSome (conditions : Value) : Except Failure Unit :=
  if conditions.truthy then .ok ()
  else .error (.general "conditions cannot be empty; use flush() to empty the table.")

/-- The request with its optional arguments filled in, if its arguments are in order: every
argument is judged by what `look` says it is. -/
def checked (look : Value → Value) : Request → Except Failure Request
  | .get id => do
    requireId id
    return .get id
  | .count conditions => do
    let conditions := conditions.orElse (.map [])
    requireMap (look conditions) "conditions"
    return .count conditions
  | .flush resetSequence => return .flush resetSequence
  | .insert data => do
    requirePayload (look data)
    return .insert data
  | .update id data => do
    requireId id
    requirePayload (look data)
    return .update id data
  | .updateAll conditions data => do
    requireMap (look conditions) "conditions"
    requirePayload (look data)
    return .updateAll conditions data
  | .remove id => do
    requireId id
    return .remove id
  | .removeAll conditions => do
    requireMap (look conditions) "conditions"
    requireSome (look conditions)
    return .removeAll conditions
  | .find conditions options =>
    let mapOrEmpty (v : Value) : Value := if (look v).isMap then v else .map []
    return .find (mapOrEmpty conditions) (mapOrEmpty options)

/-- The request with its payload formatted, if it has one. -/
def formatted {σ : Type} (toDb? : Option (Formatter σ)) : Request → Act (Stage σ) Request
  | .insert data => do return .insert (← Formatter.apply toDb? data)
  | .update id data => do return .update id (← Formatter.apply toDb? data)
  | .updateAll conditions data => do return .updateAll conditions (← Formatter.apply toDb? data)
  | r => return r

end Request

namespace Collection

variable {σ : Type}

def requireConnection (c : Collection σ) : Except Failure Unit :=
  if c.isConnected && c.accessor?.isSome then .ok ()
  else .error (.refused (.notConnected (.text c.table)))

/-- Takes a request on, or refuses it before anything has happened. -/
def accept (c : Collection σ) (r : Request) : Act (Stage σ) Pending := do
  let r ← Act.settle (r.checked (← get).memory.look)
  Act.settle c.requireConnection
  return ⟨← r.formatted c.toDb?⟩

end Collection

end TableAccess
