import TableAccess.Collection.Perform
import TableAccess.PooledBackend
import TableAccess.Registry
import TableAccess.Rehearsal
import TableAccess.Session.Arguments

/-! Sessions: objects that are made one after the other and called by method name. An object is
known by its number in the memory of the session and keeps it however often it is met; the memory
shows every object as it is now. Names are bound to values; the name shown for an object is the
first that was bound to it. -/

namespace TableAccess

/-- What an object of a session is; the numbers count the objects of each kind. -/
inductive Thing where
  | rehearsal (id : Nat)
  | client (id : Nat)
  | backend (id : Nat)
  | accessor (backend number : Nat)
  | registry (id : Nat)
  | collection (id : Nat)
  | pending (id : Nat)
  deriving DecidableEq, Repr

/-- An accepted request that waits, or that has been waited for already. -/
inductive Work where
  | waiting (collection : Nat) (request : Pending)
  | spent

structure Session where
  stage : Stage World
  registries : List (Registry Nat)
  collections : List (Collection World)
  work : List Work
  things : List (Nat × Thing)
  names : List (String × Value)

/-- The outcome of a call: a value, or work to wait for. -/
inductive Called where
  | value (v : Value)
  | work (step : Act Session Value)

/-- A method: its parameters and what it does with their values. -/
structure Method where
  parameters : List Parameter
  run : List Value → Act Session Called

namespace Session

def empty : Session := ⟨⟨.empty, .empty⟩, [], [], [], [], []⟩

def world (s : Session) : World := s.stage.outside

def onStage {α : Type} (step : Act (Stage World) α) : Act Session α :=
  Act.within (·.stage) (fun t s => { s with stage := t }) step

def onWorld {α : Type} (step : Act World α) : Act Session α := onStage (Stage.outward step)

/-- A value as it is now. -/
def read (s : Session) (v : Value) : Value := s.stage.memory.read v

def valueOf (v : Value) : Act Session Value := do return (← get).read v

def entriesOf (es : Entries) : Act Session Entries := es.mapM fun e => do
  return (e.1, ← valueOf e.2)

/-! ### How objects look -/

def clientText (s : Session) (id : Nat) : String :=
  (s.world.clients[id]?.map (Client.toText s.read)).getD ""

/-- What a backend is made over, as it shows in the text of the backend and its accessors. -/
def sourceText (s : Session) (b : Backend) : String := (s.read b.source).toLiteral

def textOf (s : Session) : Thing → String
  | .client id => s.clientText id
  | .backend id =>
    match s.world.backends[id]? with
    | some b => "<PSQLBackend " ++ s.sourceText b ++ ">"
    | none => ""
  | .accessor backend number =>
    match s.world.backends[backend]? with
    | some b =>
      "<PSQLTable " ++ (s.read (b.tables.getD number .null)).toText ++ " via " ++ s.sourceText b ++
        ">"
    | none => ""
  | .collection i => (s.collections[i]?.map Collection.toText).getD ""
  | .rehearsal _ | .registry _ | .pending _ => "<object>"

def kindOf : Thing → ObjectKind
  | .client _ => .client
  | .collection _ => .collection
  | _ => .other

/-- A registry counts as given once something is registered, every other object always. -/
def isGiven (s : Session) : Thing → Bool
  | .registry i => s.registries[i]?.any fun r => r.size != 0
  | _ => true

def appearance (s : Session) (n : Nat) (t : Thing) : Value :=
  .object ⟨n, kindOf t, s.textOf t, s.isGiven t, none⟩

/-- Brings the memory up to date with the objects, each after those that its text can show. -/
def refreshed (s : Session) : Session := s.things.foldl (fun s e =>
  { s with stage := { s.stage with memory := s.stage.memory.put e.1 (s.appearance e.1 e.2) } }) s

/-! ### Objects and names -/

/-- An object as a value; it is given its number when it is first met. -/
def intern (t : Thing) : Act Session Value := do
  let s ← get
  match s.things.find? fun e => e.2 == t with
  | some (n, _) => return .reference n
  | none =>
    let n := s.stage.memory.size
    let v ← onStage (Stage.store .null)
    modify fun s => { s with things := s.things ++ [(n, t)] }.refreshed
    return v

def thing? (s : Session) (v : Value) : Option Thing :=
  match v with
  | .reference n => (s.things.find? fun e => e.1 == n).map (·.2)
  | _ => none

def thing (v : Value) : Act Session Thing := do
  match (← get).thing? v with
  | some t => return t
  | none => throw .noMember

def bindName (name : String) (v : Value) : Act Session Unit :=
  modify fun s => { s with names := s.names ++ [(name, v)] }

/-- The value that was last bound to a name. -/
def named (s : Session) (name : String) : Value :=
  ((s.names.reverse.find? fun e => e.1 == name).map (·.2)).getD .null

/-- The first name of an object. -/
def nameOf? (s : Session) (number : Nat) : Option String :=
  (s.names.find? fun e => match e.2 with
    | .reference n => n == number
    | _ => false).map (·.1)

def collectionNumber (v : Value) : Act Session Nat := do
  match ← thing v with
  | .collection i => return i
  | _ => throw .noMember

def collection (i : Nat) : Act Session (Collection World) := do
  match (← get).collections[i]? with
  | some c => return c
  | none => throw .noMember

def setCollection (i : Nat) (c : Collection World) : Act Session Unit :=
  modify fun s => { s with collections := s.collections.set i c }.refreshed

def registryNumber (v : Value) : Act Session Nat := do
  match ← thing v with
  | .registry i => return i
  | _ => throw .noMember

def registry (i : Nat) : Act Session (Registry Nat) := do
  match (← get).registries[i]? with
  | some r => return r
  | none => throw .noMember

def setRegistry (i : Nat) (r : Registry Nat) : Act Session Unit :=
  modify fun s => { s with registries := s.registries.set i r }.refreshed

/-! ### Making objects -/

def newRehearsal (answers : List Rehearsed) : Act Session Value := do
  intern (.rehearsal (← onWorld (Rehearsal.create answers)))

/-- Names that no setting can have, for a client of its own and for a shared one. -/
def reserved (shared : Bool) : List String := if shared then ["self", "cls"] else ["self"]

def newClient (settings : Entries) (shared : Bool) : Act Session Value := do
  if settings.any fun e => (reserved shared).contains e.1 then throw .wrongType
  let kept ← settings.mapM fun e => do return (e.1, ← onStage (Stage.place e.2))
  let order := Client.Order.ofEntries (← entriesOf kept) kept
  intern (.client (← onWorld (if shared then Client.shared order else Client.create order none)))

/-- The clients that a backend over this object sends statements to and closes. -/
def clientsOf (s : Session) (v : Value) : Option Nat × Option Nat :=
  match s.thing? v with
  | some (.client id) => (some id, some id)
  | some (.backend id) => (none, s.world.backends[id]?.bind (·.closes?))
  | _ => (none, none)

def newBackend (source : Value) : Act Session Value := do
  let (client?, closes?) := (← get).clientsOf source
  intern (.backend (← onWorld (PooledBackend.create source client? closes?)))

/-- A backend over the shared client for these settings. -/
def backendFor (settings : Settings) (pool : Entries) : Act Session Value := do
  if pool.any fun e => e.1 == "settings" || Entries.has settings.entries e.1 then throw .wrongType
  newBackend (← newClient (settings.entries ++ pool) true)

def newRegistry : Act Session Value := do
  let i := (← get).registries.length
  modify fun s => { s with registries := s.registries ++ [.empty] }
  intern (.registry i)

/-- What a collection is attached to when it is given this value. -/
def attachmentOf (s : Session) (v : Value) : Attachment World :=
  match s.thing? v with
  | some (.rehearsal id) => .connection (Rehearsal.connection id)
  | some (.backend id) => .connection (PooledBackend.connection id)
  | _ => if v.isNull then .nothing else .stranger

/-- Attaches a collection; what it has become is kept even when that fails. -/
def attach (c : Collection World) (connection : Value) :
    Act Session (Collection World × Option Failure) := do
  let attachment := (← get).attachmentOf connection
  onWorld (fun w =>
    let (r, w) := c.attach attachment w
    (.ok r, w))

def newCollection (table connection registryValue : Value) : Act Session Value := do
  let name ← Act.settle (Collection.tableName (← valueOf table))
  let c := Collection.bare name
  let c ← if connection.isNull then pure c else do
    match ← attach c connection with
    | (c, none) => pure c
    | (_, some e) => throw e
  let i := (← get).collections.length
  if !registryValue.isNull then
    let r ← registryNumber registryValue
    setRegistry r ((← registry r).register name i)
  modify fun s => { s with collections := s.collections ++ [c] }
  intern (.collection i)

/-! ### Changing collections -/

def setConnection (target connection : Value) : Act Session Unit := do
  let i ← collectionNumber target
  match ← attach (← collection i) connection with
  | (c, none) => setCollection i c
  | (c, some e) =>
    setCollection i c
    throw e

def setFormat (target : Value) (toDb : Bool) (callback : Option (Callback World)) :
    Act Session Unit := do
  let i ← collectionNumber target
  let c ← collection i
  setCollection i (← Act.settle (if toDb then c.setDbFormat callback else c.setJsFormat callback))

def setHook (target : Value) (side : Side) (name : Value) (callback : Option (Callback World)) :
    Act Session Unit := do
  let i ← collectionNumber target
  let name ← valueOf name
  setCollection i (← Act.settle ((← collection i).setHook target side name callback))

/-! ### Requests -/

/-- Waits for an accepted request, which the collection performs as it is now. -/
def performOn (i : Nat) (p : Pending) : Act Session Value := do
  let c ← collection i
  onStage (c.awaited p)

/-- The request of an operation that is called with these values. -/
def requestOf (op : Operation) (values : List Value) : Option Request :=
  match op, values with
  | .get, [id] => some (.get id)
  | .count, [conditions] => some (.count conditions)
  | .flush, [resetSequence] => some (.flush resetSequence)
  | .insert, [data] => some (.insert data)
  | .update, [id, data] => some (.update id data)
  | .updateAll, [conditions, data] => some (.updateAll conditions data)
  | .remove, [id] => some (.remove id)
  | .removeAll, [conditions] => some (.removeAll conditions)
  | .find, [conditions, options] => some (.find conditions options)
  | _, _ => none

def parametersOf : Operation → List Parameter
  | .get | .remove => [.required "id"]
  | .count => [.optional "conditions"]
  | .flush => [⟨"reset_sequence", some (.bool false)⟩]
  | .insert => [.required "data"]
  | .update => [.required "id", .required "data"]
  | .updateAll => [.required "conditions", .required "data"]
  | .removeAll => [.required "conditions"]
  | .find => [.optional "conditions", .optional "options"]

/-- Calls an operation of a collection, which accepts or refuses the request. -/
def request (i : Nat) (op : Operation) (values : List Value) : Act Session Pending := do
  match requestOf op values with
  | none => throw .wrongType
  | some r =>
    let c ← collection i
    onStage (c.accept r)

/-- The values of the parameters of a call, all of them in the memory. -/
def arguments (parameters : List Parameter) (positional : List Value) (named : Entries) :
    Act Session (List Value) := do
  let values ← Act.settle (Parameter.bind parameters positional named)
  values.mapM fun v => onStage (Stage.place v)

/-- Calls an operation without waiting for its work. -/
def start (target : Value) (method : String) (positional : List Value) (named : Entries) :
    Act Session Value := do
  let i ← collectionNumber target
  match Operation.ofName? method with
  | none => throw .noMember
  | some op =>
    let values ← arguments (parametersOf op) positional named
    let p ← request i op values
    let n := (← get).work.length
    modify fun s => { s with work := s.work ++ [.waiting i p] }
    intern (.pending n)

/-- Waits for work; work can be waited for once. -/
def wait (target : Value) : Act Session Value := do
  match (← get).thing? target, target with
  | some (.pending n), _ =>
    match (← get).work[n]? with
    | some (.waiting i p) =>
      modify fun s => { s with work := s.work.set n .spent }
      performOn i p
    | _ => throw .awaitedTwice
  | none, .reference n => onStage (Act.awaited (Rehearsal.Run.resume n))
  | _, _ => throw .wrongType

/-! ### Methods -/

/-- Runs a step on arguments as they are now, and keeps its value. -/
def onValues (values : List Value) (step : List Value → Act World Value) : Act Session Value := do
  let v ← onWorld (step (← values.mapM valueOf))
  onStage (Stage.place v)

/-- A method that answers at once. -/
def prompt (parameters : List Parameter) (step : List Value → Act World Value) : Method :=
  ⟨parameters, fun values => do return .value (← onValues values step)⟩

/-- A method whose answer has to be waited for. -/
def deferred (parameters : List Parameter) (step : List Value → Act World Value) : Method :=
  ⟨parameters, fun values => return .work (onValues values step)⟩

/-- The text of an object. -/
def showing (t : Thing) : Method :=
  ⟨[], fun _ => do return .value (.text ((← get).textOf t))⟩

def collectionMethod? (i : Nat) (name : String) : Option Method :=
  match Operation.ofName? name with
  | some op => some ⟨parametersOf op, fun values => do
      let p ← request i op values
      return .work (performOn i p)⟩
  | none => if name = "__repr__" then some (showing (.collection i)) else none

def registryMethod? (i : Nat) (name : String) : Option Method :=
  match name with
  | "register" => some ⟨[.required "collection"], fun values => do
      let n ← collectionNumber (values.headD .null)
      setRegistry i ((← registry i).register (← collection n).table n)
      return .value .null⟩
  | "unregister" => some ⟨[.required "name"], fun values => do
      let name ← valueOf (values.headD .null)
      let (r, present) ← Act.settle ((← registry i).unregister name)
      setRegistry i r
      return .value (.bool present)⟩
  | "get_model" => some ⟨[.required "name"], fun values => do
      let n ← Act.settle ((← registry i).model (← valueOf (values.headD .null)))
      return .value (← intern (.collection n))⟩
  | "names" => some ⟨[], fun _ => do
      let names := (← registry i).names.map .text
      return .value (← onStage (Stage.place (.list names)))⟩
  | "__contains__" => some ⟨[.required "name"], fun values => do
      let name ← valueOf (values.headD .null)
      return .value (.bool (← Act.settle ((← registry i).contains name)))⟩
  | "__len__" => some ⟨[], fun _ => do return .value (.ofNat (← registry i).size)⟩
  | _ => none

def closeClient (id : Nat) : Act World Value := do
  let _ ← Client.close id
  return .null

def clientMethod? (id : Nat) (name : String) : Option Method :=
  match name with
  | "execute_query" => some (prompt [.required "query", .optional "params"] fun
      | [query, parameters] => Client.execute id query parameters
      | _ => throw .wrongType)
  | "find_rows" =>
    some (prompt [.required "table", .optional "conditions", .optional "options"] fun
      | [table, conditions, options] => Client.findRows id table conditions options
      | _ => throw .wrongType)
  | "get_row_by_id" => some (prompt [.required "table", .required "row_id"] fun
      | [table, row] => Client.findRow id table row
      | _ => throw .wrongType)
  | "insert_row" => some (prompt [.required "table", .required "data"] fun
      | [table, data] => Client.insertRow id table data
      | _ => throw .wrongType)
  | "update_row_by_id" =>
    some (prompt [.required "table", .required "row_id", .required "data"] fun
      | [table, row, data] => Client.updateRow id table row data
      | _ => throw .wrongType)
  | "delete_row_by_id" => some (prompt [.required "table", .required "row_id"] fun
      | [table, row] => Client.deleteRow id table row
      | _ => throw .wrongType)
  | "close" => some (prompt [] fun _ => closeClient id)
  | "__repr__" => some (showing (.client id))
  | _ => none

def closeBackend (id : Nat) : Act World Value := do
  PooledBackend.close id
  return .null

def backendMethod? (id : Nat) (name : String) : Option Method :=
  match name with
  | "execute" => some (deferred [.required "query"] fun values =>
      PooledBackend.execute id (values.headD .null))
  | "table" => some ⟨[.required "name"], fun values => do
      let name := values.headD .null
      Act.settle (← valueOf name).hashed
      return .value (← intern (.accessor id (← onWorld (PooledBackend.tableNumber id name))))⟩
  | "close" => some (prompt [] fun _ => closeBackend id)
  | "__repr__" => some (showing (.backend id))
  | _ => none

/-- The accessor with this number; the name that it is for is read whenever it is used. -/
def accessorOf (backend number : Nat) : Act Session (Table World) := do
  let name := ((← get).world.backends[backend]?.map (·.tables.getD number .null)).getD .null
  return PooledBackend.tableOf backend (← valueOf name)

def accessorMethod? (backend number : Nat) (name : String) : Option Method :=
  let on (parameters : List Parameter) (f : Table World → List Value → Act World Value) : Method :=
    ⟨parameters, fun values => return .work do
      let t ← accessorOf backend number
      onValues values (f t)⟩
  match name with
  | "find" => some (on [.required "conditions", .required "options"] fun
      | t, [conditions, options] => t.find conditions options
      | _, _ => throw .wrongType)
  | "find_one" => some (on [.required "id"] fun t values => t.findOne (values.headD .null))
  | "insert" => some (on [.required "data"] fun t values => t.insert (values.headD .null))
  | "update_by_id" => some (on [.required "id", .required "data"] fun
      | t, [id, data] => t.updateById id data
      | _, _ => throw .wrongType)
  | "destroy_by_id" => some (on [.required "id"] fun t values => t.destroyById (values.headD .null))
  | "__repr__" => some (showing (.accessor backend number))
  | _ => none

def method? (t : Thing) (name : String) : Option Method :=
  match t with
  | .collection i => collectionMethod? i name
  | .registry i => registryMethod? i name
  | .client id => clientMethod? id name
  | .backend id => backendMethod? id name
  | .accessor backend number => accessorMethod? backend number name
  | .rehearsal _ | .pending _ => none

/-- Calls a method of an object. -/
def call (target : Value) (name : String) (positional : List Value) (named : Entries) :
    Act Session Called := do
  match method? (← thing target) name with
  | none => throw .noMember
  | some m => m.run (← arguments m.parameters positional named)

end Session

end TableAccess
