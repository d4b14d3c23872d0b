import TableAccess.Client.Cache
import TableAccess.Backend

/-! Backends over a client of a pool. A backend gives out one accessor per table name; statements
without a result set have no rows. A backend can be made over anything, and fails over what is no
client once it is asked for rows. -/

namespace TableAccess.PooledBackend

/-- Makes a backend over a value that is one client and closes another. -/
def create (source : Value) (client? closes? : Option Nat) : Act World Nat := do
  let id := (← get).backends.length
  modify fun w => { w with backends := w.backends ++ [⟨source, client?, closes?, []⟩] }
  return id

def lookup (id : Nat) : Act World Backend := do
  match (← get).backends[id]? with
  | some b => return b
  | none => throw .noMember

/-- The client of a backend. -/
def client (id : Nat) : Act World Nat := do
  match (← lookup id).client? with
  | some client => return client
  | none => throw .noMember

/-- Closes what the backend was made over. -/
def close (id : Nat) : Act World Unit := do
  match (← lookup id).closes? with
  | some client =>
    let _ ← Client.close client
  | none => throw .noMember

/-- The number of the accessor for a table name, which is made on first use. -/
def tableNumber (id : Nat) (name : Value) : Act World Nat := do
  let b ← lookup id
  match b.tables.findIdx? fun known => known.same name with
  | some i => return i
  | none =>
    modify fun w =>
      { w with backends := w.backends.modify id fun b => { b with tables := b.tables ++ [name] } }
    return b.tables.length

/-- The operations on one table of a backend. -/
def tableOf (id : Nat) (name : Value) : Table World where
  find conditions options := do Client.findRows (← client id) name conditions options
  findOne row := do Client.findRow (← client id) name row
  insert data := do Client.insertRow (← client id) name data
  updateById row data := do Client.updateRow (← client id) name row data
  destroyById row := do Client.deleteRow (← client id) name row

def execute (id : Nat) (query : Value) : Act World Value := do
  return Client.orEmpty (← Client.execute (← client id) query .null)

def table (id : Nat) (name : String) : Act World (Table World) := do
  let _ ← tableNumber id (.text name)
  return tableOf id (.text name)

def connection (id : Nat) : Connection World where
  execute statement := execute id (.text statement)
  table name := table id name

end TableAccess.PooledBackend
