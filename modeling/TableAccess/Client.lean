import TableAccess.World
import TableAccess.Statement.Bound

/-! Clients of a connection pool. A statement runs in a transaction of its own: a connection is
acquired, the statement is sent and committed, and the connection goes back in every case; a
failure on the way is answered by a rollback. A closed client acquires nothing. -/

namespace TableAccess.Client

/-- A statement to run: a text, or pieces that become a text. Nothing else has a text. -/
inductive Query where
  | text (s : String)
  | fragments (fs : List Fragment)
  | unwritable

namespace Query

def ofValue (v : Value) : Query :=
  match v.text? with
  | some s => .text s
  | none => .unwritable

/-- The text to send. A text is sent as it is; only pieces have to be written out. -/
def write : Query → Act World String
  | .text s => pure s
  | .fragments fs => do
    World.strike .render
    return Fragment.text fs
  | .unwritable => throw .noMember

end Query

def isClosed (id : Nat) : Act World Bool := do
  match (← get).clients[id]? with
  | some c => return c.closed
  | none => throw .noMember

def markClosed (id : Nat) : Act World Unit :=
  modify fun w => { w with clients := w.clients.modify id fun c => { c with closed := true } }

/-- Whether the key of a client leads to an entry of the cache: to its own, for a key is itself even
where it equals nothing, or to one whose key equals it. -/
def leadsTo (id : Nat) (key : Value) (e : Value × Nat) : Bool := e.2 == id || e.1.same key

/-- The cache without a client, if it is this client that its key leads to. -/
def cacheWithout (id : Nat) (key? : Option Value) (cache : List (Value × Nat)) :
    List (Value × Nat) :=
  match key? with
  | none => cache
  | some key =>
    if (cache.find? (leadsTo id key)).map (·.2) = some id then cache.eraseP (leadsTo id key)
    else cache

/-- Removes a client from the cache, if it is there under its own key. -/
def evict (id : Nat) : Act World Unit :=
  modify fun w => { w with cache := cacheWithout id (w.clients[id]?.bind (·.key?)) w.cache }

/-- Closes a client and its pool; closing it again does nothing. A pool that fails to close is left
to itself, and the result tells whether that happened. -/
def close (id : Nat) : Act World Bool := do
  if ← isClosed id then return false
  markClosed id
  let outcome ← Act.attempt (World.step (.closeAll id) .closeAll)
  evict id
  return outcome matches .error _

/-- Rows as mappings from column names; of columns with one name the last wins, and the shorter of
a row and its columns decides. -/
def rowsOf (r : Response) : Value :=
  match r.columns? with
  | none => .null
  | some columns =>
    .list (r.rows.map fun row =>
      .map ((columns.zip row).foldl (fun es e => Entries.put es e.1 e.2) []))

def acquire (id : Nat) : Act World Unit := do
  if ← isClosed id then throw .clientClosed
  World.step (.acquire id) .acquire

/-- Fetches the rows of a response, if the statement has not failed and has a result set. -/
def fetch (r : Response) : Act World Value := do
  if let some e := r.failure? then throw e
  if r.columns?.isSome then World.strike .fetch
  return rowsOf r

/-- Sends a statement and takes its response, in the course of which a client may be closed. -/
def send (id : Nat) (statement : String) (parameters : List Value) : Act World Value := do
  World.step (.send id statement parameters) .send
  let r ← World.respond
  if let some other := r.closes? then
    let _ ← close other
  fetch r

/-- Gives the connection back. A pool that refuses it is only reported while the client is open. -/
def release (id : Nat) : Act World Unit := do
  match ← Act.attempt (World.step (.release id) .release) with
  | .ok _ => return
  | .error e => if !(← isClosed id) then throw e

/-- Writes the statement out, sends it, and commits. -/
def transact (id : Nat) (query : Query) (parameters : List Value) : Act World Value := do
  let rows ← send id (← query.write) parameters
  World.step (.commit id) .commit
  return rows

/-- After a failure: the failure itself, unless the rollback fails as well. -/
def undo (id : Nat) (e : Failure) : Act World Failure := do
  match ← Act.attempt (World.step (.rollback id) .rollback) with
  | .ok _ => return e
  | .error e => return e

/-- Transacts on a connection that is there; a failure is answered by a rollback. -/
def conclude (id : Nat) (query : Query) (parameters : List Value) :
    Act World (Except Failure Value) := do
  match ← Act.attempt (transact id query parameters) with
  | .ok rows => return .ok rows
  | .error e => return .error (← undo id e)

/-- Runs one statement in a transaction of its own. -/
def run (id : Nat) (query : Query) (parameters : List Value) : Act World Value := do
  acquire id
  let outcome ← conclude id query parameters
  release id
  Act.settle outcome

/-- Parameters as a list; whatever counts as not given is none. -/
def parameterList (v : Value) : Except Failure (List Value) :=
  if v.truthy then Statement.elements v else .ok []

/-- Runs any statement: its rows, or null if it has no result set. -/
def execute (id : Nat) (query parameters : Value) : Act World Value := do
  run id (Query.ofValue query) (← Act.settle (parameterList parameters))

/-! ### Rows of a table -/

open Statement

def orEmpty (rows : Value) : Value := if rows.truthy then rows else .list []

def firstOrNull (rows : Value) : Value := (rows.items?.getD []).headD .null

def runPrepared (id : Nat) (p : Except Failure Prepared) : Act World Value := do
  let p ← Act.settle p
  run id (.fragments p.pieces) p.parameters

def findRows (id : Nat) (table conditions options : Value) : Act World Value := do
  return orEmpty (← runPrepared id (Prepared.find table conditions options))

def findRow (id : Nat) (table row : Value) : Act World Value := do
  return firstOrNull (← runPrepared id (.ok (Prepared.findOne table row)))

def insertRow (id : Nat) (table data : Value) : Act World Value := do
  return firstOrNull (← runPrepared id (Prepared.insert table data))

def updateRow (id : Nat) (table row data : Value) : Act World Value := do
  return orEmpty (← runPrepared id (Prepared.updateById table row data))

def deleteRow (id : Nat) (table row : Value) : Act World Value := do
  return orEmpty (← runPrepared id (.ok (Prepared.deleteById table row)))

end TableAccess.Client
