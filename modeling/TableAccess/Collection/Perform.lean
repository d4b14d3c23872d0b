import TableAccess.Collection.Request
import TableAccess.Route
import TableAccess.Settings

/-! Performing accepted requests. Every operation has the same course: the pre-hook, its calls to
the database in a fixed order, the formatter on every row that is not null, the post-hook. The
first step that fails ends it. Hooks, connection and row formatter are those that the collection
has when the request is performed, and arguments are read anew for every call to the database. -/

namespace TableAccess.Collection

open Statement

variable {σ : Type}

/-- What the database answers. -/
def ask (step : Act σ Value) : Act (Stage σ) Value := do Stage.read (← Stage.outward step)

/-- Executes a statement; whether there is a connection is settled before what the statement is. -/
def execute (c : Collection σ) (statement : Except Failure String) : Act (Stage σ) Value :=
  match c.attachment with
  | .connection k => do ask (k.execute (← Act.settle statement))
  | _ => throw .noMember

def accessor (c : Collection σ) : Act (Stage σ) (Table σ) :=
  match c.accessor? with
  | some t => pure t
  | none => throw .noMember

/-! ### Hooks -/

/-- Runs a hook, if there is one, and waits for its value. -/
def runHook (hook? : Option (Hook σ)) (arguments : List Value) : Act (Stage σ) Value :=
  match hook? with
  | none => pure .null
  | some hook => do (← hook arguments).wait

/-- The pre-hook of an operation without payload; its value is not used. -/
def announce (c : Collection σ) (op : Operation) : Act (Stage σ) Unit := do
  let _ ← runHook (c.pre op) []

/-- The pre-hook of an operation with a payload, which it may edit or replace. -/
def prepare (c : Collection σ) (op : Operation) (payload : Value) : Act (Stage σ) Value := do
  return (← runHook (c.pre op) [payload]).orElse payload

/-- The post-hook, which sees the result and may edit it in place. -/
def conclude (c : Collection σ) (op : Operation) (result : Value) : Act (Stage σ) Value := do
  let _ ← runHook (c.post op) [result]
  return result

/-! ### Rows -/

/-- The first of several rows, null for none; a single row is itself. -/
def firstRow (result : Value) : Value :=
  match result.items? with
  | some rows => rows.headD .null
  | none => result

/-- Formats every row of a list. Other results that can be walked over take no formatted row back:
a mapping notices that it would grow, all others cannot be changed. -/
def formatRows (c : Collection σ) (rows : Value) : Act (Stage σ) Value :=
  match c.toJs?, rows with
  | none, rows => Stage.place rows
  | some f, .list xs => do
    Stage.store (.list (← xs.mapM fun row => do Formatter.apply (some f) (← Stage.place row)))
  | some f, rows =>
    match rows.elements? with
    | none => throw .wrongType
    | some [] => Stage.place rows
    | some (x :: _) => do
      let _ ← Formatter.apply (some f) (← Stage.place x)
      throw (if rows.isMap then .rowsChanged else .wrongType)

/-- The identifier of a row. -/
def rowId (row : Value) : Except Failure Value :=
  match row with
  | .map es =>
    match Entries.get? es "id" with
    | some id => .ok id
    | none => .error (.noKey "id")
  | _ => .error .wrongType

def rowIds (rows : Value) : Except Failure (List Value) := do (← elements rows).mapM rowId

/-! ### Counting -/

/-- Whether a row names its count. -/
def hasCount (row : Value) : Except Failure Bool :=
  match row with
  | .map es => .ok (Entries.has es "count")
  | .text s => .ok (Text.occurs "count".toList s.toList)
  | .ragged t => .ok (Text.occurs "count".toList t.shown)
  | .bytes _ => .error .wrongType
  | row =>
    match row.items? with
    | some xs => .ok (xs.any fun x => x.same (.text "count"))
    | none => .error .wrongType

/-- The number in the answer to a count. -/
def countOf (table : String) (result : Value) : Except Failure Int := do
  match result.items? with
  | none =>
    throw (.general ("Unexpected count result for " ++ table ++ ": " ++ result.toLiteral))
  | some rows =>
    let first := rows.headD (.map [])
    if !(← hasCount first) then
      let text := "count is missing from the result for " ++ table ++ "."
      throw (.refused (.countMissing [.text text]))
    match first with
    | .map es => Settings.wholeNumber (Entries.get es "count")
    | _ => throw .wrongType

/-! ### Operations -/

/-- One row from the database, formatted and shown to the post-hook. -/
def finishRow (c : Collection σ) (op : Operation) (row : Value) : Act (Stage σ) Value := do
  c.conclude op (← Formatter.apply c.toJs? (← Stage.place row))

/-- Rows from the database, formatted and shown to the post-hook. -/
def finishRows (c : Collection σ) (op : Operation) (rows : Value) : Act (Stage σ) Value := do
  c.conclude op (← c.formatRows rows)

def performGet (c : Collection σ) (id : Value) : Act (Stage σ) Value := do
  c.announce .get
  c.finishRow .get (← ask ((← c.accessor).findOne id))

def performInsert (c : Collection σ) (data : Value) : Act (Stage σ) Value := do
  let data ← c.prepare .insert data
  c.finishRow .insert (← ask ((← c.accessor).insert (← Stage.read data)))

def performUpdate (c : Collection σ) (id data : Value) : Act (Stage σ) Value := do
  let data ← c.prepare .update data
  c.finishRow .update (firstRow (← ask ((← c.accessor).updateById id (← Stage.read data))))

def performRemove (c : Collection σ) (id : Value) : Act (Stage σ) Value := do
  c.announce .remove
  c.finishRow .remove (firstRow (← ask ((← c.accessor).destroyById id)))

/-- Nothing was selected: the post-hook sees an empty list of its own. -/
def concludeEmpty (c : Collection σ) (op : Operation) : Act (Stage σ) Value := do
  let _ ← c.conclude op (← Stage.store (.list []))
  Stage.store (.list [])

/-- Updates the rows of the same conditions, and reads the selected ones again. -/
def updateSelected (c : Collection σ) (conditions data candidates : Value) :
    Act (Stage σ) Value := do
  let ids ← Act.settle (rowIds candidates)
  if ids.isEmpty then c.concludeEmpty .updateAll
  else
    let statement := Raw.update c.table (← Stage.read data) (← Stage.read conditions)
    let _ ← c.execute (.ok (← Act.settle statement))
    c.finishRows .updateAll (← c.execute (.ok (Raw.selectIds c.table ids)))

/-- Selects, updates the same rows, and reads them again by their identifiers. -/
def performUpdateAll (c : Collection σ) (conditions data : Value) : Act (Stage σ) Value := do
  let data ← c.prepare .updateAll data
  c.updateSelected conditions data
    (← c.execute (Raw.select c.table (← Stage.read conditions) .null))

/-- Deletes the selected rows by their identifiers. -/
def removeSelected (c : Collection σ) (snapshot : Value) : Act (Stage σ) Value := do
  if !snapshot.truthy then c.concludeEmpty .removeAll
  else
    let ids ← Act.settle (rowIds snapshot)
    let _ ← c.execute (.ok (Raw.deleteIds c.table ids))
    c.finishRows .removeAll (.list (← Act.settle (elements snapshot)))

/-- Selects, then deletes the selected rows by their identifiers. -/
def performRemoveAll (c : Collection σ) (conditions : Value) : Act (Stage σ) Value := do
  let conditions ← c.prepare .removeAll conditions
  c.removeSelected (← c.execute (Raw.select c.table (← Stage.read conditions) .null))

/-- The sequence is restarted after the post-hook. -/
def performFlush (c : Collection σ) (resetSequence : Value) : Act (Stage σ) Value := do
  c.announce .flush
  let _ ← c.execute (.ok (Raw.truncate c.table))
  let _ ← runHook (c.post .flush) []
  if (← Stage.look resetSequence).truthy then
    let _ ← c.execute (.ok (Raw.sequenceRestart c.table))
  return .null

def performCount (c : Collection σ) (conditions : Value) : Act (Stage σ) Value := do
  c.announce .count
  let result ← c.execute (Raw.count c.table (← Stage.read conditions))
  let n ← Act.settle (countOf c.table result)
  c.conclude .count (.int n)

/-- Sends a search on the way that its keys ask for. -/
def search (table : String) (execute : String → Act σ Value)
    (find : Value → Value → Act σ Value) (conditions options : Value) : Act σ Value := do
  if ← Act.settle (Route.needsRaw conditions options) then
    execute (← Act.settle (Raw.select table conditions options))
  else find conditions options

def performFind (c : Collection σ) (conditions options : Value) : Act (Stage σ) Value := do
  c.announce .find
  let find (conditions options : Value) : Act (Stage σ) Value := do
    ask ((← c.accessor).find conditions options)
  let execute (statement : String) : Act (Stage σ) Value := c.execute (.ok statement)
  c.finishRows .find
    (← search c.table execute find (← Stage.read conditions) (← Stage.read options))

def perform (c : Collection σ) (p : Pending) : Act (Stage σ) Value :=
  match p.request with
  | .get id => c.performGet id
  | .count conditions => c.performCount conditions
  | .flush resetSequence => c.performFlush resetSequence
  | .insert data => c.performInsert data
  | .update id data => c.performUpdate id data
  | .updateAll conditions data => c.performUpdateAll conditions data
  | .remove id => c.performRemove id
  | .removeAll conditions => c.performRemoveAll conditions
  | .find conditions options => c.performFind conditions options

/-- What becomes of an accepted request for whoever waits for it. -/
def awaited (c : Collection σ) (p : Pending) : Act (Stage σ) Value := Act.awaited (c.perform p)

end TableAccess.Collection
