import TableAccess.Backend
import TableAccess.Value.Equality
import TableAccess.Text.Blank
import TableAccess.Collection.Callback
import TableAccess.Collection.Operation

/-! Collections: one table, what the collection is attached to, and the callbacks of its operations.
A hook slot holds at most one hook; setting it again replaces the hook. -/

namespace TableAccess

structure Collection (σ : Type) where
  table : String
  attachment : Attachment σ
  accessor? : Option (Table σ)
  toDb? : Option (Formatter σ)
  toJs? : Option (Formatter σ)
  pre : Operation → Option (Hook σ)
  post : Operation → Option (Hook σ)

/-- The two moments of an operation at which a hook can run. -/
inductive Side where
  | pre
  | post
  deriving DecidableEq, Repr

namespace Collection

variable {σ : Type}

/-- A collection without connection and callbacks. -/
def bare (table : String) : Collection σ :=
  ⟨table, .nothing, none, none, none, fun _ => none, fun _ => none⟩

/-- The name of a table: a text that is not blank. -/
def tableName (v : Value) : Except Failure String :=
  match v.text? with
  | some s => if s.toList.all Text.isBlank then .error (.invalidFormat "table_name") else .ok s
  | none =>
    if v.isNull then .error (.refused (.missingArgument (.text "table_name")))
    else .error (.invalidFormat "table_name")

/-- Attaches a collection, then asks for the accessor of its table. When that is refused, the
collection keeps the accessor it had. -/
def attach (c : Collection σ) (attachment : Attachment σ) :
    StateM σ (Collection σ × Option Failure) := do
  let c := { c with attachment := attachment }
  match attachment with
  | .connection k =>
    match ← k.table c.table with
    | .ok t => return ({ c with accessor? := some t }, none)
    | .error e => return (c, some e)
  | _ => return (c, some .noMember)

def isConnected (c : Collection σ) : Bool := !(c.attachment matches .nothing)

def toText (c : Collection σ) : String :=
  "<TableCollection " ++ c.table ++ " connected=" ++ (Value.bool c.isConnected).toText ++ ">"

/-- Something passed as a callback; what is none is refused. -/
def callback (candidate : Option (Callback σ)) : Except Failure (Callback σ) :=
  match candidate with
  | some f => .ok f
  | none => .error (.invalidFormat "callback")

def setDbFormat (c : Collection σ) (candidate : Option (Callback σ)) :
    Except Failure (Collection σ) := do
  return { c with toDb? := some (← callback candidate).formatter }

def setJsFormat (c : Collection σ) (candidate : Option (Callback σ)) :
    Except Failure (Collection σ) := do
  return { c with toJs? := some (← callback candidate).formatter }

/-- The operation that a hook is meant for. -/
def hookTarget (name : Value) : Except Failure Operation :=
  match name.text?.bind Operation.ofName? with
  | some op => .ok op
  | none => do
    name.hashed
    throw (.refused (.unknownHook name))

/-- Puts a hook into a slot. -/
def filled (slots : Operation → Option (Hook σ)) (op : Operation) (hook : Hook σ) :
    Operation → Option (Hook σ) :=
  fun o => if o = op then some hook else slots o

/-- Sets a hook; `self` is the collection as its plain functions see it. -/
def setHook (c : Collection σ) (self : Value) (side : Side) (name : Value)
    (candidate : Option (Callback σ)) : Except Failure (Collection σ) := do
  let op ← hookTarget name
  let hook := (← callback candidate).hook self
  match side with
  | .pre => return { c with pre := filled c.pre op hook }
  | .post => return { c with post := filled c.post op hook }

end Collection

end TableAccess
