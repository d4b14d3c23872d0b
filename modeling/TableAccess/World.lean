import TableAccess.Act
import TableAccess.Rehearsal.Script
import TableAccess.Value.Equality

/-! What lies outside the collections: the pools of connections, what is planned for them, and the
journal of everything that happened. A step that touches a pool is entered in the journal first and
fails afterwards if a fault is planned for it, so a failing step is in the journal too. Writing a
statement out for a connection and fetching its rows can fail as well, but leave no entry. -/

namespace TableAccess

/-- Where a pool or one of its connections can fail. -/
inductive Site where
  | pool | acquire | render | send | fetch | commit | rollback | release | closeAll
  deriving DecidableEq, Repr

/-- An entry of the journal. Steps on a pool carry the number of its client. -/
inductive Event where
  | pool (smallest largest : Value) (settings : Entries)
  | acquire (client : Nat)
  | send (client : Nat) (statement : String) (parameters : List Value)
  | commit (client : Nat)
  | rollback (client : Nat)
  | release (client : Nat)
  | closeAll (client : Nat)
  /-- A call of a rehearsed database. -/
  | asked (verb : String) (arguments : List Value)
  | called (callback : String) (arguments : List Value)
  | resumed (callback : String)

structure Fault where
  site : Site
  failure : Failure

/-- The answer to one statement. Without columns the statement has no result set; a client may be
closed, or the statement fail, before the answer is there. -/
structure Response where
  columns? : Option (List String)
  rows : List (List Value)
  closes? : Option Nat
  failure? : Option Failure

def Response.nothing : Response := ⟨none, [], none, none⟩

/-- A client of a pool: what its text shows of its settings, and whether it is closed. The key is
there for clients of the cache. -/
structure Client where
  database : Value
  user : Value
  host : Value
  port : Value
  key? : Option Value
  closed : Bool

/-- A backend over some value: the clients that it sends statements to and that it closes, if the
value has such, and the names of the accessors that it has given out. -/
structure Backend where
  source : Value
  client? : Option Nat
  closes? : Option Nat
  tables : List Value

/-- An answer of a rehearsed database. -/
abbrev Rehearsed := Except Failure Value

structure World where
  journal : List Event
  faults : List Fault
  responses : List Response
  clients : List Client
  cache : List (Value × Nat)
  backends : List Backend
  rehearsals : List (List Rehearsed)
  /-- Calls of callbacks that nobody waited for, by the numbers of the objects that stand for them,
  until somebody does. -/
  left : List (Nat × Option Rehearsal.Run)

namespace World

def empty : World := ⟨[], [], [], [], [], [], [], []⟩

/-- Enters a step in the journal. -/
def record (e : Event) : Act World Unit :=
  modify fun w => { w with journal := w.journal ++ [e] }

/-- The first fault planned for a place, and the faults without it. -/
def pick (site : Site) : List Fault → Option (Failure × List Fault)
  | [] => none
  | f :: fs =>
    if f.site = site then some (f.failure, fs)
    else (pick site fs).map fun (e, rest) => (e, f :: rest)

/-- Fails if a fault is planned for this place; each fault strikes once. -/
def strike (site : Site) : Act World Unit := do
  match pick site (← get).faults with
  | none => return
  | some (e, rest) =>
    modify fun w => { w with faults := rest }
    throw e

/-- A step on a pool: entered in the journal, then open to faults. -/
def step (e : Event) (site : Site) : Act World Unit := do
  record e
  strike site

/-- The next response; once they are used up statements have no result set. -/
def respond : Act World Response := do
  match (← get).responses with
  | [] => return .nothing
  | r :: rest =>
    modify fun w => { w with responses := rest }
    return r

end World

end TableAccess
