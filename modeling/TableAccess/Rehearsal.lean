import TableAccess.World
import TableAccess.Backend
import TableAccess.Collection.Callback

/-! Rehearsals: databases and callbacks that follow a script, for running a program without a
database. Every call of a rehearsed database and every run of a rehearsed callback is entered in
the journal. -/

namespace TableAccess.Rehearsal

/-! ### Databases -/

/-- Makes a database that gives these answers, one per call, and null once they are used up. -/
def create (answers : List Rehearsed) : Act World Nat := do
  let id := (← get).rehearsals.length
  modify fun w => { w with rehearsals := w.rehearsals ++ [answers] }
  return id

/-- The next answer of a database. -/
def answer (id : Nat) : Act World Value := do
  match (← get).rehearsals[id]? with
  | some (a :: rest) =>
    modify fun w => { w with rehearsals := w.rehearsals.set id rest }
    Act.settle a
  | _ => return .null

def ask (id : Nat) (verb : String) (arguments : List Value) : Act World Value := do
  World.record (.asked verb arguments)
  answer id

def table (id : Nat) (name : String) : Table World where
  find conditions options := ask id "find" [.text name, conditions, options]
  findOne row := ask id "find_one" [.text name, row]
  insert data := ask id "insert" [.text name, data]
  updateById row data := ask id "update_by_id" [.text name, row, data]
  destroyById row := ask id "destroy_by_id" [.text name, row]

def connection (id : Nat) : Connection World where
  execute statement := ask id "execute" [.text statement]
  table name := do
    World.record (.asked "table" [.text name])
    return table id name

/-! ### Callbacks -/

namespace Deed

/-- The position that an index means in a list, counted from the end when negative. -/
def position? (index : Value) (length : Nat) : Option Nat :=
  let of (i : Int) : Option Nat :=
    if 0 ≤ i ∧ i < length then some i.toNat
    else if i < 0 ∧ -(length : Int) ≤ i then some (length + i).toNat
    else none
  match index with
  | .int i => of i
  | .bool b => of (if b then 1 else 0)
  | _ => none

def isIndex : Value → Bool
  | .int _ => true
  | .bool _ => true
  | _ => false

/-- A list or mapping with a value under a key. -/
def assign (key v : Value) (target : Value) : Except Failure Value :=
  match target, key with
  | .map es, .text k => .ok (.map (Entries.put es k v))
  | .list xs, key =>
    if !isIndex key then .error .wrongType
    else match position? key xs.length with
      | some i => .ok (.list (xs.set i v))
      | none => .error .noIndex
  | _, _ => .error .wrongType

/-- A mapping without a key that it has. -/
def remove (key : Value) (target : Value) : Except Failure Value :=
  match target, key with
  | .map es, .text k =>
    if Entries.has es k then .ok (.map (Entries.erase es k)) else .error (.noKey k)
  | .map _, key => do
    key.hashed
    throw (.noKey key.toText)
  | _, _ => .error .wrongType

/-- A mapping with an entry. -/
def merged (key v : Value) (target : Value) : Except Failure Value :=
  match target, key with
  | .map es, .text k => .ok (.map (Entries.put es k v))
  | _, _ => .error .wrongType

/-- A mapping without a key, whether it has the key or not. -/
def dropped (key : Value) (target : Value) : Except Failure Value :=
  match target, key with
  | .map es, .text k => .ok (.map (Entries.erase es k))
  | .map es, _ => .ok (.map es)
  | _, _ => .error .noMember

variable {σ : Type}

/-- The argument that a deed is done to. -/
def subject (arguments : List Value) : Act (Stage σ) Value :=
  match arguments.getLast? with
  | some v => pure v
  | none => throw .noIndex

/-- Changes the last argument, which everybody sees who holds it. -/
def edit (arguments : List Value) (f : Value → Except Failure Value) : Act (Stage σ) Value := do
  let target ← subject arguments
  let changed ← Act.settle (f (← Stage.look target))
  if let .reference n := target then Stage.put n changed
  return .null

/-- Gives back a changed copy of the last argument. -/
def copy (arguments : List Value) (f : Value → Except Failure Value) : Act (Stage σ) Value := do
  Stage.store (← Act.settle (f (← Stage.look (← subject arguments))))

def perform (d : Deed) (arguments : List Value) : Act (Stage σ) Value :=
  match d with
  | .nothing => pure .null
  | .give v => Stage.place v
  | .set key v => do edit arguments (assign key (← Stage.place v))
  | .delete key => edit arguments (remove key)
  | .merge key v => do copy arguments (merged key (← Stage.place v))
  | .drop key => copy arguments (dropped key)
  | .fail e => throw e

end Deed

namespace Run

/-- The course of a call, entered in the journal with the arguments as they are when it begins. -/
def perform (r : Run) : Act (Stage World) Value := do
  let shown ← r.arguments.mapM Stage.read
  Stage.outward (World.record (.called r.script.label shown))
  if r.script.waits then
    Stage.outward (World.record (.resumed r.script.label))
  r.script.deed.perform r.arguments

/-- Leaves a call that nobody waits for. -/
def leave (r : Run) : Act (Stage World) Value := do
  let n := (← get).memory.size
  Stage.outward (modify fun w => { w with left := w.left ++ [(n, some r)] })
  Stage.store (.object ⟨n, .other, "<unfinished>", true, none⟩)

/-- Waits for a call that was left, by the number of its object. That can be done once. -/
def resume (n : Nat) : Act (Stage World) Value := do
  match (← get).outside.left.find? fun e => e.1 == n with
  | none => throw .wrongType
  | some (_, none) => throw .awaitedTwice
  | some (_, some r) => do
    Stage.outward (modify fun w =>
      { w with left := w.left.map fun e => if e.1 = n then (n, none) else e })
    r.perform

end Run

def Script.callback (s : Script) : Callback World where
  plain := s.plain
  run arguments :=
    let r : Run := ⟨s, arguments⟩
    if s.waits then return .later r.perform r.leave else return .now (← r.perform)

end TableAccess.Rehearsal
