import TableAccess.Number.Binary
import TableAccess.Number.Decimal
import TableAccess.Calendar
import TableAccess.Text.Ragged

/-! Values that callers and databases exchange. Mappings keep the order of their entries; `put`
and `erase` keep the order of all other entries. A list, a mapping or an object that can be met in
several places is a reference to a memory; every function below sees it only once it has been
read from there. A text with a half of a surrogate pair on its own is a value of its own kind
(`ragged`); keys of mappings and names are lines of characters. -/

namespace TableAccess

open Number

/-- Whether an object has a method by which others would look up a key in it. -/
inductive ObjectKind where
  | client
  | collection
  | other
  deriving DecidableEq, Repr

/-- The family of a failure raised outside the library. `stop` is the failure by which an iterator
says that it has come to its end. -/
inductive Outside where
  | value | runtime | key | type | lookup | system | stop
  deriving DecidableEq, Repr

/-- An object as others see it: its number, its text, whether it counts as given, and the failure of
whoever asks for its hash, if it has none. -/
structure Object where
  number : Nat
  kind : ObjectKind
  text : String
  given : Bool
  unhashed? : Option (Outside × String)
  deriving Repr

inductive Value where
  | null
  | bool (b : Bool)
  | int (n : Int)
  | float (x : Binary)
  | decimal (x : Decimal)
  | fraction (q : Rat)
  | text (s : String)
  | ragged (t : Text.Ragged)
  | bytes (bs : List UInt8)
  | date (d : Date)
  | time (c : Clock)
  | moment (m : Moment)
  | list (items : List Value)
  | tuple (items : List Value)
  | map (entries : List (String × Value))
  /-- A document that is sent to the database as JSON. -/
  | json (document : Value)
  | object (o : Object)
  /-- What a memory holds under a number. -/
  | reference (number : Nat)
  deriving Inhabited

/-- The entries of a mapping, in order. -/
abbrev Entries := List (String × Value)

namespace Entries

def get? (entries : Entries) (key : String) : Option Value :=
  (entries.find? fun e => e.1 == key).map (·.2)

/-- The value under a key, or null. -/
def get (entries : Entries) (key : String) : Value := (get? entries key).getD .null

def has (entries : Entries) (key : String) : Bool := entries.any fun e => e.1 == key

/-- Replaces the value in place, or appends the entry. -/
def put (entries : Entries) (key : String) (value : Value) : Entries :=
  match entries with
  | [] => [(key, value)]
  | (k, v) :: rest => if k = key then (k, value) :: rest else (k, v) :: put rest key value

def erase (entries : Entries) (key : String) : Entries := entries.filter fun e => e.1 != key

def keys (entries : Entries) : List String := entries.map (·.1)

theorem keys_put (entries : Entries) (key : String) (value : Value) :
    (put entries key value).keys =
      if key ∈ entries.keys then entries.keys else entries.keys ++ [key] := by
  induction entries with
  | nil => simp [put, keys]
  | cons e rest ih =>
    obtain ⟨k, v⟩ := e
    simp only [keys] at ih
    by_cases h : k = key
    · simp [put, keys, h]
    · have h' : ¬ key = k := fun e => h e.symm
      by_cases hm : key ∈ rest.map (·.1)
      · simp only [hm, if_true] at ih
        simp only [put, keys, h, if_false, List.map_cons, ih, List.mem_cons, h', false_or, hm,
          if_true]
      · simp only [hm, if_false] at ih
        simp only [put, keys, h, if_false, List.map_cons, ih, List.mem_cons, h', false_or, hm,
          List.cons_append]

theorem get?_put (entries : Entries) (key other : String) (value : Value) :
    get? (put entries key value) other =
      if other = key then some value else get? entries other := by
  induction entries with
  | nil =>
    by_cases h : other = key
    · simp [put, get?, h]
    · have hk : (key == other) = false := by simp [Ne.symm h]
      simp [put, get?, h, hk]
  | cons e rest ih =>
    obtain ⟨k, v⟩ := e
    simp only [get?] at ih
    by_cases hk : k = key
    · subst hk
      by_cases h : other = k
      · simp [put, get?, h]
      · have hb : (k == other) = false := by simp [Ne.symm h]
        simp [put, get?, h, hb]
    · by_cases ho : k = other
      · subst ho
        simp [put, get?, hk]
      · have hb : (k == other) = false := by simp [ho]
        simpa [put, get?, hk, hb] using ih

end Entries

namespace Value

def ofNat (n : Nat) : Value := .int n

def isNull : Value → Bool
  | .null => true
  | _ => false

/-- The value itself, or another one in the place of null. -/
def orElse (v other : Value) : Value := if v.isNull then other else v

/-- Lists and tuples. -/
def items? : Value → Option (List Value)
  | .list xs => some xs
  | .tuple xs => some xs
  | _ => none

def isSequence (v : Value) : Bool := v.items?.isSome

def entries? : Value → Option Entries
  | .map es => some es
  | _ => none

def isMap (v : Value) : Bool := v.entries?.isSome

/-- The text of a value that is one. Where a text becomes a name or a statement, a half of a surrogate
pair in it counts as U+FFFD. -/
def text? : Value → Option String
  | .text s => some s
  | .ragged t => some (String.ofList t.shown)
  | _ => none

@[simp]
theorem text?_text (s : String) : (text s).text? = some s := rfl

/-- Whether a value counts as given: null, false, zero and everything empty do not, and of an object
that is its own affair. -/
def truthy : Value → Bool
  | .null => false
  | .bool b => b
  | .int n => n != 0
  | .float x => !x.isZero
  | .decimal x => !x.isZero
  | .fraction q => q.num != 0
  | .text s => !s.isEmpty
  | .bytes bs => !bs.isEmpty
  | .list xs => !xs.isEmpty
  | .tuple xs => !xs.isEmpty
  | .map es => !es.isEmpty
  | .object o => o.given
  | _ => true

/-- The text at one place of a text. -/
def ofPoint : Text.Point → Value
  | .char c => .text c.toString
  | .half n => .ragged (.single n)

/-- What a walk over the value meets: items, characters, bytes or keys. -/
def elements? : Value → Option (List Value)
  | .list xs => some xs
  | .tuple xs => some xs
  | .text s => some (s.toList.map fun c => .text c.toString)
  | .ragged t => some (t.points.map ofPoint)
  | .bytes bs => some (bs.map fun b => .int b.toNat)
  | .map es => some (es.map fun e => .text e.1)
  | _ => none

/-- A row identifier: any real number but a truth value, and no decimal number is one. -/
def isReal : Value → Bool
  | .int _ => true
  | .float _ => true
  | .fraction _ => true
  | _ => false

end Value

end TableAccess
