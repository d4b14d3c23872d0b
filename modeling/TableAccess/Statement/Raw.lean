import TableAccess.Predicate

/-! Statements with every value in their text: what a collection sends for searches on JSON paths,
counts and changes of many rows. Names are taken over as they are. -/

namespace TableAccess.Statement

/-- A value that is set by an update. -/
def literal : Value → List Char
  | .null => "NULL".toList
  | .bool b => (if b then "'true'" else "'false'").toList
  | .int n => Number.wholeText n
  | .float x => x.toText
  | .decimal x => x.toText
  | .fraction q => Value.fractionText q
  | .moment m => Text.sqlString (m.toText ' ')
  | .date d => Text.sqlString d.toText
  | .list xs => Text.sqlString (Value.list xs).toJson
  | .tuple xs => Text.sqlString (Value.tuple xs).toJson
  | .map es => Text.sqlString (Value.map es).toJson
  | v => Text.sqlString v.chars

/-- Where the values under keys can be looked up. An object may take the key for something else: a
collection for the identifier of a row, a client for its settings. -/
def keyed (v : Value) : Except Failure Entries :=
  match v with
  | .map es => .ok es
  | .object ⟨_, .collection, _, _, _⟩ => .error (.invalidFormat "id")
  | .object ⟨_, .client, _, _, _⟩ => .error .wrongType
  | _ => .error .noMember

/-- The options of a request; what does not count as given has none. -/
def optionEntries (options : Value) : Except Failure Entries :=
  if options.truthy then keyed options else .ok []

/-- What a walk over a value meets, for values that can be walked over. -/
def elements (v : Value) : Except Failure (List Value) :=
  match v.elements? with
  | some xs => .ok xs
  | none => .error .wrongType

def entries (v : Value) : Except Failure Entries :=
  match v with
  | .map es => .ok es
  | _ => .error .noMember

def texts (vs : List Value) : Except Failure (List String) :=
  vs.mapM fun v => match v.text? with
    | some s => .ok s
    | none => .error .wrongType

/-- ASC or DESC in any case, ASC when nothing is given. -/
def direction? (item : Entries) : Option String :=
  let given := item.get "direction"
  let word := Text.upper (if given.truthy then given.toText else "ASC")
  if word = "ASC" ∨ word = "DESC" then some word else none

/-- A whole number that is not negative, for a limit or an offset. -/
def count? (v : Value) : Option Nat :=
  match v with
  | .int n => if 0 ≤ n then some n.toNat else none
  | _ => none

namespace Raw

def orderItem (item : Value) : Except Failure String := do
  let item ← keyed item
  let field := item.get "field"
  if !field.truthy then throw (.invalidFormat "order.field")
  match direction? item with
  | none => throw (.invalidFormat "order.direction")
  | some direction =>
    let kind := item.get "type"
    let field :=
      if kind.isNull then field.toText else "(" ++ field.toText ++ ")::" ++ kind.toText
    return field ++ " " ++ direction

def order (v : Value) : Except Failure String := do
  return ", ".intercalate (← (← elements v).mapM orderItem)

/-- A paging clause, absent when its option is. A number has no limit to its digits here. -/
def paging (keyword option : String) (options : Entries) : Except Failure String :=
  let v := options.get option
  if v.isNull then .ok ""
  else match count? v with
    | some n => .ok (" " ++ keyword ++ " " ++ String.ofList (Nat.toDigits 10 n))
    | none => .error (.invalidFormat option)

def columns (v : Value) : Except Failure String := do
  if !v.truthy then return "*"
  return ", ".intercalate (← texts (← elements v))

def ordering (options : Entries) : Except Failure String := do
  let v := options.get "order"
  if !v.truthy then return ""
  return " ORDER BY " ++ (← order v)

def whereClause (conditions : Value) : Except Failure String := do
  return (← Condition.ofValue conditions).clause

def select (table : String) (conditions options : Value) : Except Failure String := do
  let options ← optionEntries options
  let columns ← columns (options.get "columns")
  let condition ← whereClause conditions
  let ordering ← ordering options
  let limit ← paging "LIMIT" "limit" options
  let offset ← paging "OFFSET" "offset" options
  return "SELECT " ++ columns ++ " FROM " ++ table ++ condition ++ ordering ++ limit ++ offset

def count (table : String) (conditions : Value) : Except Failure String := do
  return "SELECT count(id) FROM " ++ table ++ (← whereClause conditions)

def assignment (e : String × Value) : String := e.1 ++ " = " ++ String.ofList (literal e.2)

def update (table : String) (data conditions : Value) : Except Failure String := do
  let data ← entries data
  let condition ← whereClause conditions
  return "UPDATE " ++ table ++ " SET " ++ ", ".intercalate (data.map assignment) ++ condition

def idList (ids : List Value) : String := ",".intercalate (ids.map Value.toText)

def selectIds (table : String) (ids : List Value) : String :=
  "SELECT * FROM " ++ table ++ " WHERE id IN (" ++ idList ids ++ ")"

def deleteIds (table : String) (ids : List Value) : String :=
  "DELETE FROM " ++ table ++ " WHERE id IN (" ++ idList ids ++ ")"

def truncate (table : String) : String := "TRUNCATE " ++ table

def sequenceRestart (table : String) : String := "ALTER SEQUENCE " ++ table ++ "_id_seq RESTART"

end Raw

end TableAccess.Statement
