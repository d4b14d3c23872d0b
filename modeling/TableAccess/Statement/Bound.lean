import TableAccess.Statement.Raw

/-! Structured statements: names are quoted and every value has a marker in the text. The values
are sent apart from the text, as the parameters of the statement (`Prepared`); they are collected on a
way of their own, and a driver puts the first of them for the first marker, and so on. -/

namespace TableAccess.Statement

namespace Bound

/-- Pieces with a text between neighbours. -/
def joined (sep : String) : List (List Fragment) → List Fragment
  | [] => []
  | [part] => part
  | part :: parts => part ++ .words sep :: joined sep parts

def isQuote (c : Char) : Bool := c == '"'

/-- A table name, qualified by what stands before its first dot; quotes around either part are
taken off before it is quoted again. -/
def table (v : Value) : Fragment :=
  let name := Text.trim v.chars
  let unquoted (part : List Char) : String := String.ofList (Text.trimBy isQuote part)
  match Text.cut '.' name with
  | (schema, some rest) => .name [unquoted schema, unquoted rest]
  | (name, none) => .name [unquoted name]

/-- A document goes to the database as JSON. -/
def adapted : Value → Value
  | .map es => .json (.map es)
  | v => v

def orderItem (item : Value) : Except Failure (List Fragment) := do
  let item ← keyed item
  match direction? item with
  | none => throw .orderDirection
  | some direction =>
    match item.get? "field" with
    | none => throw (.noKey "field")
    | some field =>
      let field := Fragment.field field.toText
      let kind := item.get "type"
      let field :=
        if kind.isNull then [field] else [.words "(", field, .words ")::", .words kind.toText]
      return field ++ [.words " ", .words direction]

def columns (v : Value) : Except Failure (List Fragment) := do
  if !v.truthy then return [.words "*"]
  let names ← texts (← elements v)
  return joined ", " (names.map fun n => [.name [n]])

def ordering (options : Entries) : Except Failure (List Fragment) := do
  let v := options.get "order"
  if !v.truthy then return []
  return .words " ORDER BY " :: joined ", " (← (← elements v).mapM orderItem)

/-- A paging clause, absent when its option is. -/
def paging (keyword option : String) (options : Entries) : Except Failure (List Fragment) :=
  let v := options.get option
  if v.isNull then .ok []
  else match count? v with
    | some _ => .ok [.words keyword, .marker v]
    | none => .error (.notNonNegative option)

def condition (conditions : Value) : Except Failure (List Fragment) := do
  match (← Condition.ofValue conditions).boundFragments? with
  | some predicate => return .words " WHERE " :: predicate
  | none => return []

def find (tableName conditions options : Value) : Except Failure (List Fragment) := do
  let options ← optionEntries options
  let columns ← columns (options.get "columns")
  let condition ← condition conditions
  let ordering ← ordering options
  let limit ← paging " LIMIT " "limit" options
  let offset ← paging " OFFSET " "offset" options
  return .words "SELECT " :: columns ++ [.words " FROM ", table tableName] ++ condition ++
    ordering ++ limit ++ offset

def byId (id : Value) : List Fragment :=
  [.words " WHERE ", .name ["id"], .words " = ", .marker id]

def findOne (tableName id : Value) : List Fragment :=
  [.words "SELECT * FROM ", table tableName] ++ byId id

def insert (tableName data : Value) : Except Failure (List Fragment) := do
  if !data.truthy then throw .emptyRow
  let data ← entries data
  return [.words "INSERT INTO ", table tableName, .words " ("] ++
    joined ", " (data.map fun e => [.name [e.1]]) ++ [.words ") VALUES ("] ++
    joined ", " (data.map fun e => [.marker (adapted e.2)]) ++ [.words ") RETURNING *"]

def updateById (tableName id data : Value) : Except Failure (List Fragment) := do
  if !data.truthy then throw .emptyUpdates
  let data ← entries data
  return [.words "UPDATE ", table tableName, .words " SET "] ++
    joined ", " (data.map fun e => [.name [e.1], .words " = ", .marker (adapted e.2)]) ++
    byId id ++ [.words " RETURNING *"]

def deleteById (tableName id : Value) : List Fragment :=
  [.words "DELETE FROM ", table tableName] ++ byId id ++ [.words " RETURNING *"]

end Bound

/-- A statement to send: the pieces of its text, and its parameters. -/
structure Prepared where
  pieces : List Fragment
  parameters : List Value

namespace Prepared

/-- The parameter of a paging clause, if it is there. -/
def paging (option : String) (options : Entries) : List Value :=
  let v := options.get option
  if v.isNull then [] else [v]

def find (tableName conditions options : Value) : Except Failure Prepared := do
  let pieces ← Bound.find tableName conditions options
  let condition ← Condition.ofValue conditions
  let options ← optionEntries options
  return ⟨pieces, condition.parameters ++ paging "limit" options ++ paging "offset" options⟩

def findOne (tableName id : Value) : Prepared := ⟨Bound.findOne tableName id, [id]⟩

def insert (tableName data : Value) : Except Failure Prepared := do
  let pieces ← Bound.insert tableName data
  let data ← entries data
  return ⟨pieces, data.map fun e => Bound.adapted e.2⟩

def updateById (tableName id data : Value) : Except Failure Prepared := do
  let pieces ← Bound.updateById tableName id data
  let data ← entries data
  return ⟨pieces, data.map (fun e => Bound.adapted e.2) ++ [id]⟩

def deleteById (tableName id : Value) : Prepared := ⟨Bound.deleteById tableName id, [id]⟩

end Prepared

end TableAccess.Statement
