import TableAccess.Failure
import TableAccess.Statement.Raw

/-! Column specs, `name:type[:index[:nullable[:default]]]`, and the statement that creates a table
from them. `Column.parse` reads a spec, `Column.definition` writes it in SQL; a table always has a
serial `id` in front of the given columns. -/

namespace TableAccess

structure Column where
  name : String
  type : String
  unique : Bool
  notNull : Bool
  default? : Option String
  deriving DecidableEq, Repr

namespace Column

/-- Why a spec is refused. -/
inductive Fault where
  | format (spec : String)
  | index (word : String)
  | nullable (word : String)
  | missingDefault (column : String)
  deriving DecidableEq, Repr

def Fault.message : Fault → String
  | .format spec => "Bad column format : " ++ spec
  | .index word => "Bad index value : " ++ word
  | .nullable word => "Bad nullable value : " ++ word
  | .missingDefault column => "Missing default value for column " ++ column

/-- Short type names, in any case. -/
def expandType (type : String) : String :=
  match Text.lower type with
  | "int" => "integer"
  | "bool" => "boolean"
  | "timestampz" => "timestamp with time zone"
  | _ => type

def parseIndex (word : String) : Except Fault Bool :=
  match Text.lower word with
  | "unique" => .ok true
  | "noindex" => .ok false
  | _ => .error (.index word)

def parseNullable (word : String) : Except Fault Bool :=
  match Text.lower word with
  | "notnull" => .ok true
  | "null" => .ok false
  | _ => .error (.nullable word)

def parseDefault (column word : String) : Except Fault String :=
  if word.isEmpty then .error (.missingDefault column) else .ok word

def ofParts (spec : String) : List String → Except Fault Column
  | name :: type :: options => do
    if name.isEmpty || type.isEmpty then throw (.format spec)
    match options with
    | [] => return ⟨name, expandType type, false, false, none⟩
    | [index] => return ⟨name, expandType type, ← parseIndex index, false, none⟩
    | [index, nullable] =>
      return ⟨name, expandType type, ← parseIndex index, ← parseNullable nullable, none⟩
    | [index, nullable, word] =>
      return ⟨name, expandType type, ← parseIndex index, ← parseNullable nullable,
        some (← parseDefault name word)⟩
    | _ => throw (.format spec)
  | _ => .error (.format spec)

def parse (spec : String) : Except Fault Column :=
  ofParts spec ((Text.split ':' spec.toList).map String.ofList)

def definition (c : Column) : String :=
  c.name ++ " " ++ c.type ++ (if c.unique then " UNIQUE" else "") ++
    (if c.notNull then " NOT NULL" else "") ++
    match c.default? with
    | some word => " DEFAULT " ++ word
    | none => ""

def idDefinition : String := "id serial primary key"

def spec (v : Value) : Except Failure String :=
  match v.text?, v with
  | some s, _ =>
    match parse s with
    | .ok c => .ok c.definition
    | .error e => .error (.refused (.columnSpec [.text e.message]))
  | none, .bytes _ => .error .wrongType
  | none, _ => .error .noMember

def createText (table : String) (definitions : List String) : String :=
  "CREATE TABLE IF NOT EXISTS \"" ++ table ++ "\" ( " ++
    ", ".intercalate (idDefinition :: definitions) ++ " )"

def createTable (table columns : Value) : Except Failure String := do
  if !table.truthy then throw (.refused (.columnSpec [.text "Table name must be defined."]))
  if columns.text?.isSome then
    throw (.refused (.columnSpec [.text "Columns must be a sequence of column specs."]))
  if !columns.truthy then throw (.refused (.columnMissing [.text "Columns missing."]))
  return createText table.toText (← (← Statement.elements columns).mapM spec)

end Column

end TableAccess
