import TableAccess.Operator
import TableAccess.Value.Text
import TableAccess.Text.Split

/-! A comparison of one field with one value, and its two SQL forms. The written form has the
value in its text. The bound form has a marker in its place, and the value is sent apart
(`parameters`): a `Fragment` is a piece of text, a quoted name or a marker, which remembers the value
it was made for. -/

namespace TableAccess

/-- A piece of a statement with bound parameters. -/
inductive Fragment where
  | words (s : String)
  | name (parts : List String)
  | marker (value : Value)

namespace Fragment

def quotedName (part : String) : List Char := Text.sqlName part.toList

def chars : Fragment → List Char
  | .words s => s.toList
  | .name parts => Text.join ['.'] (parts.map quotedName)
  | .marker _ => ['%', 's']

/-- The value that a marker was made for. -/
def parameter? : Fragment → Option Value
  | .marker v => some v
  | _ => none

/-- A field with its dots as separators of name parts. -/
def field (f : String) : Fragment := .name ((Text.split '.' f.toList).map String.ofList)

def text (fs : List Fragment) : String := String.ofList (fs.flatMap chars)

def parameters (fs : List Fragment) : List Value := fs.filterMap parameter?

theorem parameters_append (fs gs : List Fragment) :
    parameters (fs ++ gs) = parameters fs ++ parameters gs := List.filterMap_append

end Fragment

structure Comparison where
  operator : Operator
  field : String
  value : Value

namespace Value

/-- The bare text of a value in a comparison: SQL words for truth values and null, JSON for a
mapping. -/
def bare : Value → List Char
  | .bool true => "true".toList
  | .bool false => "false".toList
  | .null => "null".toList
  | .map es => (Value.map es).toJson
  | v => v.chars

/-- The bare text as an SQL string constant. -/
def constant (v : Value) : List Char := Text.sqlString v.bare

/-- Removes one bracket at each end of a text that has both. -/
def dropBrackets (cs : List Char) : List Char :=
  if cs.head? = some '[' ∧ cs.getLast? = some ']' then (cs.drop 1).dropLast else cs

/-- JSON items in parentheses. -/
def members (v : Value) : List Char :=
  '(' :: dropBrackets v.toJson ++ [')']

def isEmptySequence (v : Value) : Bool :=
  match v.items? with
  | some xs => xs.isEmpty
  | none => false

end Value

namespace Comparison

def ofEntry (entry : String × Value) : Comparison :=
  let (op, field) := Operator.resolve entry.1 entry.2
  ⟨op, field, entry.2⟩

/-- Membership, decided at once when the sequence is empty. -/
def membership (negated : Bool) (field : List Char) (v : Value) : List Char :=
  if v.isEmptySequence then (if negated then "TRUE" else "FALSE").toList
  else field ++ (if negated then " NOT IN " else " IN ").toList ++ v.members

/-- Two texts compared in small letters. -/
def folded (field : List Char) (operator : String) (v : Value) : List Char :=
  "LOWER(".toList ++ field ++ ") ".toList ++ operator.toList ++ " LOWER(".toList ++ v.constant ++
    [')']

/-- The comparison with its value in the text. -/
def written (c : Comparison) : List Char :=
  let f := c.field.toList
  let v := c.value
  match c.operator with
  | .gt => f ++ " > ".toList ++ v.bare
  | .lt => f ++ " < ".toList ++ v.bare
  | .lte => f ++ " <= ".toList ++ v.bare
  | .gte => f ++ " >= ".toList ++ v.bare
  | .notIn => membership true f v
  | .isNot => f ++ " NOT ".toList ++ v.toJson
  | .isIn => membership false f v
  | .like => f ++ " LIKE ".toList ++ v.constant
  | .notLike => f ++ " NOT LIKE ".toList ++ v.constant
  | .ilike => folded f "LIKE" v
  | .notIlike => folded f "NOT LIKE" v
  | .similarTo => f ++ " SIMILAR TO ".toList ++ v.constant
  | .notSimilarTo => f ++ " NOT SIMILAR TO ".toList ++ v.constant
  | .eq => if v.isNull then f ++ " IS NULL".toList else f ++ " = ".toList ++ v.constant

/-- A field, an operator between blanks, and a marker. -/
def simple (c : Comparison) (operator : String) (v : Value) : List Fragment :=
  [.field c.field, .words operator, .marker v]

def boundMembership (c : Comparison) (negated : Bool) : List Fragment :=
  match c.value.items? with
  | some [] => [.words (if negated then "TRUE" else "FALSE")]
  | some xs => c.simple (if negated then " NOT IN " else " IN ") (.tuple xs)
  | none => c.simple (if negated then " NOT IN " else " IN ") (.tuple [c.value])

def boundFolded (c : Comparison) (operator : String) : List Fragment :=
  [.words "LOWER(", .field c.field, .words operator, .marker c.value, .words ")"]

/-- The comparison with a marker for its value. Under equality a mapping is sent as JSON. -/
def bound (c : Comparison) : List Fragment :=
  match c.operator with
  | .gt => c.simple " > " c.value
  | .lt => c.simple " < " c.value
  | .lte => c.simple " <= " c.value
  | .gte => c.simple " >= " c.value
  | .notIn => c.boundMembership true
  | .isNot => c.simple " IS DISTINCT FROM " c.value
  | .isIn => c.boundMembership false
  | .like => c.simple " LIKE " c.value
  | .notLike => c.simple " NOT LIKE " c.value
  | .ilike => c.boundFolded ") LIKE LOWER("
  | .notIlike => c.boundFolded ") NOT LIKE LOWER("
  | .similarTo => c.simple " SIMILAR TO " c.value
  | .notSimilarTo => c.simple " NOT SIMILAR TO " c.value
  | .eq =>
    match c.value with
    | .null => [.field c.field, .words " IS NULL"]
    | .map es => c.simple " = " (.json (.map es))
    | v => c.simple " = " v

def membershipParameters (c : Comparison) : List Value :=
  match c.value.items? with
  | some [] => []
  | some xs => [.tuple xs]
  | none => [.tuple [c.value]]

/-- The values that are sent with the bound comparison. -/
def parameters (c : Comparison) : List Value :=
  match c.operator with
  | .notIn | .isIn => c.membershipParameters
  | .eq =>
    match c.value with
    | .null => []
    | .map es => [.json (.map es)]
    | v => [v]
  | _ => [c.value]

end Comparison

end TableAccess
