import TableAccess.Operator.Suffix
import TableAccess.Value

/-! Comparison operators and the keys that name them. A key is a field, optionally followed by a
suffix; the first operator of `Operator.table` with a matching suffix is meant. Without a suffix
a list or tuple is compared by membership and every other value by equality. -/

namespace TableAccess

inductive Operator where
  | gt | lt | lte | gte | notIn | isNot | isIn | like | notLike | ilike | notIlike
  | similarTo | notSimilarTo | eq
  deriving DecidableEq, Repr

namespace Operator

/-- The operators that have suffixes, in the order in which they are tried. -/
def table : List Operator :=
  [.gt, .lt, .lte, .gte, .notIn, .isNot, .isIn, .like, .notLike, .ilike, .notIlike, .similarTo,
    .notSimilarTo]

def suffixes : Operator → List Suffix
  | .gt => [⟨.text, [">"]⟩]
  | .lt => [⟨.text, ["<"]⟩]
  | .lte => [⟨.text, ["<="]⟩]
  | .gte => [⟨.text, [">="]⟩]
  | .notIn => [⟨.text, ["<>"]⟩, ⟨.text, ["NOT", "IN"]⟩]
  | .isNot => [⟨.text, ["!="]⟩, ⟨.text, ["!"]⟩, ⟨.text, ["IS", "NOT"]⟩]
  | .isIn => [⟨.wordSpace, ["IN"]⟩]
  | .like => [⟨.wordSpace, ["LIKE"]⟩, ⟨.text, ["~~"]⟩]
  | .notLike => [⟨.text, ["NOT", "LIKE"]⟩, ⟨.text, ["!~~"]⟩]
  | .ilike => [⟨.wordSpace, ["ILIKE"]⟩]
  | .notIlike => [⟨.text, ["NOT", "ILIKE"]⟩]
  | .similarTo => [⟨.wordBlanks, ["SIMILAR", "TO"]⟩]
  | .notSimilarTo => [⟨.text, ["NOT", "SIMILAR", "TO"]⟩]
  | .eq => []

def name : Operator → String
  | .gt => "gt"
  | .lt => "lt"
  | .lte => "lte"
  | .gte => "gte"
  | .notIn => "not_in"
  | .isNot => "is_not"
  | .isIn => "in"
  | .like => "like"
  | .notLike => "not_like"
  | .ilike => "ilike"
  | .notIlike => "not_ilike"
  | .similarTo => "similar_to"
  | .notSimilarTo => "not_similar_to"
  | .eq => "eq"

/-- The field of a key that ends in a suffix of this operator. -/
def field? (op : Operator) (key : List Char) : Option (List Char) :=
  op.suffixes.findSome? (Suffix.field? · key)

/-- The operator that a key names by its suffix, and the field before it. -/
def ofSuffix? (key : String) : Option (Operator × String) :=
  table.findSome? fun op => (op.field? key.toList).map fun f => (op, String.ofList f)

def hasSuffix (key : String) : Bool := (ofSuffix? key).isSome

/-- The operator and the field that a key means beside a value. -/
def resolve (key : String) (value : Value) : Operator × String :=
  match ofSuffix? key with
  | some found => found
  | none => if value.isSequence then (.isIn, key) else (.eq, key)

end Operator

end TableAccess
