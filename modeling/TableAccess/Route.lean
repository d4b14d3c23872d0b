import TableAccess.Condition
import TableAccess.Statement.Raw

/-! The way of a search: structured, with bound parameters, unless a JSON path occurs in one of
its condition keys or order fields. A JSON path shows in one of two markers. -/

namespace TableAccess.Route

open Statement

def markers : List String := ["->", "#>"]

def isJsonPath (key : String) : Bool :=
  markers.any fun m => Text.occurs m.toList key.toList

/-- The same question about any value: a sequence or mapping holds a marker as an element. -/
def holdsMarker (v : Value) : Except Failure Bool :=
  match v.text?, v with
  | some s, _ => .ok (isJsonPath s)
  | none, .bytes _ => .error .wrongType
  | none, v => match v.elements? with
    | some xs => .ok (xs.any fun x => match x with
      | .text s => markers.contains s
      | _ => false)
    | none => .error .wrongType

/-- The keys of a condition. A value that can be walked over but is no mapping has none. -/
def conditionKeys (conditions : Value) : Except Failure (List String) :=
  match conditions with
  | .map es => (Condition.ofEntries es).map Condition.keys
  | v =>
    if !v.truthy then .ok []
    else if v.elements?.isSome then .error .noMember else .error .wrongType

/-- The field of an order item; a collection is not asked for one with a default. -/
def orderField (item : Value) : Except Failure String := do
  if item matches .object ⟨_, .collection, _, _, _⟩ then throw .wrongType
  match (← keyed item).get? "field" with
  | some v => return v.toText
  | none => return ""

def orderFields (options : Value) : Except Failure (List String) := do
  let v := (← optionEntries options).get "order"
  if !v.truthy then return []
  (← elements v).mapM orderField

/-- Whether a search has to be sent with its values in the text. -/
def needsRaw (conditions options : Value) : Except Failure Bool := do
  let keys ← conditionKeys conditions
  let fields ← orderFields options
  return (keys ++ fields).any isJsonPath

end TableAccess.Route
