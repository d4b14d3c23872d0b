import TableAccess.Failure

/-! Arguments of a call, by position and by name. -/

namespace TableAccess

/-- A parameter and the value that it has when no argument is passed for it. -/
structure Parameter where
  name : String
  default? : Option Value

namespace Parameter

def required (name : String) : Parameter := ⟨name, none⟩

/-- A parameter that is null when it is not passed. -/
def optional (name : String) : Parameter := ⟨name, some .null⟩

/-- The value of a parameter that is not passed by position. -/
def valueIn (named : Entries) (p : Parameter) : Except Failure Value :=
  match named.get? p.name, p.default? with
  | some v, _ => .ok v
  | none, some v => .ok v
  | none, none => .error .wrongType

/-- The values of all parameters. Too many arguments, an argument for no parameter, one parameter
passed twice and a required one left out are all refused. -/
def bind (ps : List Parameter) (positional : List Value) (named : Entries) :
    Except Failure (List Value) := do
  let rest := ps.drop positional.length
  if ps.length < positional.length then throw .wrongType
  if named.any fun e => !rest.any fun p => p.name == e.1 then throw .wrongType
  return positional ++ (← rest.mapM (valueIn named))

end Parameter

end TableAccess
