/-! The nine operations of a collection. `all` lists them in the order in which their hooks are
shown. -/

namespace TableAccess

inductive Operation where
  | get | count | flush | insert | update | updateAll | remove | removeAll | find
  deriving DecidableEq, Repr

namespace Operation

def all : List Operation :=
  [.get, .count, .flush, .insert, .update, .updateAll, .remove, .removeAll, .find]

def name : Operation → String
  | .get => "get"
  | .count => "count"
  | .flush => "flush"
  | .insert => "insert"
  | .update => "update"
  | .updateAll => "update_all"
  | .remove => "remove"
  | .removeAll => "remove_all"
  | .find => "find"

def ofName? (name : String) : Option Operation := all.find? fun op => op.name == name

theorem ofName?_name (op : Operation) : ofName? op.name = some op := by
  cases op <;> decide

end Operation

end TableAccess
