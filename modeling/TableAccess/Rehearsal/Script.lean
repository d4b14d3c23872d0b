import TableAccess.Failure

/-! Scripts of callbacks: what a callback is called and how it is called, and the one deed that it
does to its last argument. -/

namespace TableAccess.Rehearsal

inductive Deed where
  | nothing
  | give (v : Value)
  | set (key v : Value)
  | delete (key : Value)
  | merge (key v : Value)
  | drop (key : Value)
  | fail (e : Failure)

/-- A callback by its script. A plain one can be bound to a collection; one that waits does its deed
only when it is waited for. -/
structure Script where
  plain : Bool
  waits : Bool
  label : String
  deed : Deed

/-- A call of a callback. -/
structure Run where
  script : Script
  arguments : List Value

end TableAccess.Rehearsal
