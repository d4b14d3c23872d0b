import TableAccess.Act

/-! What a collection needs from a database: a connection that executes statements and gives out
one accessor per table. What is passed to these operations is complete in itself, and so is what
they give back. -/

namespace TableAccess

/-- The operations on the rows of one table. -/
structure Table (σ : Type) where
  find : Value → Value → Act σ Value
  findOne : Value → Act σ Value
  insert : Value → Act σ Value
  updateById : Value → Value → Act σ Value
  destroyById : Value → Act σ Value

structure Connection (σ : Type) where
  execute : String → Act σ Value
  table : String → Act σ (Table σ)

/-- What a collection can be attached to. -/
inductive Attachment (σ : Type) where
  | nothing
  /-- Something without the operations of a connection. -/
  | stranger
  | connection (k : Connection σ)

end TableAccess
