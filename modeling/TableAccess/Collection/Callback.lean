import TableAccess.Stage

/-! Callbacks of a collection. A callback may edit its last argument in place, give back a value, or
do both. The next stage works with the value, or with the argument as it then is when nothing was
given back. -/

namespace TableAccess

/-- A value at once, null for none, or work that has to be waited for. Work that nobody waits for
is left as it is, and an object stands for it. -/
inductive Reply (σ : Type) where
  | now (v : Value)
  | later (work left : Act (Stage σ) Value)

namespace Reply

variable {σ : Type}

/-- Waits for the value if it is not there yet. -/
def wait : Reply σ → Act (Stage σ) Value
  | .now v => pure v
  | .later work _ => work

/-- The value of a callback that nobody waits for. -/
def taken : Reply σ → Act (Stage σ) Value
  | .now v => pure v
  | .later _ left => left

end Reply

/-- A callback; a plain function is one that can be bound to a collection. -/
structure Callback (σ : Type) where
  plain : Bool
  run : List Value → Act (Stage σ) (Reply σ)

/-- Called with the arguments of a stage; the stage waits for the reply. -/
abbrev Hook (σ : Type) := List Value → Act (Stage σ) (Reply σ)

/-- Called with one row or payload; nobody waits for the reply. -/
abbrev Formatter (σ : Type) := Value → Act (Stage σ) Value

namespace Callback

variable {σ : Type}

/-- A plain function as a hook gets the collection as its first argument. -/
def hook (c : Callback σ) (collection : Value) : Hook σ :=
  if c.plain then fun arguments => c.run (collection :: arguments) else c.run

def formatter (c : Callback σ) : Formatter σ := fun v => do (← c.run [v]).taken

end Callback

/-- The value as formatted; null and values without a formatter stay as they are. -/
def Formatter.apply {σ : Type} (f? : Option (Formatter σ)) (v : Value) : Act (Stage σ) Value :=
  match f? with
  | none => pure v
  | some f => if v.isNull then pure v else do return (← f v).orElse v

end TableAccess
