import TableAccess.Value.Equality

/-! Registries find collections by the names of their tables. Registering under a taken name
replaces what was there. -/

namespace TableAccess

structure Registry (α : Type) where
  entries : List (String × α)

namespace Registry

variable {α : Type}

def empty : Registry α := ⟨[]⟩

def find? (r : Registry α) (name : String) : Option α :=
  (r.entries.find? fun e => e.1 == name).map (·.2)

def without (r : Registry α) (name : String) : Registry α :=
  ⟨r.entries.filter fun e => e.1 != name⟩

def register (r : Registry α) (name : String) (a : α) : Registry α :=
  ⟨(name, a) :: (r.without name).entries⟩

/-- The registry without a name, and whether the name was there. Nothing but a text is a name, and
a value without a hash is refused unless there is nothing to look through. -/
def unregister (r : Registry α) (name : Value) : Except Failure (Registry α × Bool) :=
  match name.text? with
  | some s => .ok (r.without s, (r.find? s).isSome)
  | none =>
    if r.entries.isEmpty then .ok (r, false)
    else do
      name.hashed
      return (r, false)

def model (r : Registry α) (name : Value) : Except Failure α :=
  match name.text? with
  | some s =>
    match r.find? s with
    | some a => .ok a
    | none => .error (.refused (.unknownCollection name))
  | none => .error (.invalidFormat "name")

def names (r : Registry α) : List String :=
  (r.entries.map (·.1)).mergeSort fun a b => decide (a ≤ b)

def contains (r : Registry α) (name : Value) : Except Failure Bool :=
  match name.text? with
  | some s => .ok (r.find? s).isSome
  | none => do
    name.hashed
    return false

def size (r : Registry α) : Nat := r.entries.length

theorem find?_without (r : Registry α) (name other : String) :
    (r.without name).find? other = if other = name then none else r.find? other := by
  simp only [without, find?, List.find?_filter]
  by_cases h : other = name
  · subst h
    simp
  · simp only [h, if_false]
    congr 2
    funext e
    by_cases he : e.1 = other <;> simp [he, h]

theorem find?_register (r : Registry α) (name other : String) (a : α) :
    (r.register name a).find? other = if other = name then some a else r.find? other := by
  by_cases h : other = name
  · simp [register, find?, h]
  · have hn : (name == other) = false := by simp [Ne.symm h]
    have hw := find?_without r name other
    simp only [find?, h, if_false] at hw
    simpa [register, find?, hn, h] using hw

end Registry

end TableAccess
