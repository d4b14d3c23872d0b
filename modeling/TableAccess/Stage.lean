import TableAccess.Act
import TableAccess.Memory

/-! Where callbacks work: a memory, whose lists and mappings they may edit, beside everything that
lies outside it. Steps outside the memory are given values as they are now and leave nothing in
it. -/

namespace TableAccess

structure Stage (σ : Type) where
  memory : Memory
  outside : σ

namespace Stage

variable {σ α : Type}

/-- A step that leaves the memory alone. -/
def outward (step : Act σ α) : Act (Stage σ) α :=
  Act.within (·.outside) (fun s t => { t with outside := s }) step

def look (v : Value) : Act (Stage σ) Value := do return (← get).memory.look v

def read (v : Value) : Act (Stage σ) Value := do return (← get).memory.read v

def place (v : Value) : Act (Stage σ) Value := fun s =>
  let (v, m) := s.memory.place v
  (.ok v, { s with memory := m })

def store (v : Value) : Act (Stage σ) Value := fun s =>
  let (v, m) := s.memory.store v
  (.ok v, { s with memory := m })

def put (n : Nat) (v : Value) : Act (Stage σ) Unit :=
  modify fun s => { s with memory := s.memory.put n v }

@[simp] theorem read_run (v : Value) (s : Stage σ) : read v s = (.ok (s.memory.read v), s) := rfl

end Stage

end TableAccess
