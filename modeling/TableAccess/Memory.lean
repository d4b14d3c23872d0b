import TableAccess.Value

/-! A memory of lists, mappings and objects, each under a number. A value that refers to one of them
can be held in several places, and what is done to it through one of them is seen through all.
`place` moves a value into the memory piece by piece, `look` gives what a reference leads to,
`read` the value as it is now with nothing left to look up. Nothing is ever forgotten:
`cells_store` and `cells_put` say what each operation does to what is there. -/

namespace TableAccess

structure Memory where
  cells : List Value

namespace Value

mutual
/-- The value with what `find` knows in the place of its references. -/
def resolve (find : Nat → Value) : Value → Value
  | .reference n => find n
  | .list xs => .list (resolveAll find xs)
  | .tuple xs => .tuple (resolveAll find xs)
  | .map es => .map (resolveEntries find es)
  | .json v => .json (resolve find v)
  | v => v

def resolveAll (find : Nat → Value) : List Value → List Value
  | [] => []
  | x :: xs => resolve find x :: resolveAll find xs

def resolveEntries (find : Nat → Value) : List (String × Value) → List (String × Value)
  | [] => []
  | (k, x) :: es => (k, resolve find x) :: resolveEntries find es
end

end Value

namespace Memory

def empty : Memory := ⟨[]⟩

def size (m : Memory) : Nat := m.cells.length

/-- Keeps a list, a mapping or an object under the next number. -/
def store (m : Memory) (v : Value) : Value × Memory := (.reference m.size, ⟨m.cells ++ [v]⟩)

/-- Changes what is kept under a number. -/
def put (m : Memory) (n : Nat) (v : Value) : Memory := ⟨m.cells.set n v⟩

def get (m : Memory) (n : Nat) : Value := (m.cells[n]?).getD (.reference n)

/-- What a value is, without looking into it. -/
def look (m : Memory) : Value → Value
  | .reference n => m.get n
  | v => v

/-- Follows at most this many references into one another. -/
def readWithin (m : Memory) : Nat → Value → Value
  | 0, v => v
  | fuel + 1, v => v.resolve fun n => m.readWithin fuel (m.get n)

/-- The value as it is now. References that do not lead back to themselves are followed to their
end, for there are no more of them in a row than there are numbers. -/
def read (m : Memory) (v : Value) : Value := m.readWithin (m.size + 1) v

mutual
/-- Moves every list and mapping of a value into the memory, the inner ones first. -/
def place (m : Memory) : Value → Value × Memory
  | .list xs =>
    let (xs, m) := placeAll m xs
    m.store (.list xs)
  | .map es =>
    let (es, m) := placeEntries m es
    m.store (.map es)
  | .tuple xs =>
    let (xs, m) := placeAll m xs
    (.tuple xs, m)
  | .object o => (.reference o.number, m)
  | v => (v, m)

def placeAll (m : Memory) : List Value → List Value × Memory
  | [] => ([], m)
  | x :: xs =>
    let (x, m) := place m x
    let (xs, m) := placeAll m xs
    (x :: xs, m)

def placeEntries (m : Memory) : List (String × Value) → List (String × Value) × Memory
  | [] => ([], m)
  | (k, x) :: es =>
    let (x, m) := place m x
    let (es, m) := placeEntries m es
    ((k, x) :: es, m)
end

@[simp] theorem cells_store (m : Memory) (v : Value) : (m.store v).2.cells = m.cells ++ [v] := rfl

@[simp] theorem cells_put (m : Memory) (n : Nat) (v : Value) :
    (m.put n v).cells = m.cells.set n v := rfl

theorem look_store (m : Memory) (v : Value) : (m.store v).2.look (m.store v).1 = v := by
  simp [store, look, get, size]

theorem get_put (m : Memory) (n k : Nat) (v : Value) (h : n < m.size) :
    (m.put n v).get k = if k = n then v else m.get k := by
  have hn : n < m.cells.length := h
  by_cases hk : k = n
  · subst hk
    simp [get, put, hn]
  · simp [get, put, hk, Ne.symm hk]

end Memory

end TableAccess
