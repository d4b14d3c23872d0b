import TableAccess.Failure

/-! Equality of values by what they denote: a number equals every other number of the same size,
whatever its kind, truth values counting as 0 and 1; NaN equals nothing; a list never equals a
tuple; mappings are compared without regard to order; an object equals only itself, and a document
that is to be sent as JSON equals nothing. `isKey` tells which values can serve as keys, which have a
hash: nothing that holds a list or a mapping, no signalling NaN, and no object that refuses; `hashed`
fails as asking for the hash does. -/

namespace TableAccess

open Number

/-- A finite number as a quotient of whole numbers times powers of two and ten. -/
structure Magnitude where
  whole : Int
  parts : Nat
  twos : Int
  tens : Int
  positive : 0 < parts

namespace Magnitude

/-- A whole number times powers of two and ten. -/
def scaled (whole twos tens : Int) : Magnitude := ⟨whole, 1, twos, tens, Nat.one_pos⟩

def ratio (q : Rat) : Magnitude := ⟨q.num, q.den, 0, 0, q.den_pos⟩

/-- `2^a · 10^b` for the positive parts of the exponents. -/
def up (a b : Int) : Nat := twoTo a * tenTo b

def same (x y : Magnitude) : Bool :=
  let a := min x.twos y.twos
  let b := min x.tens y.tens
  x.whole * up (x.twos - a) (x.tens - b) * y.parts ==
    y.whole * up (y.twos - a) (y.tens - b) * x.parts

end Magnitude

/-- A number as far as equality is concerned. -/
inductive Size where
  | nan
  | infinite (negative : Bool)
  | finite (m : Magnitude)

namespace Size

def same : Size → Size → Bool
  | .infinite a, .infinite b => a == b
  | .finite x, .finite y =>
    if x.whole = 0 || y.whole = 0 then x.whole == y.whole else x.same y
  | _, _ => false

end Size

namespace Value

def signed (negative : Bool) (n : Nat) : Int := if negative then -n else n

def size? : Value → Option Size
  | .bool b => some (.finite (.scaled (if b then 1 else 0) 0 0))
  | .int n => some (.finite (.scaled n 0 0))
  | .float .nan => some .nan
  | .float (.infinite negative) => some (.infinite negative)
  | .float (.finite negative m e) => some (.finite (.scaled (signed negative m) e 0))
  | .decimal (.nan ..) => some .nan
  | .decimal (.infinite negative) => some (.infinite negative)
  | .decimal (.finite negative c e) => some (.finite (.scaled (signed negative c) 0 e))
  | .fraction q => some (.finite (.ratio q))
  | _ => none

/-- Equality of values that hold no others. -/
def sameAtom (a b : Value) : Bool :=
  match a.size?, b.size? with
  | some x, some y => x.same y
  | none, none =>
    match a, b with
    | .null, .null => true
    | .text s, .text t => s == t
    | .ragged s, .ragged t => s == t
    | .bytes s, .bytes t => s == t
    | .date d, .date e => d == e
    | .time c, .time d => c.same d
    | .moment m, .moment n => m.same n
    | .object a, .object b => a.number == b.number && a.unhashed? == b.unhashed?
    | .reference i, .reference j => i == j
    | _, _ => false
  | _, _ => false

mutual
def same : Value → Value → Bool
  | .list xs, .list ys => sameAll xs ys
  | .tuple xs, .tuple ys => sameAll xs ys
  | .map es, .map fs => es.length == fs.length && sameEntries es fs
  | a, b => sameAtom a b

def sameAll : List Value → List Value → Bool
  | [], [] => true
  | x :: xs, y :: ys => same x y && sameAll xs ys
  | _, _ => false

def sameEntries : List (String × Value) → Entries → Bool
  | [], _ => true
  | (k, x) :: es, fs =>
    (match fs.get? k with
      | some y => same x y
      | none => false) && sameEntries es fs
end

mutual
def isKey : Value → Bool
  | .list _ => false
  | .map _ => false
  | .tuple xs => areKeys xs
  | .decimal (.nan _ signalling _) => !signalling
  | .object o => o.unhashed?.isNone
  | _ => true

def areKeys : List Value → Bool
  | [] => true
  | x :: xs => isKey x && areKeys xs
end

mutual
/-- Fails as asking for the hash of a value does; a tuple fails as the first of its items that has
none. -/
def hashed : Value → Except Failure Unit
  | .list _ => .error .wrongType
  | .map _ => .error .wrongType
  | .tuple xs => hashedAll xs
  | .decimal (.nan _ signalling _) => if signalling then .error .wrongType else .ok ()
  | .object o =>
    match o.unhashed? with
    | some (kind, message) => .error (.outside kind message)
    | none => .ok ()
  | _ => .ok ()

def hashedAll : List Value → Except Failure Unit
  | [] => .ok ()
  | x :: xs =>
    match hashed x with
    | .ok () => hashedAll xs
    | .error e => .error e
end

mutual
theorem hashed_eq_ok_iff : (v : Value) → (v.hashed = .ok () ↔ v.isKey = true)
  | .tuple xs => by rw [hashed, isKey, hashedAll_eq_ok_iff xs]
  | .decimal (.nan _ signalling _) => by cases signalling <;> simp [hashed, isKey]
  | .object o => by
    rw [hashed, isKey]
    cases o.unhashed? <;> simp
  | .list _ | .map _ => by simp [hashed, isKey]
  | .decimal (.finite ..) | .decimal (.infinite _) | .null | .bool _ | .int _ | .float _ | .fraction _
  | .text _ | .ragged _ | .bytes _ | .date _ | .time _ | .moment _ | .json _ | .reference _ => by
    simp [hashed, isKey]

theorem hashedAll_eq_ok_iff : (xs : List Value) → (hashedAll xs = .ok () ↔ areKeys xs = true)
  | [] => by simp [hashedAll, areKeys]
  | x :: xs => by
    rw [areKeys, Bool.and_eq_true, ← hashed_eq_ok_iff x, ← hashedAll_eq_ok_iff xs, hashedAll]
    cases x.hashed <;> simp
end

theorem areKeys_iff {xs : List Value} : areKeys xs = true ↔ ∀ x ∈ xs, x.isKey = true := by
  induction xs with
  | nil => simp [areKeys]
  | cons x xs ih => rw [areKeys, Bool.and_eq_true, ih, List.forall_mem_cons]

end Value

end TableAccess
