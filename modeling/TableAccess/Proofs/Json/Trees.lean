import TableAccess.Json

/-! The values that are read from JSON texts. Whatever the text is, the reader gives nulls, truth values,
numbers, texts, and lists and mappings of such (`Tree`), and no other value (`tree_of_readWithin`). The
induction is on the fuel, with one step for values, one for items and one for entries. -/

namespace TableAccess.Json

/-- What a JSON text can stand for. -/
inductive Tree : Value → Prop
  | null : Tree .null
  | bool (b : Bool) : Tree (.bool b)
  | int (n : Int) : Tree (.int n)
  | float (x : Number.Binary) : Tree (.float x)
  | text (s : String) : Tree (.text s)
  | ragged (t : Text.Ragged) : Tree (.ragged t)
  | list {xs : List Value} (items : ∀ x ∈ xs, Tree x) : Tree (.list xs)
  | map {es : Entries} (entries : ∀ e ∈ es, Tree e.2) : Tree (.map es)

variable {fuel depth : Nat} {cs rest : List Char} {v : Value} {xs : List Value} {es found : Entries}

theorem tree_readNumber {negative : Bool} (h : readNumber negative cs = some (v, rest)) : Tree v := by
  simp only [readNumber, Option.bind_eq_bind, Option.bind_eq_some_iff] at h
  obtain ⟨whole, -, h⟩ := h
  split at h
  · split at h
    · contradiction
    · obtain ⟨rfl, -⟩ := Prod.mk.inj (Option.some.inj h)
      exact .int _
  · obtain ⟨rfl, -⟩ := Prod.mk.inj (Option.some.inj h)
    exact .float _

theorem tree_readWord (h : readWord cs = some (v, rest)) : Tree v := by
  obtain ⟨⟨word, v'⟩, hmem, h⟩ := List.exists_of_findSome?_eq_some h
  obtain ⟨_, -, h⟩ := Option.map_eq_some_iff.mp h
  obtain ⟨rfl, -⟩ := Prod.mk.inj h
  simp only [List.mem_cons, Prod.mk.injEq, List.not_mem_nil, or_false] at hmem
  obtain ⟨-, rfl⟩ | ⟨-, rfl⟩ | ⟨-, rfl⟩ | ⟨-, rfl⟩ | ⟨-, rfl⟩ | ⟨-, rfl⟩ := hmem
  · exact .null
  · exact .bool true
  · exact .bool false
  all_goals exact .float _

theorem tree_textOf (points : List Text.Point) : Tree (textOf points) := by
  unfold textOf
  split
  · exact .ragged _
  · exact .text _

theorem tree_put (hv : Tree v) (h : ∀ e ∈ es, Tree e.2) (key : String) :
    ∀ e ∈ es.put key v, Tree e.2 := by
  induction es with
  | nil =>
    rw [Entries.put, List.forall_mem_singleton]
    exact hv
  | cons e es ih =>
    obtain ⟨he, hes⟩ := List.forall_mem_cons.mp h
    unfold Entries.put
    split
    · exact List.forall_mem_cons.mpr ⟨hv, hes⟩
    · exact List.forall_mem_cons.mpr ⟨he, ih hes⟩

/-- What is read with so much fuel. -/
structure Grown (fuel : Nat) : Prop where
  value {depth : Nat} {cs rest : List Char} {v : Value} :
    readValue fuel depth cs = some (v, rest) → Tree v
  items {depth : Nat} {cs rest : List Char} {xs : List Value} :
    readItems fuel depth cs = some (xs, rest) → ∀ x ∈ xs, Tree x
  entries {depth : Nat} {cs rest : List Char} {es found : Entries} :
    readEntries fuel depth es cs = some (found, rest) → (∀ e ∈ es, Tree e.2) → ∀ e ∈ found, Tree e.2

theorem tree_readValue (grown : Grown fuel) (h : readValue (fuel + 1) depth cs = some (v, rest)) :
    Tree v := by
  unfold readValue at h
  split at h
  next =>
    obtain ⟨_, -, h⟩ := Option.map_eq_some_iff.mp h
    obtain ⟨rfl, -⟩ := Prod.mk.inj h
    exact tree_textOf _
  next =>
    split at h
    · contradiction
    · split at h
      · obtain ⟨rfl, -⟩ := Prod.mk.inj (Option.some.inj h)
        exact .list (by simp)
      · obtain ⟨⟨xs, r⟩, hitems, h⟩ := Option.map_eq_some_iff.mp h
        obtain ⟨rfl, -⟩ := Prod.mk.inj h
        exact .list (grown.items hitems)
  next =>
    split at h
    · contradiction
    · split at h
      · obtain ⟨rfl, -⟩ := Prod.mk.inj (Option.some.inj h)
        exact .map (by simp)
      · obtain ⟨⟨es, r⟩, hentries, h⟩ := Option.map_eq_some_iff.mp h
        obtain ⟨rfl, -⟩ := Prod.mk.inj h
        exact .map (grown.entries hentries (by simp))
  next =>
    split at h
    next hword =>
      obtain rfl := Option.some.inj h
      exact tree_readWord hword
    next => split at h <;> exact tree_readNumber h

theorem tree_readItems (grown : Grown fuel) (h : readItems (fuel + 1) depth cs = some (xs, rest)) :
    ∀ x ∈ xs, Tree x := by
  unfold readItems at h
  split at h
  next => contradiction
  next x _ hx =>
    have hx := grown.value hx
    split at h
    next =>
      obtain ⟨rfl, -⟩ := Prod.mk.inj (Option.some.inj h)
      exact List.forall_mem_singleton.mpr hx
    next =>
      obtain ⟨⟨xs, r⟩, hitems, h⟩ := Option.map_eq_some_iff.mp h
      obtain ⟨rfl, -⟩ := Prod.mk.inj h
      exact List.forall_mem_cons.mpr ⟨hx, grown.items hitems⟩
    next => contradiction

theorem tree_readEntries (grown : Grown fuel)
    (h : readEntries (fuel + 1) depth es cs = some (found, rest)) (hes : ∀ e ∈ es, Tree e.2) :
    ∀ e ∈ found, Tree e.2 := by
  unfold readEntries at h
  split at h
  next =>
    split at h
    next => contradiction
    next k _ _ =>
      split at h
      next =>
        split at h
        next => contradiction
        next x _ hx =>
          have hput := tree_put (grown.value hx) hes (String.ofList (k.map Text.Point.shown))
          dsimp only at h
          split at h
          next =>
            obtain ⟨rfl, -⟩ := Prod.mk.inj (Option.some.inj h)
            exact hput
          next => exact grown.entries h hput
          next => contradiction
      next => contradiction
  next => contradiction

theorem grown (fuel : Nat) : Grown fuel := by
  induction fuel with
  | zero =>
    refine ⟨fun h => ?_, fun h => ?_, fun h => ?_⟩
    · rw [readValue] at h
      contradiction
    · rw [readItems] at h
      contradiction
    · rw [readEntries] at h
      contradiction
  | succ fuel ih => exact ⟨tree_readValue ih, tree_readItems ih, tree_readEntries ih⟩

theorem tree_of_readWithin {s : String} (h : readWithin depth s = some v) : Tree v := by
  unfold readWithin at h
  dsimp only at h
  split at h
  next hv =>
    split at h
    · obtain rfl := Option.some.inj h
      exact (grown _).value hv
    · contradiction
  next => contradiction

end TableAccess.Json
