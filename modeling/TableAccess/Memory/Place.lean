import TableAccess.Memory

/-! What has been moved into a memory can be read back. `place` only adds to the memory, so a value
that refers to nothing is read as itself right after it was placed (`read_place`) and for as long as
what was there then stays as it was (`resolve_place`): it has no more lists and mappings inside one
another than the numbers that it was given. -/

namespace TableAccess

namespace Value

mutual
/-- Values that refer to nothing and hold no objects. -/
def isComplete : Value → Bool
  | .reference _ => false
  | .object _ => false
  | .list xs => areComplete xs
  | .tuple xs => areComplete xs
  | .map es => areCompleteEntries es
  | .json v => isComplete v
  | _ => true

def areComplete : List Value → Bool
  | [] => true
  | x :: xs => isComplete x && areComplete xs

def areCompleteEntries : List (String × Value) → Bool
  | [] => true
  | (_, x) :: es => isComplete x && areCompleteEntries es
end

mutual
theorem resolve_of_isComplete (find : Nat → Value) :
    (v : Value) → v.isComplete = true → v.resolve find = v
  | .reference _, h | .object _, h => by simp [isComplete] at h
  | .list xs, h => by
    simp only [isComplete] at h
    rw [resolve, resolveAll_of_areComplete find xs h]
  | .tuple xs, h => by
    simp only [isComplete] at h
    rw [resolve, resolveAll_of_areComplete find xs h]
  | .map es, h => by
    simp only [isComplete] at h
    rw [resolve, resolveEntries_of_areCompleteEntries find es h]
  | .json v, h => by
    simp only [isComplete] at h
    rw [resolve, resolve_of_isComplete find v h]
  | .null, _ | .bool _, _ | .int _, _ | .float _, _ | .decimal _, _ | .fraction _, _ | .text _, _
  | .ragged _, _ | .bytes _, _ | .date _, _ | .time _, _ | .moment _, _ => by simp [resolve]

theorem resolveAll_of_areComplete (find : Nat → Value) :
    (xs : List Value) → areComplete xs = true → resolveAll find xs = xs
  | [], _ => rfl
  | x :: xs, h => by
    simp only [areComplete, Bool.and_eq_true] at h
    rw [resolveAll, resolve_of_isComplete find x h.1, resolveAll_of_areComplete find xs h.2]

theorem resolveEntries_of_areCompleteEntries (find : Nat → Value) :
    (es : List (String × Value)) → areCompleteEntries es = true → resolveEntries find es = es
  | [], _ => rfl
  | (k, x) :: es, h => by
    simp only [areCompleteEntries, Bool.and_eq_true] at h
    rw [resolveEntries, resolve_of_isComplete find x h.1,
      resolveEntries_of_areCompleteEntries find es h.2]
end

end Value

namespace Memory

mutual
/-- Placing a value leaves what was there before it. -/
theorem cells_place (m : Memory) : (v : Value) → ∃ more, (m.place v).2.cells = m.cells ++ more
  | .list xs => by
    obtain ⟨more, h⟩ := cells_placeAll m xs
    exact ⟨more ++ [.list (m.placeAll xs).1], by simp [place, h]⟩
  | .map es => by
    obtain ⟨more, h⟩ := cells_placeEntries m es
    exact ⟨more ++ [.map (m.placeEntries es).1], by simp [place, h]⟩
  | .tuple xs => by
    obtain ⟨more, h⟩ := cells_placeAll m xs
    exact ⟨more, by simp [place, h]⟩
  | .reference _ | .object _ | .json _ | .null | .bool _ | .int _ | .float _ | .decimal _
  | .fraction _ | .text _ | .ragged _ | .bytes _ | .date _ | .time _ | .moment _ =>
    ⟨[], by simp [place]⟩

theorem cells_placeAll (m : Memory) :
    (xs : List Value) → ∃ more, (m.placeAll xs).2.cells = m.cells ++ more
  | [] => ⟨[], by simp [placeAll]⟩
  | x :: xs => by
    obtain ⟨first, hf⟩ := cells_place m x
    obtain ⟨rest, hr⟩ := cells_placeAll (m.place x).2 xs
    exact ⟨first ++ rest, by simp [placeAll, hr, hf]⟩

theorem cells_placeEntries (m : Memory) :
    (es : List (String × Value)) → ∃ more, (m.placeEntries es).2.cells = m.cells ++ more
  | [] => ⟨[], by simp [placeEntries]⟩
  | (_, x) :: es => by
    obtain ⟨first, hf⟩ := cells_place m x
    obtain ⟨rest, hr⟩ := cells_placeEntries (m.place x).2 es
    exact ⟨first ++ rest, by simp [placeEntries, hr, hf]⟩
end

theorem size_le_place (m : Memory) (v : Value) : m.size ≤ (m.place v).2.size := by
  obtain ⟨more, h⟩ := cells_place m v
  simp [size, h]

theorem size_place_le_placeAll (m : Memory) (x : Value) (xs : List Value) :
    (m.place x).2.size ≤ (m.placeAll (x :: xs)).2.size := by
  obtain ⟨more, h⟩ := cells_placeAll (m.place x).2 xs
  simp [placeAll, size, h]

theorem size_place_le_placeEntries (m : Memory) (k : String) (x : Value)
    (es : List (String × Value)) :
    (m.place x).2.size ≤ (m.placeEntries ((k, x) :: es)).2.size := by
  obtain ⟨more, h⟩ := cells_placeEntries (m.place x).2 es
  simp [placeEntries, size, h]

/-- What a memory finds under a number when it follows at most this many references more. -/
def findWithin (m : Memory) (fuel n : Nat) : Value := m.readWithin fuel (m.get n)

theorem readWithin_succ (m : Memory) (fuel : Nat) (v : Value) :
    m.readWithin (fuel + 1) v = v.resolve (m.findWithin fuel) := rfl

theorem get_of_cells {m : Memory} {before after : List Value} {v : Value}
    (h : m.cells = before ++ [v] ++ after) : m.get before.length = v := by
  simp [get, h]

mutual
/-- A placed value is read as itself in every memory that goes on from the one it was placed in. -/
theorem resolve_place (m later : Memory) (after : List Value) (fuel : Nat) :
    (v : Value) → v.isComplete = true → later.cells = (m.place v).2.cells ++ after →
      (m.place v).2.size ≤ m.size + fuel → (m.place v).1.resolve (later.findWithin fuel) = v
  | .list xs, hv, hl, hs => by
    simp only [Value.isComplete] at hv
    simp only [place, store, size, List.length_append, List.length_singleton] at hl hs ⊢
    obtain ⟨more, hm⟩ := cells_placeAll m xs
    have hlen : m.cells.length ≤ (m.placeAll xs).2.cells.length := by simp [hm]
    obtain ⟨fuel, rfl⟩ : ∃ f, fuel = f + 1 := ⟨fuel - 1, by omega⟩
    rw [Value.resolve, findWithin, get_of_cells hl, readWithin_succ, Value.resolve,
      resolve_placeAll m later (.list (m.placeAll xs).1 :: after) fuel xs hv (by simpa using hl)
        (by simp only [size]; omega)]
  | .map es, hv, hl, hs => by
    simp only [Value.isComplete] at hv
    simp only [place, store, size, List.length_append, List.length_singleton] at hl hs ⊢
    obtain ⟨more, hm⟩ := cells_placeEntries m es
    have hlen : m.cells.length ≤ (m.placeEntries es).2.cells.length := by simp [hm]
    obtain ⟨fuel, rfl⟩ : ∃ f, fuel = f + 1 := ⟨fuel - 1, by omega⟩
    rw [Value.resolve, findWithin, get_of_cells hl, readWithin_succ, Value.resolve,
      resolve_placeEntries m later (.map (m.placeEntries es).1 :: after) fuel es hv
        (by simpa using hl) (by simp only [size]; omega)]
  | .tuple xs, hv, hl, hs => by
    simp only [Value.isComplete] at hv
    simp only [place] at hl hs ⊢
    rw [Value.resolve, resolve_placeAll m later after fuel xs hv hl hs]
  | .reference _, hv, _, _ | .object _, hv, _, _ => by simp [Value.isComplete] at hv
  | .json v, hv, _, _ => by
    simp only [place]
    exact Value.resolve_of_isComplete _ _ hv
  | .null, _, _, _ | .bool _, _, _, _ | .int _, _, _, _ | .float _, _, _, _ | .decimal _, _, _, _
  | .fraction _, _, _, _ | .text _, _, _, _ | .ragged _, _, _, _ | .bytes _, _, _, _
  | .date _, _, _, _ | .time _, _, _, _ | .moment _, _, _, _ => by simp [place, Value.resolve]

theorem resolve_placeAll (m later : Memory) (after : List Value) (fuel : Nat) :
    (xs : List Value) → Value.areComplete xs = true →
      later.cells = (m.placeAll xs).2.cells ++ after → (m.placeAll xs).2.size ≤ m.size + fuel →
      Value.resolveAll (later.findWithin fuel) (m.placeAll xs).1 = xs
  | [], _, _, _ => rfl
  | x :: xs, hv, hl, hs => by
    simp only [Value.areComplete, Bool.and_eq_true] at hv
    have hx := size_place_le_placeAll m x xs
    have hm := size_le_place m x
    obtain ⟨more, hc⟩ := cells_placeAll (m.place x).2 xs
    simp only [placeAll] at hl hs hx ⊢
    rw [Value.resolveAll,
      resolve_place m later (more ++ after) fuel x hv.1 (by simp [hl, hc]) (by omega),
      resolve_placeAll (m.place x).2 later after fuel xs hv.2 hl (by omega)]

theorem resolve_placeEntries (m later : Memory) (after : List Value) (fuel : Nat) :
    (es : List (String × Value)) → Value.areCompleteEntries es = true →
      later.cells = (m.placeEntries es).2.cells ++ after →
      (m.placeEntries es).2.size ≤ m.size + fuel →
      Value.resolveEntries (later.findWithin fuel) (m.placeEntries es).1 = es
  | [], _, _, _ => rfl
  | (k, x) :: es, hv, hl, hs => by
    simp only [Value.areCompleteEntries, Bool.and_eq_true] at hv
    have hx := size_place_le_placeEntries m k x es
    have hm := size_le_place m x
    obtain ⟨more, hc⟩ := cells_placeEntries (m.place x).2 es
    simp only [placeEntries] at hl hs hx ⊢
    rw [Value.resolveEntries,
      resolve_place m later (more ++ after) fuel x hv.1 (by simp [hl, hc]) (by omega),
      resolve_placeEntries (m.place x).2 later after fuel es hv.2 hl (by omega)]
end

/-- What has just been placed is read as it was. -/
theorem read_place (m : Memory) (v : Value) (h : v.isComplete = true) :
    (m.place v).2.read (m.place v).1 = v := by
  rw [read, readWithin_succ]
  exact resolve_place m _ [] _ v h (by simp) (by omega)

end Memory

end TableAccess
