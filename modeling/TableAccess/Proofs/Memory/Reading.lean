import TableAccess.Memory.Place

/-! What a value leads to. The numbers that a value refers to, and those that are referred to there, are all
that its reading depends on (`readWithin_congr`). A value that is read to its end is readable: it leads to
no number that leads back to itself, and to none that nothing is kept under. `Hands` is the footprint of a
step that works on one value and hands on another: it touches nothing that the first does not lead to, and
the second leads to nothing else that was there before. -/

namespace TableAccess

namespace Value

mutual
/-- The numbers in a value. -/
def references : Value → List Nat
  | .reference n => [n]
  | .list xs => referencesAll xs
  | .tuple xs => referencesAll xs
  | .map es => referencesEntries es
  | .json v => references v
  | _ => []

def referencesAll : List Value → List Nat
  | [] => []
  | x :: xs => references x ++ referencesAll xs

def referencesEntries : List (String × Value) → List Nat
  | [] => []
  | (_, x) :: es => references x ++ referencesEntries es
end

mutual
theorem resolve_congr {find find' : Nat → Value} :
    (v : Value) → (∀ n ∈ v.references, find n = find' n) → v.resolve find = v.resolve find'
  | .reference n, h => h n (by simp [references])
  | .list xs, h => by
    rw [resolve, resolve, resolveAll_congr xs h]
  | .tuple xs, h => by
    rw [resolve, resolve, resolveAll_congr xs h]
  | .map es, h => by
    rw [resolve, resolve, resolveEntries_congr es h]
  | .json v, h => by
    rw [resolve, resolve, resolve_congr v h]
  | .null, _ | .bool _, _ | .int _, _ | .float _, _ | .decimal _, _ | .fraction _, _ | .text _, _
  | .ragged _, _ | .bytes _, _ | .date _, _ | .time _, _ | .moment _, _ | .object _, _ => by
    simp [resolve]

theorem resolveAll_congr {find find' : Nat → Value} :
    (xs : List Value) → (∀ n ∈ referencesAll xs, find n = find' n) →
      resolveAll find xs = resolveAll find' xs
  | [], _ => rfl
  | x :: xs, h => by
    have hx := resolve_congr x fun n hn => h n (List.mem_append_left _ hn)
    have hxs := resolveAll_congr xs fun n hn => h n (List.mem_append_right _ hn)
    rw [resolveAll, resolveAll, hx, hxs]

theorem resolveEntries_congr {find find' : Nat → Value} :
    (es : List (String × Value)) → (∀ n ∈ referencesEntries es, find n = find' n) →
      resolveEntries find es = resolveEntries find' es
  | [], _ => rfl
  | (k, x) :: es, h => by
    have hx := resolve_congr x fun n hn => h n (List.mem_append_left _ hn)
    have hes := resolveEntries_congr es fun n hn => h n (List.mem_append_right _ hn)
    rw [resolveEntries, resolveEntries, hx, hes]
end

mutual
/-- A resolved value refers to what was put in the place of its references. -/
theorem references_resolve (find : Nat → Value) :
    (v : Value) → (v.resolve find).references = v.references.flatMap fun n => (find n).references
  | .reference n => by simp [resolve, references]
  | .list xs => by simp only [resolve, references, references_resolveAll find xs]
  | .tuple xs => by simp only [resolve, references, references_resolveAll find xs]
  | .map es => by simp only [resolve, references, references_resolveEntries find es]
  | .json v => by simp only [resolve, references, references_resolve find v]
  | .null | .bool _ | .int _ | .float _ | .decimal _ | .fraction _ | .text _ | .ragged _ | .bytes _
  | .date _ | .time _ | .moment _ | .object _ => by simp [resolve, references]

theorem references_resolveAll (find : Nat → Value) :
    (xs : List Value) → referencesAll (resolveAll find xs) =
      (referencesAll xs).flatMap fun n => (find n).references
  | [] => rfl
  | x :: xs => by
    rw [resolveAll, referencesAll, referencesAll, references_resolve find x,
      references_resolveAll find xs, List.flatMap_append]

theorem references_resolveEntries (find : Nat → Value) :
    (es : List (String × Value)) → referencesEntries (resolveEntries find es) =
      (referencesEntries es).flatMap fun n => (find n).references
  | [] => rfl
  | (k, x) :: es => by
    rw [resolveEntries, referencesEntries, referencesEntries, references_resolve find x,
      references_resolveEntries find es, List.flatMap_append]
end

mutual
theorem resolve_reference : (v : Value) → v.resolve .reference = v
  | .reference n => rfl
  | .list xs => by rw [resolve, resolveAll_reference xs]
  | .tuple xs => by rw [resolve, resolveAll_reference xs]
  | .map es => by rw [resolve, resolveEntries_reference es]
  | .json v => by rw [resolve, resolve_reference v]
  | .null | .bool _ | .int _ | .float _ | .decimal _ | .fraction _ | .text _ | .ragged _ | .bytes _
  | .date _ | .time _ | .moment _ | .object _ => by simp [resolve]

theorem resolveAll_reference : (xs : List Value) → resolveAll .reference xs = xs
  | [] => rfl
  | x :: xs => by rw [resolveAll, resolve_reference x, resolveAll_reference xs]

theorem resolveEntries_reference :
    (es : List (String × Value)) → resolveEntries .reference es = es
  | [] => rfl
  | (k, x) :: es => by rw [resolveEntries, resolve_reference x, resolveEntries_reference es]
end

/-- A value without references is what it is. -/
theorem resolve_of_references {v : Value} (h : v.references = []) (find : Nat → Value) :
    v.resolve find = v := by
  refine (resolve_congr v fun n hn => ?_).trans v.resolve_reference
  rw [h] at hn
  contradiction

theorem references_resolve_eq_nil_iff {v : Value} {find : Nat → Value} :
    (v.resolve find).references = [] ↔ ∀ n ∈ v.references, (find n).references = [] := by
  rw [references_resolve, List.flatMap_eq_nil_iff]

theorem resolveAll_eq_map (find : Nat → Value) (xs : List Value) :
    resolveAll find xs = xs.map (resolve find) := by
  induction xs with
  | nil => rfl
  | cons x xs ih => rw [resolveAll, ih, List.map_cons]

theorem referencesAll_eq_flatMap (xs : List Value) : referencesAll xs = xs.flatMap references := by
  induction xs with
  | nil => rfl
  | cons x xs ih => rw [referencesAll, ih, List.flatMap_cons]

theorem references_of_isComplete {v : Value} (h : v.isComplete = true) : v.references = [] := by
  have hv : v.resolve (fun _ => .null) = v := resolve_of_isComplete _ v h
  rw [← hv, references_resolve_eq_nil_iff]
  exact fun _ _ => rfl

end Value

namespace Memory

variable {m m' m₁ m₂ : Memory} {u v w : Value} {n : Nat}

/-- Reads to its end. -/
def Readable (m : Memory) (v : Value) : Prop := (m.read v).references = []

/-- Refers to a number, or to one that leads there. -/
inductive Leads (m : Memory) : Value → Nat → Prop
  | here {v : Value} {n : Nat} (h : n ∈ v.references) : Leads m v n
  | there {v : Value} {k n : Nat} (h : k ∈ v.references) (rest : Leads m (m.get k) n) : Leads m v n

/-- Lead to nothing in common. -/
def Apart (m : Memory) (v u : Value) : Prop := ∀ n, m.Leads v n → ¬ m.Leads u n

theorem readWithin_congr (h : ∀ n, m.Leads v n → m₁.get n = m.get n) (fuel : Nat) :
    m₁.readWithin fuel v = m.readWithin fuel v := by
  induction fuel generalizing v with
  | zero => rfl
  | succ fuel ih =>
    rw [readWithin_succ, readWithin_succ]
    refine Value.resolve_congr v fun n hn => ?_
    unfold findWithin
    rw [h n (.here hn), ih fun k hk => h k (.there hn hk)]

/-- What is read to its end is read alike however far one looks. -/
theorem readWithin_succ_of_settled {fuel : Nat} (h : (m.readWithin fuel v).references = []) :
    m.readWithin (fuel + 1) v = m.readWithin fuel v := by
  induction fuel generalizing v with
  | zero => exact Value.resolve_of_references h _
  | succ fuel ih =>
    rw [readWithin_succ, readWithin_succ]
    refine Value.resolve_congr v fun n hn => ih ?_
    exact Value.references_resolve_eq_nil_iff.mp h n hn

theorem readWithin_of_settled {fuel more : Nat} (h : (m.readWithin fuel v).references = [])
    (hle : fuel ≤ more) : m.readWithin more v = m.readWithin fuel v := by
  induction hle with
  | refl => rfl
  | step _ ih => rw [readWithin_succ_of_settled (ih ▸ h), ih]

/-- A number that leads back to itself is never read to its end, nor is what leads there. -/
theorem references_ne_nil_of_loop (loop : m.Leads (m.get n) n) (h : m.Leads v n) (fuel : Nat) :
    (m.readWithin fuel v).references ≠ [] := by
  induction fuel generalizing v with
  | zero =>
    cases h with
    | here h | there h => exact List.ne_nil_of_mem h
  | succ fuel ih =>
    intro hnil
    rw [readWithin_succ, Value.references_resolve_eq_nil_iff] at hnil
    cases h with
    | here h => exact ih loop (hnil n h)
    | there h rest => exact ih rest (hnil _ h)

theorem get_of_size_le (h : m.size ≤ n) : m.get n = .reference n := by
  unfold get
  rw [List.getElem?_eq_none h]
  rfl

namespace Readable

theorem not_loops (h : m.Readable v) (hn : m.Leads v n) : ¬ m.Leads (m.get n) n :=
  fun loop => references_ne_nil_of_loop loop hn _ h

/-- What is readable leads to nothing but what is kept. -/
theorem lt_size (h : m.Readable v) (hn : m.Leads v n) : n < m.size := by
  refine Nat.lt_of_not_le fun hle => h.not_loops hn ?_
  rw [get_of_size_le hle]
  exact .here (by simp [Value.references])

theorem of_references (h : v.references = []) : m.Readable v := by
  unfold Readable read
  rw [readWithin_succ, Value.resolve_of_references h, h]

theorem read_eq (h : m.Readable v) {fuel : Nat} (hle : m.size + 1 ≤ fuel) :
    m.readWithin fuel v = m.read v := readWithin_of_settled h hle

/-- What is read in one memory reads the same in another one where all that it leads to is kept. -/
theorem kept (h : m.Readable v) (hsize : m.size ≤ m₁.size)
    (hkept : ∀ n, m.Leads v n → m₁.get n = m.get n) : m₁.read v = m.read v ∧ m₁.Readable v := by
  have hread : m₁.read v = m.read v := by
    unfold read
    rw [readWithin_congr hkept]
    exact h.read_eq (by omega)
  refine ⟨hread, ?_⟩
  unfold Readable
  rw [hread]
  exact h

end Readable

theorem leads_of_kept (hkept : ∀ n, m.Leads v n → m₁.get n = m.get n) (h : m₁.Leads v n) :
    m.Leads v n := by
  induction h with
  | here h => exact .here h
  | there h rest ih =>
    rw [hkept _ (.here h)] at ih
    exact .there h (ih fun n hn => hkept n (.there h hn))

/-! ### Steps that leave things alone -/

/-- Only adds to a memory. -/
structure Extends (m m₁ : Memory) : Prop where
  size : m.size ≤ m₁.size
  kept : ∀ n < m.size, m₁.get n = m.get n

/-- Works on a value and hands on another one. -/
structure Hands (m : Memory) (v : Value) (m₁ : Memory) (w : Value) : Prop where
  size : m.size ≤ m₁.size
  kept : ∀ n < m.size, ¬ m.Leads v n → m₁.get n = m.get n
  reach : ∀ n < m.size, m₁.Leads w n → m.Leads v n

namespace Extends

theorem refl (m : Memory) : m.Extends m := ⟨Nat.le_refl _, fun _ _ => rfl⟩

theorem trans (h : m.Extends m₁) (h₁ : m₁.Extends m₂) : m.Extends m₂ where
  size := Nat.le_trans h.size h₁.size
  kept n hn := (h₁.kept n (Nat.lt_of_lt_of_le hn h.size)).trans (h.kept n hn)

theorem of_cells {more : List Value} (h : m₁.cells = m.cells ++ more) : m.Extends m₁ where
  size := by simp [Memory.size, h]
  kept n hn := by
    have hn : n < m.cells.length := hn
    simp [get, h, List.getElem?_append_left hn]

theorem read (h : m.Extends m₁) (hv : m.Readable v) : m₁.read v = m.read v ∧ m₁.Readable v :=
  hv.kept h.size fun _ hn => h.kept _ (hv.lt_size hn)

theorem look (h : m.Extends m₁) (hv : m.Readable v) : m₁.look v = m.look v := by
  cases v with
  | reference n => exact h.kept n (hv.lt_size (.here (by simp [Value.references])))
  | _ => rfl

end Extends

namespace Hands

theorem refl (m : Memory) (v : Value) : m.Hands v m v :=
  ⟨Nat.le_refl _, fun _ _ _ => rfl, fun _ _ h => h⟩

theorem trans (h : m.Hands v m₁ w) (h₁ : m₁.Hands w m₂ u) : m.Hands v m₂ u where
  size := Nat.le_trans h.size h₁.size
  kept n hn hv := by
    have hn₁ : n < m₁.size := Nat.lt_of_lt_of_le hn h.size
    exact (h₁.kept n hn₁ fun hw => hv (h.reach n hn hw)).trans (h.kept n hn hv)
  reach n hn hu := h.reach n hn (h₁.reach n (Nat.lt_of_lt_of_le hn h.size) hu)

/-- A step on a value that leads nowhere only adds to the memory. -/
theorem extends_of_bare (h : m.Hands v m₁ w) (hv : ∀ n, ¬ m.Leads v n) : m.Extends m₁ :=
  ⟨h.size, fun n hn => h.kept n hn (hv n)⟩

/-- What a value does not lead to is none of a step's business. -/
theorem apart (h : m.Hands v m₁ w) (hu : m.Readable u) (hvu : m.Apart v u) :
    m₁.read u = m.read u ∧ m₁.Readable u ∧ m₁.Apart w u := by
  have hkept (n : Nat) (hn : m.Leads u n) : m₁.get n = m.get n :=
    h.kept n (hu.lt_size hn) fun hv => hvu n hv hn
  obtain ⟨hread, hreadable⟩ := hu.kept h.size hkept
  refine ⟨hread, hreadable, fun n hw hn => ?_⟩
  have hn := leads_of_kept hkept hn
  exact hvu n (h.reach n (hu.lt_size hn) hw) hn

end Hands

/-! ### What is kept under a number -/

theorem leads_of_references (h : ∀ k ∈ w.references, k ∈ v.references) (hn : m.Leads w n) :
    m.Leads v n := by
  cases hn with
  | here hk => exact .here (h _ hk)
  | there hk rest => exact .there (h _ hk) rest

/-- Something readable needs no more to be read than there is, even if it is a number. -/
theorem readWithin_size (hv : m.Readable (.reference n))
    (hw : ∀ k ∈ w.references, k ∈ (m.get n).references) :
    m.readWithin m.size w = m.read w ∧ m.Readable w := by
  have hlt : n < m.size := hv.lt_size (.here (by simp [Value.references]))
  obtain ⟨fuel, hfuel⟩ : ∃ fuel, m.size = fuel + 1 := ⟨m.size - 1, by omega⟩
  have hget : (m.readWithin (fuel + 1) (m.get n)).references = [] := by
    rw [← hfuel]
    exact hv
  rw [readWithin_succ, Value.references_resolve_eq_nil_iff] at hget
  have hsettled : (m.readWithin m.size w).references = [] := by
    rw [hfuel, readWithin_succ, Value.references_resolve_eq_nil_iff]
    exact fun k hk => hget k (hw k hk)
  have hread : m.read w = m.readWithin m.size w := readWithin_succ_of_settled hsettled
  refine ⟨hread.symm, ?_⟩
  unfold Readable
  rwa [hread]

/-- A number reads as what is kept under it. -/
theorem read_look (hv : m.Readable v) : m.read (m.look v) = m.read v := by
  cases v with
  | reference n => exact (readWithin_size hv fun _ hk => hk).1.symm
  | _ => rfl

/-- What looks like a mapping reads as one, and as an empty one only if it is empty. -/
theorem read_of_look {es : Entries} (h : m.look v = .map es) :
    ∃ es', m.read v = .map es' ∧ (es' = [] ↔ es = []) := by
  have hnil (find : Nat → Value) : Value.resolveEntries find es = [] ↔ es = [] := by
    cases es <;> simp [Value.resolveEntries]
  cases v with
  | map es =>
    obtain rfl := Value.map.inj h
    exact ⟨_, rfl, hnil _⟩
  | reference n =>
    have hget : m.get n = .map es := h
    obtain ⟨k, hk⟩ : ∃ k, m.size = k + 1 := by
      refine Nat.exists_eq_succ_of_ne_zero fun hzero => ?_
      rw [get_of_size_le (by omega)] at hget
      cases hget
    unfold read
    rw [readWithin_succ, Value.resolve, hk]
    show ∃ es', m.readWithin (k + 1) (m.get n) = .map es' ∧ _
    rw [hget]
    exact ⟨_, rfl, hnil _⟩
  | _ => cases h

/-- What is changed under a number is read there, as long as nothing is added to what it leads to. -/
theorem read_put (hv : m.Readable (.reference n)) (hw : ∀ k ∈ w.references, k ∈ (m.get n).references) :
    (m.put n w).read (.reference n) = m.read w ∧ (m.put n w).Readable (.reference n) ∧
      m.Hands (.reference n) (m.put n w) (.reference n) := by
  have hn : m.Leads (.reference n) n := .here (by simp [Value.references])
  have hlt : n < m.size := hv.lt_size hn
  have hsize : (m.put n w).size = m.size := by simp [put, size]
  have hself : (m.put n w).get n = w := by rw [get_put m n n w hlt, if_pos rfl]
  have hkept (k : Nat) (hk : m.Leads w k) : (m.put n w).get k = m.get k := by
    have hne : k ≠ n := by
      rintro rfl
      exact hv.not_loops hn (leads_of_references hw hk)
    rw [get_put m n k w hlt, if_neg hne]
  obtain ⟨hsettled, hreadable⟩ := readWithin_size hv hw
  have hread : (m.put n w).read (.reference n) = m.read w := by
    show (m.put n w).readWithin (m.put n w).size ((m.put n w).get n) = m.read w
    rw [hsize, hself, readWithin_congr hkept, hsettled]
  refine ⟨hread, ?_, Nat.le_of_eq hsize.symm, fun k _ hk => ?_, fun k _ hk => ?_⟩
  · unfold Readable
    rwa [hread]
  · have hne : k ≠ n := by
      rintro rfl
      exact hk hn
    rw [get_put m n k w hlt, if_neg hne]
  · cases hk with
    | here hk => exact .here hk
    | there hk rest =>
      obtain rfl := List.mem_singleton.mp hk
      rw [hself] at rest
      exact .there (by simp [Value.references]) (leads_of_references hw (leads_of_kept hkept rest))

/-! ### What is stored and what is placed -/

theorem extends_store (m : Memory) (v : Value) : m.Extends (m.store v).2 := .of_cells (cells_store m v)

theorem extends_place (m : Memory) (v : Value) : m.Extends (m.place v).2 := by
  obtain ⟨more, h⟩ := cells_place m v
  exact .of_cells h

theorem get_store (m : Memory) (v : Value) : (m.store v).2.get m.size = v := by
  simp [store, get, size]

theorem read_store (h : m.Readable v) :
    (m.store v).2.read (m.store v).1 = m.read v ∧ (m.store v).2.Readable (m.store v).1 := by
  have hsize : (m.store v).2.size = m.size + 1 := by simp [store, size]
  have hread : (m.store v).2.read (m.store v).1 = m.read v := by
    show (m.store v).2.readWithin (m.store v).2.size ((m.store v).2.get m.size) = m.read v
    rw [hsize, get_store]
    exact readWithin_congr (fun n hn => (m.extends_store v).kept n (h.lt_size hn)) _
  refine ⟨hread, ?_⟩
  unfold Readable
  rw [hread]
  exact h

/-- A changed copy leads to nothing that the original does not lead to, but to itself. -/
theorem hands_store (hv : m.Readable (.reference n))
    (hw : ∀ k ∈ w.references, k ∈ (m.get n).references) :
    m.Hands (.reference n) (m.store w).2 (m.store w).1 where
  size := (m.extends_store w).size
  kept k hk _ := (m.extends_store w).kept k hk
  reach k hk hleads := by
    have hn {k : Nat} (h : m.Leads w k) : m.Leads (.reference n) k :=
      .there (by simp [Value.references]) (leads_of_references hw h)
    cases hleads with
    | here h =>
      have heq : k = m.size := List.mem_singleton.mp h
      omega
    | there h rest =>
      obtain rfl := List.mem_singleton.mp h
      rw [get_store] at rest
      refine hn (leads_of_kept (fun i hi => ?_) rest)
      exact (m.extends_store w).kept i (hv.lt_size (hn hi))

theorem read_list (m : Memory) (vs : List Value) : m.read (.list vs) = .list (vs.map m.read) := by
  unfold read
  rw [readWithin_succ, Value.resolve, Value.resolveAll_eq_map]
  rfl

theorem readable_list {vs : List Value} (h : ∀ v ∈ vs, m.Readable v) : m.Readable (.list vs) := by
  unfold Readable
  rw [read_list, Value.references, Value.referencesAll_eq_flatMap, List.flatMap_eq_nil_iff]
  intro v hv
  obtain ⟨u, hu, rfl⟩ := List.mem_map.mp hv
  exact h u hu

theorem readable_place (h : v.isComplete = true) : (m.place v).2.Readable (m.place v).1 := by
  unfold Readable
  rw [m.read_place v h]
  exact Value.references_of_isComplete h

/-- From some number on, a memory refers to nothing before it. -/
def Above (b : Nat) (m : Memory) : Prop := ∀ n, b ≤ n → ∀ k ∈ (m.get n).references, b ≤ k

theorem above_size (m : Memory) : Above m.size m := by
  intro n hn k hk
  rw [get_of_size_le hn] at hk
  exact List.mem_singleton.mp hk ▸ hn

theorem le_of_leads {b : Nat} (above : Above b m) (hv : ∀ k ∈ v.references, b ≤ k)
    (h : m.Leads v n) : b ≤ n := by
  induction h with
  | here h => exact hv _ h
  | there h rest ih => exact ih (above _ (hv _ h))

theorem above_store {b : Nat} (above : Above b m) (hv : ∀ k ∈ v.references, b ≤ k) :
    Above b (m.store v).2 := by
  intro n hn
  have hsize : (m.store v).2.size = m.size + 1 := by simp [store, size]
  by_cases hlt : n < m.size
  · rw [(m.extends_store v).kept n hlt]
    exact above n hn
  · by_cases heq : n = m.size
    · rw [heq, get_store]
      exact hv
    · rw [get_of_size_le (by omega)]
      intro k hk
      exact List.mem_singleton.mp hk ▸ hn

mutual
/-- The pieces of a placed value refer to one another only. -/
theorem above_place {b : Nat} {m : Memory} (above : Above b m) (hb : b ≤ m.size) :
    (v : Value) → v.isComplete = true →
      Above b (m.place v).2 ∧ ∀ k ∈ (m.place v).1.references, b ≤ k
  | .list xs, hv => by
    obtain ⟨habove, hxs⟩ := above_placeAll above hb xs hv
    obtain ⟨more, hm⟩ := cells_placeAll m xs
    refine ⟨above_store habove hxs, fun k hk => ?_⟩
    have hk : k = (m.placeAll xs).2.size := List.mem_singleton.mp hk
    rw [hk, size, hm, List.length_append]
    exact Nat.le_add_right_of_le hb
  | .map es, hv => by
    obtain ⟨habove, hes⟩ := above_placeEntries above hb es hv
    obtain ⟨more, hm⟩ := cells_placeEntries m es
    refine ⟨above_store habove hes, fun k hk => ?_⟩
    have hk : k = (m.placeEntries es).2.size := List.mem_singleton.mp hk
    rw [hk, size, hm, List.length_append]
    exact Nat.le_add_right_of_le hb
  | .tuple xs, hv => above_placeAll above hb xs hv
  | .reference _, hv | .object _, hv => by simp [Value.isComplete] at hv
  | .json v, hv => by
    refine ⟨above, fun k hk => ?_⟩
    have hnone := Value.references_of_isComplete hv
    have hk : k ∈ (Value.json v).references := hk
    rw [hnone] at hk
    contradiction
  | .null, _ | .bool _, _ | .int _, _ | .float _, _ | .decimal _, _ | .fraction _, _ | .text _, _
  | .ragged _, _ | .bytes _, _ | .date _, _ | .time _, _ | .moment _, _ =>
    ⟨above, fun k hk => by simp [place, Value.references] at hk⟩

theorem above_placeAll {b : Nat} {m : Memory} (above : Above b m) (hb : b ≤ m.size) :
    (xs : List Value) → Value.areComplete xs = true →
      Above b (m.placeAll xs).2 ∧ ∀ k ∈ Value.referencesAll (m.placeAll xs).1, b ≤ k
  | [], _ => ⟨above, fun k hk => by simp [placeAll, Value.referencesAll] at hk⟩
  | x :: xs, hv => by
    simp only [Value.areComplete, Bool.and_eq_true] at hv
    obtain ⟨hx, hkx⟩ := above_place above hb x hv.1
    obtain ⟨hxs, hkxs⟩ := above_placeAll hx (Nat.le_trans hb (size_le_place m x)) xs hv.2
    exact ⟨hxs, fun k hk => (List.mem_append.mp hk).elim (hkx k) (hkxs k)⟩

theorem above_placeEntries {b : Nat} {m : Memory} (above : Above b m) (hb : b ≤ m.size) :
    (es : List (String × Value)) → Value.areCompleteEntries es = true →
      Above b (m.placeEntries es).2 ∧ ∀ k ∈ Value.referencesEntries (m.placeEntries es).1, b ≤ k
  | [], _ => ⟨above, fun k hk => by simp [placeEntries, Value.referencesEntries] at hk⟩
  | (k, x) :: es, hv => by
    simp only [Value.areCompleteEntries, Bool.and_eq_true] at hv
    obtain ⟨hx, hkx⟩ := above_place above hb x hv.1
    obtain ⟨hes, hkes⟩ := above_placeEntries hx (Nat.le_trans hb (size_le_place m x)) es hv.2
    exact ⟨hes, fun k hk => (List.mem_append.mp hk).elim (hkx k) (hkes k)⟩
end

/-- A placed value leads to nothing that was there before. -/
theorem hands_place (m : Memory) (h : v.isComplete = true) :
    m.Hands .null (m.place v).2 (m.place v).1 where
  size := (m.extends_place v).size
  kept n hn _ := (m.extends_place v).kept n hn
  reach n hn hw := by
    obtain ⟨above, hv⟩ := above_place m.above_size (Nat.le_refl _) v h
    have hle := le_of_leads above hv hw
    omega

end Memory

end TableAccess
