import TableAccess.Condition

/-! Condition mappings as they come, before they are read. `own` are the entries of a level,
`members` the mappings under its reserved key; `WellFormed` says what may stand there at every level,
and `Asks` that some level has an entry of its own. A mapping is read exactly when it is well-formed
(`ofEntries_ok_iff`), and what it is read as follows its levels (`tree_eq`). -/

namespace TableAccess

namespace Entries

open Condition

/-- The entries outside the reserved key. -/
def own (es : Entries) : Entries := es.filter fun e => e.1 != orKey

/-- The mappings among the items of a value. -/
def mappings (v : Value) : List Entries := (v.items?.getD []).filterMap Value.entries?

/-- The alternatives of a mapping: what it holds under the reserved key. -/
def members (es : Entries) : List Entries := mappings (es.get orKey)

/-- What may stand under the reserved key: null, or a list or tuple of mappings. -/
def IsAlternatives (v : Value) : Prop :=
  v = .null ∨ ∃ ms : List Entries, v = .list (ms.map .map) ∨ v = .tuple (ms.map .map)

/-- Every reserved key, at every level, holds what may stand there. -/
inductive WellFormed : Entries → Prop
  | intro {es : Entries} (shape : ∀ v, (orKey, v) ∈ es → IsAlternatives v)
      (inner : ∀ v, (orKey, v) ∈ es → ∀ m ∈ mappings v, WellFormed m) : WellFormed es

/-- Some level of a mapping has an entry of its own. -/
inductive Asks : Entries → Prop
  | own {es : Entries} {e : String × Value} : e ∈ es.own → Asks es
  | member {es m : Entries} : m ∈ es.members → Asks m → Asks es

theorem mem_of_get?_eq_some {es : Entries} {k : String} {v : Value} (h : es.get? k = some v) :
    (k, v) ∈ es := by
  simp only [get?, Option.map_eq_some_iff] at h
  obtain ⟨⟨k', v'⟩, hf, rfl⟩ := h
  have hk : k' = k := by simpa using List.find?_some hf
  exact hk ▸ List.mem_of_find?_eq_some hf

theorem exists_get?_of_has {es : Entries} {k : String} (h : es.has k = true) :
    ∃ v, es.get? k = some v := by
  obtain ⟨e, he, hk⟩ := List.any_eq_true.mp h
  rw [← Option.isSome_iff_exists, get?, Option.isSome_map, List.find?_isSome]
  exact ⟨e, he, hk⟩

theorem sizeOf_lt_of_mem_items {v x : Value} {xs : List Value} (h : v.items? = some xs)
    (hx : x ∈ xs) : sizeOf x < sizeOf v := by
  have hs := List.sizeOf_lt_of_mem hx
  cases v <;> simp only [Value.items?, reduceCtorEq, Option.some.injEq] at h
  all_goals
    subst h
    simp
    omega

theorem sizeOf_lt_of_mem_mappings {v : Value} {m : Entries} (h : m ∈ mappings v) :
    sizeOf m < sizeOf v := by
  obtain ⟨x, hx, hm⟩ := List.mem_filterMap.mp h
  cases hv : v.items? with
  | none => simp [hv] at hx
  | some xs =>
    have hs := sizeOf_lt_of_mem_items hv (by simpa [hv] using hx)
    cases x <;> simp only [Value.entries?, reduceCtorEq, Option.some.injEq] at hm
    subst hm
    simp at hs
    omega

theorem sizeOf_lt_of_mem {es m : Entries} {k : String} {v : Value} (hv : (k, v) ∈ es)
    (hm : m ∈ mappings v) : sizeOf m < sizeOf es := by
  have h₁ := sizeOf_lt_of_mem_mappings hm
  have h₂ := List.sizeOf_lt_of_mem hv
  simp at h₂
  omega

theorem mem_entry_of_mem_members {es m : Entries} (h : m ∈ es.members) :
    ∃ v, (orKey, v) ∈ es ∧ m ∈ mappings v := by
  unfold members get at h
  cases hg : es.get? orKey with
  | none => simp [hg, mappings, Value.items?] at h
  | some v => exact ⟨v, mem_of_get?_eq_some hg, by simpa [hg] using h⟩

theorem sizeOf_lt_of_mem_members {es m : Entries} (h : m ∈ es.members) :
    sizeOf m < sizeOf es := by
  obtain ⟨v, hv, hm⟩ := mem_entry_of_mem_members h
  exact sizeOf_lt_of_mem hv hm

end Entries

namespace Condition

open Entries

/-- The condition that a mapping is read as. -/
def tree (es : Entries) : Condition := (ofEntries? es).getD (.node [] [])

@[simp] theorem mappings_null : mappings .null = [] := rfl

@[simp] theorem mappings_list (ms : List Entries) : mappings (.list (ms.map .map)) = ms := by
  simp [mappings, Value.items?, List.filterMap_map, Function.comp_def, Value.entries?]

@[simp] theorem mappings_tuple (ms : List Entries) : mappings (.tuple (ms.map .map)) = ms := by
  simp [mappings, Value.items?, List.filterMap_map, Function.comp_def, Value.entries?]

theorem members?_map {ms : List Entries} (h : ∀ m ∈ ms, (ofEntries? m).isSome) :
    members? (ms.map .map) = some (ms.map tree) := by
  induction ms with
  | nil => rfl
  | cons m ms ih =>
    obtain ⟨c, hc⟩ := Option.isSome_iff_exists.mp (h m (by simp))
    have hr := ih fun m' hm => h m' (by simp [hm])
    simp only [List.map_cons, members?, hc, hr, tree, Option.getD_some]

theorem eq_map_of_members? {xs : List Value} {cs : List Condition} (h : members? xs = some cs) :
    ∃ ms : List Entries, xs = ms.map .map ∧ ∀ m ∈ ms, (ofEntries? m).isSome := by
  induction xs generalizing cs with
  | nil => exact ⟨[], rfl, by simp⟩
  | cons x xs ih =>
    cases x
    case map m =>
      cases hm : ofEntries? m with
      | none => simp [members?, hm] at h
      | some c =>
        cases hr : members? xs with
        | none => simp [members?, hm, hr] at h
        | some rest =>
          obtain ⟨ms, rfl, hall⟩ := ih hr
          exact ⟨m :: ms, rfl, by simpa [hm] using hall⟩
    all_goals simp [members?] at h

theorem alternatives?_eq {v : Value} (hv : IsAlternatives v)
    (h : ∀ m ∈ mappings v, (ofEntries? m).isSome) :
    alternatives? v = some ((mappings v).map tree) := by
  obtain rfl | ⟨ms, rfl | rfl⟩ := hv
  · rfl
  · rw [mappings_list] at h ⊢
    exact members?_map h
  · rw [mappings_tuple] at h ⊢
    exact members?_map h

theorem isAlternatives_of_alternatives? {v : Value} {cs : List Condition}
    (h : alternatives? v = some cs) :
    IsAlternatives v ∧ ∀ m ∈ mappings v, (ofEntries? m).isSome := by
  cases v
  case null => exact ⟨.inl rfl, by simp⟩
  case list xs =>
    obtain ⟨ms, rfl, hall⟩ := eq_map_of_members? h
    exact ⟨.inr ⟨ms, .inl rfl⟩, by simpa using hall⟩
  case tuple xs =>
    obtain ⟨ms, rfl, hall⟩ := eq_map_of_members? h
    exact ⟨.inr ⟨ms, .inr rfl⟩, by simpa using hall⟩
  all_goals simp [alternatives?] at h

/-- What is read of a mapping, level by level. Entries under the reserved key behind the first are
read as well, but nothing is made of them. -/
theorem ofEntries?_eq {es : Entries}
    (h : ∀ v, (orKey, v) ∈ es → IsAlternatives v ∧ ∀ m ∈ mappings v, (ofEntries? m).isSome) :
    ofEntries? es = some (.node es.own (es.members.map tree)) := by
  induction es with
  | nil => rfl
  | cons e rest ih =>
    obtain ⟨k, v⟩ := e
    have hr := ih fun v' hv' => h v' (by simp [hv'])
    by_cases hk : k = orKey
    · subst hk
      obtain ⟨hv, hm⟩ := h v (by simp)
      rw [ofEntries?, if_pos rfl, alternatives?_eq hv hm, hr]
      simp [own, members, Entries.get, Entries.get?]
    · rw [ofEntries?, if_neg hk, hr]
      simp [own, members, Entries.get, Entries.get?, hk]

theorem readable_of_ofEntries? {es : Entries} {c : Condition} (h : ofEntries? es = some c) :
    ∀ v, (orKey, v) ∈ es → IsAlternatives v ∧ ∀ m ∈ mappings v, (ofEntries? m).isSome := by
  induction es generalizing c with
  | nil => simp
  | cons e rest ih =>
    obtain ⟨k, x⟩ := e
    rw [ofEntries?] at h
    cases hr : ofEntries? rest with
    | none => split at h <;> simp_all
    | some d =>
      intro v hv
      obtain hv | hv := List.mem_cons.mp hv
      · obtain ⟨rfl, rfl⟩ := Prod.mk.inj hv
        cases ha : alternatives? v with
        | none => simp [ha] at h
        | some cs => exact isAlternatives_of_alternatives? ha
      · exact ih hr v hv

theorem wellFormed_of_isSome (es : Entries) (h : (ofEntries? es).isSome) : WellFormed es := by
  obtain ⟨c, hc⟩ := Option.isSome_iff_exists.mp h
  have hr := readable_of_ofEntries? hc
  exact .intro (fun v hv => (hr v hv).1) fun v hv m hm =>
    have := sizeOf_lt_of_mem hv hm
    wellFormed_of_isSome m ((hr v hv).2 m hm)
termination_by sizeOf es

theorem isSome_of_wellFormed {es : Entries} (h : WellFormed es) : (ofEntries? es).isSome := by
  induction h with
  | intro shape inner ih =>
    rw [ofEntries?_eq fun v hv => ⟨shape v hv, ih v hv⟩]
    rfl

theorem ofEntries?_wellFormed {es : Entries} (h : WellFormed es) :
    ofEntries? es = some (.node es.own (es.members.map tree)) := by
  obtain ⟨c, hc⟩ := Option.isSome_iff_exists.mp (isSome_of_wellFormed h)
  exact ofEntries?_eq (readable_of_ofEntries? hc)

theorem tree_eq {es : Entries} (h : WellFormed es) :
    tree es = .node es.own (es.members.map tree) := by
  rw [tree, ofEntries?_wellFormed h, Option.getD_some]

theorem ofEntries_ok_iff {es : Entries} {c : Condition} :
    ofEntries es = .ok c ↔ WellFormed es ∧ c = tree es := by
  unfold ofEntries
  cases h : ofEntries? es with
  | none =>
    have : ¬ WellFormed es := fun hw => by simpa [h] using isSome_of_wellFormed hw
    simp [this]
  | some d =>
    have : WellFormed es := wellFormed_of_isSome es (by simp [h])
    simp [this, tree, h, eq_comm]

theorem ofEntries_error {es : Entries} (h : ¬ WellFormed es) :
    ofEntries es = .error (.invalidFormat orKey) := by
  unfold ofEntries
  cases hc : ofEntries? es with
  | none => rfl
  | some c => exact absurd (wellFormed_of_isSome es (by simp [hc])) h

end Condition

end TableAccess
