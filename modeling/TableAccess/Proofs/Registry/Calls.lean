import TableAccess.Proofs.Memory.Reading
import TableAccess.Proofs.Registry.Names
import TableAccess.Proofs.Session.Frame

/-! Calls of a registry. Each of its methods looks up what it needs and may fail there, and only then does
what it does: registering and unregistering put another registry in its place, meeting a collection gives
the number of that collection, and the other methods leave everything as it was. A call that fails, of
whatever method and with whatever arguments, leaves all registries as they were (`call_cases`). -/

namespace TableAccess

namespace Session

/-- The table of the collection that a value leads to. -/
def tableOf? (s : Session) (v : Value) : Option String :=
  match s.thing? v with
  | some (.collection n) => s.collections[n]?.map (·.table)
  | _ => none

/-! ### The methods of a registry -/

def registering (i : Nat) (v : Value) : Act Session Called := do
  let n ← collectionNumber v
  setRegistry i ((← registry i).register (← collection n).table n)
  return .value .null

def unregistering (i : Nat) (v : Value) : Act Session Called := do
  let name ← valueOf v
  let (r, present) ← Act.settle ((← registry i).unregister name)
  setRegistry i r
  return .value (.bool present)

def modeling (i : Nat) (v : Value) : Act Session Called := do
  let n ← Act.settle ((← registry i).model (← valueOf v))
  return .value (← intern (.collection n))

def naming (i : Nat) : Act Session Called := do
  let names := (← registry i).names.map .text
  return .value (← onStage (Stage.place (.list names)))

def containing (i : Nat) (v : Value) : Act Session Called := do
  let name ← valueOf v
  return .value (.bool (← Act.settle ((← registry i).contains name)))

def counting (i : Nat) : Act Session Called := do return .value (.ofNat (← registry i).size)

/-- The methods of a registry by their names, with what they do with their first argument. -/
inductive Serves (i : Nat) : String → Method → Prop
  | registering : Serves i "register"
      ⟨[.required "collection"], fun values => registering i (values.headD .null)⟩
  | unregistering : Serves i "unregister"
      ⟨[.required "name"], fun values => unregistering i (values.headD .null)⟩
  | modeling : Serves i "get_model"
      ⟨[.required "name"], fun values => modeling i (values.headD .null)⟩
  | naming : Serves i "names" ⟨[], fun _ => naming i⟩
  | containing : Serves i "__contains__"
      ⟨[.required "name"], fun values => containing i (values.headD .null)⟩
  | counting : Serves i "__len__" ⟨[], fun _ => counting i⟩

theorem serves_of_registryMethod? {i : Nat} {name : String} {m : Method}
    (h : registryMethod? i name = some m) : Serves i name m := by
  unfold registryMethod? at h
  split at h
  · exact Option.some.inj h ▸ .registering
  · exact Option.some.inj h ▸ .unregistering
  · exact Option.some.inj h ▸ .modeling
  · exact Option.some.inj h ▸ .naming
  · exact Option.some.inj h ▸ .containing
  · exact Option.some.inj h ▸ .counting
  · contradiction

variable {s t u : Session} {i : Nat} {v : Value} {r : Registry Nat}

theorem registry_run_of (h : s.registries[i]? = some r) : registry i s = (.ok r, s) := by
  rw [registry_run, h]

theorem tableOf?_eq_some_iff {name : String} : s.tableOf? v = some name ↔
    ∃ n c, s.thing? v = some (.collection n) ∧ s.collections[n]? = some c ∧ c.table = name := by
  unfold tableOf?
  split
  next n hn =>
    rw [hn, Option.map_eq_some_iff]
    simp
  next hn => exact ⟨nofun, fun ⟨n, _, hmet, _⟩ => (hn n hmet).elim⟩

theorem registering_cases (sound : Sound s) (h : s.registries[i]? = some r) (v : Value) :
    (s.tableOf? v = none ∧ registering i v s = (.error .noMember, s)) ∨
      ∃ n name u, s.thing? v = some (.collection n) ∧ s.tableOf? v = some name ∧
        registering i v s = (.ok (.value .null), u) ∧
        u.registries = s.registries.set i (r.register name n) ∧ u.collections = s.collections ∧
        Later s u := by
  unfold registering
  rcases collectionNumber_cases v s with ⟨n, hn, hrun⟩ | ⟨hnone, hrun⟩
  · rw [Act.bind_ok hrun, Act.bind_ok (registry_run_of h)]
    cases hc : s.collections[n]? with
    | none =>
      refine .inl ⟨?_, Act.bind_error (by rw [collection_run, hc])⟩
      rw [tableOf?, hn]
      exact congrArg (Option.map (·.table)) hc
    | some c =>
      have hcollection : collection n s = (.ok c, s) := by rw [collection_run, hc]
      obtain ⟨u, hset, hregistries, hcollections, hlater⟩ :=
        setRegistry_run sound i (r.register c.table n)
      refine .inr ⟨n, c.table, u, hn, tableOf?_eq_some_iff.mpr ⟨n, c, hn, hc, rfl⟩, ?_, hregistries,
        hcollections, hlater⟩
      rw [Act.bind_ok hcollection, Act.bind_ok hset]
      rfl
  · refine .inl ⟨Option.eq_none_iff_forall_ne_some.mpr fun name hname => ?_, Act.bind_error hrun⟩
    obtain ⟨n, _, hn, -⟩ := tableOf?_eq_some_iff.mp hname
    exact hnone n hn

theorem unregistering_cases (sound : Sound s) (h : s.registries[i]? = some r) (v : Value) :
    (∃ e, r.unregister (s.read v) = .error e ∧ unregistering i v s = (.error e, s)) ∨
      ∃ r' present u, r.unregister (s.read v) = .ok (r', present) ∧
        unregistering i v s = (.ok (.value (.bool present)), u) ∧
        u.registries = s.registries.set i r' ∧ u.collections = s.collections ∧ Later s u := by
  unfold unregistering
  rw [Act.bind_ok (valueOf_run v s), Act.bind_ok (registry_run_of h)]
  cases hunregister : r.unregister (s.read v) with
  | error e => exact .inl ⟨e, rfl, Act.bind_error (Act.settle_run _ s)⟩
  | ok result =>
    obtain ⟨r', present⟩ := result
    obtain ⟨u, hset, hregistries, hcollections, hlater⟩ := setRegistry_run sound i r'
    refine .inr ⟨r', present, u, rfl, ?_, hregistries, hcollections, hlater⟩
    rw [Act.settle_ok_bind]
    exact (Act.bind_ok hset).trans rfl

theorem modeling_error (h : s.registries[i]? = some r) {e : Failure}
    (hmodel : r.model (s.read v) = .error e) : modeling i v s = (.error e, s) := by
  unfold modeling
  rw [Act.bind_ok (registry_run_of h), Act.bind_ok (valueOf_run v s), hmodel]
  exact Act.bind_error (Act.settle_run _ s)

theorem modeling_ok (h : s.registries[i]? = some r) {n : Nat} {w : Value}
    (hmodel : r.model (s.read v) = .ok n) (hintern : intern (.collection n) s = (.ok w, u)) :
    modeling i v s = (.ok (.value w), u) := by
  unfold modeling
  rw [Act.bind_ok (registry_run_of h), Act.bind_ok (valueOf_run v s), hmodel, Act.settle_ok_bind, Act.bind_ok hintern]
  rfl

theorem modeling_cases (sound : Sound s) (h : s.registries[i]? = some r) (v : Value) :
    (∃ e, modeling i v s = (.error e, s)) ∨
      ∃ n w u, modeling i v s = (.ok (.value w), u) ∧ Met s (.collection n) w u := by
  cases hmodel : r.model (s.read v) with
  | error e => exact .inl ⟨e, modeling_error h hmodel⟩
  | ok n =>
    obtain ⟨w, u, hintern, hmet⟩ := intern_run sound (.collection n)
    exact .inr ⟨n, w, u, modeling_ok h hmodel hintern, hmet⟩

theorem containing_run (h : s.registries[i]? = some r) (v : Value) :
    containing i v s = ((r.contains (s.read v)).map fun b => .value (.bool b), s) := by
  unfold containing
  rw [Act.bind_ok (valueOf_run v s), Act.bind_ok (registry_run_of h)]
  cases r.contains (s.read v) <;> rfl

theorem counting_run (h : s.registries[i]? = some r) :
    counting i s = (.ok (.value (.ofNat r.size)), s) := by
  unfold counting
  rw [Act.bind_ok (registry_run_of h)]
  rfl

theorem areComplete_texts (names : List String) : Value.areComplete (names.map .text) = true := by
  induction names with
  | nil => rfl
  | cons name names ih => simpa [Value.areComplete, Value.isComplete] using ih

/-- The names are given as a list of their own. -/
theorem naming_run (h : s.registries[i]? = some r) :
    ∃ w u, naming i s = (.ok (.value w), u) ∧ Framed s u ∧
      u.read w = .list (r.names.map .text) := by
  unfold naming
  rw [Act.bind_ok (registry_run_of h)]
  have hcomplete : (Value.list (r.names.map .text)).isComplete = true := by
    rw [Value.isComplete]
    exact areComplete_texts r.names
  exact ⟨_, _, Act.bind_ok (place_run _ s), placed_framed s _, Memory.read_place _ _ hcomplete⟩

/-! ### Calls by name -/

theorem arguments_cases (ps : List Parameter) (positional : List Value) (named : Entries) (s : Session) :
    (∃ e, arguments ps positional named s = (.error e, s)) ∨
      ∃ values u, arguments ps positional named s = (.ok values, u) ∧ Framed s u := by
  unfold arguments
  cases Parameter.bind ps positional named with
  | error e => exact .inl ⟨e, Act.bind_error (Act.settle_run _ s)⟩
  | ok values =>
    rw [Act.settle_ok_bind]
    have hplace : ∀ (values : List Value) (s : Session), ∃ placed u,
        (values.mapM fun v => onStage (Stage.place v) : Act Session (List Value)) s = (.ok placed, u) ∧
          Framed s u := by
      intro values
      induction values with
      | nil => exact fun s => ⟨[], s, rfl, .refl s⟩
      | cons v values ih =>
        intro s
        obtain ⟨rest, u, hrest, hframed⟩ := ih (s.placed v)
        refine ⟨(s.stage.memory.place v).1 :: rest, u, ?_, (placed_framed s v).trans hframed⟩
        rw [List.mapM_cons, Act.bind_ok (place_run v s), Act.bind_ok hrest]
        rfl
    exact .inr (hplace values s)

variable {ref : Value} {name : String} {m : Method}

/-- A call of a registry runs the method on the arguments. -/
theorem call_registry (href : s.thing? ref = some (.registry i)) (hm : registryMethod? i name = some m)
    (positional : List Value) (named : Entries) :
    call ref name positional named s = (arguments m.parameters positional named >>= m.run) s := by
  have hthing : thing ref s = (.ok (.registry i), s) := by rw [thing_run, href]
  have hmethod : method? (.registry i) name = some m := hm
  unfold call
  rw [Act.bind_ok hthing, hmethod]

/-- Only registering and unregistering change anything, and they do so when nothing can fail anymore. -/
theorem serves_cases (sound : Sound s) (h : s.registries[i]? = some r) (serves : Serves i name m)
    (values : List Value) :
    (∃ e, m.run values s = (.error e, s)) ∨
      ∃ called u, m.run values s = (.ok called, u) ∧
        (name ≠ "register" → name ≠ "unregister" → Kept s u) := by
  cases serves with
  | registering =>
    rcases registering_cases sound h (values.headD .null) with ⟨-, he⟩ | ⟨_, _, u, -, -, hok, -⟩
    · exact .inl ⟨_, he⟩
    · exact .inr ⟨_, u, hok, fun hne => absurd rfl hne⟩
  | unregistering =>
    rcases unregistering_cases sound h (values.headD .null) with ⟨e, -, he⟩ | ⟨_, _, u, -, hok, -⟩
    · exact .inl ⟨e, he⟩
    · exact .inr ⟨_, u, hok, fun _ hne => absurd rfl hne⟩
  | modeling =>
    rcases modeling_cases sound h (values.headD .null) with ⟨e, he⟩ | ⟨_, _, u, hok, hmet⟩
    · exact .inl ⟨e, he⟩
    · exact .inr ⟨_, u, hok, fun _ _ => hmet.kept⟩
  | naming =>
    obtain ⟨_, u, hok, hframed, -⟩ := naming_run h
    exact .inr ⟨_, u, hok, fun _ _ => hframed.kept sound⟩
  | containing =>
    have hrun := containing_run h (values.headD .null)
    cases hcontains : r.contains (s.read (values.headD .null)) with
    | error e =>
      rw [hcontains] at hrun
      exact .inl ⟨e, hrun⟩
    | ok b =>
      rw [hcontains] at hrun
      exact .inr ⟨_, s, hrun, fun _ _ => .refl sound⟩
  | counting => exact .inr ⟨_, s, counting_run h, fun _ _ => .refl sound⟩

/-- Whatever is called, and whatever is passed: a call that fails has changed no registry. -/
theorem call_cases (sound : Sound s) (href : s.thing? ref = some (.registry i))
    (h : s.registries[i]? = some r) (name : String) (positional : List Value) (named : Entries) :
    (∃ e u, call ref name positional named s = (.error e, u) ∧ Framed s u) ∨
      ∃ called u, call ref name positional named s = (.ok called, u) ∧
        (name ≠ "register" → name ≠ "unregister" → Kept s u) := by
  cases hm : registryMethod? i name with
  | none =>
    have hthing : thing ref s = (.ok (.registry i), s) := by rw [thing_run, href]
    have hmethod : method? (.registry i) name = none := hm
    refine .inl ⟨.noMember, s, ?_, .refl s⟩
    unfold call
    rw [Act.bind_ok hthing, hmethod]
    rfl
  | some m =>
    rw [call_registry href hm]
    rcases arguments_cases m.parameters positional named s with ⟨e, he⟩ | ⟨values, t, ht, hframed⟩
    · exact .inl ⟨e, s, Act.bind_error he, .refl s⟩
    · have hr : t.registries[i]? = some r := hframed.registries ▸ h
      rw [Act.bind_ok ht]
      rcases serves_cases (hframed.sound sound) hr (serves_of_registryMethod? hm) values with
        ⟨e, he⟩ | ⟨called, u, hok, hkept⟩
      · exact .inl ⟨e, t, he, hframed⟩
      · exact .inr ⟨called, u, hok, fun hne hne' => (hframed.kept sound).trans (hkept hne hne')⟩

end Session

end TableAccess
