import TableAccess.Proofs.Collection.Attachment
import TableAccess.Proofs.Session.Frame

/-! The making of collections. `construct` makes one over any backend whatever, and a session that makes
one over one of its own objects does that (`newCollection_eq`). When it fails, no registry and no
collection is another than before; when it succeeds, there is one collection more, and the registry that
was named, if one was, has it under the name of its table (`construct_cases`). -/

namespace TableAccess

namespace Session

/-- Attaches a collection that nobody has seen yet, unless it goes without a backend. -/
def attached (c : Collection World) (attachment? : Option (Attachment World)) :
    Act Session (Collection World) :=
  match attachment? with
  | none => pure c
  | some attachment => do
    match ← onWorld (fun w => let (r, w) := c.attach attachment w; (.ok r, w)) with
    | (c, none) => pure c
    | (_, some e) => throw e

/-- Adds a collection to those that are there, after it was registered where that was asked for. -/
def enlisted (name : String) (c : Collection World) (registryValue : Value) : Act Session Value := do
  let i := (← get).collections.length
  if !registryValue.isNull then
    let r ← registryNumber registryValue
    setRegistry r ((← registry r).register name i)
  modify fun s => { s with collections := s.collections ++ [c] }
  intern (.collection i)

/-- Makes a collection over any backend, or over none. -/
def construct (table : Value) (attachment? : Option (Attachment World)) (registryValue : Value) :
    Act Session Value := do
  let name ← Act.settle (Collection.tableName (← valueOf table))
  enlisted name (← attached (Collection.bare name) attachment?) registryValue

variable {s t u : Session}

theorem attached_cases (c : Collection World) (attachment? : Option (Attachment World)) (s : Session) :
    (∃ d u, attached c attachment? s = (.ok d, u) ∧ d.table = c.table ∧ Framed s u) ∨
      ∃ e u, attached c attachment? s = (.error e, u) ∧ Framed s u := by
  cases attachment? with
  | none => exact .inl ⟨c, s, rfl, rfl, .refl s⟩
  | some attachment =>
    obtain ⟨r, w, hgive⟩ : ∃ r w, attachment.give c.table s.world = (r, w) := ⟨_, _, rfl⟩
    obtain ⟨d, e?, hattach, htable⟩ : ∃ d e?, c.attach attachment s.world = ((d, e?), w) ∧
        d.table = c.table := ⟨_, _, c.attach_run attachment hgive, rfl⟩
    let step : Act World (Collection World × Option Failure) := fun w =>
      let (r, w) := c.attach attachment w
      (.ok r, w)
    have hstep : step s.world = (.ok (d, e?), w) := by
      simp only [step, hattach]
    obtain ⟨u, hrun, hframed⟩ := onWorld_run hstep
    have hattached : attached c (some attachment) s =
        (match e? with | none => .ok d | some e => .error e, u) := by
      refine (Act.bind_ok hrun).trans ?_
      cases e? <;> rfl
    cases e? with
    | none => exact .inl ⟨d, u, hattached, htable, hframed⟩
    | some e => exact .inr ⟨e, u, hattached, hframed⟩

/-- What has become of a session in which a collection was added under the name of its table. -/
structure Enlisted (name : String) (c : Collection World) (registryValue : Value) (s : Session)
    (v : Value) (u : Session) : Prop where
  collections : u.collections = s.collections ++ [c]
  later : Later s u
  leads : u.thing? v = some (.collection s.collections.length)
  registries : registryValue.isNull = true ∧ u.registries = s.registries ∨
    ∃ j r, s.thing? registryValue = some (.registry j) ∧ s.registries[j]? = some r ∧
      u.registries = s.registries.set j (r.register name s.collections.length)

theorem enlisted_cases (sound : Sound s) (name : String) (c : Collection World) (registryValue : Value) :
    (∃ e, enlisted name c registryValue s = (.error e, s)) ∨
      ∃ v u, enlisted name c registryValue s = (.ok v, u) ∧ Enlisted name c registryValue s v u := by
  have hadded : ∀ t, Later s t → t.collections = s.collections →
      ∃ v u, (do
        modify fun t : Session => { t with collections := t.collections ++ [c] }
        intern (.collection s.collections.length) : Act Session Value) t = (.ok v, u) ∧
        u.collections = s.collections ++ [c] ∧ Later s u ∧
          u.thing? v = some (.collection s.collections.length) ∧ u.registries = t.registries := by
    intro t hlater hcollections
    let added : Session := { t with collections := t.collections ++ [c] }
    have hsound : Sound added := ⟨hlater.sound.numbers, hlater.sound.objects, hlater.sound.known⟩
    obtain ⟨v, u, hrun, hmet⟩ := intern_run hsound (.collection s.collections.length)
    refine ⟨v, u, hrun, hmet.kept.collections.trans (congrArg (· ++ [c]) hcollections), ?_, hmet.leads,
      hmet.kept.registries⟩
    have hmore := hmet.kept.later
    exact ⟨hmore.sound, fun w x hx => hmore.things w x (hlater.things w x hx)⟩
  unfold enlisted
  rw [Act.bind_ok (Act.get_run s)]
  cases hnull : registryValue.isNull with
  | true =>
    obtain ⟨v, u, hrun, hcollections, hlater, hleads, hregistries⟩ := hadded s (.refl sound) rfl
    exact .inr ⟨v, u, hrun, hcollections, hlater, hleads, .inl ⟨hnull, hregistries⟩⟩
  | false =>
    simp only [Bool.not_false, if_true]
    rcases registryNumber_cases registryValue s with ⟨j, hj, hnumber⟩ | ⟨-, hnumber⟩
    · rw [Act.bind_ok hnumber]
      cases hr : s.registries[j]? with
      | none => exact .inl ⟨.noMember, Act.bind_error (by rw [registry_run, hr])⟩
      | some r =>
        have hregistry : registry j s = (.ok r, s) := by rw [registry_run, hr]
        obtain ⟨t, hset, hregistries, hcollections, hlater⟩ :=
          setRegistry_run sound j (r.register name s.collections.length)
        obtain ⟨v, u, hrun, hmore, hlater', hleads, hkept⟩ := hadded t hlater hcollections
        refine .inr ⟨v, u, ?_, hmore, hlater', hleads, .inr ⟨j, r, hj, hr, hkept.trans hregistries⟩⟩
        rw [Act.bind_ok hregistry, Act.bind_ok hset]
        exact hrun
    · exact .inl ⟨.noMember, Act.bind_error hnumber⟩

theorem Enlisted.of_framed {name : String} {c : Collection World} {registryValue v : Value}
    (h : Framed s t) (sound : Sound s) (e : Enlisted name c registryValue t v u) :
    Enlisted name c registryValue s v u where
  collections := h.collections ▸ e.collections
  later := (h.later sound).trans e.later
  leads := h.collections ▸ e.leads
  registries := by
    have hregistries := e.registries
    rwa [h.registries, h.collections, h.thing?] at hregistries

theorem tableName_eq_ok {v : Value} {name : String} (h : Collection.tableName v = .ok name) :
    v.text? = some name := by
  unfold Collection.tableName at h
  split at h
  next htext =>
    split at h
    · contradiction
    · rw [htext, Except.ok.inj h]
  next => split at h <;> contradiction

/-- A collection that is not made leaves all others and every registry as they were. One that is made is
the next, under the name that was passed for its table. -/
theorem construct_cases (sound : Sound s) (table : Value) (attachment? : Option (Attachment World))
    (registryValue : Value) :
    (∃ e u, construct table attachment? registryValue s = (.error e, u) ∧ Framed s u) ∨
      ∃ name c v u, construct table attachment? registryValue s = (.ok v, u) ∧
        (s.read table).text? = some name ∧ c.table = name ∧ Enlisted name c registryValue s v u := by
  unfold construct
  rw [Act.bind_ok (valueOf_run table s)]
  cases hname : Collection.tableName (s.read table) with
  | error e => exact .inl ⟨e, s, Act.bind_error (Act.settle_run _ s), .refl s⟩
  | ok name =>
    rw [Act.settle_ok_bind]
    rcases attached_cases (.bare name) attachment? s with
      ⟨c, t, hrun, htable, hframed⟩ | ⟨e, t, hrun, hframed⟩
    · rw [Act.bind_ok hrun]
      rcases enlisted_cases (hframed.sound sound) name c registryValue with
        ⟨e, herror⟩ | ⟨v, u, hok, henlisted⟩
      · exact .inl ⟨e, t, herror, hframed⟩
      · exact .inr ⟨name, c, v, u, hok, tableName_eq_ok hname, htable, henlisted.of_framed hframed sound⟩
    · exact .inl ⟨e, t, Act.bind_error hrun, hframed⟩

end Session

end TableAccess
