import Mathlib.Data.List.Nodup
import TableAccess.Proofs.Act
import TableAccess.Proofs.Memory.Reading
import TableAccess.Session

/-! What the steps of a session leave as it was. Steps on the world and on the memory, and bringing the
memory up to date, touch no registry, no collection and no object that has been met (`Framed`). Meeting
an object gives it a number of its own, and from then on its number leads to it (`Met`), as long as
numbers and objects are paired off (`Sound`). -/

namespace TableAccess

namespace Session

/-- A later session in which only the world and the memory may be others, and nothing is forgotten. -/
structure Framed (s u : Session) : Prop where
  registries : u.registries = s.registries
  collections : u.collections = s.collections
  things : u.things = s.things
  size : s.stage.memory.size ≤ u.stage.memory.size

/-- Every object that has been met has one number, which the memory knows. -/
structure Sound (s : Session) : Prop where
  numbers : (s.things.map (·.1)).Nodup
  objects : (s.things.map (·.2)).Nodup
  known : ∀ e ∈ s.things, e.1 < s.stage.memory.size

theorem Sound.empty : Sound .empty where
  numbers := List.nodup_nil
  objects := List.nodup_nil
  known := by simp [Session.empty]

variable {s u w : Session} {v : Value} {t : Thing}

namespace Framed

theorem refl (s : Session) : Framed s s := ⟨rfl, rfl, rfl, Nat.le_refl _⟩

theorem trans (h : Framed s u) (h' : Framed u w) : Framed s w where
  registries := h'.registries.trans h.registries
  collections := h'.collections.trans h.collections
  things := h'.things.trans h.things
  size := Nat.le_trans h.size h'.size

theorem thing? (h : Framed s u) (v : Value) : u.thing? v = s.thing? v := by
  unfold Session.thing?
  rw [h.things]

theorem sound (h : Framed s u) (sound : Sound s) : Sound u where
  numbers := h.things ▸ sound.numbers
  objects := h.things ▸ sound.objects
  known := h.things ▸ fun e he => Nat.lt_of_lt_of_le (sound.known e he) h.size

end Framed

theorem onWorld_run {α : Type} {step : Act World α} {r : Except Failure α} {o : World}
    (h : step s.world = (r, o)) : ∃ u, (onWorld step : Act Session α) s = (r, u) ∧ Framed s u := by
  refine ⟨{ s with stage := { s.stage with outside := (step s.world).2 } }, ?_, rfl, rfl, rfl,
    Nat.le_refl _⟩
  exact congrArg (fun p => (p.1, { s with stage := { s.stage with outside := (step s.world).2 } })) h

/-- The session with a value in its memory. -/
def placed (s : Session) (v : Value) : Session :=
  { s with stage := { s.stage with memory := (s.stage.memory.place v).2 } }

theorem place_run (v : Value) (s : Session) : (onStage (Stage.place v) : Act Session Value) s =
    (.ok (s.stage.memory.place v).1, s.placed v) := rfl

theorem placed_framed (s : Session) (v : Value) : Framed s (s.placed v) :=
  ⟨rfl, rfl, rfl, Memory.size_le_place _ v⟩

theorem size_put (m : Memory) (n : Nat) (v : Value) : (m.put n v).size = m.size := List.length_set

theorem refreshed_framed (s : Session) : Framed s s.refreshed := by
  -- each object is written into the memory in turn, beside those that have been written already
  have hall : ∀ (es : List (Nat × Thing)) (u : Session), Framed u (es.foldl (fun s e =>
      { s with stage := { s.stage with memory := s.stage.memory.put e.1 (s.appearance e.1 e.2) } }) u) := by
    intro es
    induction es with
    | nil => exact .refl
    | cons e es ih =>
      intro u
      rw [List.foldl_cons]
      refine .trans ?_ (ih _)
      exact ⟨rfl, rfl, rfl, Nat.le_of_eq (size_put _ _ _).symm⟩
  exact hall s.things s

/-! ### Steps that look something up -/

theorem valueOf_run (v : Value) (s : Session) : valueOf v s = (.ok (s.read v), s) := rfl

theorem thing_run (v : Value) (s : Session) :
    thing v s = (match s.thing? v with | some t => .ok t | none => .error .noMember, s) := by
  rw [thing, Act.bind_ok (Act.get_run s)]
  cases s.thing? v <;> rfl

theorem registry_run (i : Nat) (s : Session) :
    registry i s = (match s.registries[i]? with | some r => .ok r | none => .error .noMember, s) := by
  rw [registry, Act.bind_ok (Act.get_run s)]
  cases s.registries[i]? <;> rfl

theorem collection_run (i : Nat) (s : Session) :
    collection i s = (match s.collections[i]? with | some c => .ok c | none => .error .noMember, s) := by
  rw [collection, Act.bind_ok (Act.get_run s)]
  cases s.collections[i]? <;> rfl

theorem registryNumber_cases (v : Value) (s : Session) :
    (∃ i, s.thing? v = some (.registry i) ∧ registryNumber v s = (.ok i, s)) ∨
      ((∀ i, s.thing? v ≠ some (.registry i)) ∧ registryNumber v s = (.error .noMember, s)) := by
  cases h : s.thing? v with
  | none => exact .inr ⟨nofun, Act.bind_error (by rw [thing_run, h])⟩
  | some t =>
    have hrun : thing v s = (.ok t, s) := by rw [thing_run, h]
    cases t with
    | registry i => exact .inl ⟨i, rfl, Act.bind_ok hrun⟩
    | _ => exact .inr ⟨nofun, Act.bind_ok hrun⟩

theorem collectionNumber_cases (v : Value) (s : Session) :
    (∃ i, s.thing? v = some (.collection i) ∧ collectionNumber v s = (.ok i, s)) ∨
      ((∀ i, s.thing? v ≠ some (.collection i)) ∧ collectionNumber v s = (.error .noMember, s)) := by
  cases h : s.thing? v with
  | none => exact .inr ⟨nofun, Act.bind_error (by rw [thing_run, h])⟩
  | some t =>
    have hrun : thing v s = (.ok t, s) := by rw [thing_run, h]
    cases t with
    | collection i => exact .inl ⟨i, rfl, Act.bind_ok hrun⟩
    | _ => exact .inr ⟨nofun, Act.bind_ok hrun⟩

/-! ### Objects that are met -/

theorem find?_fst_eq_some_iff {things : List (Nat × Thing)} (distinct : (things.map (·.1)).Nodup)
    {n : Nat} : (things.find? fun e => e.1 == n).map (·.2) = some t ↔ (n, t) ∈ things := by
  induction things with
  | nil => simp
  | cons e things ih =>
    obtain ⟨hnot, hrest⟩ := List.nodup_cons.mp distinct
    by_cases h : e.1 = n
    · have hothers : (n, t) ∉ things := fun hm => hnot (List.mem_map.mpr ⟨_, hm, h.symm⟩)
      rw [List.find?_cons_of_pos (by simpa using h), List.mem_cons, or_iff_left hothers, Option.map_some,
        Option.some.injEq, ← h, Prod.ext_iff]
      simp [eq_comm]
    · have hne : (n, t) ≠ e := fun he => h (he ▸ rfl)
      rw [List.find?_cons_of_neg (by simpa using h), ih hrest, List.mem_cons, or_iff_right hne]

theorem thing?_eq_some_iff (sound : Sound s) :
    s.thing? v = some t ↔ ∃ n, v = .reference n ∧ (n, t) ∈ s.things := by
  cases v with
  | reference n =>
    have hfind : s.thing? (.reference n) = (s.things.find? fun e => e.1 == n).map (·.2) := rfl
    rw [hfind, find?_fst_eq_some_iff sound.numbers]
    simp
  | _ => simp [thing?]

/-- A later session, in which the numbers of objects still lead to them. -/
structure Later (s u : Session) : Prop where
  sound : Sound u
  things : ∀ v t, s.thing? v = some t → u.thing? v = some t

theorem Later.refl (sound : Sound s) : Later s s := ⟨sound, fun _ _ h => h⟩

theorem Later.trans (h : Later s u) (h' : Later u w) : Later s w :=
  ⟨h'.sound, fun v t ht => h'.things v t (h.things v t ht)⟩

theorem Framed.later (h : Framed s u) (sound : Sound s) : Later s u :=
  ⟨h.sound sound, fun v _ ht => (h.thing? v).trans ht⟩

theorem setRegistry_run (sound : Sound s) (i : Nat) (r : Registry Nat) :
    ∃ u, setRegistry i r s = (.ok (), u) ∧ u.registries = s.registries.set i r ∧
      u.collections = s.collections ∧ Later s u := by
  let set : Session := { s with registries := s.registries.set i r }
  have hset : Sound set := ⟨sound.numbers, sound.objects, sound.known⟩
  have hframed := refreshed_framed set
  exact ⟨set.refreshed, rfl, hframed.registries, hframed.collections, hframed.sound hset,
    fun v t ht => (hframed.thing? v).trans ht⟩

/-- An object that is met for the first time gets the next number. -/
theorem met_sound (sound : Sound s) (hnew : t ∉ s.things.map (·.2)) (cell : Value) :
    Sound { s with
      stage := { s.stage with memory := (s.stage.memory.store cell).2 }
      things := s.things ++ [(s.stage.memory.size, t)] } where
  numbers := by
    have hnumber : s.stage.memory.size ∉ s.things.map (·.1) := by
      intro hm
      obtain ⟨e, he, hsize⟩ := List.mem_map.mp hm
      exact absurd (sound.known e he) (by omega)
    rw [List.map_append]
    exact List.nodup_append_comm.mp (List.nodup_cons.mpr ⟨hnumber, sound.numbers⟩)
  objects := by
    rw [List.map_append]
    exact List.nodup_append_comm.mp (List.nodup_cons.mpr ⟨hnew, sound.objects⟩)
  known := by
    have hsize : (s.stage.memory.store cell).2.size = s.stage.memory.size + 1 := by
      simp [Memory.size]
    rw [List.forall_mem_append, List.forall_mem_singleton, hsize]
    exact ⟨fun e he => Nat.lt_succ_of_lt (sound.known e he), Nat.lt_succ_self _⟩

/-- A later session with the same registries and collections. -/
structure Kept (s u : Session) : Prop where
  registries : u.registries = s.registries
  collections : u.collections = s.collections
  later : Later s u

theorem Kept.refl (sound : Sound s) : Kept s s := ⟨rfl, rfl, .refl sound⟩

theorem Framed.kept (h : Framed s u) (sound : Sound s) : Kept s u :=
  ⟨h.registries, h.collections, h.later sound⟩

theorem Kept.trans (h : Kept s u) (h' : Kept u w) : Kept s w :=
  ⟨h'.registries.trans h.registries, h'.collections.trans h.collections, h.later.trans h'.later⟩

/-- An object that has been met is given under the number that it has. -/
theorem intern_of_thing? (sound : Sound s) (h : s.thing? v = some t) : intern t s = (.ok v, s) := by
  obtain ⟨n, rfl, hn⟩ := (thing?_eq_some_iff sound).mp h
  obtain ⟨e, hfind⟩ : ∃ e, s.things.find? (fun e => e.2 == t) = some e :=
    Option.isSome_iff_exists.mp (List.find?_isSome.mpr ⟨_, hn, beq_self_eq_true t⟩)
  have hobject : e.2 = t := by simpa using List.find?_some hfind
  have hsame : e = (n, t) :=
    List.inj_on_of_nodup_map sound.objects (List.mem_of_find?_eq_some hfind) hn hobject
  simp only [intern, Act.bind_run, Act.get_run, hfind, hsame]
  rfl

/-- What meeting an object comes to: nothing else has changed, and the value that is given leads to the
object. -/
structure Met (s : Session) (t : Thing) (v : Value) (u : Session) : Prop where
  kept : Kept s u
  leads : u.thing? v = some t

theorem intern_run (sound : Sound s) (t : Thing) : ∃ v u, intern t s = (.ok v, u) ∧ Met s t v u := by
  by_cases hmet : ∃ v, s.thing? v = some t
  · obtain ⟨v, hv⟩ := hmet
    exact ⟨v, s, intern_of_thing? sound hv, .refl sound, hv⟩
  · have hnew : t ∉ s.things.map (·.2) := by
      intro hm
      obtain ⟨e, he, hobject⟩ := List.mem_map.mp hm
      exact hmet ⟨.reference e.1, (thing?_eq_some_iff sound).mpr ⟨e.1, rfl, hobject ▸ he⟩⟩
    have hfind : s.things.find? (fun e => e.2 == t) = none :=
      List.find?_eq_none.mpr fun e he => by simpa using fun h => hnew (List.mem_map.mpr ⟨e, he, h⟩)
    let met : Session := { s with
      stage := { s.stage with memory := (s.stage.memory.store .null).2 }
      things := s.things ++ [(s.stage.memory.size, t)] }
    have hsound : Sound met := met_sound sound hnew .null
    have hframed := refreshed_framed met
    refine ⟨.reference s.stage.memory.size, met.refreshed, ?_,
      ⟨hframed.registries, hframed.collections, hframed.sound hsound, fun v t' ht => ?_⟩, ?_⟩
    · simp only [intern, Act.bind_run, Act.get_run, hfind]
      rfl
    · obtain ⟨n, rfl, hn⟩ := (thing?_eq_some_iff sound).mp ht
      rw [hframed.thing?]
      exact (thing?_eq_some_iff hsound).mpr ⟨n, rfl, List.mem_append_left _ hn⟩
    · rw [hframed.thing?]
      exact (thing?_eq_some_iff hsound).mpr ⟨_, rfl, by simp [met]⟩

end Session

end TableAccess
