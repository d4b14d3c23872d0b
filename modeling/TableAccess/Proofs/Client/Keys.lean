import TableAccess.Proofs.Client.Pooling
import TableAccess.Proofs.Value.Mapping

/-! What keys tell apart. Two orders have equal keys exactly if the sizes of their pools are equal and
under every name their settings match (`key_same_iff`): they are equal and stand in the key themselves, or of one
of them the key has the text only (`Confused`). So whoever is given a client that was
made for other settings has a setting that is confused with one of them (`keys_separate`), and a list and
its text are such settings (`list_confused`). -/

namespace TableAccess

namespace Value

theorem same_text_iff {v : Value} {s : String} : v.same (.text s) = true ↔ v = .text s := by
  cases v with
  | float x => cases x <;> simp [same, sameAtom, size?]
  | decimal x => cases x <;> simp [same, sameAtom, size?]
  | _ => simp [same, sameAtom, size?]

theorem text_same_iff {v : Value} {s : String} : (Value.text s).same v = true ↔ v = .text s := by
  cases v with
  | float x => cases x <;> simp [same, sameAtom, size?]
  | decimal x => cases x <;> simp [same, sameAtom, size?]
  | text t =>
    simp only [same, sameAtom, size?, beq_iff_eq, text.injEq]
    exact eq_comm
  | _ => simp [same, sameAtom, size?]

end Value

/-- Relations between lists whose last parts have the same length hold part by part. -/
theorem forall₂_append_iff {α β : Type} {r : α → β → Prop} {xs ys : List α} {xs' ys' : List β}
    (h : ys.length = ys'.length) :
    List.Forall₂ r (xs ++ ys) (xs' ++ ys') ↔ List.Forall₂ r xs xs' ∧ List.Forall₂ r ys ys' := by
  refine ⟨fun hall => ?_, fun hall => List.rel_append hall.1 hall.2⟩
  have hlength : xs.length = xs'.length := by
    have := hall.length_eq
    rw [List.length_append, List.length_append] at this
    omega
  have htake := List.forall₂_take_append _ _ _ hall
  have hdrop := List.forall₂_drop_append _ _ _ hall
  rw [← hlength] at htake hdrop
  rw [List.take_left] at htake
  rw [List.drop_left] at hdrop
  exact ⟨htake, hdrop⟩

namespace Client

/-- Settings that a key does not tell apart, of which it has the text of at least one. -/
inductive Confused : Value → Value → Prop
  | first {x : Value} (h : isSpelled x = true) : Confused x (.text x.toLiteral)
  | second {y : Value} (h : isSpelled y = true) : Confused (.text y.toLiteral) y
  | both {x y : Value} (hx : isSpelled x = true) (hy : isSpelled y = true)
      (h : x.toLiteral = y.toLiteral) : Confused x y

/-- Settings that a key does not tell apart. -/
def Match (x y : Value) : Prop :=
  (isSpelled x = false ∧ isSpelled y = false ∧ x.same y = true) ∨ Confused x y

@[simp]
theorem isSpelled_text (s : String) : isSpelled (.text s) = false := rfl

theorem isSpelled_of_confused {x y : Value} (h : Confused x y) :
    isSpelled x = true ∨ isSpelled y = true := by
  cases h with
  | first h => exact .inl h
  | second h => exact .inr h
  | both h => exact .inl h

theorem keyPart_same_iff (x y : Value) : (keyPart x).same (keyPart y) = true ↔ Match x y := by
  unfold keyPart Match
  cases hx : isSpelled x <;> cases hy : isSpelled y
  · have hnot : ¬ Confused x y := fun h => by simpa [hx, hy] using isSpelled_of_confused h
    simp [hnot]
  · rw [if_neg (by simp), if_pos rfl, Value.same_text_iff]
    constructor
    · rintro rfl
      exact .inr (.second hy)
    · rintro (h | h)
      · cases h.2.1
      · cases h with
        | first h => simp [h] at hx
        | second => rfl
        | both h => simp [h] at hx
  · rw [if_pos rfl, if_neg (by simp), Value.text_same_iff]
    constructor
    · rintro rfl
      exact .inr (.first hx)
    · rintro (h | h)
      · cases h.1
      · cases h with
        | first => rfl
        | second h => simp [h] at hy
        | both _ h => simp [h] at hy
  · rw [if_pos rfl, if_pos rfl, Value.text_same_iff]
    constructor
    · intro h
      exact .inr (.both hx hy (Value.text.inj h).symm)
    · rintro (h | h)
      · cases h.1
      · cases h with
        | first => simp at hy
        | second => simp at hx
        | both _ _ h => rw [h]

theorem setting_same_iff {a b : String} {x y : Value} :
    (Value.tuple [.text a, x]).same (.tuple [.text b, y]) = true ↔ a = b ∧ x.same y = true := by
  simp [Value.same, Value.sameAll, Value.sameAtom, Value.size?]

theorem settingsKey_same_iff {es fs : Entries} (distinct : es.keys.Nodup) (distinct' : fs.keys.Nodup) :
    List.Forall₂ (fun x y => Value.same x y = true) (settingsKey es) (settingsKey fs) ↔
      es.Related Match fs := by
  rw [← Entries.forall₂_sorted_iff distinct distinct', settingsKey, settingsKey,
    List.forall₂_map_left_iff, List.forall₂_map_right_iff]
  simp only [setting_same_iff, keyPart_same_iff]
  rfl

/-- What two orders have in common if they agree in the sizes of their pools. -/
structure Comparable (o o' : Order) : Prop where
  distinct : o.settings.keys.Nodup
  distinct' : o'.settings.keys.Nodup
  smallest : o.smallest.same o'.smallest = true
  largest : o.largest.same o'.largest = true

theorem key_same_iff {o o' : Order} (h : Comparable o o') :
    o.key.same o'.key = true ↔ o.settings.Related Match o'.settings := by
  rw [Order.key, Order.key, Value.same, Value.sameAll_iff, forall₂_append_iff (by simp),
    settingsKey_same_iff h.distinct h.distinct']
  refine and_iff_left ?_
  exact .cons (setting_same_iff.mpr ⟨rfl, h.smallest⟩)
    (.cons (setting_same_iff.mpr ⟨rfl, h.largest⟩) .nil)

/-- Settings that match and are not equal have one that is confused with another. -/
theorem confused_of_match {es fs : Entries} (distinct : es.keys.Nodup) (distinct' : fs.keys.Nodup)
    (h : es.Related Match fs) (unequal : (Value.map es).same (.map fs) = false) :
    ∃ name x y, es.get? name = some x ∧ fs.get? name = some y ∧ Confused x y ∧ x.same y = false := by
  by_contra hnone
  push Not at hnone
  have hequal : es.Related (fun x y => x.same y = true) fs := by
    intro name
    have hname := h name
    cases hx : es.get? name <;> cases hy : fs.get? name <;> rw [hx, hy] at hname
    · exact .none
    · cases hname
    · cases hname
    · cases hname with
      | some hmatch =>
        refine .some ?_
        rcases hmatch with hmatch | hconfused
        · exact hmatch.2.2
        · simpa using hnone name _ _ hx hy hconfused
  rw [(Value.same_map_iff distinct distinct').mpr hequal] at unequal
  cases unequal

/-- Whoever is given a client that was made before has asked for it with an equal key. -/
theorem key_same_of_given {o o' : Order} {w u v z : World} {ts : List Turn} {id : Nat} (h : Orderly w)
    (first : shared o w = (.ok id, u)) (later : History u ts v)
    (second : shared o' v = (.ok id, z)) : o.key.same o'.key = true := by
  obtain ⟨hu, -, -, k, hm, hk⟩ := shared_cached h first
  obtain ⟨hv, honward⟩ := later.orderly_onward hu
  obtain ⟨hz, hvz, -, k', hm', hk'⟩ := shared_cached hv second
  have hkept := honward.key id k (hu.cached _ hm).2
  obtain rfl : k = k' :=
    Option.some.inj ((hvz.key id k hkept).symm.trans (hz.cached _ hm').2)
  rcases hk' with ⟨-, hnone⟩ | hk'
  · -- The client was there before.
    rw [hkept] at hnone
    cases hnone
  · rcases hk with ⟨rfl, -⟩ | hk
    · exact hk'
    · exact Value.same_trans (Value.isKey_of_same (hu.keys _ hm) hk)
        (Value.same_symm (hu.keys _ hm) hk) hk'

/-- What keys do for a caller who asks for a client after another one was given. -/
structure Separates (o o' : Order) (id : Nat) (u v : World) : Prop where
  key_iff : o.key.same o'.key = true ↔ o.settings.Related Match o'.settings
  /-- Whoever is given the client of the other has asked with an equal key. -/
  given : ∀ z, shared o' v = (.ok id, z) → o.key.same o'.key = true
  given_again : o.key.same o'.key = true →
    (∃ es, v.journal = u.journal ++ es ∧ .closeAll id ∉ es) → shared o' v = (.ok id, v)
  /-- Equal keys are for equal settings, or two settings are confused. -/
  confused : o.key.same o'.key = true →
    (Value.map o.settings).same (.map o'.settings) = false →
    ∃ name x y, o.settings.get? name = some x ∧ o'.settings.get? name = some y ∧ Confused x y ∧
      x.same y = false

/-- Different connections have different clients, except for settings that are confused. -/
theorem keys_separate {ts ts' : List Turn} {w u v : World} {o o' : Order} {id : Nat}
    (h : History .empty ts w) (first : shared o w = (.ok id, u)) (later : History u ts' v)
    (comparable : Comparable o o') : Separates o o' id u v where
  key_iff := key_same_iff comparable
  given _ second := key_same_of_given h.orderly first later second
  given_again same kept := by
    obtain ⟨es, hes, hnot⟩ := kept
    exact shared_again h.orderly first later hes hnot same
  confused same unequal :=
    confused_of_match comparable.distinct comparable.distinct' ((key_same_iff comparable).mp same)
      unequal

/-- An order for a pool of the usual sizes. -/
def Order.usual (settings : Entries) : Order := ⟨settings, [], .int 1, .int 10⟩

theorem usual_comparable {es fs : Entries} (distinct : es.keys.Nodup) (distinct' : fs.keys.Nodup) :
    Comparable (.usual es) (.usual fs) := by
  have hone : (Value.int 1).same (.int 1) = true := by decide
  have hten : (Value.int 10).same (.int 10) = true := by decide
  exact ⟨distinct, distinct', hone, hten⟩

/-- Two hosts, and so two clients. -/
theorem keys_separate_hosts :
    let o : Order := .usual [("host", .text "left")]
    let o' : Order := .usual [("host", .text "right")]
    let u := (shared o .empty).2
    History .empty [] .empty ∧ shared o .empty = (.ok 0, u) ∧ History u [] u ∧ Comparable o o' ∧
      Separates o o' 0 u u ∧ (shared o' u).1 = .ok 1 := by
  intro o o' u
  have hfirst : shared o .empty = (.ok 0, u) := by with_unfolding_all rfl
  have hcomparable : Comparable o o' := usual_comparable (by decide) (by decide)
  exact ⟨.start, hfirst, .start, hcomparable, keys_separate .start hfirst .start hcomparable,
    by with_unfolding_all rfl⟩

/-- A list and its text are not equal, and yet the second caller is given the client of the first. -/
theorem list_confused :
    let o : Order := .usual [("options", .list [.int 1])]
    let o' : Order := .usual [("options", .text "[1]")]
    let u := (shared o .empty).2
    o.smallest.same o'.smallest = true ∧ o.largest.same o'.largest = true ∧
      (Value.map o.settings).same (.map o'.settings) = false ∧
      shared o .empty = (.ok 0, u) ∧ shared o' u = (.ok 0, u) :=
  ⟨by decide, by decide, by decide, by with_unfolding_all rfl, by with_unfolding_all rfl⟩

end Client

end TableAccess
