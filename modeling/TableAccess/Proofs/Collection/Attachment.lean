import TableAccess.Collection
import TableAccess.Proofs.Act

/-! What a collection is attached to, and whose accessor it has. Attaching a collection puts the connection
in place first and asks it for the accessor then. The two belong together as long as nothing goes wrong
with that (`InStep`). After a failure the connection is the new one and the accessor still the old one,
so that the attachment follows everything that was offered, and the accessor everything that was given
(`attachment_followed`). A collection that is attached to something without tables keeps the accessor of
its former connection (`attachment_drifted`). -/

namespace TableAccess

variable {σ : Type}

/-- What comes of asking for the accessor of a table. -/
def Attachment.give (attachment : Attachment σ) (table : String) : Act σ (Table σ) :=
  match attachment with
  | .connection k => k.table table
  | .nothing | .stranger => throw .noMember

/-- Something that a collection was to be attached to, and what came of asking it for the accessor. -/
structure Offer (σ : Type) where
  attachment : Attachment σ
  given : Except Failure (Table σ)

namespace Offer

def accessor? (x : Offer σ) : Option (Table σ) := x.given.toOption

def failure? (x : Offer σ) : Option Failure :=
  match x.given with
  | .ok _ => none
  | .error e => some e

end Offer

namespace Collection

variable {c d : Collection σ} {a : Attachment σ} {o o' : σ} {table : String} {offers : List (Offer σ)}

/-- The accessor is one that the connection has given out for the table of the collection; without a
connection there is none. -/
def InStep (c : Collection σ) : Prop :=
  (c.attachment = .nothing ∧ c.accessor? = none) ∨
    ∃ t o o', c.accessor? = some t ∧ c.attachment.give c.table o = (.ok t, o')

/-- Attaching replaces the attachment in any case, and the accessor if one is given. -/
theorem attach_run (c : Collection σ) (a : Attachment σ) {o o' : σ} {r : Except Failure (Table σ)}
    (h : a.give c.table o = (r, o')) : c.attach a o =
      (({ c with attachment := a, accessor? := (Offer.mk a r).accessor?.or c.accessor? },
        (Offer.mk a r).failure?), o') := by
  cases a with
  | nothing | stranger =>
    cases h
    rfl
  | connection k =>
    unfold attach
    simp only [bind, StateT.bind]
    rw [show k.table c.table o = (r, o') from h]
    cases r with
    | ok t => rfl
    | error e => rfl

/-- What becomes of a collection of a table that is made and then attached to one thing after another,
each time with whatever outcome. A collection that is made with a connection is attached to it at once. -/
inductive AttachedTo (table : String) : List (Offer σ) → Collection σ → Prop
  | made : AttachedTo table [] (.bare table)
  | attached {c : Collection σ} {offers : List (Offer σ)} {a : Attachment σ} {o o' : σ}
      {r : Except Failure (Table σ)} (h : AttachedTo table offers c)
      (given : a.give c.table o = (r, o')) : AttachedTo table (offers ++ [⟨a, r⟩]) (c.attach a o).1.1

/-- The last thing offered. -/
def offered (offers : List (Offer σ)) : Attachment σ :=
  (offers.getLast?.map (·.attachment)).getD .nothing

/-- The last accessor given. -/
def given? (offers : List (Offer σ)) : Option (Table σ) := offers.reverse.findSome? Offer.accessor?

/-- The attachment is the last one offered, and the accessor the last one given. -/
theorem AttachedTo.follows (h : AttachedTo table offers c) :
    c.table = table ∧ c.attachment = offered offers ∧ c.accessor? = given? offers := by
  induction h with
  | made => exact ⟨rfl, rfl, rfl⟩
  | @attached c offers a o o' r h given ih =>
    obtain ⟨htable, -, haccessor⟩ := ih
    rw [c.attach_run a given]
    refine ⟨htable, ?_, ?_⟩
    · simp [offered]
    · show (Offer.mk a r).accessor?.or c.accessor? = _
      rw [haccessor, given?, given?, List.reverse_append, List.reverse_singleton, List.singleton_append,
        List.findSome?_cons]
      cases (Offer.mk a r).accessor? <;> rfl

/-- A collection has the accessor of its connection if the last attempt to attach it has not failed. -/
theorem AttachedTo.inStep (h : AttachedTo table offers c)
    (done : ∀ x ∈ offers.getLast?, x.failure? = none) : c.InStep := by
  cases h with
  | made => exact .inl ⟨rfl, rfl⟩
  | @attached c offers a o o' r h given =>
    -- what came of the earlier attempts does not matter, for an accessor that is given replaces the old
    rw [c.attach_run a given]
    cases r with
    | ok t => exact .inr ⟨t, o, o', rfl, given⟩
    | error e => simp [Offer.failure?] at done

/-- An attempt that fails replaces the attachment and nothing else. -/
theorem attach_failed {e : Failure} (h : c.attach a o = ((d, some e), o')) :
    d = { c with attachment := a } := by
  obtain ⟨r, o'', hr⟩ : ∃ r o'', a.give c.table o = (r, o'') := ⟨_, _, rfl⟩
  rw [c.attach_run a hr] at h
  cases r with
  | ok t => cases h
  | error e =>
    cases h
    rfl

/-- The attachment of a collection follows what was offered, its accessor what was given. They are in
step whenever the last attempt has not failed; one that fails leaves them as they were only if what it
offers is what the collection is attached to already. -/
theorem attachment_followed (h : AttachedTo table offers c) :
    (c.table = table ∧ c.attachment = offered offers ∧ c.accessor? = given? offers) ∧
    ((∀ x ∈ offers.getLast?, x.failure? = none) → c.InStep) ∧
    ∀ (a : Attachment σ) o d e o', c.attach a o = ((d, some e), o') →
      d = { c with attachment := a } ∧ (d = c ↔ a = c.attachment) := by
  refine ⟨h.follows, h.inStep, fun a o d e o' failed => ?_⟩
  obtain rfl := attach_failed failed
  refine ⟨rfl, fun hd => congrArg Collection.attachment hd, ?_⟩
  rintro rfl
  rfl

/-- A collection that is attached to a connection without tables first, and then to one that has them. -/
theorem attachment_followed_again :
    let rows : Table Unit := ⟨fun _ _ => pure .null, fun _ => pure .null, fun _ => pure .null,
      fun _ _ => pure .null, fun _ => pure .null⟩
    let broken : Attachment Unit := .connection ⟨fun _ => pure .null, fun _ => throw .wrongType⟩
    let working : Attachment Unit := .connection ⟨fun _ => pure .null, fun _ => pure rows⟩
    let c := ((Collection.bare "users").attach broken ()).1.1
    let d := (c.attach working ()).1.1
    let offers := [⟨broken, .error .wrongType⟩, ⟨working, .ok rows⟩]
    AttachedTo "users" offers d ∧
      ((d.table = "users" ∧ d.attachment = offered offers ∧ d.accessor? = given? offers) ∧
        ((∀ x ∈ offers.getLast?, x.failure? = none) → d.InStep) ∧
        ∀ (a : Attachment Unit) o d' e o', d.attach a o = ((d', some e), o') →
          d' = { d with attachment := a } ∧ (d' = d ↔ a = d.attachment)) ∧
      d.InStep ∧ d.attachment = working ∧ d.accessor? = some rows := by
  intro rows broken working c d offers
  have first : AttachedTo "users" [⟨broken, .error .wrongType⟩] c := .attached .made rfl
  have second : AttachedTo "users" offers d := .attached first rfl
  have followed := attachment_followed second
  exact ⟨second, followed, followed.2.1 (by simp [offers, Offer.failure?]), rfl, rfl⟩

/-- A collection that is attached to something without tables, after a connection that has them: its
statements have nowhere to go, while its rows still come from the former connection. -/
theorem attachment_drifted :
    let rows : Table Unit := ⟨fun _ _ => pure .null, fun _ => pure .null, fun _ => pure .null,
      fun _ _ => pure .null, fun _ => pure .null⟩
    let working : Attachment Unit := .connection ⟨fun _ => pure .null, fun _ => pure rows⟩
    let c := ((Collection.bare "users").attach working ()).1.1
    let d := (c.attach .stranger ()).1.1
    AttachedTo "users" [⟨working, .ok rows⟩] c ∧ c.InStep ∧
      c.attach .stranger () = ((d, some .noMember), ()) ∧
      d.attachment = .stranger ∧ d.accessor? = some rows ∧ ¬ d.InStep := by
  intro rows working c d
  have first : AttachedTo "users" [⟨working, .ok rows⟩] c := .attached .made rfl
  refine ⟨first, first.inStep (by simp [Offer.failure?]), rfl, rfl, rfl, ?_⟩
  rintro (⟨hnothing, -⟩ | ⟨t, o, o', -, given⟩)
  · cases hnothing
  · cases given

end Collection

end TableAccess
