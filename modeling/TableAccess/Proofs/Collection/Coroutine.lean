import TableAccess.Rehearsal
import TableAccess.Proofs.Collection.Removal
import TableAccess.Proofs.Collection.Slots

/-! Hooks that have to be waited for. A coroutine function does nothing when it is called, and what it is
waited for it does then. Every stage of an operation that calls a hook waits for it, so it is all the same
to an operation whether its hooks do their work at once or defer it: one that is run to its end returns
the same, fails with the same in the same phase, and does the same deeds in the same order
(`completed_deferred`). -/

namespace TableAccess

variable {σ : Type}

/-- What a callback does with its arguments. -/
abbrev Hook.Work (σ : Type) := List Value → Act (Stage σ) Value

/-- A coroutine function that does what a hook does, but only when it is waited for. Arguments that it
cannot be called with are refused at once. -/
def Hook.Defers (coroutine hook : Hook σ) : Prop :=
  ∀ arguments,
    (∃ left, coroutine arguments = pure (.later (do (← hook arguments).wait) left)) ∨
      ∃ e, coroutine arguments = throw e ∧ hook arguments = throw e

/-- A coroutine function in the place of a callback; both can be bound to a collection, or neither. -/
structure Callback.Defers (coroutine callback : Callback σ) : Prop where
  plain : coroutine.plain = callback.plain
  run : Hook.Defers coroutine.run callback.run

/-- What fills a slot in the place of what was there: the same, or a coroutine function that does the
same. -/
inductive Hook.Replaces : Option (Hook σ) → Option (Hook σ) → Prop
  | same (hook? : Option (Hook σ)) : Replaces hook? hook?
  | deferred {coroutine hook : Hook σ} (h : coroutine.Defers hook) :
      Replaces (some coroutine) (some hook)

/-- A collection that differs from another one in some hooks that are coroutine functions. -/
structure Collection.Defers (c' c : Collection σ) : Prop where
  rest : c' = { c with pre := c'.pre, post := c'.post }
  pre : ∀ op, Hook.Replaces (c'.pre op) (c.pre op)
  post : ∀ op, Hook.Replaces (c'.post op) (c.post op)

theorem Callback.Defers.hook {coroutine callback : Callback σ} (h : coroutine.Defers callback)
    (collection : Value) : Hook.Defers (coroutine.hook collection) (callback.hook collection) := by
  intro arguments
  unfold Callback.hook
  rw [h.plain]
  split
  · exact h.run (collection :: arguments)
  · exact h.run arguments

/-- A callback that does its work when it is called. -/
def Callback.prompt (plain : Bool) (work : Hook.Work σ) : Callback σ :=
  ⟨plain, fun arguments => do return .now (← work arguments)⟩

/-- A callback that does its work when it is waited for. -/
def Callback.coroutine (plain : Bool) (work left : Hook.Work σ) : Callback σ :=
  ⟨plain, fun arguments => return .later (work arguments) (left arguments)⟩

theorem Callback.coroutine_defers (plain : Bool) (work left : Hook.Work σ) :
    (coroutine plain work left).Defers (prompt plain work) := by
  refine ⟨rfl, fun arguments => .inl ⟨left arguments, ?_⟩⟩
  simp only [coroutine, prompt, bind_assoc, pure_bind, Reply.wait, bind_pure]

namespace Collection

theorem runHook_deferred {coroutine hook : Hook σ} (h : coroutine.Defers hook) :
    runHook (some coroutine) = runHook (some hook) := by
  funext arguments
  unfold runHook
  obtain ⟨left, hc⟩ | ⟨e, hc, hh⟩ := h arguments
  · simp only [hc, pure_bind, Reply.wait]
  · simp only [hc, hh]

variable {hook? hook?' : Option (Hook σ)}

theorem runHook_replaced (h : Hook.Replaces hook?' hook?) : runHook hook?' = runHook hook? := by
  cases h with
  | same => rfl
  | deferred h => exact runHook_deferred h

theorem runHook_watched_replaced (h : Hook.Replaces hook?' hook?) (side : Side) (op : Operation) :
    runHook (hook?'.map (Hook.watched side op)) = runHook (hook?.map (Hook.watched side op)) := by
  cases h with
  | same => rfl
  | deferred h =>
    funext arguments
    rw [Option.map_some, Option.map_some, runHook_watched, runHook_watched, runHook_deferred h]

namespace Defers

variable {c c' : Collection σ}

theorem refl (c : Collection σ) : c.Defers c :=
  ⟨rfl, fun _ => .same _, fun _ => .same _⟩

theorem performsAs (h : c'.Defers c) (op : Operation) : c'.PerformsAs c op := by
  obtain ⟨rest, pre, post⟩ := h
  have hpre := runHook_replaced (pre op)
  have hpost := runHook_replaced (post op)
  rw [rest]
  exact ⟨rfl, rfl, rfl, rfl, hpre, hpost⟩

theorem watched_performsAs (h : c'.Defers c) (op : Operation) :
    c'.watched.PerformsAs c.watched op := by
  obtain ⟨rest, pre, post⟩ := h
  have hpre := runHook_watched_replaced (pre op) .pre op
  have hpost := runHook_watched_replaced (post op) .post op
  rw [rest]
  exact ⟨rfl, rfl, rfl, rfl, hpre, hpost⟩

theorem accept (h : c'.Defers c) : c'.accept = c.accept := by
  rw [h.rest]
  rfl

theorem watched_accept (h : c'.Defers c) : c'.watched.accept = c.watched.accept := by
  rw [h.rest]
  rfl

/-- A hook is set to a coroutine function just as to any other. -/
theorem setHook (h : c'.Defers c) {coroutine callback : Callback σ}
    (deferred : coroutine.Defers callback) {self : Value} {side : Side} {name : Value}
    {d : Collection σ} (hd : c.setHook self side name (some callback) = .ok d) :
    ∃ d', c'.setHook self side name (some coroutine) = .ok d' ∧ d'.Defers d := by
  have hfilled {slots' slots : Operation → Option (Hook σ)}
      (hs : ∀ o, Hook.Replaces (slots' o) (slots o)) (op o : Operation) :
      Hook.Replaces (filled slots' op (coroutine.hook self) o)
        (filled slots op (callback.hook self) o) := by
    unfold filled
    split
    · exact .deferred (deferred.hook self)
    · exact hs o
  unfold Collection.setHook at hd ⊢
  cases hop : hookTarget name with
  | error e =>
    rw [hop] at hd
    contradiction
  | ok op =>
    rw [hop] at hd
    cases side with
    | pre =>
      obtain rfl := Except.ok.inj hd
      exact ⟨_, rfl, by rw [h.rest], hfilled h.pre op, h.post⟩
    | post =>
      obtain rfl := Except.ok.inj hd
      exact ⟨_, rfl, by rw [h.rest], h.pre, hfilled h.post op⟩

end Defers

/-- Operations do not tell hooks that are waited for from hooks that do their work at once. -/
theorem completed_deferred {c c' : Collection σ} (h : c'.Defers c) (r : Request) :
    (∀ s, c'.completed r s = c.completed r s) ∧
      ∀ s, c'.watched.completed r s = c.watched.completed r s := by
  have hperform (p : Pending) : c'.perform p = c.perform p :=
    perform_congr (h.performsAs p.request.operation)
  have hwatched (p : Pending) : c'.watched.perform p = c.watched.perform p :=
    perform_congr (h.watched_performsAs p.request.operation)
  constructor
  · intro s
    simp only [completed, h.accept, hperform]
  · intro s
    simp only [completed, h.watched_accept, hwatched]

/-- An update of many rows whose payload gets an entry from its pre-hook, at once or later. -/
theorem completed_deferred_people :
    let work : Hook.Work Unit := Rehearsal.Deed.perform (.merge (.text "seen") (.int 1))
    let users := answered "users" people
    let r : Request := .updateAll (.map [("active", .bool true)]) (.map [("name", .text "Ann")])
    ∃ c c' : Collection Unit,
      users.setHook .null .pre (.text "update_all") (some (.prompt false work)) = .ok c ∧
      users.setHook .null .pre (.text "update_all")
        (some (.coroutine false work fun _ => pure .null)) = .ok c' ∧
      c'.Defers c ∧
      ((∀ s, c'.completed r s = c.completed r s) ∧
        ∀ s, c'.watched.completed r s = c.watched.completed r s) ∧
      (c'.watched.completed r ⟨.empty, (), []⟩).2.outside.statements =
        ["SELECT * FROM users WHERE active = 'true'",
          "UPDATE users SET name = 'Ann', seen = 1 WHERE active = 'true'",
          "SELECT * FROM users WHERE id IN (1,2)"] := by
  intro work users r
  obtain ⟨c, hc⟩ : ∃ c, users.setHook .null .pre (.text "update_all") (some (.prompt false work)) =
      .ok c := ⟨_, rfl⟩
  obtain ⟨c', hc', deferred⟩ := (Defers.refl users).setHook
    (Callback.coroutine_defers false work fun _ => pure .null) hc
  refine ⟨c, c', hc, hc', deferred, completed_deferred deferred r, ?_⟩
  obtain rfl := Except.ok.inj hc'
  decide +kernel

end Collection

end TableAccess
