import TableAccess.Act

/-! Runs of steps. A sequence runs its first step and, unless that fails, the rest from the state it
is left in. -/

namespace TableAccess.Act

variable {σ α β : Type}

theorem get_run (s : σ) : (get : Act σ σ) s = (.ok s, s) := rfl

theorem bind_run (x : Act σ α) (f : α → Act σ β) (s : σ) :
    (x >>= f) s = match x s with
      | (.ok a, t) => f a t
      | (.error e, t) => (.error e, t) := by
  simp only [bind, ExceptT.bind, ExceptT.mk, StateT.bind, ExceptT.bindCont]
  cases x s with
  | mk r t => cases r <;> rfl

theorem bind_ok {x : Act σ α} {f : α → Act σ β} {s t : σ} {a : α} (h : x s = (.ok a, t)) :
    (x >>= f) s = f a t := by
  rw [bind_run, h]

theorem bind_error {x : Act σ α} {f : α → Act σ β} {s t : σ} {e : Failure}
    (h : x s = (.error e, t)) : (x >>= f) s = (.error e, t) := by
  rw [bind_run, h]

theorem settle_ok_bind (a : α) (f : α → Act σ β) : (settle (.ok a) >>= f) = f a :=
  funext fun s => bind_ok (settle_run (.ok a) s)

theorem settle_error_bind (e : Failure) (f : α → Act σ β) :
    (settle (.error e) >>= f) = settle (.error e) :=
  funext fun s => bind_error (settle_run (.error e) s)

/-- A sequence that gives a result has run to its end. -/
theorem of_bind_ok {x : Act σ α} {f : α → Act σ β} {s u : σ} {b : β}
    (h : (x >>= f) s = (.ok b, u)) : ∃ a t, x s = (.ok a, t) ∧ f a t = (.ok b, u) := by
  rw [bind_run] at h
  obtain ⟨r, t, hx⟩ : ∃ r t, x s = (r, t) := ⟨_, _, rfl⟩
  rw [hx] at h
  cases r with
  | ok a => exact ⟨a, t, hx, h⟩
  | error e => cases h

end TableAccess.Act
