import TableAccess.Failure

/-! Steps that act on a state and may fail. A failed step keeps what it has done to the state:
nothing is undone unless a step says so itself. -/

namespace TableAccess

abbrev Act (σ : Type) := ExceptT Failure (StateM σ)

namespace Act

variable {σ τ α : Type}

/-- Runs a step and hands its failure over as a value. -/
def attempt (step : Act σ α) : Act σ (Except Failure α) := fun s =>
  let (r, s) := step s
  (.ok r, s)

/-- Fails as a computed result says. -/
def settle (r : Except Failure α) : Act σ α := fun s => (r, s)

/-- A step as a coroutine that somebody waits for. -/
def awaited (step : Act σ α) : Act σ α := fun s =>
  let (r, s) := step s
  (r.mapError Failure.awaited, s)

/-- A step on a part of the state. -/
def within (get : σ → τ) (put : τ → σ → σ) (step : Act τ α) : Act σ α := fun s =>
  let (r, t) := step (get s)
  (r, put t s)

@[simp] theorem attempt_run (step : Act σ α) (s : σ) :
    attempt step s = (.ok (step s).1, (step s).2) := rfl

@[simp] theorem awaited_run (step : Act σ α) (s : σ) :
    awaited step s = ((step s).1.mapError Failure.awaited, (step s).2) := rfl

@[simp] theorem settle_run (r : Except Failure α) (s : σ) : (settle r : Act σ α) s = (r, s) := rfl

end Act

end TableAccess
