import TableAccess.Proofs.Collection.Watched

/-! The statements that an operation sends, in order. Callbacks send none, whatever they do to memory
and outside, so an operation sends what its calls of `execute` send: of a connected collection each
of them is one statement, answered or not. -/

namespace TableAccess

variable {σ α β γ : Type}

/-- What a step adds, from a stage on, to the deeds of one kind. -/
def Adds (kind : Deed → Option γ) (step : Act (Stage (Watched σ)) α) (s : Stage (Watched σ))
    (new : List γ) : Prop :=
  (step s).2.outside.deeds.filterMap kind = s.outside.deeds.filterMap kind ++ new

namespace Adds

variable {kind : Deed → Option γ} {x : Act (Stage (Watched σ)) α}
  {f : α → Act (Stage (Watched σ)) β} {s t : Stage (Watched σ)} {new more : List γ}

theorem bind_ok {a : α} (hr : x s = (.ok a, t)) (hx : Adds kind x s new) (hf : Adds kind (f a) t more) :
    Adds kind (x >>= f) s (new ++ more) := by
  have ht : t.outside.deeds.filterMap kind = s.outside.deeds.filterMap kind ++ new := by rw [← hx, hr]
  unfold Adds
  rw [Act.bind_ok hr, hf, ht, List.append_assoc]

theorem bind_error {e : Failure} (hr : x s = (.error e, t)) (hx : Adds kind x s new) :
    Adds kind (x >>= f) s new := by
  unfold Adds at *
  rw [Act.bind_error hr, ← hx, hr]

theorem bind_silent (hx : Adds kind x s new) (hf : ∀ a t, Adds kind (f a) t []) :
    Adds kind (x >>= f) s new := by
  obtain ⟨r, t, hr⟩ : ∃ r t, x s = (r, t) := ⟨_, _, rfl⟩
  cases r with
  | error e => exact bind_error hr hx
  | ok a =>
    have h := bind_ok hr hx (hf a t)
    rwa [List.append_nil] at h

theorem of_unchanged {r : Except Failure α} (hr : x s = (r, s)) : Adds kind x s [] := by
  unfold Adds
  rw [hr, List.append_nil]

theorem reading {v : Value} {f : Value → Act (Stage (Watched σ)) α}
    (h : Adds kind (f (s.memory.read v)) s new) : Adds kind (Stage.read v >>= f) s new := by
  unfold Adds at *
  rwa [Act.bind_ok (Stage.read_run v s)]

/-- A step with no deeds of the kind. -/
theorem of_follows {x' : Act (Stage σ) α} (h : Follows (fun d => kind d = none) x x')
    (s : Stage (Watched σ)) : Adds kind x s [] := by
  obtain ⟨new, hnew, hall⟩ := h.deeds s
  unfold Adds
  rw [hnew, List.filterMap_append, List.filterMap_eq_nil_iff.mpr hall]

/-- Whatever a step does, the deeds that were there before stay. -/
theorem exists_of_follows {allowed : Deed → Prop} {x' : Act (Stage σ) α} (h : Follows allowed x x')
    (s : Stage (Watched σ)) : ∃ new, Adds kind x s new := by
  obtain ⟨new, hnew, -⟩ := h.deeds s
  refine ⟨new.filterMap kind, ?_⟩
  unfold Adds
  rw [hnew, List.filterMap_append]

end Adds

/-- The text of a deed that is a statement. -/
def Deed.statement? : Deed → Option String
  | .call (.statement text) => some text
  | _ => none

theorem Deed.statement?_of_isCallback {d : Deed} (h : d.IsCallback) : d.statement? = none := by
  cases d with
  | call c => exact h.elim
  | hook side op arguments => rfl
  | toDb payload => rfl
  | toJs row => rfl

def Watched.statements (w : Watched σ) : List String := w.deeds.filterMap Deed.statement?

/-- What a step sends from a stage on. -/
def Sends (step : Act (Stage (Watched σ)) α) (s : Stage (Watched σ)) (sent : List String) : Prop :=
  (step s).2.outside.statements = s.outside.statements ++ sent

namespace Sends

variable {x : Act (Stage (Watched σ)) α} {f : α → Act (Stage (Watched σ)) β}
  {s t : Stage (Watched σ)} {sent more : List String}

theorem bind_ok {a : α} (hr : x s = (.ok a, t)) (hx : Sends x s sent) (hf : Sends (f a) t more) :
    Sends (x >>= f) s (sent ++ more) := Adds.bind_ok hr hx hf

theorem bind_error {e : Failure} (hr : x s = (.error e, t)) (hx : Sends x s sent) :
    Sends (x >>= f) s sent := Adds.bind_error hr hx

theorem bind_silent (hx : Sends x s sent) (hf : ∀ a t, Sends (f a) t []) :
    Sends (x >>= f) s sent := Adds.bind_silent hx hf

theorem of_unchanged {r : Except Failure α} (hr : x s = (r, s)) : Sends x s [] :=
  Adds.of_unchanged hr

/-- A step with deeds that are no statements. -/
theorem of_follows {x' : Act (Stage σ) α} (h : Follows (fun d => d.statement? = none) x x')
    (s : Stage (Watched σ)) : Sends x s [] := Adds.of_follows h s

end Sends

namespace Collection

/-- The statements of an operation. -/
def statements (c : Collection σ) (p : Pending) (s : Stage σ) : List String :=
  (c.watched.perform p s.fresh).2.outside.statements

variable (c : Collection σ)

theorem sends_prepare (op : Operation) (payload : Value) (s : Stage (Watched σ)) :
    Sends (c.watched.prepare op payload) s [] :=
  .of_follows (follows_prepare (fun _ => Deed.statement?_of_isCallback) c op payload) s

theorem sends_finishRows (op : Operation) (rows : Value) (s : Stage (Watched σ)) :
    Sends (c.watched.finishRows op rows) s [] :=
  .of_follows (follows_finishRows (fun _ => Deed.statement?_of_isCallback) c op rows) s

theorem sends_concludeEmpty (op : Operation) (s : Stage (Watched σ)) :
    Sends (c.watched.concludeEmpty op) s [] :=
  .of_follows (follows_concludeEmpty (fun _ => Deed.statement?_of_isCallback) c op) s

variable {c} {k : Connection σ}

theorem sends_execute (connected : c.attachment = .connection k) (statement : String)
    (s : Stage (Watched σ)) : Sends (c.watched.execute (.ok statement)) s [statement] := by
  have hrun : c.watched.execute (.ok statement) =
      ask ((Call.statement statement).seen (k.execute statement)) := by
    unfold execute watched
    rw [connected]
    rfl
  have hseen : Sends (Stage.outward ((Call.statement statement).seen (k.execute statement))) s
      [statement] := by
    show (s.outside.deeds ++ [Deed.call (.statement statement)]).filterMap Deed.statement? = _
    rw [List.filterMap_append]
    rfl
  rw [hrun]
  exact hseen.bind_silent fun a t => .of_follows (.read a) t

theorem execute_error (connected : c.attachment = .connection k) (e : Failure)
    (s : Stage (Watched σ)) : c.watched.execute (.error e) s = (.error e, s) := by
  unfold execute watched
  rw [connected]
  rfl

end Collection

end TableAccess
