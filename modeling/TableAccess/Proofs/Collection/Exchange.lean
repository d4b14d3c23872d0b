import TableAccess.Memory.Place
import TableAccess.Proofs.Collection.Statements
import TableAccess.Proofs.Condition.Mapping

/-! Exchanges with a database. A plan tells from the answers so far what to send next, and an exchange
by a plan ends where the plan does or with the first statement that fails. Whatever the database is,
the plan and the state that it starts from leave only one exchange (`Exchange.unique`). `Converses`
finds the exchange in a step of a watched collection: between two statements no callback runs, so the
step is its exchange, and then what is left to do with the answers. -/

namespace TableAccess

variable {σ : Type}

/-- What to send next, given the answers so far; nothing once all is said. -/
abbrev Plan := List Value → Option String

/-- An exchange that goes on from the answers heard before it: the statements sent, and the answers
heard at its end or the failure that ends it. -/
inductive Exchange (k : Connection σ) (plan : Plan) :
    List Value → σ → List String → Except Failure (List Value) → σ → Prop
  | finished {heard : List Value} {o : σ} (h : plan heard = none) :
      Exchange k plan heard o [] (.ok heard) o
  | failed {heard : List Value} {o o' : σ} {q : String} {e : Failure} (h : plan heard = some q)
      (he : k.execute q o = (.error e, o')) : Exchange k plan heard o [q] (.error e) o'
  | answered {heard : List Value} {o o' o'' : σ} {q : String} {v : Value} {sent : List String}
      {r : Except Failure (List Value)} (h : plan heard = some q) (hv : k.execute q o = (.ok v, o'))
      (rest : Exchange k plan (heard ++ [v]) o' sent r o'') : Exchange k plan heard o (q :: sent) r o''

theorem Exchange.unique {k : Connection σ} {plan : Plan} {heard : List Value} {o u u' : σ}
    {sent sent' : List String} {r r' : Except Failure (List Value)}
    (h : Exchange k plan heard o sent r u) (h' : Exchange k plan heard o sent' r' u') :
    sent = sent' ∧ r = r' ∧ u = u' := by
  induction h generalizing sent' r' u' with
  | finished h =>
    cases h' with
    | finished h' => exact ⟨rfl, rfl, rfl⟩
    | failed h' he => simp [h] at h'
    | answered h' hv rest => simp [h] at h'
  | failed h he =>
    cases h' with
    | finished h' => simp [h] at h'
    | failed h' he' =>
      obtain rfl := Option.some.inj (h.symm.trans h')
      cases he.symm.trans he'
      exact ⟨rfl, rfl, rfl⟩
    | answered h' hv rest =>
      obtain rfl := Option.some.inj (h.symm.trans h')
      cases he.symm.trans hv
  | answered h hv rest ih =>
    cases h' with
    | finished h' => simp [h] at h'
    | failed h' he =>
      obtain rfl := Option.some.inj (h.symm.trans h')
      cases hv.symm.trans he
    | answered h' hv' rest' =>
      obtain rfl := Option.some.inj (h.symm.trans h')
      cases hv.symm.trans hv'
      obtain ⟨rfl, hr, hu⟩ := ih rest'
      exact ⟨rfl, hr, hu⟩

/-- A value that refers to nothing: it is what it is whatever a memory holds. -/
def Value.Rigid (v : Value) : Prop := ∀ find, v.resolve find = v

theorem Memory.read_of_rigid (m : Memory) {v : Value} (h : v.Rigid) : m.read v = v := by
  rw [read, readWithin_succ]
  exact h _

/-- The identifier of a row. -/
def Entries.identifier (row : Entries) : Value := row.get "id"

/-- Every answer to a statement is a list of rows that have identifiers. -/
def Connection.GivesRows (k : Connection σ) (statement : String) : Prop :=
  ∀ o v o', k.execute statement o = (.ok v, o') →
    v.Rigid ∧ ∃ rows : List Entries, v = .list (rows.map .map) ∧ ∀ row ∈ rows, row.has "id"

namespace Stage

/-- A stage on which these statements have been sent since. -/
def after (s : Stage (Watched σ)) (sent : List String) (o : σ) : Stage (Watched σ) :=
  ⟨s.memory, ⟨o, s.outside.deeds ++ sent.map fun q => .call (.statement q)⟩⟩

@[simp] theorem after_nil (s : Stage (Watched σ)) : s.after [] s.outside.outside = s := by
  simp [after]

@[simp] theorem after_after (s : Stage (Watched σ)) (sent more : List String) (o o' : σ) :
    (s.after sent o).after more o' = s.after (sent ++ more) o' := by
  simp [after]

theorem statements_after (s : Stage (Watched σ)) (sent : List String) (o : σ) :
    (s.after sent o).outside.statements = s.outside.statements ++ sent := by
  have h : (sent.map fun q => Deed.call (.statement q)).filterMap Deed.statement? = sent := by
    induction sent with
    | nil => rfl
    | cons q sent ih => simpa [Deed.statement?] using ih
  unfold after Watched.statements
  rw [List.filterMap_append, h]

end Stage

namespace Collection

variable {c : Collection σ} {k : Connection σ}

theorem execute_run (connected : c.attachment = .connection k) {q : String} {s : Stage (Watched σ)}
    {r : Except Failure Value} {o : σ} (h : k.execute q s.outside.outside = (r, o)) :
    c.watched.execute (.ok q) s = (r.map s.memory.read, s.after [q] o) := by
  have hseen : Stage.outward ((Call.statement q).seen (k.execute q)) s = (r, s.after [q] o) := by
    simp [Stage.outward, Act.within, Call.seen, h, Stage.after]
  unfold execute watched
  rw [connected]
  show ask ((Call.statement q).seen (k.execute q)) s = _
  unfold ask
  cases r with
  | error e => exact Act.bind_error hseen
  | ok v => exact Act.bind_ok hseen

/-- A watched step is an exchange by a plan, and then what is left to do once it is over. -/
def Converses (k : Connection σ) (plan : Plan) (heard : List Value) (s : Stage (Watched σ))
    (step : Act (Stage (Watched σ)) Value)
    (left : Except Failure (List Value) → Act (Stage (Watched σ)) Value) : Prop :=
  ∃ sent r o, Exchange k plan heard s.outside.outside sent r o ∧ step s = left r (s.after sent o)

namespace Converses

variable {plan : Plan} {heard : List Value} {s : Stage (Watched σ)}
  {step : Act (Stage (Watched σ)) Value}
  {left : Except Failure (List Value) → Act (Stage (Watched σ)) Value}

theorem finished (h : plan heard = none) (hs : step s = left (.ok heard) s) :
    Converses k plan heard s step left :=
  ⟨[], .ok heard, s.outside.outside, .finished h, by rw [hs, Stage.after_nil]⟩

theorem congr {step' : Act (Stage (Watched σ)) Value} (hs : step s = step' s)
    (h : Converses k plan heard s step' left) : Converses k plan heard s step left := by
  unfold Converses at *
  rwa [hs]

/-- A statement of the plan, from which the exchange goes on if it is answered. -/
theorem statement {q : String} {f : Value → Act (Stage (Watched σ)) Value}
    (connected : c.attachment = .connection k) (h : plan heard = some q)
    (failed : ∀ e t, left (.error e) t = (.error e, t))
    (answered : ∀ v o, k.execute q s.outside.outside = (.ok v, o) →
      Converses k plan (heard ++ [v]) (s.after [q] o) (f (s.memory.read v)) left) :
    Converses k plan heard s (c.watched.execute (.ok q) >>= f) left := by
  obtain ⟨r, o, hr⟩ : ∃ r o, k.execute q s.outside.outside = (r, o) := ⟨_, _, rfl⟩
  have hrun := execute_run connected hr
  cases r with
  | error e =>
    refine ⟨[q], .error e, o, .failed h hr, ?_⟩
    rw [Act.bind_error hrun, failed]
  | ok v =>
    obtain ⟨sent, r, o', hx, hs⟩ := answered v o hr
    refine ⟨q :: sent, r, o', .answered h hr hx, ?_⟩
    rw [Act.bind_ok hrun, hs, Stage.after_after, List.singleton_append]

/-- What is sent is the exchange, if nothing is sent once it is over. -/
theorem outcome {left' : Except Failure (List Value) → Act (Stage σ) Value}
    (h : Converses k plan heard s step left)
    (silent : ∀ r, Follows (fun d => d.statement? = none) (left r) (left' r)) :
    ∃ sent r o, Exchange k plan heard s.outside.outside sent r o ∧ Sends step s sent ∧
      (step s).map id Stage.plain = left' r ⟨s.memory, o⟩ := by
  obtain ⟨sent, r, o, hx, hs⟩ := h
  have hleft := Sends.of_follows (silent r) (s.after sent o)
  refine ⟨sent, r, o, hx, ?_, ?_⟩
  · unfold Sends at *
    rw [hs, hleft, Stage.statements_after, List.append_nil]
  · rw [hs, (silent r).same]
    rfl

end Converses

/-! ### Rows that are given back -/

variable (c)

/-- A row as it is given back. -/
def formatRow (row : Value) : Act (Stage σ) Value := do Formatter.apply c.toJs? (← Stage.place row)

/-- Gives rows back, one for one: the list of what the formatter makes of them, which the post-hook
has seen. -/
def giveRows (op : Operation) (rows : List Value) : Act (Stage σ) Value := do
  c.conclude op (← Stage.store (.list (← rows.mapM c.formatRow)))

variable {c}

theorem mapM_place (rows : List Value) (s : Stage σ) :
    rows.mapM Stage.place s =
      (.ok (s.memory.placeAll rows).1, { s with memory := (s.memory.placeAll rows).2 }) := by
  induction rows generalizing s with
  | nil => rfl
  | cons row rows ih =>
    have hp : Stage.place row s =
        (.ok (s.memory.place row).1, { s with memory := (s.memory.place row).2 }) := rfl
    rw [List.mapM_cons, Act.bind_ok hp, Act.bind_ok (ih _)]
    rfl

theorem formatRows_list (rows : List Value) :
    c.formatRows (.list rows) = (do Stage.store (.list (← rows.mapM c.formatRow))) := by
  unfold formatRows formatRow
  cases c.toJs? with
  | some f => rfl
  | none =>
    funext s
    simp only [Formatter.apply, bind_pure]
    rw [Act.bind_ok (mapM_place rows s)]
    rfl

theorem finishRows_list (op : Operation) (rows : List Value) :
    c.finishRows op (.list rows) = c.giveRows op rows := by
  unfold finishRows giveRows
  rw [formatRows_list, bind_assoc]

theorem rowId_of_has {row : Entries} (h : row.has "id" = true) :
    rowId (.map row) = .ok row.identifier := by
  obtain ⟨v, hid⟩ := Entries.exists_get?_of_has h
  simp [rowId, Entries.identifier, Entries.get, hid]

theorem rowIds_rows {rows : List Entries} (h : ∀ row ∈ rows, row.has "id" = true) :
    rowIds (.list (rows.map .map)) = .ok (rows.map Entries.identifier) := by
  show (rows.map Value.map).mapM rowId = _
  induction rows with
  | nil => rfl
  | cons row rows ih =>
    rw [List.map_cons, List.mapM_cons, rowId_of_has (h row (by simp)),
      ih fun r hr => h r (by simp [hr])]
    rfl

end Collection

end TableAccess
