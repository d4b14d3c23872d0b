import TableAccess.Proofs.Collection.Exchange
import TableAccess.Proofs.Collection.Slots

/-! The calls that an operation makes once its pre-hook is done. Callbacks make none, and no callback runs
before the calls that carry the payload, so what the database is given of a payload is what it reads as
when the pre-hook is through with it (`delivers_afterHook`). -/

namespace TableAccess

open Statement

variable {σ α β : Type}

def Deed.call? : Deed → Option Call
  | .call c => some c
  | _ => none

theorem Deed.call?_of_isCallback {d : Deed} (h : d.IsCallback) : d.call? = none := by
  cases d with
  | call c => exact h.elim
  | hook side op arguments => rfl
  | toDb payload => rfl
  | toJs row => rfl

def Watched.calls (w : Watched σ) : List Call := w.deeds.filterMap Deed.call?

/-- What a step asks the database from a stage on. -/
def Calls (step : Act (Stage (Watched σ)) α) (s : Stage (Watched σ)) (made : List Call) : Prop :=
  Adds Deed.call? step s made

theorem Calls.asked (c : Call) (step : Act σ Value) (s : Stage (Watched σ)) :
    Calls (Collection.ask (c.seen step)) s [c] := by
  have hseen : Calls (Stage.outward (c.seen step)) s [c] := by
    show (s.outside.deeds ++ [Deed.call c]).filterMap Deed.call? = _
    rw [List.filterMap_append]
    rfl
  exact hseen.bind_silent fun a t => .of_follows (.read a) t

/-- What the calls of a request tell of its payload, given what its arguments are: a single row goes to
the database as it is, the rows to update are those of the second statement, and the conditions of a
removal are those of the first. -/
def Request.Delivers (table : String) (read : Value → Value) : Request → List Call → Prop
  | .insert data, made => made = [.insert (read data)]
  | .update id data, made => made = [.updateById id (read data)]
  | .updateAll conditions data, made => ∀ first second rest, made = first :: second :: rest →
      ∃ statement, Raw.update table (read data) (read conditions) = .ok statement ∧
        second = .statement statement
  | .removeAll conditions, made => ∀ first rest, made = first :: rest →
      ∃ statement, Raw.select table (read conditions) .null = .ok statement ∧
        first = .statement statement
  | .get _, _ | .count _, _ | .flush _, _ | .remove _, _ | .find .., _ => True

namespace Collection

variable {c : Collection σ} {s : Stage (Watched σ)}

theorem accessor_run {t : Table σ} (h : c.accessor? = some t) :
    c.watched.accessor = pure t.watched := by
  unfold accessor watched
  rw [h]
  rfl

/-- A statement is refused with nothing done, or it is sent and the memory stays as it is. -/
theorem execute_cases (c : Collection σ) (statement : Except Failure String)
    (s : Stage (Watched σ)) :
    (∃ e, c.watched.execute statement s = (.error e, s)) ∨
      ∃ q r o, statement = .ok q ∧ c.watched.execute statement s = (r, s.after [q] o) := by
  cases hc : c.attachment with
  | nothing | stranger =>
    refine .inl ⟨.noMember, ?_⟩
    unfold execute watched
    rw [hc]
    rfl
  | connection k =>
    cases statement with
    | error e => exact .inl ⟨e, execute_error hc e s⟩
    | ok q => exact .inr ⟨q, _, _, rfl, execute_run hc rfl⟩

theorem calls_after {x : Act (Stage (Watched σ)) α} {r : Except Failure α} {q : String} {o : σ}
    (h : x s = (r, s.after [q] o)) : Calls x s [.statement q] := by
  unfold Calls Adds
  rw [h]
  show (s.outside.deeds ++ [Deed.call (.statement q)]).filterMap Deed.call? = _
  rw [List.filterMap_append]
  rfl

theorem calls_finishRow (c : Collection σ) (op : Operation) (row : Value) (s : Stage (Watched σ)) :
    Calls (c.watched.finishRow op row) s [] :=
  .of_follows (follows_finishRow (fun _ => Deed.call?_of_isCallback) c op row) s

/-- A step whose first call, if it makes any, is one of these. -/
def CallsFirst (P : Call → Prop) (x : Act (Stage (Watched σ)) α) (s : Stage (Watched σ)) : Prop :=
  ∃ made, Calls x s made ∧ ∀ first rest, made = first :: rest → P first

theorem CallsFirst.of_silent {P : Call → Prop} {x : Act (Stage (Watched σ)) α} (h : Calls x s []) :
    CallsFirst P x s := ⟨[], h, fun _ _ h => by cases h⟩

theorem CallsFirst.reading {P : Call → Prop} {v : Value} {f : Value → Act (Stage (Watched σ)) α}
    (h : CallsFirst P (f (s.memory.read v)) s) : CallsFirst P (Stage.read v >>= f) s :=
  h.imp fun _ h => ⟨h.1.reading, h.2⟩

/-- A statement that is sent comes before all that is done with its answer. -/
theorem callsFirst_execute {P : Call → Prop} {statement : Except Failure String}
    {f : Value → Act (Stage (Watched σ)) Value} {f' : Value → Act (Stage σ) Value}
    (hf : ∀ v, Follows (fun _ => True) (f v) (f' v))
    (h : ∀ q, statement = .ok q → P (.statement q)) :
    CallsFirst P (c.watched.execute statement >>= f) s := by
  obtain ⟨e, he⟩ | ⟨q, r, o, hq, hr⟩ := c.execute_cases statement s
  · exact .of_silent (.bind_error he (.of_unchanged he))
  · cases r with
    | error e =>
      refine ⟨_, .bind_error hr (calls_after hr), fun first rest hmade => ?_⟩
      exact (List.cons.inj hmade).1 ▸ h q hq
    | ok v =>
      obtain ⟨more, hmore⟩ := Adds.exists_of_follows (hf v) (s.after [q] o)
      refine ⟨_, .bind_ok hr (calls_after hr) hmore, fun first rest hmade => ?_⟩
      exact (List.cons.inj hmade).1 ▸ h q hq

/-- The statement of an update is made of what its arguments are once the candidates are known. -/
theorem callsFirst_updateSelected (c : Collection σ) (conditions data candidates : Value)
    (s : Stage (Watched σ)) :
    CallsFirst (fun first => ∃ q,
        Raw.update c.table (s.memory.read data) (s.memory.read conditions) = .ok q ∧
          first = .statement q)
      (c.watched.updateSelected conditions data candidates) s := by
  unfold updateSelected
  cases hids : rowIds candidates with
  | error e => exact .of_silent (.bind_error (Act.settle_run _ _) (.of_unchanged rfl))
  | ok ids =>
    rw [Act.settle_ok_bind]
    split
    · exact .of_silent (.of_follows (follows_concludeEmpty (fun _ => Deed.call?_of_isCallback) c _) s)
    · refine .reading (.reading ?_)
      show CallsFirst _ (Act.settle (Raw.update c.table _ _) >>= _) s
      cases hq : Raw.update c.table (s.memory.read data) (s.memory.read conditions) with
      | error e => exact .of_silent (.bind_error (Act.settle_run _ _) (.of_unchanged rfl))
      | ok q =>
        rw [Act.settle_ok_bind]
        refine callsFirst_execute (fun _ => .bind (c.follows_execute (fun _ => trivial) _)
          fun rows => follows_finishRows (fun _ _ => trivial) c .updateAll rows) fun q' hq' => ?_
        obtain rfl := Except.ok.inj hq'
        exact ⟨q, rfl, rfl⟩

theorem follows_afterHook (c : Collection σ) (r : Request) :
    Follows (fun _ => True) (c.watched.afterHook r) (c.afterHook r) := by
  rw [afterHook_eq_perform, afterHook_eq_perform]
  exact follows_perform { c with pre := fun _ => none } ⟨r⟩

/-- What an operation asks the database once its pre-hook is done. -/
theorem delivers_afterHook (connected : c.requireConnection = .ok ()) (r : Request)
    (s : Stage (Watched σ)) :
    ∃ made, Calls (c.watched.afterHook r) s made ∧ r.Delivers c.table s.memory.read made := by
  obtain ⟨t, ht⟩ := exists_accessor connected
  have hfinish {op : Operation} {call : Call} {step : Act σ Value} (row : Value → Value) :
      Calls (do c.watched.finishRow op (row (← ask (call.seen step)))) s [call] :=
    (Calls.asked call step s).bind_silent fun v t => calls_finishRow c op (row v) t
  cases r with
  | insert data =>
    refine ⟨_, ?_, rfl⟩
    simp only [afterHook, accessor_run ht, pure_bind]
    exact .reading (hfinish id)
  | update id data =>
    refine ⟨_, ?_, rfl⟩
    simp only [afterHook, accessor_run ht, pure_bind]
    exact .reading (hfinish firstRow)
  | removeAll conditions =>
    show CallsFirst _ (c.watched.afterHook (.removeAll conditions)) s
    exact .reading (callsFirst_execute
      (c.follows_removeSelected (fun _ _ => trivial) fun _ => trivial) fun q hq => ⟨q, hq, rfl⟩)
  | updateAll conditions data =>
    obtain ⟨e, he⟩ | ⟨q, r, o, hq, hr⟩ :=
      c.execute_cases (Raw.select c.table (s.memory.read conditions) .null) s
    · exact ⟨[], .reading (.bind_error he (.of_unchanged he)), fun _ _ _ h => by cases h⟩
    · cases r with
      | error e =>
        exact ⟨_, .reading (.bind_error hr (calls_after hr)), fun _ _ _ h => by cases h⟩
      | ok candidates =>
        obtain ⟨made, hmade, hfirst⟩ :=
          c.callsFirst_updateSelected conditions data candidates (s.after [q] o)
        refine ⟨_, .reading (.bind_ok hr (calls_after hr) hmade), fun first second rest h => ?_⟩
        exact hfirst second rest (List.cons.inj h).2
  | get id | count conditions | flush flag | remove id | find conditions options =>
    obtain ⟨made, hmade⟩ := Adds.exists_of_follows (c.follows_afterHook _) s
    exact ⟨made, hmade, trivial⟩

end Collection

end TableAccess
