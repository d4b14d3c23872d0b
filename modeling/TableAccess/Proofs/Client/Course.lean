import TableAccess.Client
import TableAccess.Proofs.World.Attempts

/-! The course of a statement. A client acquires a connection, works on it, ends the transaction, and
gives the connection back. It ends the transaction with a commit, with a rollback, or with a commit
that fails and a rollback (`run_course`). Everything that a client can be asked for takes this course
once (`perform_conducts`). -/

namespace TableAccess

variable {α β : Type}

namespace Client

variable {allowed : Event → Prop}

theorem isClosed_runs (id : Nat) (w : World) : ∃ r, Runs (isClosed id) w r w [] := by
  have h : ∃ r, isClosed id w = (r, w) := by
    unfold isClosed
    rw [Act.bind_ok (Act.get_run w)]
    cases w.clients[id]? with
    | none => exact ⟨_, rfl⟩
    | some c => exact ⟨_, rfl⟩
  obtain ⟨r, hr⟩ := h
  exact ⟨r, hr, .refl w⟩

theorem isClosed_tries (id : Nat) : Tries allowed (isClosed id) := by
  refine .of_silent fun w => ?_
  obtain ⟨r, hr⟩ := isClosed_runs id w
  exact ⟨r, w, hr⟩

theorem close_tries {id : Nat} (h : allowed (.closeAll id)) : Tries allowed (close id) := by
  refine .bind (isClosed_tries id) fun closed => ?_
  split
  · exact .pure _
  · refine .bind (.modified (fun _ => rfl) fun _ => rfl) fun _ => ?_
    refine .bind (.attempt (.step rfl h)) fun outcome => ?_
    exact .bind (.modified (fun _ => rfl) fun _ => rfl) fun _ => .pure _

theorem respond_tries : Tries allowed World.respond := by
  refine .bind .get fun w => ?_
  split
  · exact .pure _
  · exact .bind (.modified (fun _ => rfl) fun _ => rfl) fun _ => .pure _

theorem write_tries (query : Query) : Tries allowed query.write := by
  cases query with
  | text s => exact .pure s
  | fragments fs => exact .bind (.strike (.inl rfl)) fun _ => .pure _
  | unwritable => exact .throw _

theorem fetch_tries (r : Response) : Tries allowed (fetch r) := by
  have hrows : Tries allowed (if r.columns?.isSome = true then do
      World.strike .fetch
      pure (rowsOf r)
    else pure (rowsOf r)) := by
    split
    · exact .bind (.strike (.inr rfl)) fun _ => .pure _
    · exact .pure _
  unfold fetch
  dsimp only
  split
  · exact .bind (.throw _) fun _ => hrows
  · exact hrows

theorem send_tries {id : Nat} {statement : String} {parameters : List Value}
    (hsend : allowed (.send id statement parameters)) (hclose : ∀ other, allowed (.closeAll other)) :
    Tries allowed (send id statement parameters) := by
  refine .bind (.step rfl hsend) fun _ => .bind respond_tries fun r => ?_
  dsimp only
  split
  · exact .bind (close_tries (hclose _)) fun _ => fetch_tries r
  · exact fetch_tries r

/-- What a client does on a connection until it ends the transaction: it sends, and clients may be
closed meanwhile. -/
def IsWork (id : Nat) : Event → Prop
  | .send client .. => client = id
  | .closeAll _ => True
  | _ => False

/-- What is tried for a connection, and what comes of it. -/
inductive Acquires (id : Nat) : Except Failure Unit → List Attempt → Prop
  | refused (e : Failure) : Acquires id (.error e) []
  | failed (e : Failure) : Acquires id (.error e) [⟨.acquire id, some e⟩]
  | done : Acquires id (.ok ()) [⟨.acquire id, none⟩]

theorem acquire_runs (id : Nat) (w : World) :
    ∃ r u trace, Runs (acquire id) w r u trace ∧ Acquires id r trace := by
  obtain ⟨r, hr⟩ := isClosed_runs id w
  cases r with
  | error e => exact ⟨_, w, [], hr.bind_error, .refused e⟩
  | ok closed =>
    cases closed with
    | true => exact ⟨_, w, [], hr.bind_ok (Runs.throw .clientClosed w).bind_error, .refused _⟩
    | false =>
      rcases Runs.step_cases (e := .acquire id) w rfl with ⟨f, ha⟩ | ha
      · exact ⟨_, _, _, hr.bind_ok ha, .failed f⟩
      · exact ⟨_, _, _, hr.bind_ok ha, .done⟩

/-- The end of a statement: it failed on the way, its commit failed, or it is committed. -/
inductive Transacts (id : Nat) : Except Failure Value → List Attempt → Prop
  | failed (e : Failure) {work : List Attempt} (h : ∀ a ∈ work, IsWork id a.event) :
      Transacts id (.error e) work
  | uncommitted (e : Failure) {work : List Attempt} (h : ∀ a ∈ work, IsWork id a.event) :
      Transacts id (.error e) (work ++ [⟨.commit id, some e⟩])
  | committed (rows : Value) {work : List Attempt} (h : ∀ a ∈ work, IsWork id a.event) :
      Transacts id (.ok rows) (work ++ [⟨.commit id, none⟩])

theorem transact_runs (id : Nat) (query : Query) (parameters : List Value) (w : World) :
    ∃ r u trace, Runs (transact id query parameters) w r u trace ∧ Transacts id r trace := by
  have hwork : Tries (IsWork id) (do send id (← query.write) parameters) :=
    .bind (write_tries query) fun s => send_tries rfl fun _ => trivial
  have hrun : transact id query parameters = (do send id (← query.write) parameters) >>=
      fun rows => do World.step (.commit id) .commit; return rows := (bind_assoc _ _ _).symm
  rw [hrun]
  obtain ⟨r, u, work, hr, hw⟩ := hwork w
  cases r with
  | error e => exact ⟨_, u, work, hr.bind_error, .failed e hw⟩
  | ok rows =>
    rcases Runs.step_cases (e := .commit id) u rfl with ⟨f, hc⟩ | hc
    · exact ⟨_, _, _, hr.bind_ok hc.bind_error, .uncommitted f hw⟩
    · exact ⟨_, _, _, hr.bind_ok (hc.bind_ok (.pure rows _)), .committed rows hw⟩

theorem undo_runs (id : Nat) (e : Failure) (w : World) :
    ∃ f?, Runs (undo id e) w (.ok (f?.getD e)) (w.tried (.rollback id) .rollback)
      [⟨.rollback id, f?⟩] := by
  rcases Runs.step_cases (e := .rollback id) w rfl with ⟨f, hr⟩ | hr
  · exact ⟨some f, hr.attempt.bind_ok (.pure f _)⟩
  · exact ⟨none, hr.attempt.bind_ok (.pure e _)⟩

theorem release_runs (id : Nat) (w : World) :
    ∃ r f?, Runs (release id) w r (w.tried (.release id) .release) [⟨.release id, f?⟩] := by
  rcases Runs.step_cases (e := .release id) w rfl with ⟨f, hr⟩ | hr
  · obtain ⟨r, hc⟩ := isClosed_runs id (w.tried (.release id) .release)
    cases r with
    | error e => exact ⟨.error e, some f, hr.attempt.bind_ok hc.bind_error⟩
    | ok closed =>
      cases closed with
      | true => exact ⟨.ok (), some f, hr.attempt.bind_ok (hc.bind_ok (.pure () _))⟩
      | false => exact ⟨.error f, some f, hr.attempt.bind_ok (hc.bind_ok (.throw f _))⟩
  · exact ⟨.ok (), none, hr.attempt.bind_ok (.pure () _)⟩

/-- The steps that end a transaction. -/
inductive Ends (id : Nat) : List Attempt → Prop
  | committed : Ends id [⟨.commit id, none⟩]
  | undone (f? : Option Failure) : Ends id [⟨.rollback id, f?⟩]
  | uncommitted (e : Failure) (f? : Option Failure) :
      Ends id [⟨.commit id, some e⟩, ⟨.rollback id, f?⟩]

/-- Everything that is tried for one statement. -/
inductive Course (id : Nat) : List Attempt → Prop
  | refused : Course id []
  | failed (e : Failure) : Course id [⟨.acquire id, some e⟩]
  | acquired {work ending : List Attempt} (f? : Option Failure)
      (hw : ∀ a ∈ work, IsWork id a.event) (he : Ends id ending) :
      Course id (⟨.acquire id, none⟩ :: (work ++ (ending ++ [⟨.release id, f?⟩])))

theorem conclude_runs (id : Nat) (query : Query) (parameters : List Value) (w : World) :
    ∃ outcome u work ending, Runs (conclude id query parameters) w (.ok outcome) u (work ++ ending) ∧
      (∀ a ∈ work, IsWork id a.event) ∧ Ends id ending := by
  obtain ⟨r, u, trace, hr, ht⟩ := transact_runs id query parameters w
  cases ht with
  | committed rows hw =>
    have h : Runs (conclude id query parameters) w _ u _ := hr.attempt.bind_ok (.pure _ u)
    rw [List.append_nil] at h
    exact ⟨_, u, _, _, h, hw, .committed⟩
  | failed e hw =>
    obtain ⟨f?, hu⟩ := undo_runs id e u
    have h : Runs (conclude id query parameters) w _ _ _ := hr.attempt.bind_ok (hu.bind_ok (.pure _ _))
    exact ⟨_, _, _, _, h, hw, .undone f?⟩
  | uncommitted e hw =>
    obtain ⟨f?, hu⟩ := undo_runs id e u
    have h : Runs (conclude id query parameters) w _ _ _ := hr.attempt.bind_ok (hu.bind_ok (.pure _ _))
    rw [List.append_assoc] at h
    exact ⟨_, _, _, _, h, hw, .uncommitted e f?⟩

/-- What is left to do for a statement once its connection is there. -/
theorem finish_runs (id : Nat) (query : Query) (parameters : List Value) (w : World) :
    ∃ r u work ending f?, Runs (do
        let outcome ← conclude id query parameters
        release id
        Act.settle outcome) w r u (work ++ (ending ++ [⟨.release id, f?⟩])) ∧
      (∀ a ∈ work, IsWork id a.event) ∧ Ends id ending := by
  obtain ⟨outcome, v, work, ending, hc, hw, he⟩ := conclude_runs id query parameters w
  obtain ⟨r', f?, hrel⟩ := release_runs id v
  have hrest : ∃ r, Runs (do release id; Act.settle outcome) v r (v.tried (.release id) .release)
      [⟨.release id, f?⟩] := by
    cases r' with
    | error e => exact ⟨_, hrel.bind_error⟩
    | ok _ => exact ⟨_, hrel.bind_ok (.settle outcome _)⟩
  obtain ⟨r, hrest⟩ := hrest
  have h : Runs (do
      let outcome ← conclude id query parameters
      release id
      Act.settle outcome) w _ _ _ := hc.bind_ok hrest
  rw [List.append_assoc] at h
  exact ⟨r, _, work, ending, f?, h, hw, he⟩

theorem run_course (id : Nat) (query : Query) (parameters : List Value) (w : World) :
    ∃ r u trace, Runs (run id query parameters) w r u trace ∧ Course id trace := by
  obtain ⟨r, u, trace, hr, ha⟩ := acquire_runs id w
  cases ha with
  | refused e => exact ⟨_, u, _, hr.bind_error, .refused⟩
  | failed e => exact ⟨_, u, _, hr.bind_error, .failed e⟩
  | done =>
    obtain ⟨r, v, work, ending, f?, hf, hw, he⟩ := finish_runs id query parameters u
    exact ⟨r, v, _, hr.bind_ok hf, .acquired f? hw he⟩

/-- What a client can be asked for: any statement, or one on the rows of a table. -/
inductive Task where
  | run (query : Query) (parameters : List Value)
  | execute (query parameters : Value)
  | findRows (table conditions options : Value)
  | findRow (table row : Value)
  | insertRow (table data : Value)
  | updateRow (table row data : Value)
  | deleteRow (table row : Value)

def Task.perform (id : Nat) : Task → Act World Value
  | .run query parameters => Client.run id query parameters
  | .execute query parameters => Client.execute id query parameters
  | .findRows table conditions options => Client.findRows id table conditions options
  | .findRow table row => Client.findRow id table row
  | .insertRow table data => Client.insertRow id table data
  | .updateRow table row data => Client.updateRow id table row data
  | .deleteRow table row => Client.deleteRow id table row

/-- From whatever world, a step tries what is tried for one statement. -/
def Conducts (id : Nat) (step : Act World α) : Prop :=
  ∀ w, ∃ r u trace, Runs step w r u trace ∧ Course id trace

theorem Conducts.settled {id : Nat} {r : Except Failure β} {f : β → Act World α}
    (h : ∀ b, Conducts id (f b)) : Conducts id (Act.settle r >>= f) := by
  intro w
  cases r with
  | error e => exact ⟨_, w, [], (Runs.settle _ w).bind_error, .refused⟩
  | ok b =>
    obtain ⟨r, u, trace, hr, hc⟩ := h b w
    exact ⟨r, u, trace, (Runs.settle _ w).bind_ok hr, hc⟩

theorem Conducts.shown {id : Nat} {x : Act World β} (h : Conducts id x) (f : β → α) :
    Conducts id (do return f (← x)) := by
  intro w
  obtain ⟨r, u, trace, hr, hc⟩ := h w
  cases r with
  | error e => exact ⟨_, u, trace, hr.bind_error, hc⟩
  | ok b =>
    have h : Runs (do return f (← x)) w _ u _ := hr.bind_ok (.pure (f b) u)
    rw [List.append_nil] at h
    exact ⟨_, u, trace, h, hc⟩

theorem runPrepared_conducts (id : Nat) (p : Except Failure Statement.Prepared) :
    Conducts id (runPrepared id p) :=
  .settled fun p => run_course id (.fragments p.pieces) p.parameters

theorem perform_conducts (id : Nat) (task : Task) : Conducts id (task.perform id) := by
  cases task with
  | run query parameters => exact run_course id query parameters
  | execute query parameters => exact .settled fun ps => run_course id (.ofValue query) ps
  | findRows table conditions options => exact (runPrepared_conducts id _).shown orEmpty
  | findRow table row => exact (runPrepared_conducts id _).shown firstOrNull
  | insertRow table data => exact (runPrepared_conducts id _).shown firstOrNull
  | updateRow table row data => exact (runPrepared_conducts id _).shown orEmpty
  | deleteRow table row => exact (runPrepared_conducts id _).shown orEmpty

end Client

end TableAccess
