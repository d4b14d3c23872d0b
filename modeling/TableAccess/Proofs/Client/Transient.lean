import TableAccess.Proofs.Client.Discipline
import TableAccess.Proofs.Client.History

/-! Clients for one statement. Such a client is made with a pool of its own, the statement is run on it, and
it is closed whatever has become of the statement (`Ran`). So its pool is closed once, and last of all
(`Ran.cleanedUp`), and the statement is run exactly if nothing goes wrong up to giving the connection back
(`executed_iff`), whatever becomes of closing (`Ran.ok_iff`). -/

namespace TableAccess

/-! ### Closing -/

section Closings

variable {w u v : World} {id : Nat}

/-- What has become of the pool of a client that was open: nothing, or it has been closed, and once. -/
inductive Closings (id : Nat) : Option Bool → List Event → Prop
  | still {es : List Event} (h : .closeAll id ∉ es) : Closings id (some false) es
  | once {before after : List Event} (hbefore : .closeAll id ∉ before) (hafter : .closeAll id ∉ after) :
      Closings id (some true) (before ++ .closeAll id :: after)

theorem Closings.there {closed? : Option Bool} {es : List Event} (h : Closings id closed? es) :
    closed?.isSome := by
  cases h <;> rfl

theorem Closings.append {closed? : Option Bool} {es others : List Event} (h : Closings id closed? es)
    (hothers : .closeAll id ∉ others) : Closings id closed? (es ++ others) := by
  cases h with
  | still h => exact .still (by simp [h, hothers])
  | once hbefore hafter =>
    rw [List.append_assoc, List.cons_append]
    exact .once hbefore (by simp [hafter, hothers])

/-- One change leaves a client as it is, or it closes its pool and that is all. -/
theorem Change.closings (h : Change w u) (there : (w.closed? id).isSome) :
    ∃ es, u.journal = w.journal ++ es ∧
      (u.closed? id = w.closed? id ∧ .closeAll id ∉ es ∨
        w.closed? id = some false ∧ u.closed? id = some true ∧ es = [.closeAll id]) := by
  cases h with
  | aside clients _ journal =>
    obtain ⟨es, hes, hall⟩ := journal
    exact ⟨es, hes, .inl ⟨World.closed?_congr clients, fun hm => hall _ hm⟩⟩
  | acquired other _ clients _ journal =>
    exact ⟨_, journal, .inl ⟨World.closed?_congr clients, by simp⟩⟩
  | closed other isOpen clients _ journal =>
    refine ⟨_, journal, ?_⟩
    rw [World.closed?_marked clients]
    by_cases ho : other = id
    · subst ho
      exact .inr ⟨isOpen, by rw [if_pos rfl, isOpen]; rfl, rfl⟩
    · exact .inl ⟨if_neg ho, by simpa using Ne.symm ho⟩
  | made c _ clients _ journal =>
    refine ⟨[], by rw [journal, List.append_nil], .inl ⟨?_, List.not_mem_nil⟩⟩
    have hne : id ≠ w.clients.length := by
      rintro rfl
      simp [World.closed?] at there
    rw [World.closed?_added clients, if_neg hne]

theorem Changes.closings (h : Changes w u) (isOpen : w.closed? id = some false) :
    ∃ es, u.journal = w.journal ++ es ∧ Closings id (u.closed? id) es := by
  induction h with
  | refl => exact ⟨[], (List.append_nil _).symm, isOpen ▸ .still List.not_mem_nil⟩
  | @tail v u hpast hstep ih =>
    obtain ⟨es, hes, hclosings⟩ := ih
    have hthere : (v.closed? id).isSome := Changes.there hpast (by rw [isOpen]; rfl)
    obtain ⟨others, hothers, ⟨hsame, hnone⟩ | ⟨hopen, hclosed, rfl⟩⟩ := hstep.closings hthere
    · refine ⟨es ++ others, by rw [hothers, hes, List.append_assoc], ?_⟩
      rw [hsame]
      exact hclosings.append hnone
    · refine ⟨es ++ [.closeAll id], by rw [hothers, hes, List.append_assoc], ?_⟩
      rw [hopen] at hclosings
      rw [hclosed]
      cases hclosings with
      | still h => exact .once h List.not_mem_nil

/-- Closing a client closes its pool, unless that has been done: it is closed once then. -/
theorem Closings.close {journal es : List Event} (h : Closings id (v.closed? id) es)
    (hes : v.journal = journal ++ es) :
    ∃ before after, (Client.close id v).2.journal = journal ++ (before ++ .closeAll id :: after) ∧
      .closeAll id ∉ before ++ after ∧ before ++ after ⊆ es ∧
      (v.closed? id = some true ∨ after = []) := by
  generalize hclosed : v.closed? id = closed? at h
  cases h with
  | still hnone =>
    obtain ⟨flag, u, hu, -, -, hjournal⟩ := Client.close_open hclosed
    refine ⟨es, [], ?_, by simpa using hnone, by simp, .inr rfl⟩
    rw [hu, hjournal, hes, List.append_assoc]
  | @once before after hbefore hafter =>
    refine ⟨before, after, ?_, by simp [hbefore, hafter], ?_, .inl rfl⟩
    · rw [Client.close_closed hclosed, hes]
    · exact List.append_subset.mpr ⟨by simp, by simp⟩

end Closings

namespace Client

/-- A statement makes no pool. -/
theorem Course.no_pool {id : Nat} {trace : List Attempt} (h : Course id trace) :
    ∀ e ∈ trace.map (·.event), e.site? ≠ some .pool := by
  rw [List.forall_mem_map]
  cases h with
  | refused => simp
  | failed e => simp
  | acquired f? hw he =>
    simp only [List.forall_mem_cons, List.forall_mem_append]
    refine ⟨by simp, fun a ha => ?_, fun a ha => ?_, by simp⟩
    · rcases (hw a ha).site? with h | h <;> rw [h] <;> decide
    · rcases he.site? a ha with h | h <;> rw [h] <;> decide

/-- Making a client succeeds unless a fault is planned for its pool. -/
theorem create_tells (o : Order) (key? : Option Value) (w : World) :
    Tells (create o key?) w (w.next? .pool) w.clients.length fun u =>
      World.Spends [.pool] w u ∧ u.responses = w.responses ∧
        u.journal = w.journal ++ [.pool o.smallest o.largest o.poolSettings] ∧
        (w.next? .pool = none → u.clients = w.clients ++ [o.client key?]) := by
  let e : Event := .pool o.smallest o.largest o.poolSettings
  let v := w.tried e .pool
  have haside := w.aside_tried e .pool
  have hstep : World.step e .pool w = (told (w.next? .pool) (), v) := w.step_run e .pool
  unfold create
  cases hf : w.next? .pool with
  | some f =>
    rw [hf] at hstep
    exact ⟨v, Act.bind_error hstep, haside.spends, haside.responses, w.tried_journal e .pool, by simp⟩
  | none =>
    rw [hf] at hstep
    refine ⟨{ v with clients := v.clients ++ [o.client key?] }, ?_, haside.spends, haside.responses,
      w.tried_journal e .pool, fun _ => congrArg (· ++ _) haside.clients⟩
    rw [Act.bind_ok hstep, Act.bind_ok (Act.get_run v), ← haside.clients]
    rfl

variable {o : Order} {statement : String} {w u : World} {id : Nat}

/-! ### A client that has just been made -/

/-- Making a pool and running a statement on it gives rows. -/
def Executed (o : Order) (statement : String) (w : World) : Prop :=
  ∃ id u rows v, create o none w = (.ok id, u) ∧
    execute id (.text statement) .null u = (.ok rows, v)

/-- Nothing goes wrong with a statement on a pool of its own. Rolling back and closing are not part of it;
nor is giving the connection back, if the answer to the statement closes the pool. -/
structure Untroubled (w : World) : Prop where
  made : w.next? .pool = none
  obtained : w.next? .acquire = none
  sent : w.next? .send = none
  /-- If the answer closes a client, that one is there. -/
  there : ∀ id, w.awaiting.closes? = some id → id ≤ w.clients.length
  answered : w.awaiting.failure? = none
  fetched : w.awaiting.columns?.isSome = true → w.next? .fetch = none
  committed : w.next? .commit = none
  returned : w.awaiting.closes? ≠ some w.clients.length → w.next? .release = none

/-- A client that has been made, with its pool. -/
structure Made (o : Order) (w : World) (id : Nat) (u : World) : Prop where
  number : id = w.clients.length
  free : w.next? .pool = none
  spends : World.Spends [.pool] w u
  responses : u.responses = w.responses
  journal : u.journal = w.journal ++ [.pool o.smallest o.largest o.poolSettings]
  clients : u.clients = w.clients ++ [o.client none]

/-- A client that is made has a new number, and no fault has struck its pool. -/
theorem Made.of_create (h : create o none w = (.ok id, u)) : Made o w id u := by
  obtain ⟨u', hu', hspends, hresponses, hjournal, hclients⟩ := create_tells o none w
  obtain rfl : u' = u := congrArg Prod.snd (hu'.symm.trans h)
  have hresult : told (w.next? .pool) w.clients.length = .ok id := congrArg Prod.fst (hu'.symm.trans h)
  cases hfree : w.next? .pool with
  | some e =>
    rw [hfree] at hresult
    contradiction
  | none =>
    rw [hfree] at hresult
    exact ⟨(Except.ok.inj hresult).symm, hfree, hspends, hresponses, hjournal, hclients hfree⟩

/-- A client that is not made leaves the attempt in the journal. -/
theorem unmade_of_create {e : Failure} (h : create o none w = (.error e, u)) :
    (w.next? .pool).isSome ∧ u.journal = w.journal ++ [.pool o.smallest o.largest o.poolSettings] := by
  obtain ⟨u', hu', -, -, hjournal, -⟩ := create_tells o none w
  obtain rfl : u' = u := congrArg Prod.snd (hu'.symm.trans h)
  have hresult : told (w.next? .pool) w.clients.length = .error e :=
    congrArg Prod.fst (hu'.symm.trans h)
  exact ⟨told_eq_error_iff.mp ⟨e, hresult⟩, hjournal⟩

theorem create_free (o : Order) (h : w.next? .pool = none) :
    ∃ u, create o none w = (.ok w.clients.length, u) := by
  obtain ⟨u, hu, -⟩ := create_tells o none w
  rw [h] at hu
  exact ⟨u, hu⟩

theorem execute_eq (id : Nat) (statement : String) (u : World) :
    execute id (.text statement) .null u = run id (.text statement) [] u :=
  execute_run rfl u

namespace Made

variable (h : Made o w id u)
include h

theorem isOpen : u.closed? id = some false := by
  rw [World.closed?_added h.clients, if_pos h.number]
  rfl

theorem awaiting : u.awaiting = w.awaiting := by
  rw [World.awaiting, World.awaiting, h.responses]

theorem missing?_eq_none_iff (other : Nat) : u.missing? other = none ↔ other ≤ w.clients.length := by
  have hthere : (u.closed? other).isSome ↔ other < u.clients.length := by
    simp [World.closed?]
  rw [World.missing?, ite_eq_left_iff]
  simp only [reduceCtorEq, imp_false, Decidable.not_not, hthere, h.clients, List.length_append,
    List.length_singleton]
  omega

/-- What goes wrong with a statement on a new pool is planned. -/
theorem untroubled_iff : Untroubled w ↔ unobtained? id u = none ∧
    unreturned? id (.text statement) u = none ∧ setback? (.text statement) u = none := by
  have hobtained : unobtained? id u = w.next? .acquire := by
    rw [unobtained?, h.isOpen, ← h.spends .acquire (by decide)]
  have hmeanwhile : closedMeanwhile id (.text statement) u =
      ((w.next? .send).isNone && w.awaiting.closes? == some w.clients.length) := by
    rw [closedMeanwhile, closes, h.awaiting, h.spends .send (by decide), h.number]
    rfl
  have hreturned : unreturned? id (.text statement) u =
      if (w.next? .acquire).isSome || closedMeanwhile id (.text statement) u then none
      else w.next? .release := by
    rw [unreturned?, hobtained, h.spends .release (by decide)]
  have hthere : w.awaiting.closes?.bind u.missing? = none ↔
      ∀ other, w.awaiting.closes? = some other → other ≤ w.clients.length := by
    simp only [Option.bind_eq_none_iff, h.missing?_eq_none_iff]
  have hset : setback? (.text statement) u = none ↔ w.next? .send = none ∧
      (∀ other, w.awaiting.closes? = some other → other ≤ w.clients.length) ∧
      w.awaiting.failure? = none ∧ (w.awaiting.columns?.isSome = true → w.next? .fetch = none) ∧
      w.next? .commit = none := by
    rw [setback?, unwritten?, unanswered?, unfetched?, h.awaiting, h.spends .send (by decide),
      h.spends .fetch (by decide), h.spends .commit (by decide)]
    simp only [Option.none_or, Option.or_eq_none_iff, hthere, ite_eq_right_iff, and_assoc]
  rw [hobtained, hreturned, hset, hmeanwhile]
  constructor
  · rintro ⟨-, obtained, sent, there, answered, fetched, committed, returned⟩
    refine ⟨obtained, ?_, sent, there, answered, fetched, committed⟩
    by_cases hc : w.awaiting.closes? = some w.clients.length
    · simp [hc, sent]
    · simp [hc, obtained, returned hc]
  · rintro ⟨obtained, returned, sent, there, answered, fetched, committed⟩
    refine ⟨h.free, obtained, sent, there, answered, fetched, committed, fun hc => ?_⟩
    simpa [obtained, hc] using returned

theorem executed_iff (statement : String) :
    (∃ rows, (execute id (.text statement) .null u).1 = .ok rows) ↔ Untroubled w := by
  have htells : Tells (run id (.text statement) []) u _ _ _ := run_tells
  obtain ⟨v, hv, -⟩ := htells
  have hresult := congrArg Prod.fst hv
  rw [execute_eq, hresult, h.untroubled_iff]
  cases unobtained? id u <;> cases unreturned? id (.text statement) u <;>
    cases setback? (.text statement) u <;> simp [told]

/-- A statement on a new pool enters its steps, among which the pool may be closed. -/
theorem execute_closings {outcome : Except Failure Value} {v : World}
    (hexecute : execute id (.text statement) .null u = (outcome, v)) :
    ∃ es, v.journal = u.journal ++ es ∧ (∀ e ∈ es, e.site? ≠ some .pool) ∧
      Closings id (v.closed? id) es ∧
      (v.closed? id = some true → w.awaiting.closes? = some w.clients.length) := by
  rw [execute_eq] at hexecute
  have htells : Tells (run id (.text statement) []) u _ _ _ := run_tells
  obtain ⟨v', hv', hclosed⟩ := htells
  obtain rfl : v' = v := congrArg Prod.snd (hv'.symm.trans hexecute)
  obtain ⟨r, v, trace, hruns, hcourse⟩ := run_course id (.text statement) [] u
  obtain rfl : v = v' := congrArg Prod.snd (hruns.run.symm.trans hexecute)
  have hchanges : Changes u v := by simpa [hexecute] using run_evolves id (.text statement) [] u
  obtain ⟨es, hes, hclosings⟩ := hchanges.closings h.isOpen
  obtain rfl : es = trace.map (·.event) := List.append_cancel_left (hes.symm.trans hruns.passed.journal)
  refine ⟨_, hes, hcourse.no_pool, hclosings, fun hc => ?_⟩
  rw [hclosed, h.isOpen] at hc
  split at hc
  · have hcloses : closes id u = true := by
      simpa [closedMeanwhile, unwritten?] using hc
    rw [closes, h.awaiting, h.number] at hcloses
    simpa using (Bool.and_eq_true_iff.mp hcloses).2
  · simp at hc

end Made

/-- A statement is run on a pool of its own exactly if nothing goes wrong with it. -/
theorem executed_iff (o : Order) (statement : String) (w : World) :
    Executed o statement w ↔ Untroubled w := by
  constructor
  · rintro ⟨id, u, rows, v, hcreate, hexecute⟩
    exact ((Made.of_create hcreate).executed_iff statement).mp ⟨rows, congrArg Prod.fst hexecute⟩
  · intro h
    obtain ⟨u, hcreate⟩ := create_free o h.made
    obtain ⟨rows, hrows⟩ := ((Made.of_create hcreate).executed_iff statement).mpr h
    exact ⟨_, u, rows, _, hcreate, Prod.ext hrows rfl⟩

/-! ### The run -/

/-- What is entered in the journal. A pool that is made is closed once, and last of all unless the answer to
the statement has closed it before; without a pool nothing else is entered. -/
inductive CleanedUp (w : World) : List Event → Prop
  | nothing : CleanedUp w []
  | unmade {smallest largest : Value} {settings : Entries} (fault : (w.next? .pool).isSome) :
      CleanedUp w [.pool smallest largest settings]
  | closed {smallest largest : Value} {settings : Entries} {before after : List Event}
      (made : w.next? .pool = none) (sole : ∀ e ∈ before ++ after, e.site? ≠ some .pool)
      (once : .closeAll w.clients.length ∉ before ++ after)
      (last : w.awaiting.closes? ≠ some w.clients.length → after = []) :
      CleanedUp w (.pool smallest largest settings :: before ++ .closeAll w.clients.length :: after)

/-- How a statement ends that is run on a pool of its own. -/
inductive Ran (o : Order) (statement : String) (w : World) : Except Failure Unit → World → Prop
  | unmade {e : Failure} {u : World} (make : create o none w = (.error e, u)) :
      Ran o statement w (.error e) u
  | closed {id : Nat} {u v x : World} {outcome : Except Failure Value} {failed : Bool}
      (make : create o none w = (.ok id, u))
      (execute : execute id (.text statement) .null u = (outcome, v))
      (close : close id v = (.ok failed, x)) : Ran o statement w (outcome.map fun _ => ()) x

namespace Ran

variable {r : Except Failure Unit} {x : World} (h : Ran o statement w r x)
include h

/-- Whatever has become of the statement, its pool is closed once. -/
theorem cleanedUp : ∃ events, x.journal = w.journal ++ events ∧ CleanedUp w events := by
  cases h with
  | unmade make =>
    obtain ⟨hfault, hjournal⟩ := unmade_of_create make
    exact ⟨_, hjournal, .unmade hfault⟩
  | closed make execute close =>
    have hmade := Made.of_create make
    obtain ⟨es, hes, hsole, hclosings, hanswer⟩ := hmade.execute_closings execute
    rw [hmade.journal] at hes
    obtain ⟨before, after, hjournal, honce, hsub, hlast⟩ := hclosings.close hes
    obtain rfl := hmade.number
    have hcleaned : CleanedUp w (.pool o.smallest o.largest o.poolSettings :: before ++
        .closeAll w.clients.length :: after) :=
      .closed hmade.free (fun e he => hsole e (hsub he)) honce fun hne =>
        hlast.resolve_left fun hclosed => hne (hanswer hclosed)
    rw [close] at hjournal
    exact ⟨_, by simpa using hjournal, hcleaned⟩

/-- Closing the pool has no part in the outcome. -/
theorem ok_iff : r = .ok () ↔ Executed o statement w := by
  rw [executed_iff]
  cases h with
  | unmade make =>
    have hfault := (unmade_of_create make).1
    exact iff_of_false (by simp) fun h => by simp [h.made] at hfault
  | @closed id u v x outcome failed make execute close =>
    rw [← (Made.of_create make).executed_iff statement, execute]
    cases outcome <;> simp [Except.map]

end Ran

end Client

end TableAccess
