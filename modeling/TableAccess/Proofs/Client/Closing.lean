import TableAccess.Proofs.Client.Pooling
import TableAccess.Proofs.Client.Sending

/-! What is over once a client is closed. Its pool is closed once and gives out no connection from then
on, and whoever asks the client for a statement is refused, by itself or through a backend, before
anything happens (`closed_for_good`). Only parameters that are none are refused earlier
(`execute_refused_earlier`). -/

namespace TableAccess

open Client

namespace Client

/-- Whether the arguments of a task are such that it can be tried at all. -/
def Task.Accepted : Task → Prop
  | .run .. => True
  | .execute _ parameters => ∃ values, parameterList parameters = .ok values
  | .findRows table conditions options => ∃ p, Statement.Prepared.find table conditions options = .ok p
  | .insertRow table data => ∃ p, Statement.Prepared.insert table data = .ok p
  | .updateRow table row data => ∃ p, Statement.Prepared.updateById table row data = .ok p
  | .findRow .. | .deleteRow .. => True

variable {id : Nat} {w : World}

theorem run_refused (h : w.closed? id = some true) (query : Query) (parameters : List Value) :
    run id query parameters w = (.error .clientClosed, w) := by
  have hacquire : acquire id w = (.error .clientClosed, w) :=
    (Act.bind_ok (isClosed_run h)).trans rfl
  exact Act.bind_error hacquire

theorem runPrepared_refused (h : w.closed? id = some true) (p : Statement.Prepared) :
    runPrepared id (.ok p) w = (.error .clientClosed, w) := by
  rw [runPrepared, Act.settle_ok_bind]
  exact run_refused h _ _

/-- A closed client refuses whatever can be tried, and nothing happens. -/
theorem perform_refused (h : w.closed? id = some true) (task : Task) (ha : task.Accepted) :
    task.perform id w = (.error .clientClosed, w) := by
  cases task with
  | run query parameters => exact run_refused h query parameters
  | execute query parameters =>
    obtain ⟨values, hv⟩ := ha
    exact (execute_run hv w).trans (run_refused h _ _)
  | findRows table conditions options =>
    obtain ⟨p, hp⟩ := ha
    exact Act.bind_error (hp ▸ runPrepared_refused h p)
  | insertRow table data =>
    obtain ⟨p, hp⟩ := ha
    exact Act.bind_error (hp ▸ runPrepared_refused h p)
  | updateRow table row data =>
    obtain ⟨p, hp⟩ := ha
    exact Act.bind_error (hp ▸ runPrepared_refused h p)
  | findRow table row => exact Act.bind_error (runPrepared_refused h _)
  | deleteRow table row => exact Act.bind_error (runPrepared_refused h _)

end Client

/-- What a call to a backend, for a table, asks its client for. -/
def Call.task (name : Value) : Call → Task
  | .statement text => .execute (.text text) .null
  | .find conditions options => .findRows name conditions options
  | .findOne row => .findRow name row
  | .insert data => .insertRow name data
  | .updateById row data => .updateRow name row data
  | .destroyById row => .deleteRow name row

namespace PooledBackend

variable {b id : Nat} {backend : Backend} {w : World}

theorem client_run (hb : w.backends[b]? = some backend) (hc : backend.client? = some id) :
    client b w = (.ok id, w) := by
  unfold client
  rw [Act.bind_ok (lookup_run hb), hc]
  rfl

theorem execute_refused (hb : w.backends[b]? = some backend) (hc : backend.client? = some id)
    (h : w.closed? id = some true) (query : Value) :
    execute b query w = (.error .clientClosed, w) := by
  have hx : Client.execute id query .null w = (.error .clientClosed, w) :=
    perform_refused h (.execute query .null) ⟨[], rfl⟩
  exact (Act.bind_ok (client_run hb hc)).trans (Act.bind_error hx)

theorem call_refused (hb : w.backends[b]? = some backend) (hc : backend.client? = some id)
    (h : w.closed? id = some true) (name : Value) {c : Call} (ha : (c.task name).Accepted) :
    call b name c w = (.error .clientClosed, w) := by
  have hclient := client_run hb hc
  cases c with
  | statement text => exact execute_refused hb hc h (.text text)
  | find | findOne | insert | updateById | destroyById =>
    exact (Act.bind_ok hclient).trans (perform_refused h _ ha)

end PooledBackend

namespace Client

/-- What one can rely on about closed clients. -/
structure ClosedForGood (w : World) : Prop where
  closed_iff : ∀ id, .closeAll id ∈ w.journal ↔ w.closed? id = some true
  /-- A pool is closed once and gives out no connection from then on. -/
  once : ∀ id before after, w.journal = before ++ .closeAll id :: after →
    .closeAll id ∉ before ∧ .closeAll id ∉ after ∧ .acquire id ∉ after
  /-- Closing a client succeeds, whatever becomes of its pool. -/
  closes : ∀ id, (w.closed? id).isSome → ∃ flag u, close id w = (.ok flag, u) ∧ .closeAll id ∈ u.journal
  refused : ∀ id (task : Task), .closeAll id ∈ w.journal → task.Accepted →
    task.perform id w = (.error .clientClosed, w)
  refused_backend : ∀ b backend id, w.backends[b]? = some backend → backend.client? = some id →
    .closeAll id ∈ w.journal →
      (∀ query, PooledBackend.execute b query w = (.error .clientClosed, w)) ∧
      ∀ name (c : Call), (c.task name).Accepted → PooledBackend.call b name c w = (.error .clientClosed, w)
  /-- Closing all clients of the cache empties it and closes them all. -/
  closeCached : ∃ u, closeCached w = (.ok (), u) ∧ u.cache = [] ∧
    ∀ e ∈ w.cache, u.closed? e.2 = some true ∧ .closeAll e.2 ∈ u.journal

theorem not_reopened (h : Orderly w) {before after : List Event} {id : Nat}
    (hj : w.journal = before ++ .closeAll id :: after) :
    .closeAll id ∉ before ∧ .closeAll id ∉ after ∧ .acquire id ∉ after := by
  have hended := h.ended
  rw [hj] at hended
  obtain ⟨-, hafter, hbefore⟩ := List.pairwise_append.mp hended
  have hlater := (List.pairwise_cons.mp hafter).1
  refine ⟨fun hm => ?_, fun hm => ?_, fun hm => ?_⟩
  · exact (hbefore _ hm _ List.mem_cons_self id rfl).1 rfl
  · exact (hlater _ hm id rfl).1 rfl
  · exact (hlater _ hm id rfl).2 rfl

/-- Wherever a history has come to, closed clients are closed for good. -/
theorem closed_for_good {ts : List Turn} {w : World} (h : History .empty ts w) : ClosedForGood w where
  closed_iff := h.orderly.closed_iff
  once _ _ _ hj := not_reopened h.orderly hj
  closes id hid := by
    obtain ⟨flag, u, hu, hc⟩ := close_ok hid
    have horderly := (Move.fair (.close id) h.orderly).orderly
    rw [show (Move.close id).effect w = u from congrArg Prod.snd hu] at horderly
    exact ⟨flag, u, hu, (horderly.closed_iff id).mpr hc⟩
  refused id task hj ha := perform_refused ((h.orderly.closed_iff id).mp hj) task ha
  refused_backend b backend id hb hc hj := by
    have hclosed := (h.orderly.closed_iff id).mp hj
    exact ⟨PooledBackend.execute_refused hb hc hclosed,
      fun name _ ha => PooledBackend.call_refused hb hc hclosed name ha⟩
  closeCached := by
    obtain ⟨u, hu, hchanges, hall⟩ := closeCached_run h.orderly.there
    have horderly := hchanges.orderly h.orderly.emptied
    refine ⟨u, hu, List.subset_nil.mp hchanges.cache_subset, fun e he => ⟨hall e he, ?_⟩⟩
    exact (horderly.closed_iff _).mpr (hall e he)

/-- A client of a backend is closed while its pool fails to close, and refuses what it is asked for. -/
theorem closed_for_good_backend :
    let o : Order := ⟨[("host", .text "localhost")], [], .int 1, .int 10⟩
    let first := (Move.create o).effect .empty
    let second := (Move.backend .null (some 0) (some 0)).effect
      { first with faults := [⟨.closeAll, .outside .runtime "pool is gone"⟩] }
    let third := (Move.closeBackend 0).effect second
    .closeAll 0 ∈ third.journal ∧ ClosedForGood third ∧
      PooledBackend.execute 0 (.text "SELECT 1") third = (.error .clientClosed, third) := by
  intro o first second third
  have hplanned : Meanwhile first
      { first with faults := [⟨.closeAll, .outside .runtime "pool is gone"⟩] } :=
    ⟨rfl, rfl, rfl, [], (List.append_nil _).symm, by simp⟩
  have hclosed : third.closed? 0 = some true := rfl
  have hgood : ClosedForGood third := closed_for_good
    ((((History.start.turn (.create o)).meanwhile hplanned).turn
      (.backend .null (some 0) (some 0))).turn (.closeBackend 0))
  have hj := (hgood.closed_iff 0).mpr hclosed
  exact ⟨hj, hgood, (hgood.refused_backend 0 _ 0 rfl rfl hj).1 _⟩

/-- A client is closed, and is then asked for a statement with parameters that cannot be listed. -/
theorem execute_refused_earlier :
    let o : Order := ⟨[("host", .text "localhost")], [], .int 1, .int 10⟩
    let w := (Move.close 0).effect ((Move.create o).effect .empty)
    History .empty [⟨.empty, .create o⟩, ⟨(Move.create o).effect .empty, .close 0⟩] w ∧
      .closeAll 0 ∈ w.journal ∧
      execute 0 (.text "SELECT 1") (.int 5) w = (.error .wrongType, w) :=
  ⟨(History.start.turn _).turn _, .tail _ (.head _), rfl⟩

end Client

end TableAccess
