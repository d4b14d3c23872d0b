import TableAccess.Proofs.Client.Outcome
import TableAccess.Proofs.Client.Sending
import TableAccess.Proofs.Statement.Options

/-! Which searches are accepted. A structured search asks the pool of its client for a connection as soon
as its arguments are in order, and is refused with nothing done otherwise; a written search is a
statement as soon as its arguments are in order. For the same request the two are almost the same: the
written one is accepted exactly if the structured one is, and the fields of all order items count as
given (`search_accepted_iff`). An order by a field without a name is accepted by one of them only
(`nameless_order_accepted`). All this is about numbers of no more than `Number.digitLimit` digits: a
number written with more of them has a text here, but none in the library. -/

namespace TableAccess

open Statement

namespace Client

variable {α β : Type} {id : Nat} {w : World}

/-- A step that begins by asking the pool of a client for a connection. -/
def AsksPool (id : Nat) (step : Act World α) (w : World) : Prop :=
  ∃ events, (step w).2.journal = w.journal ++ .acquire id :: events

/-- A step that is refused before anything is tried. -/
def Refused (step : Act World α) (w : World) : Prop := ∃ e, step w = (.error e, w)

theorem Refused.not_asksPool {x : Act World α} (h : Refused x w) : ¬ AsksPool id x w := by
  rintro ⟨events, he⟩
  obtain ⟨e, hx⟩ := h
  rw [hx] at he
  simpa using congrArg List.length he

theorem AsksPool.map {x : Act World α} (h : AsksPool id x w) (f : α → β) :
    AsksPool id (do return f (← x)) w := by
  obtain ⟨events, he⟩ := h
  obtain ⟨r, u, hr⟩ : ∃ r u, x w = (r, u) := ⟨_, _, rfl⟩
  rw [hr] at he
  cases r with
  | error e => exact ⟨events, by rw [Act.bind_error hr]; exact he⟩
  | ok a => exact ⟨events, by rw [Act.bind_ok hr]; exact he⟩

theorem Runs.asksPool {x : Act World α} {r : Except Failure α} {u : World} {f? : Option Failure}
    {trace : List Attempt} (h : Runs x w r u (⟨.acquire id, f?⟩ :: trace)) : AsksPool id x w :=
  ⟨trace.map (·.event), by rw [h.run, h.passed.journal]; rfl⟩

/-- An open client asks its pool for whatever it is to run. -/
theorem run_asksPool (h : w.closed? id = some false) (query : Query) (parameters : List Value) :
    AsksPool id (run id query parameters) w := by
  have hacquire : acquire id w = World.step (.acquire id) .acquire w :=
    (Act.bind_ok (isClosed_run h)).trans rfl
  have hruns {r : Except Failure Unit} {u : World} {trace : List Attempt}
      (hs : Runs (World.step (.acquire id) .acquire) w r u trace) : Runs (acquire id) w r u trace :=
    ⟨hacquire.trans hs.run, hs.passed⟩
  -- a pool that gives no connection has been asked for one as well
  rcases Runs.step_cases (e := .acquire id) w rfl with ⟨f, hs⟩ | hs
  · exact Runs.asksPool ((hruns hs).bind_error (f := fun _ => _))
  · obtain ⟨r, u, work, ending, f?, hf, -, -⟩ :=
      finish_runs id query parameters (w.tried (.acquire id) .acquire)
    exact Runs.asksPool ((hruns hs).bind_ok hf)

theorem findRows_asksPool (opened : w.closed? id = some false) {name conditions options : Value}
    {p : Prepared} (hp : Prepared.find name conditions options = .ok p) :
    AsksPool id (findRows id name conditions options) w := by
  have hrun : AsksPool id (runPrepared id (.ok p)) w := by
    rw [runPrepared, Act.settle_ok_bind]
    exact run_asksPool opened _ _
  unfold findRows
  rw [hp]
  exact hrun.map orEmpty

theorem findRows_refused {name conditions options : Value} {e : Failure}
    (hp : Prepared.find name conditions options = .error e) :
    Refused (findRows id name conditions options) w := by
  unfold findRows
  rw [hp]
  exact ⟨e, rfl⟩

/-- A structured search asks its pool exactly if its condition is well-formed and its options have no
flaw, and is refused otherwise. -/
theorem findRows_accepted_iff (opened : w.closed? id = some false) {es os : Entries}
    {items : List Entries} {names : List String} (columns : Columns os names)
    (orders : Orders os items) (name : Value) :
    (AsksPool id (findRows id name (.map es) (.map os)) w ↔
      es.WellFormed ∧ firstFlaw? Bound.itemFlaw? os items = none) ∧
    (Refused (findRows id name (.map es) (.map os)) w ↔
      ¬ (es.WellFormed ∧ firstFlaw? Bound.itemFlaw? os items = none)) := by
  have hiff : (∃ p, Prepared.find name (.map es) (.map os) = .ok p) ↔
      es.WellFormed ∧ firstFlaw? Bound.itemFlaw? os items = none := by
    by_cases wellFormed : es.WellFormed
    · rw [(Prepared.failsBy_find name wellFormed orders columns).exists_ok_iff, and_iff_right wellFormed]
    · simp [Prepared.find_refused name wellFormed columns, wellFormed]
  rw [← hiff]
  cases hp : Prepared.find name (.map es) (.map os) with
  | ok p =>
    have hasks := findRows_asksPool opened hp
    have hnot : ¬ Refused (findRows id name (.map es) (.map os)) w := fun h => h.not_asksPool hasks
    simp [hasks, hnot]
  | error e =>
    have hrefused : Refused (findRows id name (.map es) (.map os)) w := findRows_refused hp
    simp [hrefused, hrefused.not_asksPool]

/-- For one request the written search is a statement exactly if the structured search asks its pool
and the fields of all order items count as given. -/
theorem search_accepted_iff (opened : w.closed? id = some false) {es os : Entries}
    {items : List Entries} {names : List String} (columns : Columns os names)
    (orders : Orders os items) (name : Value) (table : String) :
    ((∃ s, Raw.select table (.map es) (.map os) = .ok s) ↔
      AsksPool id (findRows id name (.map es) (.map os)) w ∧
        ∀ item ∈ items, (item.get "field").truthy = true) ∧
    (Refused (findRows id name (.map es) (.map os)) w ↔
      ¬ AsksPool id (findRows id name (.map es) (.map os)) w) := by
  obtain ⟨hasks, hrefused⟩ := findRows_accepted_iff opened columns orders name
  rw [hrefused, hasks]
  refine ⟨?_, Iff.rfl⟩
  by_cases wellFormed : es.WellFormed
  · rw [(Raw.failsBy_select table wellFormed orders (Raw.columns_ok columns)).exists_ok_iff,
      Raw.firstFlaw?_eq_none_iff, and_iff_right wellFormed]
  · simp [Raw.select_refused table wellFormed columns, wellFormed]

/-- A search by age in the order of the names: with a limit of three it is accepted both ways, with a
limit below zero it is refused both ways. -/
theorem search_accepted_iff_limits :
    let es : Entries := [("age >", .int 18)]
    let os (limit : Int) : Entries :=
      [("columns", .list [.text "id", .text "name"]),
        ("order", .list [.map [("field", .text "name"), ("direction", .text "desc")]]),
        ("limit", .int limit)]
    let structured (limit : Int) := findRows 0 (.text "users") (.map es) (.map (os limit))
    ((∃ s, Raw.select "users" (.map es) (.map (os 3)) = .ok s) ∧ AsksPool 0 (structured 3) alone) ∧
      (¬ (∃ s, Raw.select "users" (.map es) (.map (os (-1))) = .ok s) ∧
        Refused (structured (-1)) alone) := by
  intro es os structured
  have opened : alone.closed? 0 = some false := rfl
  have wellFormed : es.WellFormed := Condition.wellFormed_of_isSome es rfl
  have columns (limit : Int) : Columns (os limit) ["id", "name"] := .inr rfl
  have orders (limit : Int) :
      Orders (os limit) [[("field", .text "name"), ("direction", .text "desc")]] := .inr rfl
  have hasks : AsksPool 0 (structured 3) alone :=
    (findRows_accepted_iff opened (columns 3) (orders 3) _).1.mpr ⟨wellFormed, by decide +kernel⟩
  have hnone : Refused (structured (-1)) alone :=
    (findRows_accepted_iff opened (columns (-1)) (orders (-1)) _).2.mpr
      fun h => absurd h.2 (by decide +kernel)
  obtain ⟨hthree, -⟩ :=
    search_accepted_iff opened (columns 3) (orders 3) (.text "users") "users"
  obtain ⟨hbelow, hrefused⟩ :=
    search_accepted_iff opened (columns (-1)) (orders (-1)) (.text "users") "users"
  refine ⟨⟨hthree.mpr ⟨hasks, by decide⟩, hasks⟩, fun h => ?_, hnone⟩
  exact hrefused.mp hnone (hbelow.mp h).1

/-- An order by a field that is called nothing at all. -/
theorem nameless_order_accepted :
    let os : Entries := [("order", .list [.map [("field", .text "")]])]
    Columns os [] ∧ Orders os [[("field", .text "")]] ∧ alone.closed? 0 = some false ∧
      AsksPool 0 (findRows 0 (.text "users") (.map []) (.map os)) alone ∧
      Raw.select "users" (.map []) (.map os) = .error (.invalidFormat "order.field") := by
  intro os
  have columns : Columns os [] := .inl ⟨rfl, rfl⟩
  have orders : Orders os [[("field", .text "")]] := .inr rfl
  have wellFormed : Entries.WellFormed [] := Condition.wellFormed_of_isSome [] rfl
  have hasks : AsksPool 0 (findRows 0 (.text "users") (.map []) (.map os)) alone :=
    (findRows_accepted_iff rfl columns orders _).1.mpr ⟨wellFormed, by decide +kernel⟩
  exact ⟨columns, orders, rfl, hasks, rfl⟩

end Client

end TableAccess
