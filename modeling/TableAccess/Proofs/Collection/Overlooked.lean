import TableAccess.Proofs.Collection.Blameless
import TableAccess.Proofs.Collection.Removal
import TableAccess.Proofs.Collection.Routing
import TableAccess.Proofs.Collection.Slots
import TableAccess.Proofs.Collection.Validation
import TableAccess.Proofs.Memory.Reading
import TableAccess.Proofs.Statement.Options

/-! Arguments that are wrong, and that a call accepts all the same. A call looks at its arguments from
the outside: conditions have to be a mapping, and nobody looks at the alternatives in it, or at the
options of a search. What is wrong inside is found when the statement is made, after the pre-hook has
run. Of a collection that gives no cause for it, an operation that is waited for reports an argument
exactly if there is such a flaw: alternatives that are none, or an option that cannot be written into the
statement of a search on a path (`argument_overlooked_iff`). -/

namespace TableAccess

open Statement

variable {σ β : Type}

/-- A mapping with something among its alternatives that is none. -/
def Value.Malformed (v : Value) : Prop := ∃ es, v = .map es ∧ ¬ Entries.WellFormed es

/-- The conditions that an operation selects rows by. -/
def Request.searched? : Request → Option Value
  | .count conditions | .updateAll conditions _ | .removeAll conditions | .find conditions _ =>
    some conditions
  | .get _ | .flush _ | .insert _ | .update .. | .remove _ => none

/-- What is wrong with the arguments of a request and not seen by its call, given what they read as. -/
inductive Request.Overlooked (read : Value → Value) : Request → Failure → Prop
  | conditions {r : Request} {v : Value} (searched : r.searched? = some v)
      (malformed : (read v).Malformed) : Overlooked read r (.invalidFormat Condition.orKey)
  | options {conditions options : Value} {es os : Entries} {items : List Entries} {flaw : Flaw}
      (hes : read conditions = .map es) (hos : read options = .map os) (wellFormed : es.WellFormed)
      (orders : Orders os items) (path : ∃ f ∈ Route.fields es items, Route.ShowsPath f)
      (columns : ∃ s, Raw.columns (os.get "columns") = .ok s)
      (first : firstFlaw? Raw.itemFlaw? os items = some flaw) :
      Overlooked read (.find conditions options) (Raw.failure flaw)

/-! ### The statements of an operation -/

namespace Statement.Raw

theorem whereClause_blameless {v : Value} (h : ¬ v.Malformed) : Blameless (whereClause v) := by
  unfold whereClause
  refine .bind ?_ fun c _ => .ok _
  cases v with
  | map es =>
    have wellFormed : Entries.WellFormed es := not_not.mp fun hn => h ⟨es, rfl, hn⟩
    rw [show Condition.ofValue (.map es) = .ok (.tree es) from
      Condition.ofEntries_ok_iff.mpr ⟨wellFormed, rfl⟩]
    exact .ok _
  | _ =>
    unfold Condition.ofValue
    split
    · contradiction
    · split
      · exact .error id
      · exact .ok _

theorem select_blameless (table : String) {es os : Entries} {items : List Entries}
    (wellFormed : es.WellFormed) (orders : Orders os items)
    (flawless : (∃ s, columns (os.get "columns") = .ok s) → firstFlaw? itemFlaw? os items = none) :
    Blameless (select table (.map es) (.map os)) := by
  cases hcolumns : columns (os.get "columns") with
  | error e =>
    unfold select
    rw [optionEntries_map]
    show Blameless (columns (os.get "columns") >>= _)
    rw [hcolumns]
    exact .error (columns_blameless _ e hcolumns)
  | ok s =>
    have hselect := failsBy_select table wellFormed orders ⟨s, hcolumns⟩
    rw [flawless ⟨s, hcolumns⟩] at hselect
    obtain ⟨q, hq⟩ := hselect
    rw [hq]
    exact .ok q

theorem selectAll_blameless (table : String) {v : Value} (h : ¬ v.Malformed) :
    Blameless (select table v .null) := by
  unfold select
  show Blameless (whereClause v >>= _)
  exact .bind (whereClause_blameless h) fun _ _ => .ok _

theorem selectAll_refused (table : String) {es : Entries} (malformed : ¬ es.WellFormed) :
    select table (.map es) .null = .error (.invalidFormat Condition.orKey) := by
  unfold select
  rw [whereClause_refused malformed]
  rfl

theorem count_blameless (table : String) {v : Value} (h : ¬ v.Malformed) : Blameless (count table v) :=
  .bind (whereClause_blameless h) fun _ _ => .ok _

theorem count_refused (table : String) {es : Entries} (malformed : ¬ es.WellFormed) :
    count table (.map es) = .error (.invalidFormat Condition.orKey) := by
  unfold count
  rw [whereClause_refused malformed]
  rfl

theorem update_blameless (table : String) (data : Value) {v : Value} (h : ¬ v.Malformed) :
    Blameless (update table data v) :=
  .bind (entries_blameless data) fun _ _ => .bind (whereClause_blameless h) fun _ _ => .ok _

end Statement.Raw

namespace Route

theorem orderField_blameless (item : Value) : Blameless (orderField item) := by
  cases item with
  | map item =>
    rw [orderField_eq_ok_iff.mpr ⟨item, rfl, rfl⟩]
    exact .ok _
  | object o =>
    obtain ⟨number, kind, text, given⟩ := o
    cases kind <;> exact .error id
  | _ => exact .error id

theorem needsRaw_blameless {es os : Entries} (wellFormed : es.WellFormed) :
    Blameless (needsRaw (.map es) (.map os)) := by
  have hkeys : conditionKeys (.map es) = .ok (Condition.tree es).keys := by
    rw [conditionKeys, Condition.ofEntries_ok_iff.mpr ⟨wellFormed, rfl⟩]
    rfl
  have hfields : Blameless (orderFields (.map os)) := by
    unfold orderFields
    rw [optionEntries_map]
    show Blameless (if (!(os.get "order").truthy) = true then Except.ok []
      else elements (os.get "order") >>= List.mapM orderField)
    split
    · exact .ok _
    · exact .bind (elements_blameless _) fun xs _ => .mapM orderField_blameless xs
  unfold needsRaw
  rw [hkeys]
  exact .bind (.ok _) fun _ _ => .bind hfields fun _ _ => .ok _

theorem needsRaw_refused {es : Entries} (malformed : ¬ es.WellFormed) (options : Value) :
    needsRaw (.map es) options = .error (.invalidFormat Condition.orKey) := by
  have hkeys : conditionKeys (.map es) = .error (.invalidFormat Condition.orKey) := by
    rw [conditionKeys, Condition.ofEntries_error malformed]
    rfl
  unfold needsRaw
  rw [hkeys]
  rfl

end Route

namespace Collection

variable {c : Collection σ} {r : Request} {e : Failure} {u : Stage σ}

/-- A statement that there is not is not sent. -/
theorem execute_refused (h : c.Unobtrusive) (e : Failure) :
    c.execute (.error e) = Act.settle (.error e) := by
  obtain ⟨k, hk, -⟩ := h.connected
  unfold execute
  rw [hk]
  rfl

/-- What comes after a statement comes in a memory that is as it was. -/
theorem blameless_executed (h : c.Unobtrusive) {statement : Except Failure String}
    {f : Value → Act (Stage σ) β} (hs : Blameless statement)
    (hf : ∀ v o, Blameless (f v ⟨u.memory, o⟩).1) : Blameless ((c.execute statement >>= f) u).1 := by
  cases statement with
  | error e =>
    rw [execute_refused h, Act.settle_error_bind]
    exact .error (hs e rfl)
  | ok q =>
    obtain ⟨r, o, hr, hblameless⟩ := execute_ok_run h q u
    refine Act.blameless_run (by rwa [hr]) fun v t ht => ?_
    obtain ⟨-, rfl⟩ := Prod.mk.inj (hr.symm.trans ht)
    exact hf v o

theorem blameless_reading {v : Value} {f : Value → Act (Stage σ) β}
    (hf : Blameless (f (u.memory.read v) u).1) : Blameless ((Stage.read v >>= f) u).1 := by
  rwa [Act.bind_ok (Stage.read_run v u)]

/-- An overlooked argument is found before anything has been sent. -/
theorem afterHook_overlooked (h : c.Unobtrusive) (overlooked : r.Overlooked u.memory.read e) :
    c.afterHook r u = (.error e, u) := by
  cases overlooked with
  | @conditions r v searched malformed =>
    obtain ⟨es, hes, malformed⟩ := malformed
    cases r with
    | count conditions =>
      obtain rfl := Option.some.inj searched
      refine (Act.bind_ok (Stage.read_run conditions u)).trans ?_
      rw [hes, Raw.count_refused c.table malformed, execute_refused h, Act.settle_error_bind]
      rfl
    | updateAll conditions | removeAll conditions =>
      obtain rfl := Option.some.inj searched
      refine (Act.bind_ok (Stage.read_run conditions u)).trans ?_
      rw [hes, Raw.selectAll_refused c.table malformed, execute_refused h, Act.settle_error_bind]
      rfl
    | find conditions options =>
      obtain rfl := Option.some.inj searched
      refine (Act.bind_ok (Stage.read_run conditions u)).trans ?_
      refine (Act.bind_ok (Stage.read_run options u)).trans ?_
      rw [hes, Route.search_refused _ _ _ (Route.needsRaw_refused malformed _), Act.settle_error_bind]
      rfl
    | get | flush | insert | update | remove => cases searched
  | @options conditions options es os items flaw hes hos wellFormed orders path columns first =>
    -- a path sends the search the raw way, and only there the options go into a text
    have hraw : Route.needsRaw (.map es) (.map os) = .ok true :=
      Route.needsRaw_eq_ok_iff.mpr ⟨wellFormed, items, orders, (decide_eq_true path).symm⟩
    have hselect := Raw.failsBy_select c.table wellFormed orders columns
    rw [first] at hselect
    refine (Act.bind_ok (Stage.read_run conditions u)).trans ?_
    refine (Act.bind_ok (Stage.read_run options u)).trans ?_
    rw [hes, hos, Route.search_eq _ _ _ hraw, if_pos rfl,
      show Raw.select c.table (.map es) (.map os) = .error (Raw.failure flaw) from hselect,
      Act.settle_error_bind, Act.settle_error_bind]
    rfl

/-- The rows of an update that there is a statement for. -/
theorem blameless_updateSelected (h : c.Unobtrusive) {conditions : Value} (data candidates : Value)
    (sound : ¬ (u.memory.read conditions).Malformed) :
    Blameless (c.updateSelected conditions data candidates u).1 := by
  refine Act.blameless_run (rowIds_blameless candidates) fun ids t ht => ?_
  obtain ⟨-, rfl⟩ := Prod.mk.inj ht
  split
  · exact blameless_concludeEmpty h _ u
  · -- the update reads the conditions anew, from the memory in which the select has read them
    refine blameless_reading (blameless_reading ?_)
    refine Act.blameless_run (Raw.update_blameless c.table _ sound) fun q t ht => ?_
    obtain ⟨-, rfl⟩ := Prod.mk.inj ht
    exact ((blameless_execute h q).bind fun _ => (blameless_execute h _).bind fun rows =>
      blameless_finishRows h _ rows) u

theorem blameless_removeSelected (h : c.Unobtrusive) (snapshot : Value) :
    Act.Blameless (c.removeSelected snapshot) := by
  unfold removeSelected
  split
  · exact blameless_concludeEmpty h _
  · exact (Act.blameless_settle (rowIds_blameless snapshot)).bind fun ids =>
      (blameless_execute h _).bind fun _ =>
        (Act.blameless_settle (elements_blameless snapshot)).bind fun rows =>
          blameless_finishRows h _ (.list rows)

theorem blameless_search (h : c.Unobtrusive) {es os : Entries} (wellFormed : es.WellFormed)
    {find : Value → Value → Act (Stage σ) Value} (hfind : ∀ v w, Act.Blameless (find v w))
    (flawless : ∀ items, Orders os items → (∃ f ∈ Route.fields es items, Route.ShowsPath f) →
      (∃ s, Raw.columns (os.get "columns") = .ok s) → firstFlaw? Raw.itemFlaw? os items = none) :
    Act.Blameless (search c.table (fun q => c.execute (.ok q)) find (.map es) (.map os)) := by
  cases hraw : Route.needsRaw (.map es) (.map os) with
  | error e =>
    rw [Route.search_refused _ _ _ hraw]
    exact Act.blameless_settle (.error (Route.needsRaw_blameless wellFormed e hraw))
  | ok raw =>
    obtain ⟨-, items, orders, rfl⟩ := Route.needsRaw_eq_ok_iff.mp hraw
    rw [Route.search_eq _ _ _ hraw]
    split
    next path =>
      have hselect := Raw.select_blameless c.table wellFormed orders
        (flawless items orders (of_decide_eq_true path))
      exact (Act.blameless_settle hselect).bind fun q => blameless_execute h q
    next => exact hfind _ _

/-- Where no argument has been overlooked none is reported. -/
theorem afterHook_blameless (h : c.Unobtrusive)
    (mapped : ∀ conditions options, r = .find conditions options →
      (∃ es, u.memory.read conditions = .map es) ∧ ∃ os, u.memory.read options = .map os)
    (sound : ∀ e, ¬ r.Overlooked u.memory.read e) : Blameless (c.afterHook r u).1 := by
  have hsound {v : Value} (searched : r.searched? = some v) : ¬ (u.memory.read v).Malformed :=
    fun malformed => sound _ (.conditions searched malformed)
  cases r with
  | get id =>
    exact blameless_accessor h (fun t ht => (blameless_ask (ht.findOne id)).bind fun row =>
      blameless_finishRow h _ row) u
  | insert data =>
    exact blameless_accessor h (fun t ht => (Stage.blameless_read data).bind fun v =>
      (blameless_ask (ht.insert v)).bind fun row => blameless_finishRow h _ row) u
  | update id data =>
    exact blameless_accessor h (fun t ht => (Stage.blameless_read data).bind fun v =>
      (blameless_ask (ht.updateById id v)).bind fun row => blameless_finishRow h _ (firstRow row)) u
  | remove id =>
    exact blameless_accessor h (fun t ht => (blameless_ask (ht.destroyById id)).bind fun row =>
      blameless_finishRow h _ (firstRow row)) u
  | flush flag =>
    refine ((blameless_execute h _).bind fun _ => (h.post .flush []).bind fun _ =>
      (Stage.blameless_look flag).bind fun v => ?_) u
    dsimp only
    split
    · exact (blameless_execute h _).bind fun _ => Act.blameless_pure _
    · exact Act.blameless_pure _
  | count conditions =>
    refine blameless_reading (blameless_executed h (Raw.count_blameless c.table (hsound rfl)) ?_)
    exact fun v o => ((Act.blameless_settle (countOf_blameless c.table v)).bind fun n =>
      blameless_conclude h _ (.int n)) ⟨u.memory, o⟩
  | updateAll conditions data =>
    refine blameless_reading (blameless_executed h (Raw.selectAll_blameless c.table (hsound rfl)) ?_)
    exact fun candidates o => blameless_updateSelected h data candidates (hsound rfl)
  | removeAll conditions =>
    refine blameless_reading (blameless_executed h (Raw.selectAll_blameless c.table (hsound rfl)) ?_)
    exact fun snapshot o => blameless_removeSelected h snapshot ⟨u.memory, o⟩
  | find conditions options =>
    obtain ⟨⟨es, hes⟩, os, hos⟩ := mapped conditions options rfl
    have wellFormed : Entries.WellFormed es := not_not.mp fun hn => hsound rfl ⟨es, hes, hn⟩
    refine blameless_reading (blameless_reading ?_)
    rw [hes, hos]
    refine ((blameless_search h wellFormed (fun v w => ?_) fun items orders path columns => ?_).bind
      fun rows => blameless_finishRows h _ rows) u
    · exact blameless_accessor h fun t ht => blameless_ask (ht.find v w)
    · cases hfirst : firstFlaw? Raw.itemFlaw? os items with
      | none => rfl
      | some flaw =>
        exact absurd (.options hes hos wellFormed orders path columns hfirst) (sound _)

end Collection

/-! ### From the call to its end -/

/-- Formatting changes nothing but a payload, so it overlooks nothing and reveals nothing. -/
theorem Request.overlooked_formatted {f? : Option (Formatter σ)} {r r' : Request} {s s' : Stage σ}
    (h : r.formatted f? s = (.ok r', s')) : r'.operation = r.operation ∧
      (∀ read e, r'.Overlooked read e ↔ r.Overlooked read e) ∧
      ∀ conditions options, r' = .find conditions options → r = r' ∧ s' = s := by
  cases r with
  | insert data | update id data | updateAll conditions data =>
    obtain ⟨v, t, -, hv⟩ := Act.of_bind_ok h
    cases hv
    refine ⟨rfl, fun read e => ⟨?_, ?_⟩, fun _ _ hfind => by cases hfind⟩
    · rintro ⟨searched, malformed⟩
      exact .conditions searched malformed
    · rintro ⟨searched, malformed⟩
      exact .conditions searched malformed
  | get | count | flush | remove | removeAll | find =>
    cases h
    exact ⟨rfl, fun _ _ => Iff.rfl, fun _ _ _ => ⟨rfl, rfl⟩⟩

theorem Request.operation_defaulted {look : Value → Value} (r : Request) :
    (r.defaulted look).operation = r.operation := by
  cases r <;> rfl

namespace Collection

variable {c : Collection σ} {r : Request} {p : Pending} {e : Failure} {s s' t : Stage σ}

/-- Conditions and options of an accepted search read as mappings. -/
theorem mapped_of_accept (accepted : c.accept r s = (.ok p, s')) {conditions options : Value}
    (hfind : p.request = .find conditions options) :
    (∃ es, s'.memory.read conditions = .map es) ∧ ∃ os, s'.memory.read options = .map os := by
  obtain ⟨hr, rfl⟩ :=
    (Request.overlooked_formatted (c.formatted_of_accept accepted).2).2.2 conditions options hfind
  rw [hfind] at hr
  have hmap (v : Value) :
      ∃ es, s'.memory.read (if (s'.memory.look v).isMap then v else .map []) = .map es := by
    split
    next hv =>
      obtain ⟨es, hes⟩ := (Value.isMap_iff _).mp hv
      obtain ⟨es', hread, -⟩ := Memory.read_of_look hes
      exact ⟨es', hread⟩
    next => exact ⟨_, rfl⟩
  cases r with
  | find conditions options =>
    obtain ⟨rfl, rfl⟩ := Request.find.inj hr
    exact ⟨hmap conditions, hmap options⟩
  | _ => cases hr

/-- A collection that gives no cause for it accepts an operation, which is waited for with the memory as
the call has left it. It reports an argument exactly if one has been overlooked; then nothing but the
pre-hook has run. -/
theorem argument_overlooked_iff (h : c.Unobtrusive) (accepted : c.accept r s = (.ok p, s'))
    (same : t.memory = s'.memory) (he : e.IsArgument) :
    ((c.perform p t).1 = .error e ↔ (r.defaulted s.memory.look).Overlooked t.memory.read e) ∧
    ((r.defaulted s.memory.look).Overlooked t.memory.read e →
      ∃ o, runHook (c.pre r.operation) p.request.payload?.toList t = (.ok .null, ⟨t.memory, o⟩) ∧
        c.perform p t = (.error e, ⟨t.memory, o⟩)) := by
  obtain ⟨hoperation, hoverlooked, -⟩ :=
    Request.overlooked_formatted (c.formatted_of_accept accepted).2
  obtain ⟨o, hhook⟩ := h.pre p.request.operation p.request.payload?.toList t
  have hperform : c.perform p t = c.afterHook p.request ⟨t.memory, o⟩ := by
    refine (congrFun (c.perform_eq p.request) t).trans ((Act.bind_ok hhook).trans ?_)
    rw [prepared_null]
  rw [← hoverlooked, hperform]
  have hfound (e' : Failure) (overlooked : p.request.Overlooked t.memory.read e') :
      c.afterHook p.request ⟨t.memory, o⟩ = (.error e', ⟨t.memory, o⟩) :=
    afterHook_overlooked h overlooked
  refine ⟨⟨fun failed => ?_, fun overlooked => by rw [hfound e overlooked]⟩, fun overlooked => ?_⟩
  · -- whatever has been overlooked is what is reported, for nothing is looked at behind it
    by_cases hany : ∃ e', p.request.Overlooked t.memory.read e'
    · obtain ⟨e', overlooked⟩ := hany
      rw [hfound e' overlooked] at failed
      exact Except.error.inj failed ▸ overlooked
    · have hmapped (conditions options : Value) (hfind : p.request = .find conditions options) :=
        mapped_of_accept accepted hfind
      rw [← same] at hmapped
      have hblameless := afterHook_blameless (u := ⟨t.memory, o⟩) h hmapped
        fun e' overlooked => hany ⟨e', overlooked⟩
      exact absurd he (hblameless e failed)
  · rw [← Request.operation_defaulted r, ← hoperation]
    exact ⟨o, hhook, hfound e overlooked⟩

theorem answered_unobtrusive (table : String) (answer : Value) :
    (answered table answer).Unobtrusive where
  connected := ⟨_, rfl, fun _ => Act.blameless_pure answer⟩
  accessor t ht := by
    obtain rfl := Option.some.inj ht
    exact ⟨fun _ _ => Act.blameless_pure _, fun _ => Act.blameless_pure _,
      fun _ => Act.blameless_pure _, fun _ _ => Act.blameless_pure _, fun _ => Act.blameless_pure _⟩
  toJs f hf := by cases hf
  pre op arguments s := ⟨(), rfl⟩
  post op arguments := Act.blameless_pure _

/-- A search on a path whose limit is no number. -/
theorem argument_overlooked_iff_limit :
    let users := answered "users" people
    let stage : Stage Unit := ⟨.empty, ()⟩
    let r : Request := .find (.map [("data->>'age' >", .int 18)]) (.map [("limit", .text "many")])
    users.Unobtrusive ∧ users.accept r stage = (.ok ⟨r⟩, stage) ∧
      (r.defaulted stage.memory.look).Overlooked stage.memory.read (.invalidFormat "limit") ∧
      (users.perform ⟨r⟩ stage).1 = .error (.invalidFormat "limit") := by
  intro users stage r
  have unobtrusive : users.Unobtrusive := answered_unobtrusive "users" people
  have accepted : users.accept r stage = (.ok ⟨r⟩, stage) := rfl
  have wellFormed : Entries.WellFormed [("data->>'age' >", .int 18)] :=
    Condition.wellFormed_of_isSome _ rfl
  have path : ∃ f ∈ Route.fields [("data->>'age' >", .int 18)] [], Route.ShowsPath f := by
    rw [Route.fields_eq wellFormed]
    decide
  have overlooked : (r.defaulted stage.memory.look).Overlooked stage.memory.read
      (.invalidFormat "limit") :=
    .options rfl rfl wellFormed (.inl ⟨rfl, rfl⟩) path ⟨_, rfl⟩
      (show firstFlaw? Raw.itemFlaw? [("limit", .text "many")] [] = some (.paging "limit") from rfl)
  have reported := argument_overlooked_iff (e := .invalidFormat "limit") unobtrusive accepted rfl trivial
  exact ⟨unobtrusive, accepted, overlooked, reported.1.mpr overlooked⟩

/-- Alternatives that are a number: the call accepts them, and the operation reports them. -/
theorem alternatives_overlooked :
    let users := answered "users" people
    let stage : Stage Unit := ⟨.empty, ()⟩
    let r : Request := .count (.map [("or", .int 5)])
    users.Unobtrusive ∧ users.accept r stage = (.ok ⟨r⟩, stage) ∧
      users.perform ⟨r⟩ stage = (.error (.invalidFormat "or"), stage) ∧
      (Failure.invalidFormat "or").IsArgument :=
  ⟨answered_unobtrusive "users" people, rfl, rfl, trivial⟩

end Collection

end TableAccess
