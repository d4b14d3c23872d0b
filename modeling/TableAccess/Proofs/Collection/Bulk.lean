import TableAccess.Proofs.Collection.Exchange
import TableAccess.Proofs.Collection.Removal
import TableAccess.Proofs.Statement.Raw

/-! What is said in the course of an update or a removal of many rows. Both are exchanges by a plan
that looks at nothing but the answers: the conditional select comes first, and ends the exchange if it
finds no rows; what comes then names the condition or the identifiers of these rows. Callbacks run
before the first statement and after the last (`bulk_exchanges`), and what the database does in
between, on its own or for others, is left open. -/

namespace TableAccess

open Entries (mappings)

/-- The identifiers of the rows in an answer. -/
def Value.ids (rows : Value) : List Value := (mappings rows).map Entries.identifier

@[simp] theorem Value.ids_rows (rows : List Entries) :
    (Value.list (rows.map .map)).ids = rows.map Entries.identifier := by
  rw [ids, Condition.mappings_list]

namespace Collection

open Statement

variable {σ : Type}

/-- Select, update under the same condition, and read the selected rows again. -/
def updatePlan (table : String) (sets : Entries) (condition : Condition) : Plan
  | [] => some ("SELECT * FROM " ++ table ++ condition.clause)
  | [candidates] =>
    if candidates.ids.isEmpty then none
    else
      some ("UPDATE " ++ table ++ " SET " ++
        ", ".intercalate (sets.map fun e => e.1 ++ " = " ++ String.ofList (literal e.2)) ++
          condition.clause)
  | [candidates, _] =>
    some ("SELECT * FROM " ++ table ++ " WHERE id IN (" ++
      ",".intercalate (candidates.ids.map Value.toText) ++ ")")
  | _ => none

/-- Select, and delete the selected rows. -/
def removalPlan (table : String) (condition : Condition) : Plan
  | [] => some ("SELECT * FROM " ++ table ++ condition.clause)
  | [snapshot] =>
    if snapshot.ids.isEmpty then none
    else
      some ("DELETE FROM " ++ table ++ " WHERE id IN (" ++
        ",".intercalate (snapshot.ids.map Value.toText) ++ ")")
  | _ => none

/-- What is left to do of an update: to give back the rows that were read last. -/
def afterUpdate (c : Collection σ) : Except Failure (List Value) → Act (Stage σ) Value
  | .ok [_, _, rows] => c.giveRows .updateAll ((mappings rows).map .map)
  | .ok _ => c.concludeEmpty .updateAll
  | .error e => throw e

/-- What is left to do of a removal: to give back the rows that were selected. -/
def afterRemoval (c : Collection σ) : Except Failure (List Value) → Act (Stage σ) Value
  | .ok [snapshot, _] => c.giveRows .removeAll ((mappings snapshot).map .map)
  | .ok _ => c.concludeEmpty .removeAll
  | .error e => throw e

/-- All that a request sends is the one exchange by a plan, from a stage that its pre-hook leaves, and
its result is what is left to do once the exchange is over. -/
def Exchanges (d : Collection σ) (p : Pending) (t u : Stage σ) (k : Connection σ) (plan : Plan)
    (left : Except Failure (List Value) → Act (Stage σ) Value) : Prop :=
  ∃ sent r o, (∀ sent' r' o',
      Exchange k plan [] u.outside sent' r' o' ↔ sent' = sent ∧ r' = r ∧ o' = o) ∧
    d.statements p t = sent ∧ d.perform p t = left r ⟨u.memory, o⟩

section Silent

variable (c : Collection σ)

theorem follows_giveRows (op : Operation) (rows : List Value) :
    Follows (fun d => d.statement? = none) (c.watched.giveRows op rows) (c.giveRows op rows) := by
  rw [← finishRows_list, ← finishRows_list]
  exact follows_finishRows (fun _ => Deed.statement?_of_isCallback) c op (.list rows)

theorem follows_empty (op : Operation) :
    Follows (fun d => d.statement? = none) (c.watched.concludeEmpty op) (c.concludeEmpty op) :=
  follows_concludeEmpty (fun _ => Deed.statement?_of_isCallback) c op

theorem follows_afterUpdate (r : Except Failure (List Value)) :
    Follows (fun d => d.statement? = none) (c.watched.afterUpdate r) (c.afterUpdate r) := by
  unfold afterUpdate
  split
  · exact c.follows_giveRows _ _
  · exact c.follows_empty _
  · exact .throw _

theorem follows_afterRemoval (r : Except Failure (List Value)) :
    Follows (fun d => d.statement? = none) (c.watched.afterRemoval r) (c.afterRemoval r) := by
  unfold afterRemoval
  split
  · exact c.follows_giveRows _ _
  · exact c.follows_empty _
  · exact .throw _

end Silent

variable {c d : Collection σ} {k : Connection σ} {s t u : Stage σ} {conditions data payload : Value}
  {sets es : Entries} {p : Pending}

/-- A pre-hook sends nothing, so a request that converses once it is prepared exchanges. -/
theorem exchanges_of_prepared {op : Operation} {plan : Plan}
    {f : Value → Act (Stage (Watched σ)) Value}
    (left : (τ : Type) → Collection τ → Except Failure (List Value) → Act (Stage τ) Value)
    (prepared : d.prepare op data t = (.ok payload, u))
    (course : d.watched.perform p = d.watched.prepare op data >>= f)
    (converses : ∀ w : Stage (Watched σ), w.plain = u →
      Converses k plan [] w (f payload) (left _ d.watched))
    (silent : ∀ r, Follows (fun d => d.statement? = none) (left _ d.watched r) (left _ d r)) :
    d.Exchanges p t u k plan (left _ d) := by
  have hplain := (follows_prepare (fun _ h => h) d op data).same t.fresh
  have hquiet := d.sends_prepare op data t.fresh
  obtain ⟨r, w, hw⟩ : ∃ r w, d.watched.prepare op data t.fresh = (r, w) := ⟨_, _, rfl⟩
  rw [hw] at hplain
  obtain ⟨rfl, hu⟩ := Prod.mk.inj (hplain.trans prepared)
  obtain ⟨sent, r, o, hx, hsends, hres⟩ := (converses w hu).outcome silent
  refine ⟨sent, r, o, fun sent' r' o' => ?_, ?_, ?_⟩
  · rw [← hu]
    exact ⟨fun h => h.unique hx, by rintro ⟨rfl, rfl, rfl⟩; exact hx⟩
  · have h : Sends (d.watched.perform p) t.fresh ([] ++ sent) := course ▸ .bind_ok hw hquiet hsends
    exact h
  · have h := d.perform_watched p t.fresh
    rw [course, Act.bind_ok hw, hres] at h
    rw [← hu]
    exact h.symm

theorem rowIds_list {rows : List Entries} (h : ∀ row ∈ rows, row.has "id" = true) :
    rowIds (.list (rows.map .map)) = .ok (Value.list (rows.map .map)).ids := by
  rw [rowIds_rows h, Value.ids_rows]

theorem select_run {f : Value → Act (Stage σ) Value} (wellFormed : es.WellFormed)
    (hes : s.memory.read conditions = .map es) :
    (do f (← c.execute (Raw.select c.table (← Stage.read conditions) .null))) s =
      (c.execute (.ok (Raw.selectWhere c.table (.tree es))) >>= f) s := by
  rw [Act.bind_ok (Stage.read_run _ _), hes, Raw.select_tree _ wellFormed]

/-- Both begin with the conditional select, from whose rows they go on. -/
theorem converses_select {w : Stage (Watched σ)} {plan : Plan}
    {f : Value → Act (Stage (Watched σ)) Value}
    {left : Except Failure (List Value) → Act (Stage (Watched σ)) Value}
    (connected : d.attachment = .connection k) (wellFormed : es.WellFormed)
    (select : k.GivesRows (Raw.selectWhere d.table (.tree es)))
    (first : plan [] = some (Raw.selectWhere d.table (.tree es)))
    (failed : ∀ e t, left (.error e) t = (.error e, t))
    (hes : w.memory.read conditions = .map es)
    (onward : ∀ (rows : List Entries) o, (∀ row ∈ rows, row.has "id" = true) →
      Converses k plan [.list (rows.map .map)] (w.after [Raw.selectWhere d.table (.tree es)] o)
        (f (.list (rows.map .map))) left) :
    Converses k plan [] w
      (do f (← d.watched.execute (Raw.select d.table (← Stage.read conditions) .null))) left := by
  refine .congr (select_run wellFormed hes) (.statement connected first failed fun v o hv => ?_)
  obtain ⟨hrigid, rows, rfl, hid⟩ := select _ _ _ hv
  rw [Memory.read_of_rigid _ hrigid]
  exact onward rows o hid

section Update

variable {w : Stage (Watched σ)} {candidates : Value}

theorem updateSelected_run_none (hids : rowIds candidates = .ok candidates.ids)
    (hempty : candidates.ids.isEmpty = true) :
    c.updateSelected conditions payload candidates s = c.concludeEmpty .updateAll s := by
  unfold updateSelected
  rw [hids, Act.bind_ok (Act.settle_run _ _), if_pos hempty]

theorem updateSelected_run (hids : rowIds candidates = .ok candidates.ids)
    (hsome : ¬ candidates.ids.isEmpty = true) (wellFormed : es.WellFormed)
    (hsets : s.memory.read payload = .map sets) (hes : s.memory.read conditions = .map es) :
    c.updateSelected conditions payload candidates s =
      (do let _ ← c.execute (.ok (Raw.updateWhere c.table sets (.tree es)))
          c.finishRows .updateAll (← c.execute (.ok (Raw.selectIds c.table candidates.ids)))) s := by
  unfold updateSelected
  rw [hids, Act.bind_ok (Act.settle_run _ _), if_neg hsome, Act.bind_ok (Stage.read_run _ _),
    Act.bind_ok (Stage.read_run _ _), hsets, hes, Raw.update_tree _ wellFormed]
  exact Act.bind_ok (Act.settle_run _ _)

theorem converses_updateSelected (connected : d.attachment = .connection k)
    (wellFormed : es.WellFormed) (hids : rowIds candidates = .ok candidates.ids)
    (again : ∀ ids, k.GivesRows (Raw.selectIds d.table ids))
    (hsets : w.memory.read payload = .map sets) (hes : w.memory.read conditions = .map es) :
    Converses k (updatePlan d.table sets (.tree es)) [candidates] w
      (d.watched.updateSelected conditions payload candidates) d.watched.afterUpdate := by
  by_cases hempty : candidates.ids.isEmpty = true
  · exact .finished (by simp [updatePlan, hempty]) (updateSelected_run_none hids hempty)
  · refine .congr (updateSelected_run hids hempty wellFormed hsets hes) ?_
    refine .statement connected (by simp [updatePlan, hempty]; rfl) (fun _ _ => rfl) fun v o _ => ?_
    refine .statement connected rfl (fun _ _ => rfl) fun found o' hfound => .finished rfl ?_
    obtain ⟨hrigid, rows, rfl, -⟩ := again _ _ _ _ hfound
    rw [Memory.read_of_rigid _ hrigid, finishRows_list]
    simp [afterUpdate]

theorem exchanges_updateAll (connected : d.attachment = .connection k)
    (wellFormed : es.WellFormed) (select : k.GivesRows (Raw.selectWhere d.table (.tree es)))
    (again : ∀ ids, k.GivesRows (Raw.selectIds d.table ids))
    (prepared : d.prepare .updateAll data t = (.ok payload, u))
    (hsets : u.memory.read payload = .map sets) (hes : u.memory.read conditions = .map es) :
    d.Exchanges ⟨.updateAll conditions data⟩ t u k (updatePlan d.table sets (.tree es))
      d.afterUpdate := by
  refine exchanges_of_prepared (fun _ c => c.afterUpdate) prepared rfl ?_
    d.follows_afterUpdate
  rintro w rfl
  refine converses_select connected wellFormed select rfl (fun _ _ => rfl) hes fun rows o hid => ?_
  exact converses_updateSelected connected wellFormed (rowIds_list hid) again hsets hes

end Update

section Removal

variable {w : Stage (Watched σ)} {rows : List Entries}

theorem removeSelected_run (hsome : rows ≠ []) (hid : ∀ row ∈ rows, row.has "id" = true) :
    c.removeSelected (.list (rows.map .map)) s =
      (do let _ ← c.execute (.ok (Raw.deleteIds c.table (Value.list (rows.map .map)).ids))
          c.giveRows .removeAll (rows.map .map)) s := by
  have htruthy : (Value.list (rows.map .map)).truthy = true := by
    simpa [Value.truthy] using hsome
  unfold removeSelected
  rw [htruthy, rowIds_list hid, if_neg (by decide), Act.bind_ok (Act.settle_run _ _),
    ← finishRows_list]
  rfl

theorem converses_removeSelected (connected : d.attachment = .connection k)
    (hid : ∀ row ∈ rows, row.has "id" = true) :
    Converses k (removalPlan d.table (.tree es)) [.list (rows.map .map)] w
      (d.watched.removeSelected (.list (rows.map .map))) d.watched.afterRemoval := by
  cases hrows : rows with
  | nil => exact .finished rfl rfl
  | cons row rest =>
    rw [← hrows]
    have hsome : rows ≠ [] := hrows ▸ List.cons_ne_nil row rest
    refine .congr (removeSelected_run hsome hid) ?_
    have hids : (Value.list (rows.map .map)).ids.isEmpty = false := by simpa using hsome
    refine .statement connected ?_ (fun _ _ => rfl) fun v o _ => .finished rfl ?_
    · rw [removalPlan, hids]
      rfl
    · simp [afterRemoval]

theorem exchanges_removeAll (connected : d.attachment = .connection k)
    (wellFormed : es.WellFormed) (select : k.GivesRows (Raw.selectWhere d.table (.tree es)))
    (prepared : d.prepare .removeAll conditions t = (.ok payload, u))
    (hes : u.memory.read payload = .map es) :
    d.Exchanges ⟨.removeAll conditions⟩ t u k (removalPlan d.table (.tree es)) d.afterRemoval := by
  refine exchanges_of_prepared (fun _ c => c.afterRemoval) prepared rfl ?_
    d.follows_afterRemoval
  rintro w rfl
  exact converses_select connected wellFormed select rfl (fun _ _ => rfl) hes fun rows o hid =>
    converses_removeSelected connected hid

end Removal

theorem accept_updateAll {s' : Stage σ} (h : c.accept (.updateAll conditions data) s = (.ok p, s')) :
    ∃ formatted, p = ⟨.updateAll conditions formatted⟩ := by
  obtain ⟨_, s, hs, h⟩ := Act.of_bind_ok h
  obtain ⟨r, s, hr, h⟩ := Act.of_bind_ok h
  obtain ⟨_, s, -, h⟩ := Act.of_bind_ok h
  obtain ⟨q, s, hq, h⟩ := Act.of_bind_ok h
  obtain rfl := eq_of_checked (congrArg Prod.fst hr)
  obtain ⟨formatted, s, -, hq⟩ := Act.of_bind_ok hq
  obtain rfl := Except.ok.inj (congrArg Prod.fst hq)
  exact ⟨formatted, (Except.ok.inj (congrArg Prod.fst h)).symm⟩

/-- Updates and removals of many rows, taken on as `c` and performed as `d`. Whatever a database
answers, as long as it answers selects with rows that have identifiers, and whoever else changes the
table meanwhile: the statements are those of the plan, and the first that fails is the last. -/
theorem bulk_exchanges (connected : d.attachment = .connection k) (wellFormed : es.WellFormed)
    (select : k.GivesRows ("SELECT * FROM " ++ d.table ++ (Condition.tree es).clause)) :
    (∀ {c : Collection σ} {s s' : Stage σ} {p : Pending},
      c.accept (.updateAll conditions data) s = (.ok p, s') →
      (∀ ids : List Value, k.GivesRows ("SELECT * FROM " ++ d.table ++ " WHERE id IN (" ++
        ",".intercalate (ids.map Value.toText) ++ ")")) →
      ∃ formatted, p = ⟨.updateAll conditions formatted⟩ ∧ ∀ {t u payload sets},
        d.prepare .updateAll formatted t = (.ok payload, u) →
        u.memory.read payload = .map sets → u.memory.read conditions = .map es →
        d.Exchanges p t u k (updatePlan d.table sets (.tree es)) d.afterUpdate) ∧
    (∀ {c : Collection σ} {s s' : Stage σ} {p : Pending},
      c.accept (.removeAll conditions) s = (.ok p, s') →
      ∀ {t u payload}, d.prepare .removeAll conditions t = (.ok payload, u) →
        u.memory.read payload = .map es →
        d.Exchanges p t u k (removalPlan d.table (.tree es)) d.afterRemoval) := by
  constructor
  · intro c s s' p accepted again
    obtain ⟨formatted, rfl⟩ := accept_updateAll accepted
    exact ⟨formatted, rfl, exchanges_updateAll connected wellFormed select again⟩
  · intro c s s' p accepted t u payload
    obtain rfl := accept_removeAll accepted
    exact exchanges_removeAll connected wellFormed select

theorem gives_people {k : Connection Unit} (h : ∀ q, k.execute q = pure people) (q : String) :
    k.GivesRows q := by
  intro o v o' hv
  rw [h] at hv
  obtain ⟨hv, -⟩ := Prod.mk.inj hv
  obtain rfl := Except.ok.inj hv
  exact ⟨fun find => Value.resolve_of_isComplete find people rfl,
    [[("id", .int 1), ("active", .bool true)], [("id", .int 2), ("active", .bool false)]], rfl,
    by decide⟩

/-- Both find the two rows of the table, and name them by their identifiers. -/
theorem bulk_exchanges_active :
    let users := answered "users" people
    let stage : Stage Unit := ⟨.empty, ()⟩
    let es : Entries := [("active", .bool false)]
    let sets : Entries := [("active", .bool true)]
    let update : Pending := ⟨.updateAll (.map es) (.map sets)⟩
    let removal : Pending := ⟨.removeAll (.map es)⟩
    ∃ k, users.attachment = .connection k ∧ es.WellFormed ∧
      k.GivesRows "SELECT * FROM users WHERE active = 'false'" ∧
      users.Exchanges update stage stage k (updatePlan users.table sets (.tree es)) users.afterUpdate ∧
      users.statements update stage =
        ["SELECT * FROM users WHERE active = 'false'",
          "UPDATE users SET active = 'true' WHERE active = 'false'",
          "SELECT * FROM users WHERE id IN (1,2)"] ∧
      users.Exchanges removal stage stage k (removalPlan users.table (.tree es)) users.afterRemoval ∧
      users.statements removal stage =
        ["SELECT * FROM users WHERE active = 'false'", "DELETE FROM users WHERE id IN (1,2)"] := by
  intro users stage es sets update removal
  have wellFormed : es.WellFormed := Condition.wellFormed_of_isSome es rfl
  obtain ⟨k, connected, hk⟩ : ∃ k : Connection Unit, users.attachment = .connection k ∧
      ∀ q, k.execute q = pure people := ⟨_, rfl, fun _ => rfl⟩
  have updates : users.accept update.request stage = (.ok update, stage) := rfl
  have removes : users.accept removal.request stage = (.ok removal, stage) := rfl
  obtain ⟨hupdate, hremoval⟩ := bulk_exchanges connected wellFormed (gives_people hk _)
  obtain ⟨formatted, hp, hupdate⟩ := hupdate updates fun ids => gives_people hk _
  obtain rfl : .map sets = formatted := (Request.updateAll.inj (congrArg Pending.request hp)).2
  exact ⟨k, connected, wellFormed, gives_people hk _, hupdate rfl rfl rfl, by decide +kernel,
    hremoval removes rfl rfl, by decide +kernel⟩

end Collection

end TableAccess
