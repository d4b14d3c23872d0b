import TableAccess.Proofs.Collection.Statements
import TableAccess.Proofs.Predicate.Meaning

/-! Removing many rows. The rows to delete are those that a statement selects, and that statement
restricts them exactly when the conditions ask for something, at whatever level, once the pre-hook is
through with them (`removal_restricted_iff`). That a mapping has entries does not make it ask:
without own entries at any level it selects the whole table (`removal_unrestricted`). -/

namespace TableAccess

/-- A mapping that asks for something. -/
def Value.Asks (v : Value) : Prop := ∃ es, v = .map es ∧ Entries.Asks es

namespace Condition

theorem clause_eq_empty {c : Condition} (h : c.text = "") : c.clause = "" := by
  simp [clause, h]

theorem clause_of_text_ne {c : Condition} (h : c.text ≠ "") : c.clause = " WHERE " ++ c.text := by
  simp [clause, h]

theorem text_eq_empty_of_ofValue {v : Value} {c : Condition} (h : ofValue v = .ok c) :
    c.text = "" ↔ ¬ v.Asks := by
  cases v
  case map es =>
    obtain ⟨hw, rfl⟩ := ofEntries_ok_iff.mp h
    rw [text_eq_empty_iff, (says_written hw).eq_nil_iff]
    simp [Value.Asks]
  all_goals
    unfold ofValue at h
    split at h
    · contradiction
    · split at h
      · contradiction
      · obtain rfl := Except.ok.inj h
        simp only [Value.Asks, reduceCtorEq, false_and, exists_false, not_false_eq_true, iff_true]
        rfl

end Condition

namespace Statement.Raw

/-- A select of those rows of a table that satisfy some predicate. -/
def Restricted (table statement : String) : Prop :=
  ∃ predicate, predicate ≠ "" ∧ statement = "SELECT * FROM " ++ table ++ " WHERE " ++ predicate

theorem not_restricted_all (table : String) : ¬ Restricted table ("SELECT * FROM " ++ table) := by
  rintro ⟨predicate, -, h⟩
  have hl := congrArg String.length h
  simp only [String.length_append] at hl
  have hw : " WHERE ".length = 7 := rfl
  omega

/-- A select without options. -/
theorem select_null {table select : String} {v : Value} (h : Raw.select table v .null = .ok select) :
    ∃ c, Condition.ofValue v = .ok c ∧ select = "SELECT * FROM " ++ table ++ c.clause := by
  unfold Raw.select whereClause at h
  cases hc : Condition.ofValue v with
  | error e =>
    rw [hc] at h
    cases h
  | ok c =>
    rw [hc] at h
    obtain rfl := Except.ok.inj h
    refine ⟨c, rfl, ?_⟩
    simp only [String.append_empty]
    rfl

/-- A select is restricted if its conditions ask for something, and takes the whole table if not. -/
theorem select_restricted_iff {table select : String} {v : Value}
    (h : Raw.select table v .null = .ok select) :
    (Restricted table select ↔ v.Asks) ∧ (select = "SELECT * FROM " ++ table ↔ ¬ v.Asks) := by
  obtain ⟨c, hc, rfl⟩ := select_null h
  have ht := Condition.text_eq_empty_of_ofValue hc
  by_cases ha : v.Asks
  · have hne : c.text ≠ "" := fun he => ht.mp he ha
    have hr : Restricted table ("SELECT * FROM " ++ table ++ c.clause) :=
      ⟨c.text, hne, by rw [Condition.clause_of_text_ne hne, ← String.append_assoc]⟩
    refine ⟨iff_of_true hr ha, iff_of_false (fun he => ?_) (not_not.mpr ha)⟩
    exact not_restricted_all table (he ▸ hr)
  · rw [Condition.clause_eq_empty (ht.mpr ha), String.append_empty]
    exact ⟨iff_of_false (not_restricted_all table) ha, iff_of_true rfl ha⟩

end Statement.Raw

namespace Collection

open Statement

variable {σ : Type} {c : Collection σ} {k : Connection σ} {conditions payload : Value}
  {s t : Stage (Watched σ)}

/-- A pre-hook that fails ends a removal before anything is sent. -/
theorem sends_removeAll_of_prepare_error {e : Failure}
    (hp : c.watched.prepare .removeAll conditions s = (.error e, t)) :
    Sends (c.watched.performRemoveAll conditions) s [] :=
  .bind_error hp (c.sends_prepare .removeAll conditions s)

theorem sends_removeAll_of_prepared {sent : List String}
    (hp : c.watched.prepare .removeAll conditions s = (.ok payload, t))
    (h : Sends (c.watched.execute (Raw.select c.table (t.memory.read payload) .null) >>=
      c.watched.removeSelected) t sent) :
    Sends (c.watched.performRemoveAll conditions) s sent := by
  refine .bind_ok hp (c.sends_prepare .removeAll conditions s) ?_
  exact .bind_ok (Stage.read_run _ _) (.of_unchanged (Stage.read_run _ _)) h

/-- So does a select that there is no text for. -/
theorem sends_removeAll_of_select_error (connected : c.attachment = .connection k) {e : Failure}
    (hp : c.watched.prepare .removeAll conditions s = (.ok payload, t))
    (hs : Raw.select c.table (t.memory.read payload) .null = .error e) :
    Sends (c.watched.performRemoveAll conditions) s [] := by
  refine sends_removeAll_of_prepared hp ?_
  have he := execute_error connected e t
  rw [hs]
  exact .bind_error he (.of_unchanged he)

/-- What follows a select is the deletion of some identifiers or nothing. -/
theorem sends_removeSelected (connected : c.attachment = .connection k) (snapshot : Value) :
    ∃ rest, Sends (c.watched.removeSelected snapshot) s rest ∧
      (rest = [] ∨ ∃ ids, rest = [Raw.deleteIds c.table ids]) := by
  unfold removeSelected
  split
  · exact ⟨[], c.sends_concludeEmpty _ s, .inl rfl⟩
  · cases hids : rowIds snapshot with
    | error e => exact ⟨[], .bind_error rfl (.of_unchanged rfl), .inl rfl⟩
    | ok ids =>
      refine ⟨[Raw.deleteIds c.table ids], ?_, .inr ⟨ids, rfl⟩⟩
      refine .bind_ok (t := s) rfl (.of_unchanged rfl) ?_
      refine (sends_execute connected (Raw.deleteIds c.table ids) s).bind_silent fun _ t => ?_
      refine Sends.bind_silent (.of_unchanged rfl) fun rows t => ?_
      exact c.sends_finishRows .removeAll (.list rows) t

theorem sends_removeAll (connected : c.attachment = .connection k) {select : String}
    (hp : c.watched.prepare .removeAll conditions s = (.ok payload, t))
    (hs : Raw.select c.table (t.memory.read payload) .null = .ok select) :
    ∃ rest, Sends (c.watched.performRemoveAll conditions) s (select :: rest) ∧
      (rest = [] ∨ ∃ ids, rest = [Raw.deleteIds c.table ids]) := by
  have he := sends_execute connected select t
  obtain ⟨r, u, hu⟩ : ∃ r u, c.watched.execute (.ok select) t = (r, u) := ⟨_, _, rfl⟩
  rw [← hs] at he hu
  cases r with
  | error e => exact ⟨[], sends_removeAll_of_prepared hp (.bind_error hu he), .inl rfl⟩
  | ok snapshot =>
    obtain ⟨rest, hrest, hshape⟩ := sends_removeSelected connected snapshot
    exact ⟨rest, sends_removeAll_of_prepared hp (.bind_ok hu he hrest), hshape⟩

theorem statements_removeAll {s : Stage σ} {sent : List String}
    (h : Sends (c.watched.performRemoveAll conditions) s.fresh sent) :
    c.statements ⟨.removeAll conditions⟩ s = sent := h

/-- A request that passes both of its checks is taken as it is. -/
theorem eq_of_checked {first second : Except Failure Unit} {r r' : Request}
    (h : (do first; second; return r : Except Failure Request) = .ok r') : r' = r := by
  cases first with
  | error e => cases h
  | ok _ =>
    cases second with
    | error e => cases h
    | ok _ => exact (Except.ok.inj h).symm

theorem accept_removeAll {c : Collection σ} {s s' : Stage σ} {p : Pending}
    (h : c.accept (.removeAll conditions) s = (.ok p, s')) : p = ⟨.removeAll conditions⟩ := by
  obtain ⟨_, s, hs, h⟩ := Act.of_bind_ok h
  obtain ⟨r, s, hr, h⟩ := Act.of_bind_ok h
  obtain ⟨_, s, -, h⟩ := Act.of_bind_ok h
  obtain rfl := eq_of_checked (congrArg Prod.fst hr)
  exact (Except.ok.inj (congrArg Prod.fst h)).symm

/-- A collection takes a removal on as `c` and performs it as `d`, for until then it can be given other
hooks and another connection. What it sends first is restricted exactly if the conditions that the
pre-hook leaves ask for something, and is the select of the whole table if they do not. -/
theorem removal_restricted_iff {c d : Collection σ} {s s' t : Stage σ} {p : Pending}
    {select : String} {rest : List String}
    (accepted : c.accept (.removeAll conditions) s = (.ok p, s'))
    (connected : d.attachment = .connection k) (sent : d.statements p t = select :: rest) :
    ∃ payload t', d.prepare .removeAll conditions t = (.ok payload, t') ∧
      (Raw.Restricted d.table select ↔ (t'.memory.read payload).Asks) ∧
      (select = "SELECT * FROM " ++ d.table ↔ ¬ (t'.memory.read payload).Asks) ∧
      (rest = [] ∨ ∃ ids, rest = [Raw.deleteIds d.table ids]) := by
  obtain rfl := accept_removeAll accepted
  have hplain : _ = d.prepare .removeAll conditions t :=
    (follows_prepare (fun _ h => h) d .removeAll conditions).same t.fresh
  obtain ⟨r, u, hp⟩ : ∃ r u, d.watched.prepare .removeAll conditions t.fresh = (r, u) :=
    ⟨_, _, rfl⟩
  rw [hp] at hplain
  cases r with
  | error e =>
    rw [statements_removeAll (sends_removeAll_of_prepare_error hp)] at sent
    contradiction
  | ok payload =>
    cases hs : Raw.select d.table (u.memory.read payload) .null with
    | error e =>
      rw [statements_removeAll (sends_removeAll_of_select_error connected hp hs)] at sent
      contradiction
    | ok select' =>
      obtain ⟨rest', hsent, hshape⟩ := sends_removeAll connected hp hs
      rw [statements_removeAll hsent] at sent
      obtain ⟨rfl, rfl⟩ := List.cons.inj sent
      obtain ⟨hr, hall⟩ := Raw.select_restricted_iff hs
      exact ⟨payload, u.plain, hplain.symm, hr, hall, hshape⟩

/-- A collection attached to a database with one answer to every statement. -/
def answered (table : String) (answer : Value) : Collection Unit :=
  let rows : Table Unit := ⟨fun _ _ => pure answer, fun _ => pure .null, fun _ => pure .null,
    fun _ _ => pure .null, fun _ => pure .null⟩
  ((bare table).attach (.connection ⟨fun _ => pure answer, fun _ => pure rows⟩) ()).1.1

/-- Two rows, of which one is not active. -/
def people : Value :=
  .list [.map [("id", .int 1), ("active", .bool true)], .map [("id", .int 2), ("active", .bool false)]]

theorem removal_restricted_iff_active :
    let users := answered "users" people
    let stage : Stage Unit := ⟨.empty, ()⟩
    let conditions : Value := .map [("active", .bool false)]
    let select := "SELECT * FROM users WHERE active = 'false'"
    let rest := ["DELETE FROM users WHERE id IN (1,2)"]
    users.accept (.removeAll conditions) stage = (.ok ⟨.removeAll conditions⟩, stage) ∧
      users.isConnected = true ∧ users.statements ⟨.removeAll conditions⟩ stage = select :: rest ∧
      ∃ payload stage', users.prepare .removeAll conditions stage = (.ok payload, stage') ∧
        (Raw.Restricted users.table select ↔ (stage'.memory.read payload).Asks) ∧
        (select = "SELECT * FROM " ++ users.table ↔ ¬ (stage'.memory.read payload).Asks) ∧
        (rest = [] ∨ ∃ ids, rest = [Raw.deleteIds users.table ids]) := by
  intro users stage conditions select rest
  have accepted : users.accept (.removeAll conditions) stage =
    (.ok ⟨.removeAll conditions⟩, stage) := rfl
  have sent : users.statements ⟨.removeAll conditions⟩ stage = select :: rest := by
    decide +kernel
  exact ⟨accepted, rfl, sent, removal_restricted_iff accepted rfl sent⟩

/-- A mapping with nothing but an empty list of alternatives is accepted and deletes every row. -/
theorem removal_unrestricted :
    let users := answered "users" people
    let stage : Stage Unit := ⟨.empty, ()⟩
    let conditions : Value := .map [("or", .list [])]
    users.accept (.removeAll conditions) stage = (.ok ⟨.removeAll conditions⟩, stage) ∧
      users.statements ⟨.removeAll conditions⟩ stage =
        ["SELECT * FROM users", "DELETE FROM users WHERE id IN (1,2)"] ∧
      ¬ Raw.Restricted users.table "SELECT * FROM users" :=
  ⟨rfl, rfl, Raw.not_restricted_all "users"⟩

end Collection

end TableAccess
