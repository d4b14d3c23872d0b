import Mathlib.Data.List.Nodup
import Mathlib.Data.List.Perm.Basic
import TableAccess.Proofs.Collection.Bulk

/-! What an update of many rows gives back, on a table that nobody else changes. The rows are read again
by the identifiers that they had when they were selected, so they are the updated rows exactly if
the update leaves them under these identifiers: if it sets none, or sets one of them
(`updated_rows_reread`). A row that gets a new identifier is updated and not given back
(`updated_row_lost`). -/

namespace TableAccess

variable {σ : Type}

namespace Entries

/-- A row with the values that an update sets. -/
def assigned (row sets : Entries) : Entries := sets.foldr (fun e row => row.put e.1 e.2) row

theorem get?_assigned (row sets : Entries) (key : String) :
    (row.assigned sets).get? key = (sets.get? key).or (row.get? key) := by
  induction sets with
  | nil => rfl
  | cons e sets ih =>
    have hp : row.assigned (e :: sets) = (row.assigned sets).put e.1 e.2 := rfl
    rw [hp, get?_put, ih]
    by_cases h : key = e.1
    · simp [h, get?]
    · simp [h, get?, Ne.symm h]

theorem identifier_assigned (row sets : Entries) :
    (row.assigned sets).identifier = (sets.get? "id").getD row.identifier := by
  rw [identifier, get, get?_assigned]
  cases sets.get? "id" <;> rfl

end Entries

/-! ### Tables -/

section Table

open Classical

/-- The rows of a table that are of some kind. -/
noncomputable def rowsOfKind (table : List Entries) (kind : Entries → Prop) : List Entries :=
  table.filter fun row => kind row

/-- A table after an update of its rows of some kind. -/
noncomputable def updatedTable (table : List Entries) (kind : Entries → Prop) (sets : Entries) :
    List Entries :=
  table.map fun row => if kind row then row.assigned sets else row

theorem mem_rowsOfKind {table : List Entries} {kind : Entries → Prop} {row : Entries} :
    row ∈ rowsOfKind table kind ↔ row ∈ table ∧ kind row := by
  simp [rowsOfKind]

theorem rowsOfKind_perm {table table' : List Entries} (h : table.Perm table')
    (kind : Entries → Prop) : (rowsOfKind table kind).Perm (rowsOfKind table' kind) :=
  h.filter _

theorem rowsOfKind_congr {table : List Entries} {kind kind' : Entries → Prop}
    (h : ∀ row ∈ table, kind row ↔ kind' row) : rowsOfKind table kind = rowsOfKind table kind' :=
  List.filter_congr fun row hrow => decide_eq_decide.mpr (h row hrow)

theorem rowsOfKind_eq_nil {table : List Entries} {kind : Entries → Prop} :
    rowsOfKind table kind = [] ↔ ∀ row ∈ table, ¬ kind row := by
  simp [rowsOfKind]

theorem rowsOfKind_map (table : List Entries) (kind : Entries → Prop) (f : Entries → Entries) :
    rowsOfKind (table.map f) kind = (rowsOfKind table fun row => kind (f row)).map f :=
  List.filter_map

theorem updatedTable_perm {table table' : List Entries} (h : table.Perm table')
    (kind : Entries → Prop) (sets : Entries) :
    (updatedTable table kind sets).Perm (updatedTable table' kind sets) :=
  h.map _

variable {table : List Entries} {chosen : Entries → Prop} {sets : Entries} {ids : List Value}

/-- Whether an updated row can be found under identifiers of rows that were chosen. Identifiers are
unique, so a row that was not chosen cannot. -/
theorem identifier_updated_mem_iff (unique : (table.map Entries.identifier).Nodup)
    (hids : ∀ v, v ∈ ids ↔ ∃ row ∈ table, chosen row ∧ row.identifier = v) {row : Entries}
    (hrow : row ∈ table) :
    (if chosen row then row.assigned sets else row).identifier ∈ ids ↔
      chosen row ∧ ∀ v, sets.get? "id" = some v → v ∈ ids := by
  by_cases hc : chosen row
  · rw [if_pos hc, Entries.identifier_assigned]
    cases sets.get? "id" with
    | none => simpa [hc] using (hids row.identifier).mpr ⟨row, hrow, hc, rfl⟩
    | some v => simp [hc]
  · rw [if_neg hc]
    refine iff_of_false (fun hi => ?_) fun h => hc h.1
    obtain ⟨other, ho, hoc, he⟩ := (hids _).mp hi
    obtain rfl := List.inj_on_of_nodup_map unique ho hrow he
    exact hc hoc

/-- All updated rows are found again, or none of them. -/
theorem reread_eq (unique : (table.map Entries.identifier).Nodup)
    (hids : ∀ v, v ∈ ids ↔ ∃ row ∈ table, chosen row ∧ row.identifier = v) :
    rowsOfKind (updatedTable table chosen sets) (fun row => row.identifier ∈ ids) =
      if ∀ v, sets.get? "id" = some v → v ∈ ids then
        (rowsOfKind table chosen).map (·.assigned sets) else [] := by
  have hkind := fun row => @identifier_updated_mem_iff table chosen sets ids unique hids row
  rw [updatedTable, rowsOfKind_map]
  split
  next hkeep =>
    rw [rowsOfKind_congr fun row hrow => (hkind row hrow).trans (and_iff_left hkeep)]
    exact List.map_congr_left fun row hrow => if_pos (mem_rowsOfKind.mp hrow).2
  next hkeep =>
    rw [List.map_eq_nil_iff, rowsOfKind_eq_nil]
    exact fun row hrow h => hkeep ((hkind row hrow).mp h).2

theorem reread_perm_iff (unique : (table.map Entries.identifier).Nodup)
    (hids : ∀ v, v ∈ ids ↔ ∃ row ∈ table, chosen row ∧ row.identifier = v)
    (hsome : rowsOfKind table chosen ≠ []) :
    (rowsOfKind (updatedTable table chosen sets) fun row => row.identifier ∈ ids).Perm
        ((rowsOfKind table chosen).map (·.assigned sets)) ↔
      ∀ v, sets.get? "id" = some v → v ∈ ids := by
  rw [reread_eq unique hids]
  split
  next hkeep => exact iff_of_true .rfl hkeep
  next hkeep => exact iff_of_false (fun h => hsome (by simpa using h.nil_eq)) hkeep

end Table

/-! ### A database with one table -/

/-- A statement is answered with the rows of a table that are of some kind; the table stays as it is. -/
structure Connection.Selects (k : Connection σ) (content : σ → List Entries) (statement : String)
    (kind : Entries → Prop) (rows : List Entries) (o o' : σ) : Prop where
  answered : k.execute statement o = (.ok (.list (rows.map .map)), o')
  complete : (Value.list (rows.map .map)).isComplete = true
  rows : rows.Perm (rowsOfKind (content o) kind)
  kept : (content o').Perm (content o)

/-- A statement sets values in the rows of a table that are of some kind, whatever its answer. -/
structure Connection.Assigns (k : Connection σ) (content : σ → List Entries) (statement : String)
    (kind : Entries → Prop) (sets : Entries) (o o' : σ) : Prop where
  answered : ∃ v, v.Rigid ∧ k.execute statement o = (.ok v, o')
  updated : (content o').Perm (updatedTable (content o) kind sets)

open Statement in
/-- The statements of one update do what they say to a table that nobody else changes; `chosen` are the
rows that the condition holds for. -/
def Connection.Serves (k : Connection σ) (table : String) (condition : Condition) (sets : Entries)
    (content : σ → List Entries) (chosen : Entries → Prop) (o : σ) : Prop :=
  ∃ rows o₁, k.Selects content (Raw.selectWhere table condition) chosen rows o o₁ ∧
    (rows ≠ [] → ∃ o₂,
      k.Assigns content (Raw.updateWhere table sets condition) chosen sets o₁ o₂ ∧
      ∃ again o₃, k.Selects content (Raw.selectIds table (rows.map Entries.identifier))
        (fun row => row.identifier ∈ rows.map Entries.identifier) again o₂ o₃)

namespace Collection

open Statement

variable {c d : Collection σ} {k : Connection σ} {s t u : Stage σ} {conditions data payload : Value}
  {sets es : Entries}

/-- An operation gives rows back: the list of what the formatter makes of them, or an empty list. -/
inductive GivesBack (c : Collection σ) (op : Operation) :
    List Entries → Except Failure Value × Stage σ → Prop
  | rows (rows : List Entries) (s : Stage σ) : GivesBack c op rows (c.giveRows op (rows.map .map) s)
  | nothing (s : Stage σ) : GivesBack c op [] (c.concludeEmpty op s)

theorem conclude_run_plain {op : Operation} (quiet : c.post op = none) (v : Value) (s : Stage σ) :
    c.conclude op v s = (.ok v, s) := by
  unfold conclude
  rw [quiet]
  rfl

theorem place_run (v : Value) (s : Stage σ) :
    Stage.place v s = (.ok (s.memory.place v).1, { s with memory := (s.memory.place v).2 }) := rfl

/-- Without callbacks the result is the list of the rows. -/
theorem GivesBack.read {op : Operation} {rows : List Entries} {r : Except Failure Value × Stage σ}
    (h : c.GivesBack op rows r) (unformatted : c.toJs? = none) (quiet : c.post op = none)
    (complete : (Value.list (rows.map .map)).isComplete = true) :
    ∃ v s, r = (.ok v, s) ∧ s.memory.read v = .list (rows.map .map) := by
  cases h with
  | rows _ s =>
    have hf : c.formatRows (.list (rows.map .map)) = Stage.place (.list (rows.map .map)) := by
      unfold formatRows
      rw [unformatted]
    rw [← finishRows_list, finishRows, hf, Act.bind_ok (place_run _ s), conclude_run_plain quiet]
    exact ⟨_, _, rfl, s.memory.read_place _ complete⟩
  | nothing s =>
    have hstore : (Stage.store (.list []) : Act (Stage σ) Value) = Stage.place (.list []) := rfl
    rw [concludeEmpty, hstore, Act.bind_ok (place_run _ s),
      Act.bind_ok (conclude_run_plain quiet _ _), place_run]
    exact ⟨_, _, rfl, Memory.read_place _ (.list []) rfl⟩

theorem execute_answered (connected : c.attachment = .connection k) {q : String} {v : Value} {o : σ}
    (h : k.execute q s.outside = (.ok v, o)) (rigid : v.Rigid) :
    c.execute (.ok q) s = (.ok v, ⟨s.memory, o⟩) := by
  have hseen : Stage.outward (k.execute q) s = (.ok v, ⟨s.memory, o⟩) := by
    simp [Stage.outward, Act.within, h]
  unfold execute
  rw [connected]
  show ask (k.execute q) s = _
  rw [ask, Act.bind_ok hseen, Stage.read_run, Memory.read_of_rigid _ rigid]

theorem execute_selects {content : σ → List Entries} {q : String} {kind : Entries → Prop}
    {rows : List Entries} {o : σ} (connected : c.attachment = .connection k)
    (h : k.Selects content q kind rows s.outside o) :
    c.execute (.ok q) s = (.ok (.list (rows.map .map)), ⟨s.memory, o⟩) :=
  execute_answered connected h.answered fun find => Value.resolve_of_isComplete find _ h.complete

/-- An update of many rows, statement by statement. -/
theorem performUpdateAll_run (connected : d.attachment = .connection k)
    (wellFormed : es.WellFormed) (prepared : d.prepare .updateAll data t = (.ok payload, u))
    (hsets : u.memory.read payload = .map sets) (hes : u.memory.read conditions = .map es)
    {content : σ → List Entries} {chosen : Entries → Prop}
    (identified : ∀ row ∈ content u.outside, row.has "id" = true)
    (serves : k.Serves d.table (.tree es) sets content chosen u.outside) :
    ∃ rows, d.GivesBack .updateAll rows (d.performUpdateAll conditions data t) ∧
      (Value.list (rows.map .map)).isComplete = true ∧
      rows.Perm (rowsOfKind (updatedTable (content u.outside) chosen sets) fun row =>
        row.identifier ∈ (rowsOfKind (content u.outside) chosen).map Entries.identifier) := by
  obtain ⟨found, o₁, hselect, hrest⟩ := serves
  have hid : ∀ row ∈ found, row.has "id" = true := fun row hrow =>
    identified row (mem_rowsOfKind.mp (hselect.rows.mem_iff.mp hrow)).1
  have hrun : d.performUpdateAll conditions data t =
      d.updateSelected conditions payload (.list (found.map .map)) ⟨u.memory, o₁⟩ := by
    rw [performUpdateAll, Act.bind_ok prepared, select_run wellFormed hes,
      Act.bind_ok (execute_selects connected hselect)]
  rw [hrun]
  have hids : ∀ v, v ∈ found.map Entries.identifier ↔
      v ∈ (rowsOfKind (content u.outside) chosen).map Entries.identifier :=
    fun _ => (hselect.rows.map _).mem_iff
  by_cases hempty : found = []
  · subst hempty
    have hnone : rowsOfKind (updatedTable (content u.outside) chosen sets) (fun row =>
        row.identifier ∈ (rowsOfKind (content u.outside) chosen).map Entries.identifier) = [] :=
      rowsOfKind_eq_nil.mpr fun row _ h => by simpa using (hids _).mpr h
    rw [updateSelected_run_none rfl rfl, hnone]
    exact ⟨[], .nothing _, rfl, .rfl⟩
  · obtain ⟨o₂, hassign, again, o₃, hagain⟩ := hrest hempty
    obtain ⟨v, hrigid, hupdate⟩ := hassign.answered
    rw [updateSelected_run (s := ⟨u.memory, o₁⟩) (rowIds_list hid) (by simpa using hempty)
      wellFormed hsets hes, Value.ids_rows, Act.bind_ok (execute_answered connected hupdate hrigid),
      Act.bind_ok (execute_selects connected hagain), finishRows_list]
    refine ⟨again, .rows again _, hagain.complete, hagain.rows.trans ?_⟩
    rw [rowsOfKind_congr fun row _ => hids row.identifier]
    exact rowsOfKind_perm (hassign.updated.trans (updatedTable_perm hselect.kept chosen sets)) _

/-- On a table that nobody else changes, an update of many rows gives back the updated rows, as they
are then, exactly if nothing is selected, or the update sets no identifier, or it sets one of the
identifiers that the selected rows had. -/
theorem updated_rows_reread (connected : d.attachment = .connection k)
    (wellFormed : es.WellFormed) (prepared : d.prepare .updateAll data t = (.ok payload, u))
    (hsets : u.memory.read payload = .map sets) (hes : u.memory.read conditions = .map es)
    {content : σ → List Entries} {chosen : Entries → Prop}
    (identified : ∀ row ∈ content u.outside, row.has "id" = true)
    (unique : ((content u.outside).map Entries.identifier).Nodup)
    (serves : k.Serves d.table (.tree es) sets content chosen u.outside) :
    ∃ rows, d.GivesBack .updateAll rows (d.perform ⟨.updateAll conditions data⟩ t) ∧
      (d.toJs? = none → d.post .updateAll = none → ∃ v s,
        d.perform ⟨.updateAll conditions data⟩ t = (.ok v, s) ∧
          s.memory.read v = .list (rows.map .map)) ∧
      (rows.Perm ((rowsOfKind (content u.outside) chosen).map (·.assigned sets)) ↔
        rowsOfKind (content u.outside) chosen = [] ∨
          ∀ v, sets.get? "id" = some v →
            ∃ row ∈ content u.outside, chosen row ∧ row.identifier = v) := by
  obtain ⟨rows, hgives, hcomplete, hperm⟩ :=
    performUpdateAll_run connected wellFormed prepared hsets hes identified serves
  refine ⟨rows, hgives, fun hf hq => hgives.read hf hq hcomplete, ?_⟩
  have hids : ∀ v, v ∈ (rowsOfKind (content u.outside) chosen).map Entries.identifier ↔
      ∃ row ∈ content u.outside, chosen row ∧ row.identifier = v := by
    simp [mem_rowsOfKind, and_assoc]
  by_cases hnone : rowsOfKind (content u.outside) chosen = []
  · have hrows : rowsOfKind (updatedTable (content u.outside) chosen sets) (fun row =>
        row.identifier ∈ (rowsOfKind (content u.outside) chosen).map Entries.identifier) = [] := by
      simp [rowsOfKind_eq_nil, hnone]
    rw [hrows] at hperm
    exact iff_of_true (by rwa [hnone]) (.inl hnone)
  · rw [or_iff_right hnone, ← forall₂_congr fun v _ => hids v, ← reread_perm_iff unique hids hnone]
    exact ⟨hperm.symm.trans, hperm.trans⟩

/-- Users with one name are selected and updated, and one user is read again by its identifier. -/
def userTable (name : String) (sets : Entries) : Connection (List Entries) where
  execute q := fun users =>
    let condition := Condition.tree [("name", .text name)]
    let named (user : Entries) : Bool := (user.get "name").same (.text name)
    if q = Raw.selectWhere "users" condition then
      (.ok (.list ((users.filter named).map .map)), users)
    else if q = Raw.updateWhere "users" sets condition then
      (.ok .null, users.map fun user => if named user then user.assigned sets else user)
    else
      let found := users.filter fun user => q = Raw.selectIds "users" [user.identifier]
      (.ok (.list (found.map .map)), users)
  table _ := pure ⟨fun _ _ => throw .noMember, fun _ => throw .noMember, fun _ => throw .noMember,
    fun _ _ => throw .noMember, fun _ => throw .noMember⟩

/-- A collection of the users in such a table. -/
def usersOf (name : String) (sets : Entries) : Collection (List Entries) :=
  ((bare "users").attach (.connection (userTable name sets)) []).1.1

def ann : Entries := [("id", .int 1), ("name", .text "ann")]

def bob : Entries := [("id", .int 2), ("name", .text "bob")]

/-- Whether a user has this name. -/
def Named (name : String) (user : Entries) : Prop := (user.get "name").same (.text name) = true

section Ann

theorem named_ann : Named "ann" ann := by
  unfold Named
  decide

theorem not_named_bob : ¬ Named "ann" bob := by
  unfold Named
  decide

theorem unique_ann_bob : ([ann, bob].map Entries.identifier).Nodup := by
  simp [Entries.identifier, Entries.get, Entries.get?, ann, bob]

theorem rowsOfKind_ann : rowsOfKind [ann, bob] (Named "ann") = [ann] := by
  simp [rowsOfKind, named_ann, not_named_bob]

theorem updatedTable_ann (sets : Entries) :
    updatedTable [ann, bob] (Named "ann") sets = [ann.assigned sets, bob] := by
  simp [updatedTable, named_ann, not_named_bob]

/-- The table serves an update of the users that are called Ann, if its answers are as they should be. -/
theorem userTable_serves {sets : Entries} (again : List Entries)
    (selects : (userTable "ann" sets).execute
      (Raw.selectWhere "users" (.tree [("name", .text "ann")])) [ann, bob] =
        (.ok (.list [.map ann]), [ann, bob]))
    (assigns : (userTable "ann" sets).execute
      (Raw.updateWhere "users" sets (.tree [("name", .text "ann")])) [ann, bob] =
        (.ok .null, [ann.assigned sets, bob]))
    (rereads : (userTable "ann" sets).execute (Raw.selectIds "users" [ann.identifier])
      [ann.assigned sets, bob] = (.ok (.list (again.map .map)), [ann.assigned sets, bob]))
    (complete : (Value.list (again.map .map)).isComplete = true)
    (found : rowsOfKind [ann.assigned sets, bob] (fun user => user.identifier ∈ [ann.identifier]) =
      again) :
    (userTable "ann" sets).Serves "users" (.tree [("name", .text "ann")]) sets id (Named "ann")
      [ann, bob] := by
  refine ⟨[ann], [ann, bob], ⟨selects, rfl, ?_, .rfl⟩, fun _ => ⟨[ann.assigned sets, bob], ?_, ?_⟩⟩
  · rw [id, rowsOfKind_ann]
  · exact ⟨⟨.null, fun _ => rfl, assigns⟩, by rw [id, id, updatedTable_ann]⟩
  · exact ⟨again, _, rereads, complete, by rw [← found]; rfl, .rfl⟩

end Ann

theorem renamed_serves :
    (userTable "ann" [("name", .text "eve")]).Serves "users" (.tree [("name", .text "ann")])
      [("name", .text "eve")] id (Named "ann") [ann, bob] :=
  userTable_serves [[("id", .int 1), ("name", .text "eve")]] rfl rfl rfl rfl
    (by simp [rowsOfKind, Entries.identifier, Entries.get, Entries.get?, Entries.assigned,
      Entries.put, ann, bob])

theorem renumbered_serves :
    (userTable "ann" [("id", .int 9)]).Serves "users" (.tree [("name", .text "ann")])
      [("id", .int 9)] id (Named "ann") [ann, bob] :=
  userTable_serves [] rfl rfl rfl rfl
    (by simp [rowsOfKind, Entries.identifier, Entries.get, Entries.get?, Entries.assigned,
      Entries.put, ann, bob])

theorem updated_rows_reread_renamed :
    let users := usersOf "ann" [("name", .text "eve")]
    let stage : Stage (List Entries) := ⟨.empty, [ann, bob]⟩
    let conditions : Value := .map [("name", .text "ann")]
    let data : Value := .map [("name", .text "eve")]
    ∃ v s, users.perform ⟨.updateAll conditions data⟩ stage = (.ok v, s) ∧
      s.memory.read v = .list [.map [("id", .int 1), ("name", .text "eve")]] := by
  intro users stage conditions data
  have prepared : users.prepare .updateAll data stage = (.ok data, stage) := rfl
  have hsets : stage.memory.read data = .map [("name", .text "eve")] := rfl
  have hes : stage.memory.read conditions = .map [("name", .text "ann")] := rfl
  obtain ⟨rows, -, hread, hiff⟩ := updated_rows_reread rfl (Condition.wellFormed_of_isSome _ rfl)
    prepared hsets hes (by decide) unique_ann_bob renamed_serves
  obtain ⟨v, s, hs, hv⟩ := hread rfl rfl
  have hrows := hiff.mpr (.inr (by simp [Entries.get?]))
  rw [show stage.outside = [ann, bob] from rfl, id, rowsOfKind_ann, List.map_singleton,
    List.perm_singleton] at hrows
  refine ⟨v, s, hs, ?_⟩
  rw [hv, hrows]
  rfl

/-- A row that gets a new identifier is updated, and not given back. -/
theorem updated_row_lost :
    let users := usersOf "ann" [("id", .int 9)]
    let stage : Stage (List Entries) := ⟨.empty, [ann, bob]⟩
    let request : Request := .updateAll (.map [("name", .text "ann")]) (.map [("id", .int 9)])
    (userTable "ann" [("id", .int 9)]).Serves users.table (.tree [("name", .text "ann")])
        [("id", .int 9)] id (Named "ann") stage.outside ∧
      (stage.outside.map Entries.identifier).Nodup ∧
      users.accept request stage = (.ok ⟨request⟩, stage) ∧
      ∃ v s, users.perform ⟨request⟩ stage = (.ok v, s) ∧ s.memory.read v = .list [] ∧
        s.outside = [[("id", .int 9), ("name", .text "ann")], bob] :=
  ⟨renumbered_serves, unique_ann_bob, rfl, _, _, rfl, rfl, rfl⟩

end Collection

end TableAccess
