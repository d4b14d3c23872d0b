import TableAccess.Proofs.Collection.Capture
import TableAccess.Proofs.Collection.Editing
import TableAccess.Proofs.Collection.Validation
import TableAccess.Proofs.Memory.Reading
import TableAccess.Proofs.Statement.Pieces
import TableAccess.Proofs.Statement.Raw

/-! Fields that are written. A call refuses a payload without fields. What the database is given is what
the formatter and the pre-hook make of the payload, field for field, and nobody looks again whether there
are any (`payload_written`). There are, as long as neither of the two empties a payload; a formatter that
drops the only field has an empty row inserted, and an update sent that sets nothing (`payload_emptied`). -/

namespace TableAccess

open Statement

variable {σ : Type}

/-- A mapping that has a field. -/
def Value.Filled (v : Value) : Prop := ∃ es, v = .map es ∧ es ≠ []

/-- A stage of a payload that makes a payload with fields of one with fields. -/
def KeepsFilled (stage : Value → Act (Stage σ) Value) : Prop :=
  ∀ v s w u, (s.memory.read v).Filled → stage v s = (.ok w, u) → (u.memory.read w).Filled

/-- What the calls of an operation write: the row that is inserted, the changes of one row, and those of
the second statement of an update of many rows, if there is one. -/
def Request.Writes (table : String) (es : Entries) : Request → List Call → Prop
  | .insert _, made => made = [.insert (.map es)]
  | .update id _, made => made = [.updateById id (.map es)]
  | .updateAll .., made => ∀ first second rest, made = first :: second :: rest →
      ∃ condition : Condition, second = .statement (Raw.updateWhere table es condition)
  | .get _, _ | .count _, _ | .flush _, _ | .remove _, _ | .removeAll _, _ | .find .., _ => True

/-- The statement of an update sets the fields of its payload. -/
theorem Statement.Raw.update_writes {table q : String} {es : Entries} {conditions : Value}
    (h : Raw.update table (.map es) conditions = .ok q) :
    ∃ condition : Condition, q = Raw.updateWhere table es condition := by
  obtain ⟨sets, hsets, h⟩ := ok_of_bind h
  obtain rfl : es = sets := Except.ok.inj hsets
  obtain ⟨clause, hclause, h⟩ := ok_of_bind h
  obtain ⟨condition, -, hcondition⟩ := ok_of_bind hclause
  obtain rfl := Except.ok.inj hcondition
  exact ⟨condition, (Except.ok.inj h).symm⟩

theorem Request.writes_of_delivers {r : Request} {v w : Value} {table : String} {es : Entries}
    {read : Value → Value} {made : List Call} (written : r.written? = some v) (hread : read w = .map es)
    (h : (r.withPayload w).Delivers table read made) : r.Writes table es made := by
  cases r with
  | insert data | update id data =>
    simp only [Request.Writes, ← hread]
    exact h
  | updateAll conditions data =>
    intro first second rest hmade
    obtain ⟨q, hq, rfl⟩ := h first second rest hmade
    rw [hread] at hq
    obtain ⟨condition, rfl⟩ := Raw.update_writes hq
    exact ⟨condition, rfl⟩
  | get | count | flush | remove | removeAll | find => cases written

namespace Collection

variable {c d : Collection σ} {r : Request} {p : Pending} {s s' t u : Stage σ} {v w : Value}
  {es : Entries}

/-! ### Stages that keep fields -/

theorem put_ne_nil (es : Entries) (key : String) (x : Value) : es.put key x ≠ [] := by
  cases es with
  | nil => exact List.cons_ne_nil _ _
  | cons e es =>
    rw [Entries.put]
    split <;> exact List.cons_ne_nil _ _

/-- A mapping that has been given a field has one. -/
theorem filled_of_merged {m : Memory} {key : String} {x target : Value}
    (h : Rehearsal.Deed.merged (.text key) x target = .ok (m.look w)) : (m.read w).Filled := by
  cases target with
  | map es =>
    obtain ⟨es', hread, hnil⟩ := Memory.read_of_look (Except.ok.inj h).symm
    exact ⟨es', hread, fun hempty => put_ne_nil es key x (hnil.mp hempty)⟩
  | _ => contradiction

/-- A formatter that sets a field of what it is handed. -/
def setting (key : String) (x : Value) : Formatter σ := fun v =>
  Rehearsal.Deed.edit [v] (Rehearsal.Deed.merged (.text key) x)

/-- A hook that gives back a copy with a field more. -/
def marking (key : String) (x : Value) : Hook σ := fun arguments => do
  return .now (← Rehearsal.Deed.copy arguments (Rehearsal.Deed.merged (.text key) x))

theorem keepsFilled_setting (key : String) (x : Value) :
    KeepsFilled (Formatter.apply (some (setting (σ := σ) key x))) := by
  intro v s w u hv h
  unfold Formatter.apply at h
  dsimp only at h
  split at h
  · cases h
    exact hv
  obtain ⟨given, t, hedit, h⟩ := Act.of_bind_ok h
  obtain ⟨hw, rfl⟩ := Prod.mk.inj h
  cases hf : Rehearsal.Deed.merged (.text key) x (s.memory.look v) with
  | error e => cases (Rehearsal.Deed.edit_failed hf).symm.trans hedit
  | ok target =>
    cases v with
    | reference n =>
      have hlt : n < s.memory.size := by
        by_contra hle
        rw [Memory.look, Memory.get_of_size_le (Nat.le_of_not_lt hle)] at hf
        cases hf
      cases (Rehearsal.Deed.edit_done hf).symm.trans hedit
      cases hw
      have hlook : (s.memory.put n target).look (.reference n) = target :=
        (Memory.get_put _ n n target hlt).trans (if_pos rfl)
      exact filled_of_merged (hf.trans (congrArg Except.ok hlook.symm))
    | map es =>
      -- What is kept under no number is handed back as it is.
      cases hedit
      cases hw
      exact hv
    | _ => cases hf

theorem keepsFilled_marking {op : Operation} {key : String} {x : Value}
    (h : d.pre op = some (marking key x)) : KeepsFilled (d.prepare op) := by
  intro v s w u hv hw
  unfold prepare runHook at hw
  rw [h] at hw
  obtain ⟨given, t, hhook, hw⟩ := Act.of_bind_ok hw
  obtain ⟨hw, rfl⟩ := Prod.mk.inj hw
  obtain ⟨reply, t, hcopy, hwait⟩ := Act.of_bind_ok hhook
  obtain ⟨copied, t, hcopy, hreply⟩ := Act.of_bind_ok hcopy
  cases hreply
  cases hwait
  cases hf : Rehearsal.Deed.merged (.text key) x (s.memory.look v) with
  | error e => cases (Rehearsal.Deed.copy_failed hf).symm.trans hcopy
  | ok target =>
    cases (Rehearsal.Deed.copy_done hf).symm.trans hcopy
    cases hw
    exact filled_of_merged (hf.trans (congrArg Except.ok (Memory.look_store _ target).symm))

/-- The payload of an accepted call has fields. -/
theorem filled_of_accept (accepted : c.accept r s = (.ok p, s')) (written : p.request.written? = some v) :
    ∃ data, (s.memory.read data).Filled ∧ Formatter.apply c.toDb? data s = (.ok v, s') := by
  obtain ⟨passes, formatted⟩ := c.formatted_of_accept accepted
  have hfilled {data : Value} (hpayload : .payload data ∈ r.checks) (hfilling : .filling data ∈ r.checks) :
      (s.memory.read data).Filled := by
    obtain ⟨es, hes⟩ : ∃ es, s.memory.look data = .map es := passes _ hpayload
    have hne : s.memory.look data ≠ .map [] := passes _ hfilling
    obtain ⟨es', hread, hnil⟩ := Memory.read_of_look hes
    refine ⟨es', hread, fun hempty => hne ?_⟩
    rw [hes, hnil.mp hempty]
  cases r with
  | insert data | update id data | updateAll conditions data =>
    refine ⟨data, hfilled (by simp [Request.checks, Request.written?])
      (by simp [Request.checks, Request.written?]), ?_⟩
    obtain ⟨v', u, hv, h⟩ := Act.of_bind_ok formatted
    obtain ⟨hr, rfl⟩ := Prod.mk.inj h
    rw [← Except.ok.inj hr] at written
    obtain rfl : v' = v := Option.some.inj written
    exact hv
  | get | count | flush | remove | removeAll | find =>
    obtain ⟨hr, -⟩ := Prod.mk.inj formatted
    rw [← Except.ok.inj hr] at written
    cases written

/-- What is written of a payload is what the formatter of the call and the pre-hook have made of it. It
has fields if both leave fields to what has fields, and nothing comes between the call and the pre-hook. -/
theorem payload_written (accepted : c.accept r s = (.ok p, s')) (connected : d.requireConnection = .ok ())
    (written : p.request.written? = some v)
    (prepared : d.prepare p.request.operation v t = (.ok w, u)) (hread : u.memory.read w = .map es) :
    p.request.Writes d.table es (d.watched.perform p t.fresh).2.outside.calls ∧
    (KeepsFilled (Formatter.apply c.toDb?) → KeepsFilled (d.prepare p.request.operation) →
      t.memory = s'.memory → es ≠ []) := by
  obtain ⟨w', u', hhook, h⟩ := Act.of_bind_ok prepared
  obtain ⟨hw, rfl⟩ := Prod.mk.inj h
  obtain rfl : w'.orElse v = w := Except.ok.inj hw
  have hpayload : p.request.payload? = some v := by
    cases hp : p.request <;> rw [hp] at written <;> first | exact written | cases written
  have hdelivers := delivered_of_hook connected (r := p.request) (by rwa [hpayload])
  rw [show p.request.prepared w' = p.request.withPayload (w'.orElse v) by
    rw [Request.prepared, hpayload]] at hdelivers
  refine ⟨Request.writes_of_delivers written hread hdelivers, fun formats prepares same => ?_⟩
  -- fields are carried from the check to the formatter, and in the same memory on to the pre-hook
  obtain ⟨data, filled, hformat⟩ := filled_of_accept accepted written
  have hformatted := formats data s v s' filled hformat
  rw [← same] at hformatted
  obtain ⟨es', hes', hne⟩ := prepares v t _ u' hformatted prepared
  obtain rfl := Value.map.inj (hread.symm.trans hes')
  exact hne

/-- A table whose formatter sets a name in place, and whose pre-hooks give marked copies. -/
def markedPeople : Collection Unit :=
  { answered "users" people with
    toDb? := some (setting "name" (.text "Ann"))
    pre := fun _ => some (marking "seen" (.int 1)) }

/-- An update of the active rows of this table, whose payload is edited twice before it is sent. -/
theorem payload_written_marked :
    let conditions : Value := .map [("active", .bool true)]
    let r : Request := .updateAll conditions (.reference 0)
    let stage (data : Entries) : Stage Unit := ⟨⟨[.map data]⟩, ()⟩
    let named : Entries := [("age", .int 30), ("name", .text "Ann")]
    let sent : Entries := named ++ [("seen", .int 1)]
    markedPeople.accept r (stage [("age", .int 30)]) = (.ok ⟨r⟩, stage named) ∧
      markedPeople.requireConnection = .ok () ∧
      markedPeople.prepare .updateAll (.reference 0) (stage named) =
        (.ok (.reference 1), ⟨⟨[.map named, .map sent]⟩, ()⟩) ∧
      KeepsFilled (Formatter.apply markedPeople.toDb?) ∧ KeepsFilled (markedPeople.prepare .updateAll) ∧
      r.Writes "users" sent (markedPeople.watched.perform ⟨r⟩ (stage named).fresh).2.outside.calls ∧
      sent ≠ [] ∧
      markedPeople.statements ⟨r⟩ (stage named) =
        ["SELECT * FROM users WHERE active = 'true'",
          "UPDATE users SET age = 30, name = 'Ann', seen = 1 WHERE active = 'true'",
          "SELECT * FROM users WHERE id IN (1,2)"] := by
  intro conditions r stage named sent
  have accepted : markedPeople.accept r (stage [("age", .int 30)]) = (.ok ⟨r⟩, stage named) := rfl
  have prepared : markedPeople.prepare .updateAll (.reference 0) (stage named) =
      (.ok (.reference 1), ⟨⟨[.map named, .map sent]⟩, ()⟩) := rfl
  have formats : KeepsFilled (Formatter.apply markedPeople.toDb?) := keepsFilled_setting _ _
  have prepares : KeepsFilled (markedPeople.prepare .updateAll) := keepsFilled_marking rfl
  obtain ⟨writes, filled⟩ := payload_written (d := markedPeople) (t := stage named) accepted rfl rfl
    prepared (show Memory.read _ _ = .map sent from rfl)
  exact ⟨accepted, rfl, prepared, formats, prepares, writes, filled formats prepares rfl, by decide⟩

/-- A formatter that drops the only field of a payload: an empty row is inserted, and an update is sent
that sets nothing. -/
theorem payload_emptied :
    let drop : Callback Unit := .prompt false (Rehearsal.Deed.perform (.drop (.text "name")))
    let stage : Stage Unit := ⟨.empty, ()⟩
    let data : Value := .map [("name", .text "Ann")]
    ∃ users p q s s', (answered "users" people).setDbFormat (some drop) = .ok users ∧
      users.accept (.insert data) stage = (.ok p, s) ∧
      (users.watched.perform p s.fresh).2.outside.calls = [.insert (.map [])] ∧
      users.accept (.updateAll (.map [("active", .bool true)]) data) stage = (.ok q, s') ∧
      users.statements q s' =
        ["SELECT * FROM users WHERE active = 'true'",
          "UPDATE users SET  WHERE active = 'true'",
          "SELECT * FROM users WHERE id IN (1,2)"] := by
  intro drop stage data
  obtain ⟨users, husers⟩ : ∃ users, (answered "users" people).setDbFormat (some drop) = .ok users :=
    ⟨_, rfl⟩
  obtain ⟨p, s, inserting⟩ : ∃ p s, users.accept (.insert data) stage = (.ok p, s) := by
    cases husers
    exact ⟨_, _, rfl⟩
  obtain ⟨q, s', updating⟩ : ∃ q s',
      users.accept (.updateAll (.map [("active", .bool true)]) data) stage = (.ok q, s') := by
    cases husers
    exact ⟨_, _, rfl⟩
  refine ⟨users, p, q, s, s', husers, inserting, ?_, updating, ?_⟩
  · cases husers
    cases inserting
    rfl
  · cases husers
    cases updating
    decide

end Collection

end TableAccess
