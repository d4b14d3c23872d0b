import TableAccess.Proofs.Client.Course
import TableAccess.Proofs.Statement.Percent

/-! What is sent for the rows of a table. A task on rows sends the statement that it prepares, with its
parameters, and nothing else (`perform_sends`). A driver reads a marker in this text for every parameter,
and no other, exactly if no name and no order type of the task has a percent sign
(`markers_read_iff`); for a column that is called `discount%` it cannot read the text at all
(`percent_unread`). -/

namespace TableAccess

namespace Client

open Statement

/-- The statement of a task on rows. The other tasks bring their own. -/
def Task.prepared? : Task → Option (Except Failure Prepared)
  | .run .. | .execute .. => none
  | .findRows table conditions options => some (Prepared.find table conditions options)
  | .findRow table row => some (.ok (Prepared.findOne table row))
  | .insertRow table data => some (Prepared.insert table data)
  | .updateRow table row data => some (Prepared.updateById table row data)
  | .deleteRow table row => some (.ok (Prepared.deleteById table row))

/-- What of a task on rows goes into the text of its statement as it is. -/
def Task.texts : Task → List String
  | .run .. | .execute .. => []
  | .findRows table conditions options =>
    searchTexts table conditions ((optionEntries options).toOption.getD [])
  | .findRow table _ | .deleteRow table _ => [table.toText]
  | .insertRow table data | .updateRow table _ data => rowTexts table data

theorem prepared_safe_iff {task : Task} {p : Prepared} (h : task.prepared? = some (.ok p)) :
    p.Safe ↔ PercentFree task.texts := by
  cases task with
  | run query parameters => contradiction
  | execute query parameters => contradiction
  | findRows table conditions options =>
    obtain ⟨os, hos, hsafe⟩ := find_safe_iff (Option.some.inj h)
    rw [hsafe, Task.texts, hos]
    rfl
  | findRow table row =>
    obtain rfl := Except.ok.inj (Option.some.inj h)
    exact findOne_safe_iff table row
  | insertRow table data => exact insert_safe_iff (Option.some.inj h)
  | updateRow table row data => exact updateById_safe_iff (Option.some.inj h)
  | deleteRow table row =>
    obtain rfl := Except.ok.inj (Option.some.inj h)
    exact deleteById_safe_iff table row

/-- A step that sends nothing but a prepared statement. -/
def SendsOnly (p : Except Failure Prepared) : Event → Prop
  | .send _ statement parameters =>
    ∃ q, p = .ok q ∧ statement = Fragment.text q.pieces ∧ parameters = q.parameters
  | _ => True

theorem acquire_tries {p : Except Failure Prepared} (id : Nat) : Tries (SendsOnly p) (acquire id) := by
  refine .bind (isClosed_tries id) fun closed => ?_
  split
  · exact .bind (.throw _) fun _ => .step rfl trivial
  · exact .step rfl trivial

theorem transact_tries (id : Nat) (q : Prepared) :
    Tries (SendsOnly (.ok q)) (transact id (.fragments q.pieces) q.parameters) := by
  have hwritten : transact id (.fragments q.pieces) q.parameters = (do
      World.strike .render
      let rows ← send id (Fragment.text q.pieces) q.parameters
      World.step (.commit id) .commit
      return rows) := by simp [transact, Query.write]
  rw [hwritten]
  refine .bind (.strike (.inl rfl)) fun _ => ?_
  refine .bind (send_tries ⟨q, rfl, rfl, rfl⟩ fun _ => trivial) fun rows => ?_
  exact .bind (.step rfl trivial) fun _ => .pure rows

theorem undo_tries {p : Except Failure Prepared} (id : Nat) (e : Failure) :
    Tries (SendsOnly p) (undo id e) := by
  refine .bind (.attempt (.step rfl trivial)) fun outcome => ?_
  split
  · exact .pure _
  · exact .pure _

theorem conclude_tries (id : Nat) (q : Prepared) :
    Tries (SendsOnly (.ok q)) (conclude id (.fragments q.pieces) q.parameters) := by
  refine .bind (.attempt (transact_tries id q)) fun outcome => ?_
  split
  · exact .pure _
  · exact .bind (undo_tries id _) fun _ => .pure _

theorem release_tries {p : Except Failure Prepared} (id : Nat) : Tries (SendsOnly p) (release id) := by
  refine .bind (.attempt (.step rfl trivial)) fun outcome => ?_
  split
  · exact .pure _
  · refine .bind (isClosed_tries id) fun closed => ?_
    split
    · exact .throw _
    · exact .pure _

theorem settle_tries {α : Type} {allowed : Event → Prop} (r : Except Failure α) :
    Tries allowed (Act.settle r) :=
  .of_silent fun w => ⟨r, w, .settle r w⟩

theorem runPrepared_tries (id : Nat) (p : Except Failure Prepared) :
    Tries (SendsOnly p) (runPrepared id p) := by
  cases p with
  | error e => exact fun w => ⟨_, w, [], (Runs.settle _ w).bind_error, by simp⟩
  | ok q =>
    have hrun : Tries (SendsOnly (.ok q)) (run id (.fragments q.pieces) q.parameters) :=
      .bind (acquire_tries id) fun _ => .bind (conclude_tries id q) fun outcome =>
        .bind (release_tries id) fun _ => settle_tries outcome
    rw [runPrepared, Act.settle_ok_bind]
    exact hrun

theorem perform_sends {task : Task} {p : Except Failure Prepared} (h : task.prepared? = some p)
    (id : Nat) : Tries (SendsOnly p) (task.perform id) := by
  cases task with
  | run query parameters => contradiction
  | execute query parameters => contradiction
  | _ =>
    obtain rfl := Option.some.inj h
    exact .bind (runPrepared_tries id _) fun _ => .pure _

/-- A driver reads a marker for every parameter, and no other, in whatever is sent for the rows of a
table, exactly if no name and no order type of the task has a percent sign. -/
theorem markers_read_iff {task : Task} (h : task.prepared?.isSome = true) (id : Nat) (w : World) :
    ∃ events, (task.perform id w).2.journal = w.journal ++ events ∧
      ∀ client statement parameters, .send client statement parameters ∈ events →
        (Fragment.markersRead statement.toList = some parameters.length ↔ PercentFree task.texts) := by
  obtain ⟨p, hp⟩ := Option.isSome_iff_exists.mp h
  obtain ⟨r, u, trace, hr, hsends⟩ := perform_sends hp id w
  refine ⟨trace.map (·.event), by rw [hr.run, hr.passed.journal], ?_⟩
  intro client statement parameters hm
  obtain ⟨a, ha, he⟩ := List.mem_map.mp hm
  have hsent : SendsOnly p (.send client statement parameters) := he ▸ hsends a ha
  obtain ⟨q, rfl, rfl, rfl⟩ := hsent
  exact prepared_safe_iff hp

/-- A world with one open client and nothing planned. -/
def alone : World := { World.empty with clients := [⟨.null, .null, .null, .null, none, false⟩] }

/-- A pattern with percent signs is a value, so they are not in the text. -/
theorem markers_read_iff_like :
    let es : Entries := [("name LIKE", .text "jo%")]
    let task : Task := .findRows (.text "users") (.map es) (.map [("limit", .int 3)])
    let statement := "SELECT * FROM \"users\" WHERE \"name\" LIKE %s LIMIT %s"
    (task.perform 0 alone).2.journal =
        [.acquire 0, .send 0 statement [.text "jo%", .int 3], .commit 0, .release 0] ∧
      PercentFree task.texts ∧ Fragment.markersRead statement.toList = some 2 := by
  intro es task statement
  have hjournal : (task.perform 0 alone).2.journal =
      [.acquire 0, .send 0 statement [.text "jo%", .int 3], .commit 0, .release 0] := rfl
  have hcompared : es.flat.map Comparison.ofEntry = (Condition.tree es).comparisons :=
    (Condition.comparisons_tree (Condition.wellFormed_of_isSome es rfl)).symm
  have hfree : PercentFree task.texts := by
    show PercentFree ("users" :: [] ++
      (es.flat.map Comparison.ofEntry).flatMap Comparison.fieldTexts ++ [] ++ [])
    rw [hcompared]
    decide +kernel
  obtain ⟨events, he, hread⟩ := @markers_read_iff task rfl 0 alone
  obtain rfl : _ = events := hjournal.symm.trans he
  exact ⟨hjournal, hfree, (hread 0 statement [.text "jo%", .int 3] (by simp)).mpr hfree⟩

/-- A column that is called `discount%`: its percent sign begins no marker. -/
theorem percent_unread :
    let task : Task := .findRows (.text "users") (.map [("discount% >", .int 5)]) (.map [])
    let statement := "SELECT * FROM \"users\" WHERE \"discount%\" > %s"
    (task.perform 0 alone).2.journal =
        [.acquire 0, .send 0 statement [.int 5], .commit 0, .release 0] ∧
      Fragment.markersRead statement.toList = none :=
  ⟨rfl, rfl⟩

end Client

end TableAccess
