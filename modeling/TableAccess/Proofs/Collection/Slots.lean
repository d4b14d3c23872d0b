import TableAccess.Proofs.Collection.Pipeline

/-! What an operation reads of its collection when it is performed. It starts with its pre-hook, whose
value takes the place of the payload (`perform_eq`), and what it does after that is told by table,
connection, accessor, row formatter and post-hook. Two collections that agree on these for an operation
perform it alike, whatever their other slots hold (`perform_congr`). -/

namespace TableAccess

/-- How an operation ends that is waited for at once: refused when it was called, failed when it was
waited for, or done. -/
inductive Ending where
  | refused (e : Failure)
  | failed (e : Failure)
  | done (v : Value)

variable {σ α β : Type}

/-! ### Watched hooks -/

namespace Stage

theorem unseen_bind (x : Act (Stage σ) α) (f : α → Act (Stage σ) β) :
    unseen (x >>= f) = unseen x >>= fun a => unseen (f a) := by
  funext s
  rw [Act.bind_run]
  unfold unseen Act.within
  rw [Act.bind_run]
  obtain ⟨r, t⟩ := x s.plain
  cases r <;> rfl

end Stage

theorem Reply.wait_watched (r : Reply σ) : r.watched.wait = Stage.unseen r.wait := by
  cases r <;> rfl

namespace Collection

/-- A watched hook is seen once, when it is called; what is waited for afterwards is part of it. -/
theorem runHook_watched (side : Side) (op : Operation) (hook : Hook σ) (arguments : List Value) :
    runHook (some (hook.watched side op)) arguments = (do
      Stage.note fun read => .hook side op (arguments.map read)
      Stage.unseen (runHook (some hook) arguments)) := by
  simp only [runHook, Hook.watched, bind_assoc, pure_bind, Stage.unseen_bind, Reply.wait_watched]

/-! ### Before and after the pre-hook -/

open Statement

variable {c d : Collection σ}

/-- Calls an operation and waits for it at once. -/
def completed (c : Collection σ) (r : Request) (s : Stage σ) : Ending × Stage σ :=
  match c.accept r s with
  | (.error e, s) => (.refused e, s)
  | (.ok p, s) =>
    match c.perform p s with
    | (.error e, s) => (.failed e, s)
    | (.ok v, s) => (.done v, s)

/-- What an operation does once its pre-hook is done. -/
def afterHook (c : Collection σ) : Request → Act (Stage σ) Value
  | .get id => do c.finishRow .get (← ask ((← c.accessor).findOne id))
  | .insert data => do c.finishRow .insert (← ask ((← c.accessor).insert (← Stage.read data)))
  | .update id data => do
    c.finishRow .update (firstRow (← ask ((← c.accessor).updateById id (← Stage.read data))))
  | .remove id => do c.finishRow .remove (firstRow (← ask ((← c.accessor).destroyById id)))
  | .updateAll conditions data => do
    c.updateSelected conditions data
      (← c.execute (Raw.select c.table (← Stage.read conditions) .null))
  | .removeAll conditions => do
    c.removeSelected (← c.execute (Raw.select c.table (← Stage.read conditions) .null))
  | .flush resetSequence => do
    let _ ← c.execute (.ok (Raw.truncate c.table))
    let _ ← runHook (c.post .flush) []
    if (← Stage.look resetSequence).truthy then
      let _ ← c.execute (.ok (Raw.sequenceRestart c.table))
    return .null
  | .count conditions => do
    let result ← c.execute (Raw.count c.table (← Stage.read conditions))
    let n ← Act.settle (countOf c.table result)
    c.conclude .count (.int n)
  | .find conditions options => do
    let find (conditions options : Value) : Act (Stage σ) Value := do
      ask ((← c.accessor).find conditions options)
    let execute (statement : String) : Act (Stage σ) Value := c.execute (.ok statement)
    c.finishRows .find
      (← search c.table execute find (← Stage.read conditions) (← Stage.read options))

/-- A performed operation is its pre-hook, and then the rest of it with the payload that it leaves. -/
theorem perform_eq (c : Collection σ) (r : Request) :
    c.perform ⟨r⟩ = (do
      c.afterHook (r.prepared (← runHook (c.pre r.operation) r.payload?.toList))) := by
  cases r with
  | get | count | flush | remove | find =>
    simp only [perform, performGet, performCount, performFlush, performRemove, performFind, announce,
      bind_assoc, pure_bind]
    rfl
  | insert | update | updateAll | removeAll =>
    simp only [perform, performInsert, performUpdate, performUpdateAll, performRemoveAll, prepare,
      bind_assoc, pure_bind]
    rfl

theorem prepared_null (r : Request) : r.prepared .null = r := by
  cases r <;> rfl

/-- Without a pre-hook nothing comes before the rest. -/
theorem afterHook_eq_perform (c : Collection σ) (r : Request) :
    c.afterHook r = { c with pre := fun _ => none }.perform ⟨r⟩ := by
  rw [perform_eq]
  simp only [runHook, pure_bind, prepared_null]
  cases r <;> rfl

/-- Two collections that have the same for an operation that is performed: to wait for a hook of the one
is to wait for that of the other. -/
structure PerformsAs (c d : Collection σ) (op : Operation) : Prop where
  table : c.table = d.table
  attachment : c.attachment = d.attachment
  accessor : c.accessor? = d.accessor?
  toJs : c.toJs? = d.toJs?
  pre : runHook (c.pre op) = runHook (d.pre op)
  post : runHook (c.post op) = runHook (d.post op)

theorem afterHook_congr {r : Request} (h : c.PerformsAs d r.operation) :
    c.afterHook r = d.afterHook r := by
  obtain ⟨table, attachment, accessor, toJs, -, post⟩ := h
  have hconclude : c.conclude r.operation = d.conclude r.operation := by
    unfold conclude
    rw [post]
  have hexecute : c.execute = d.execute := by
    unfold execute
    rw [attachment]
  have haccessor : c.accessor = d.accessor := by
    unfold Collection.accessor
    rw [accessor]
  have hrow : c.finishRow r.operation = d.finishRow r.operation := by
    unfold finishRow
    rw [hconclude, toJs]
  have hrows : c.finishRows r.operation = d.finishRows r.operation := by
    unfold finishRows formatRows
    rw [hconclude, toJs]
  cases r <;> simp only [Request.operation] at hconclude hrow hrows post
  case get | insert | update | remove => simp only [afterHook, haccessor, hrow]
  case find => simp only [afterHook, hexecute, haccessor, hrows, table]
  case count => simp only [afterHook, hexecute, hconclude, table]
  case flush => simp only [afterHook, hexecute, post, table]
  case updateAll =>
    simp only [afterHook, updateSelected, concludeEmpty, hexecute, hconclude, hrows, table]
  case removeAll =>
    simp only [afterHook, removeSelected, concludeEmpty, hexecute, hconclude, hrows, table]

theorem operation_prepared (r : Request) (v : Value) : (r.prepared v).operation = r.operation := by
  cases r <;> rfl

/-- Whatever else two collections hold, what they have for an operation decides how it is performed. -/
theorem perform_congr {r : Request} (h : c.PerformsAs d r.operation) :
    c.perform ⟨r⟩ = d.perform ⟨r⟩ := by
  rw [perform_eq, perform_eq, h.pre]
  refine bind_congr fun v => afterHook_congr ?_
  rwa [operation_prepared]

end Collection

end TableAccess
