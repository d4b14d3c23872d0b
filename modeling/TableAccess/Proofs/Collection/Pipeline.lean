import TableAccess.Proofs.Collection.Logged

/-! The course of an operation. Every operation takes the same stages, whatever hooks, formatters and
database are: the payload is formatted at once, the pre-hook runs, the calls of the operation are made in
their order, every row that is not null is formatted, the post-hook sees the result, and a flush may
restart its sequence (`pipeline`). An operation that passes its checks takes this course
(`obeys_operate`). -/

namespace TableAccess

/-- The payload of a request, which its pre-hook may edit or replace. -/
def Request.payload? : Request → Option Value
  | .insert data | .update _ data | .updateAll _ data => some data
  | .removeAll conditions => some conditions
  | .get _ | .count _ | .flush _ | .remove _ | .find .. => none

/-- The payload of a request that writes it. -/
def Request.written? : Request → Option Value
  | .insert data | .update _ data | .updateAll _ data => some data
  | .get _ | .count _ | .flush _ | .remove _ | .removeAll _ | .find .. => none

def Request.withPayload (v : Value) : Request → Request
  | .insert _ => .insert v
  | .update id _ => .update id v
  | .updateAll conditions _ => .updateAll conditions v
  | .removeAll _ => .removeAll v
  | r => r

/-- The request after its pre-hook, whose value takes the place of the payload. -/
def Request.prepared (r : Request) (v : Value) : Request :=
  match r.payload? with
  | some payload => r.withPayload (v.orElse payload)
  | none => r

/-- What an operation has got from the database: a row or none, rows, nothing because no row was
selected, a count, or nothing at all. -/
inductive Found where
  | row (v : Value)
  | rows (vs : List Value)
  | unselected
  | count (n : Int)
  | nothing

namespace Found

/-- The rows to be formatted. -/
def toFormat : Found → List Value
  | .row v => [v]
  | .rows vs => vs
  | .unselected | .count _ | .nothing => []

/-- The result, made of the formatted rows. -/
def result (found : Found) (formatted : List Value) : Course Value :=
  match found with
  | .row _ => return formatted.headD .null
  | .rows _ => .store (.list formatted)
  | .unselected => .store (.list [])
  | .count n => return .int n
  | .nothing => return .null

/-- What the post-hook is handed. -/
def handed (found : Found) (result : Value) : List Value :=
  match found with
  | .nothing => []
  | .row _ | .rows _ | .unselected | .count _ => [result]

/-- What the caller gets: the result that the post-hook was handed, or an empty list like it. -/
def returned (found : Found) (result : Value) : Course Value :=
  match found with
  | .unselected => .store (.list [])
  | .row _ | .rows _ | .count _ | .nothing => return result

end Found

namespace Collection

open Statement

variable {σ : Type}

/-- Calls an operation and waits for it, when something else may have happened since. -/
def operate (c : Collection σ) (r : Request) (meanwhile : Stage σ → Stage σ) :
    Act (Stage σ) Value := do
  let p ← c.accept r
  modify meanwhile
  c.awaited p

section Course

variable (c : Collection σ)

/-- A value and its formatter, which is not asked about null. -/
def formatting (isSet : Bool) (deed : (Value → Value) → Deed) (v : Value) : Course Value :=
  if isSet && !v.isNull then do return (← Course.callback deed [v]).orElse v else return v

/-- The payload is formatted if it is to be written. -/
def formattingPayload (r : Request) : Course Request :=
  match r.written? with
  | some data => do
    return r.withPayload (← formatting c.toDb?.isSome (fun read => .toDb (read data)) data)
  | none => return r

def hook? (side : Side) (op : Operation) : Option (Hook σ) :=
  match side with
  | .pre => c.pre op
  | .post => c.post op

def hooking (side : Side) (op : Operation) (handed : List Value) : Course Value :=
  if (c.hook? side op).isSome then
    .callback (fun read => .hook side op (handed.map read)) handed
  else return .null

def preparing (r : Request) : Course Request := do
  return r.prepared (← c.hooking .pre r.operation r.payload?.toList)

/-- A statement to be sent; it is refused if nothing is there to send it. -/
def say (statement : Except Failure String) : Except Failure (Option Call) :=
  match c.attachment with
  | .connection _ => do return some (.statement (← statement))
  | _ => .error .noMember

/-- The calls of an operation, given what its arguments are. -/
def agenda (read : Value → Value) : Request → Agenda
  | .get id, [] => .ok (some (.findOne id))
  | .insert data, [] => .ok (some (.insert (read data)))
  | .update id data, [] => .ok (some (.updateById id (read data)))
  | .remove id, [] => .ok (some (.destroyById id))
  | .count conditions, [] => c.say (Raw.count c.table (read conditions))
  | .flush _, [] => c.say (.ok (Raw.truncate c.table))
  | .find conditions options, [] => do
    if ← Route.needsRaw (read conditions) (read options) then
      c.say (.ok (← Raw.select c.table (read conditions) (read options)))
    else return some (.find (read conditions) (read options))
  | .updateAll conditions _, [] => c.say (Raw.select c.table (read conditions) .null)
  | .updateAll conditions data, [candidates] => do
    if (← rowIds candidates).isEmpty then return none
    else c.say (.ok (← Raw.update c.table (read data) (read conditions)))
  | .updateAll .., [candidates, _] => do c.say (.ok (Raw.selectIds c.table (← rowIds candidates)))
  | .removeAll conditions, [] => c.say (Raw.select c.table (read conditions) .null)
  | .removeAll _, [snapshot] => do
    let ids ← rowIds snapshot
    if ids.isEmpty then return none else c.say (.ok (Raw.deleteIds c.table ids))
  | _, _ => .ok none

def calling (r : Request) : Course (List Value) := do
  let m ← Course.memory
  Course.asking (c.agenda m.read r) []

/-- What an operation has got once its calls are answered. -/
def found : Operation → List Value → Except Failure Found
  | .get, [row] | .insert, [row] => .ok (.row row)
  | .update, [rows] | .remove, [rows] => .ok (.row (firstRow rows))
  | .find, [rows] | .updateAll, [_, _, rows] | .removeAll, [rows, _] =>
    .ok (.rows (rows.items?.getD []))
  | .count, [answer] => do return .count (← countOf c.table answer)
  | .flush, _ => .ok .nothing
  | _, _ => .ok .unselected

/-- A row moves into the memory and is formatted. -/
def formattingRow (row : Value) : Course Value := do
  formatting c.toJs?.isSome (fun _ => .toJs row) (← Course.place row)

/-- The sequence of a flush, if it is to be restarted. -/
def restarting : Request → Course Unit
  | .flush resetSequence => do
    if ((← Course.memory).look resetSequence).truthy then
      let _ ← Course.asked (.statement (Raw.sequenceRestart c.table))
  | _ => return

/-- From what has been found to what the caller gets. -/
def finishing (r : Request) (found : Found) : Course Value := do
  let formatted ← found.toFormat.mapM c.formattingRow
  let result ← found.result formatted
  let _ ← c.hooking .post r.operation (found.handed result)
  c.restarting r
  found.returned result

/-- The stages of an accepted request. -/
def performing (r : Request) : Course Value := do
  let r ← c.preparing r
  let answers ← c.calling r
  let found ← Course.settle (c.found r.operation answers)
  c.finishing r found

/-- The stages of an operation. All but the first are those of a coroutine. -/
def pipeline (r : Request) : Course Value := do
  let r ← c.formattingPayload r
  Course.elapse
  Course.awaited (c.performing r)

end Course

/-- Answers of the right shape: they are complete in themselves, and what is asked for rows gives a
list. -/
structure WellAnswered (c : Collection σ) : Prop where
  statements : ∀ k, c.attachment = .connection k → ∀ q o v o', k.execute q o = (.ok v, o') →
    v.isComplete = true ∧ ∃ rows, v = .list rows
  find : ∀ t, c.accessor? = some t → ∀ conditions options o v o',
    t.find conditions options o = (.ok v, o') → v.isComplete = true ∧ ∃ rows, v = .list rows
  findOne : ∀ t, c.accessor? = some t → ∀ id o v o', t.findOne id o = (.ok v, o') →
    v.isComplete = true
  insert : ∀ t, c.accessor? = some t → ∀ data o v o', t.insert data o = (.ok v, o') →
    v.isComplete = true
  updateById : ∀ t, c.accessor? = some t → ∀ id data o v o', t.updateById id data o = (.ok v, o') →
    v.isComplete = true
  destroyById : ∀ t, c.accessor? = some t → ∀ id o v o', t.destroyById id o = (.ok v, o') →
    v.isComplete = true

section Callbacks

variable {s : Stage (Logged σ)}

theorem obeys_runHook (side : Side) (op : Operation) (hook? : Option (Hook σ))
    (handed : List Value) :
    Obeys s (runHook (hook?.map (Hook.logged side op)) handed) (runHook hook? handed)
      (if hook?.isSome then .callback (fun read => .hook side op (handed.map read)) handed
        else return .null) := by
  cases hook? with
  | none => exact .pure _
  | some hook =>
    have hrun : runHook ((some hook).map (Hook.logged side op)) handed =
        Stage.entered (fun read => .hook side op (handed.map read)) handed
          (do (← hook handed).wait) := by
      simp [runHook, Hook.logged, Reply.wait]
    rw [hrun]
    exact .callback _ _ _

theorem obeys_apply (deed : Value → Deed) (f? : Option (Formatter σ)) (v : Value) :
    Obeys s (Formatter.apply (f?.map (Formatter.logged deed)) v) (Formatter.apply f? v)
      (formatting f?.isSome (fun read => deed (read v)) v) := by
  cases f? with
  | none => exact .pure v
  | some f =>
    simp only [Formatter.apply, formatting, Option.map_some, Option.isSome_some, Bool.true_and]
    cases v.isNull with
    | true => exact .pure v
    | false => exact .bind (.callback _ _ _) fun w _ _ _ _ => .pure _

theorem obeys_formatted (c : Collection σ) (r : Request) :
    Obeys s (r.formatted c.logged.toDb?) (r.formatted c.toDb?) (c.formattingPayload r) := by
  have hdata (f : Value → Request) (data : Value) :
      Obeys s (do return f (← Formatter.apply c.logged.toDb? data))
        (do return f (← Formatter.apply c.toDb? data))
        (do return f (← formatting c.toDb?.isSome (fun read => .toDb (read data)) data)) :=
    .bind (obeys_apply .toDb c.toDb? data) fun v _ _ _ _ => .pure _
  cases r with
  | insert data => exact hdata .insert data
  | update id data => exact hdata (.update id) data
  | updateAll conditions data => exact hdata (.updateAll conditions) data
  | get | count | flush | remove | removeAll | find => exact .pure _

/-- What a deed shows at the moment is all that matters. -/
theorem formatting_congr (isSet : Bool) (v : Value) {deed : (Value → Value) → Deed} {shown : Deed}
    {m : Memory} (h : deed m.read = shown) :
    formatting isSet deed v m = formatting isSet (fun _ => shown) v m := by
  unfold formatting
  split
  · refine Course.bind_congr ?_ _
    unfold Course.callback
    rw [h]
  · rfl

/-- A row is handed to the formatter as it was answered. -/
theorem obeys_formatRow (c : Collection σ) {row : Value} (complete : row.isComplete = true) :
    Obeys s (c.logged.formatRow row) (c.formatRow row) (c.formattingRow row) := by
  refine .bind (.place row) fun v t _ _ hplaced => ?_
  obtain ⟨-, hv, ht⟩ := hplaced
  obtain rfl := Except.ok.inj hv
  have hread : t.memory.read (s.memory.place row).1 = row := by
    rw [ht]
    exact s.memory.read_place row complete
  have hcourse : formatting c.toJs?.isSome (fun read => .toJs (read (s.memory.place row).1))
      (s.memory.place row).1 t.memory =
        formatting c.toJs?.isSome (fun _ => .toJs row) (s.memory.place row).1 t.memory :=
    formatting_congr _ _ (congrArg Deed.toJs hread)
  exact (obeys_apply .toJs c.toJs? _).imp fun log r m' h => by rwa [hcourse] at h

end Callbacks

section Finishing

variable {s : Stage (Logged σ)} {c : Collection σ} {r : Request}

/-- Whatever the result, the post-hook is handed it and the caller gets it. -/
theorem obeys_conclude (result : Value) (hr : ∀ flag, r ≠ .flush flag) :
    Obeys s (c.logged.conclude r.operation result) (c.conclude r.operation result) (do
      let _ ← c.hooking .post r.operation [result]
      c.restarting r
      return result) := by
  have hrestart : c.restarting r = Pure.pure () := by
    cases r with
    | flush flag => exact absurd rfl (hr flag)
    | _ => rfl
  rw [hrestart]
  simp only [pure_bind]
  exact .bind (obeys_runHook .post r.operation (c.post r.operation) [result]) fun _ _ _ _ _ => .pure _

theorem obeys_finishRow {row : Value} (complete : row.isComplete = true)
    (hr : ∀ flag, r ≠ .flush flag) :
    Obeys s (c.logged.finishRow r.operation row) (c.finishRow r.operation row)
      (c.finishing r (.row row)) := by
  have hcode {τ : Type} (c : Collection τ) :
      c.finishRow r.operation row = (do c.conclude r.operation (← c.formatRow row)) := by
    simp [finishRow, formatRow]
  have hcourse : c.finishing r (.row row) = (do
      let result ← c.formattingRow row
      let _ ← c.hooking .post r.operation [result]
      c.restarting r
      return result) := by
    simp [finishing, Found.toFormat, Found.result, Found.handed, Found.returned]
  rw [hcode, hcode, hcourse]
  exact .bind (obeys_formatRow c complete) fun result _ _ _ _ => obeys_conclude result hr

theorem obeys_finishRows {rows : List Value} (complete : ∀ row ∈ rows, row.isComplete = true)
    (hr : ∀ flag, r ≠ .flush flag) :
    Obeys s (c.logged.finishRows r.operation (.list rows)) (c.finishRows r.operation (.list rows))
      (c.finishing r (.rows rows)) := by
  rw [finishRows_list, finishRows_list]
  refine .bind (.mapM fun row hrow t => obeys_formatRow c (complete row hrow)) fun formatted _ _ _ _ => ?_
  exact .bind (.store _) fun result _ _ _ _ => obeys_conclude result hr

theorem obeys_concludeEmpty (hr : ∀ flag, r ≠ .flush flag) :
    Obeys s (c.logged.concludeEmpty r.operation) (c.concludeEmpty r.operation)
      (c.finishing r .unselected) := by
  have hcourse : c.finishing r .unselected = (do
      let result ← Course.store (.list [])
      let _ ← (do
        let _ ← c.hooking .post r.operation [result]
        c.restarting r
        return result)
      Course.store (.list [])) := by
    simp [finishing, Found.toFormat, Found.result, Found.handed, Found.returned]
  rw [hcourse]
  exact .bind (.store _) fun result _ _ _ _ => .bind (obeys_conclude result hr) fun _ _ _ _ _ => .store _

theorem obeys_concludeCount (n : Int) (hr : ∀ flag, r ≠ .flush flag) :
    Obeys s (c.logged.conclude r.operation (.int n)) (c.conclude r.operation (.int n))
      (c.finishing r (.count n)) := by
  have hcourse : c.finishing r (.count n) = (do
      let _ ← c.hooking .post r.operation [.int n]
      c.restarting r
      return .int n) := by
    simp [finishing, Found.toFormat, Found.result, Found.handed, Found.returned]
  rw [hcourse]
  exact obeys_conclude (.int n) hr

end Finishing

section Calling

variable {s : Stage (Logged σ)} {c : Collection σ} {agenda : Agenda} {heard : List Value} {β : Type}
  {x : Act (Stage (Logged σ)) β} {x' : Act (Stage σ) β} {g : List Value → Course β}

theorem obeys_refused {e : Failure} {y : Act (Stage (Logged σ)) β} {y' : Act (Stage σ) β}
    (h : agenda heard = .error e) (hy : y s = (.error e, s)) (hy' : y' s.bare = (.error e, s.bare)) :
    Obeys s y y' (Course.asking agenda heard >>= g) := by
  rw [Course.asking_refused h, Course.settle_error_bind]
  exact ⟨[], .error e, s, hy, hy', (List.append_nil _).symm, rfl, rfl, rfl⟩

theorem answer_of_ask {step : Act σ Value} {u u' : Stage σ} {v : Value}
    (complete : ∀ o v o', step o = (.ok v, o') → v.isComplete = true) (h : ask step u = (.ok v, u')) :
    ∃ o', step u.outside = (.ok v, o') := by
  obtain ⟨r, o, hr⟩ : ∃ r o, step u.outside = (r, o) := ⟨_, _, rfl⟩
  have hout : Stage.outward step u = (r, { u with outside := o }) := by
    simp [Stage.outward, Act.within, hr]
  cases r with
  | error e => cases (Act.bind_error hout).symm.trans h
  | ok answer =>
    have hread := (Act.bind_ok hout).symm.trans h
    rw [Stage.read_run, Memory.read_of_rigid _ fun find =>
      Value.resolve_of_isComplete find answer (complete _ _ _ hr)] at hread
    obtain rfl := Except.ok.inj (congrArg Prod.fst hread)
    exact ⟨o, hr⟩

theorem obeys_asked {call : Call} (step : Act σ Value) {f : Value → Act (Stage (Logged σ)) β}
    {f' : Value → Act (Stage σ) β} (h : agenda heard = .ok (some call))
    (complete : ∀ o v o', step o = (.ok v, o') → v.isComplete = true)
    (next : ∀ v t o o', step o = (.ok v, o') → t.memory = s.memory →
      Obeys t (f v) (f' v) (Course.asking agenda (heard ++ [v]) >>= g)) :
    Obeys s (ask (call.entered step) >>= f) (ask step >>= f') (Course.asking agenda heard >>= g) := by
  rw [Course.asking_next h, bind_assoc]
  refine .bind (.asked call complete) fun v t log hrun hasked => ?_
  obtain ⟨o', ho⟩ := answer_of_ask complete hrun
  exact next v t _ o' ho hasked.2

theorem obeys_said {statement : Except Failure String} {f : Value → Act (Stage (Logged σ)) β}
    {f' : Value → Act (Stage σ) β} (answers : c.WellAnswered) (h : agenda heard = c.say statement)
    (next : ∀ rows t, (Value.list rows).isComplete = true → t.memory = s.memory →
      Obeys t (f (.list rows)) (f' (.list rows)) (Course.asking agenda (heard ++ [.list rows]) >>= g)) :
    Obeys s (c.logged.execute statement >>= f) (c.execute statement >>= f')
      (Course.asking agenda heard >>= g) := by
  have hattachment : c.logged.attachment = c.attachment.logged := rfl
  unfold say at h
  unfold execute
  rw [hattachment]
  cases hk : c.attachment with
  | nothing =>
    rw [hk] at h
    exact obeys_refused h rfl rfl
  | stranger =>
    rw [hk] at h
    exact obeys_refused h rfl rfl
  | connection k =>
    rw [hk] at h
    cases statement with
    | error e => exact obeys_refused h rfl rfl
    | ok q =>
      have hanswered := answers.statements k hk q
      refine obeys_asked (k.execute q) h (fun o v o' hv => (hanswered o v o' hv).1)
        fun v t o o' hv ht => ?_
      obtain ⟨hcomplete, rows, rfl⟩ := hanswered o v o' hv
      exact next rows t hcomplete ht

theorem obeys_accessor {t : Table σ} (ht : c.accessor? = some t)
    {f : Table (Logged σ) → Act (Stage (Logged σ)) β} {f' : Table σ → Act (Stage σ) β} {p : Course β}
    (h : Obeys s (f t.logged) (f' t) p) :
    Obeys s (c.logged.accessor >>= f) (c.accessor >>= f') p := by
  have hlogged : c.logged.accessor? = some t.logged := by
    show c.accessor?.map Table.logged = _
    rw [ht]
    rfl
  unfold accessor
  rw [hlogged, ht]
  exact h

theorem obeys_read {v : Value} {f : Value → Act (Stage (Logged σ)) β} {f' : Value → Act (Stage σ) β}
    {p : Course β} (h : Obeys s (f (s.memory.read v)) (f' (s.memory.read v)) p) :
    Obeys s (Stage.read v >>= f) (Stage.read v >>= f') p :=
  h.congr (Act.bind_ok (Stage.read_run v s)) (Act.bind_ok (Stage.read_run v s.bare))

theorem obeys_look {v : Value} {f : Value → Act (Stage (Logged σ)) β} {f' : Value → Act (Stage σ) β}
    {p : Course β} (h : Obeys s (f (s.memory.look v)) (f' (s.memory.look v)) p) :
    Obeys s (Stage.look v >>= f) (Stage.look v >>= f') p :=
  h.congr rfl rfl

theorem obeys_settled {α : Type} {a : α} {f : α → Act (Stage (Logged σ)) β} {f' : α → Act (Stage σ) β}
    {p : Course β} (h : Obeys s (f a) (f' a) p) :
    Obeys s (Act.settle (.ok a) >>= f) (Act.settle (.ok a) >>= f') p := by
  rwa [Act.settle_ok_bind, Act.settle_ok_bind]

variable {r : Request}

/-- All calls are answered, and what has been found is finished. -/
theorem obeys_found {y : Act (Stage (Logged σ)) Value} {y' : Act (Stage σ) Value} {found : Found}
    (h : agenda heard = .ok none) (hf : c.found r.operation heard = .ok found)
    (hy : Obeys s y y' (c.finishing r found)) :
    Obeys s y y' (Course.asking agenda heard >>= fun answers =>
      Course.settle (c.found r.operation answers) >>= fun found => c.finishing r found) := by
  rwa [Course.asking_finished h, Course.settle_ok_bind, hf, Course.settle_ok_bind]

theorem obeys_unfound {y : Act (Stage (Logged σ)) Value} {y' : Act (Stage σ) Value} {e : Failure}
    (h : agenda heard = .ok none) (hf : c.found r.operation heard = .error e) (hy : y s = (.error e, s))
    (hy' : y' s.bare = (.error e, s.bare)) :
    Obeys s y y' (Course.asking agenda heard >>= fun answers =>
      Course.settle (c.found r.operation answers) >>= fun found => c.finishing r found) := by
  rw [Course.asking_finished h, Course.settle_ok_bind, hf, Course.settle_error_bind]
  exact ⟨[], .error e, s, hy, hy', (List.append_nil _).symm, rfl, rfl, rfl⟩

theorem obeys_memory {q : Memory → Course β} (h : Obeys s x x' (q s.memory)) :
    Obeys s x x' (Course.memory >>= q) :=
  h.imp fun log _ _ hq => .inr ⟨s.memory, s.memory, [], log, ⟨rfl, rfl, rfl⟩, hq, rfl⟩

/-- The calls of an operation begin with the memory that its pre-hook leaves. -/
theorem obeys_calling {q : List Value → Course β}
    (h : Obeys s x x' (Course.asking (c.agenda s.memory.read r) [] >>= q)) :
    Obeys s x x' (c.calling r >>= q) := by
  unfold calling
  rw [bind_assoc]
  exact obeys_memory h

theorem obeys_announce {f : Unit → Act (Stage (Logged σ)) β} {f' : Unit → Act (Stage σ) β}
    {q : Request → Course β} (hr : r.payload? = none) (next : ∀ t, Obeys t (f ()) (f' ()) (q r)) :
    Obeys s (c.logged.announce r.operation >>= f) (c.announce r.operation >>= f')
      (c.preparing r >>= q) := by
  have hcode {τ : Type} (c : Collection τ) (f : Unit → Act (Stage τ) β) :
      c.announce r.operation >>= f = runHook (c.pre r.operation) [] >>= fun _ => f () := by
    simp [announce]
  have hcourse : c.preparing r >>= q = c.hooking .pre r.operation [] >>= fun _ => q r := by
    simp [preparing, Request.prepared, hr]
  rw [hcode, hcode, hcourse]
  exact .bind (obeys_runHook .pre r.operation (c.pre r.operation) []) fun _ t _ _ _ => next t

theorem obeys_prepare {f : Value → Act (Stage (Logged σ)) β} {f' : Value → Act (Stage σ) β}
    {q : Request → Course β} {payload : Value} (hr : r.payload? = some payload)
    (next : ∀ v t, Obeys t (f v) (f' v) (q (r.withPayload v))) :
    Obeys s (c.logged.prepare r.operation payload >>= f) (c.prepare r.operation payload >>= f')
      (c.preparing r >>= q) := by
  have hcode {τ : Type} (c : Collection τ) (f : Value → Act (Stage τ) β) :
      c.prepare r.operation payload >>= f =
        runHook (c.pre r.operation) [payload] >>= fun v => f (v.orElse payload) := by
    simp [prepare]
  have hcourse : c.preparing r >>= q =
      c.hooking .pre r.operation [payload] >>= fun v => q (r.withPayload (v.orElse payload)) := by
    simp [preparing, Request.prepared, hr]
  rw [hcode, hcode, hcourse]
  exact .bind (obeys_runHook .pre r.operation (c.pre r.operation) [payload])
    fun v t _ _ _ => next (v.orElse payload) t

end Calling

theorem complete_of_mem {rows : List Value} (h : (Value.list rows).isComplete = true) :
    ∀ row ∈ rows, row.isComplete = true := by
  rw [Value.isComplete] at h
  induction rows with
  | nil => simp
  | cons row rows ih =>
    rw [Value.areComplete, Bool.and_eq_true] at h
    exact List.forall_mem_cons.mpr ⟨h.1, ih h.2⟩

theorem complete_firstRow {v : Value} (h : v.isComplete = true) : (firstRow v).isComplete = true := by
  have hhead {rows : List Value} (h : (Value.list rows).isComplete = true) :
      (rows.headD .null).isComplete = true := by
    cases rows with
    | nil => rfl
    | cons row rows => exact complete_of_mem h row List.mem_cons_self
  cases v with
  | list rows => exact hhead h
  | tuple rows => exact hhead h
  | _ => exact h

/-! ### What is asked for next -/

section Agenda

variable {c : Collection σ} {read : Value → Value} {conditions options data selected : Value}
  {ids : List Value} {e : Failure}

theorem agenda_find : c.agenda read (.find conditions options) [] = (do
    if ← Route.needsRaw (read conditions) (read options) then
      c.say (.ok (← Raw.select c.table (read conditions) (read options)))
    else return some (.find (read conditions) (read options))) := rfl

theorem agenda_update : c.agenda read (.updateAll conditions data) [selected] = (do
    if (← rowIds selected).isEmpty then return none
    else c.say (.ok (← Raw.update c.table (read data) (read conditions)))) := rfl

theorem agenda_remove : c.agenda read (.removeAll conditions) [selected] = (do
    let ids ← rowIds selected
    if ids.isEmpty then return none else c.say (.ok (Raw.deleteIds c.table ids))) := rfl

theorem agenda_unrouted (h : Route.needsRaw (read conditions) (read options) = .error e) :
    c.agenda read (.find conditions options) [] = .error e := by
  simp only [agenda_find, h]
  rfl

theorem agenda_planned (h : Route.needsRaw (read conditions) (read options) = .ok false) :
    c.agenda read (.find conditions options) [] =
      .ok (some (.find (read conditions) (read options))) := by
  simp only [agenda_find, h]
  rfl

theorem agenda_written (h : Route.needsRaw (read conditions) (read options) = .ok true) :
    c.agenda read (.find conditions options) [] =
      (do c.say (.ok (← Raw.select c.table (read conditions) (read options)))) := by
  simp only [agenda_find, h]
  rfl

theorem agenda_update_unlisted (h : rowIds selected = .error e) :
    c.agenda read (.updateAll conditions data) [selected] = .error e := by
  simp only [agenda_update, h]
  rfl

theorem agenda_update_none (h : rowIds selected = .ok ids) (hids : ids.isEmpty = true) :
    c.agenda read (.updateAll conditions data) [selected] = .ok none := by
  simp only [agenda_update, h]
  exact if_pos hids

theorem agenda_update_some (h : rowIds selected = .ok ids) (hids : ids.isEmpty = false) :
    c.agenda read (.updateAll conditions data) [selected] =
      (do c.say (.ok (← Raw.update c.table (read data) (read conditions)))) := by
  simp only [agenda_update, h]
  exact if_neg (by simp [hids])

theorem agenda_update_again (h : rowIds selected = .ok ids) (answer : Value) :
    c.agenda read (.updateAll conditions data) [selected, answer] =
      c.say (.ok (Raw.selectIds c.table ids)) := by
  show (do c.say (.ok (Raw.selectIds c.table (← rowIds selected)))) = _
  rw [h]
  rfl

theorem agenda_remove_unlisted (h : rowIds selected = .error e) :
    c.agenda read (.removeAll conditions) [selected] = .error e := by
  simp only [agenda_remove, h]
  rfl

theorem agenda_remove_none (h : rowIds selected = .ok ids) (hids : ids.isEmpty = true) :
    c.agenda read (.removeAll conditions) [selected] = .ok none := by
  simp only [agenda_remove, h]
  exact if_pos hids

theorem agenda_remove_some (h : rowIds selected = .ok ids) (hids : ids.isEmpty = false) :
    c.agenda read (.removeAll conditions) [selected] = c.say (.ok (Raw.deleteIds c.table ids)) := by
  simp only [agenda_remove, h]
  exact if_neg (by simp [hids])

end Agenda

section Operations

variable {s : Stage (Logged σ)} {c : Collection σ} {t : Table σ}

theorem obeys_get (answers : c.WellAnswered) (ht : c.accessor? = some t) (id : Value) :
    Obeys s (c.logged.performGet id) (c.performGet id) (c.performing (.get id)) := by
  refine obeys_announce (r := .get id) rfl fun u => obeys_calling (obeys_accessor ht ?_)
  have complete := answers.findOne t ht id
  refine obeys_asked (t.findOne id) rfl complete fun v u' o o' hv _ => ?_
  exact obeys_found rfl rfl (obeys_finishRow (r := .get id) (complete o v o' hv) nofun)

theorem obeys_insert (answers : c.WellAnswered) (ht : c.accessor? = some t) (data : Value) :
    Obeys s (c.logged.performInsert data) (c.performInsert data) (c.performing (.insert data)) := by
  refine obeys_prepare (r := .insert data) rfl fun data u => obeys_calling (obeys_accessor ht ?_)
  have complete := answers.insert t ht (u.memory.read data)
  refine obeys_read (obeys_asked (t.insert _) rfl complete fun v u' o o' hv _ => ?_)
  exact obeys_found rfl rfl (obeys_finishRow (r := .insert data) (complete o v o' hv) nofun)

theorem obeys_update (answers : c.WellAnswered) (ht : c.accessor? = some t) (id data : Value) :
    Obeys s (c.logged.performUpdate id data) (c.performUpdate id data)
      (c.performing (.update id data)) := by
  refine obeys_prepare (r := .update id data) rfl fun data u => obeys_calling (obeys_accessor ht ?_)
  have complete := answers.updateById t ht id (u.memory.read data)
  refine obeys_read (obeys_asked (t.updateById id _) rfl complete fun v u' o o' hv _ => ?_)
  exact obeys_found rfl rfl
    (obeys_finishRow (r := .update id data) (complete_firstRow (complete o v o' hv)) nofun)

theorem obeys_remove (answers : c.WellAnswered) (ht : c.accessor? = some t) (id : Value) :
    Obeys s (c.logged.performRemove id) (c.performRemove id) (c.performing (.remove id)) := by
  refine obeys_announce (r := .remove id) rfl fun u => obeys_calling (obeys_accessor ht ?_)
  have complete := answers.destroyById t ht id
  refine obeys_asked (t.destroyById id) rfl complete fun v u' o o' hv _ => ?_
  exact obeys_found rfl rfl
    (obeys_finishRow (r := .remove id) (complete_firstRow (complete o v o' hv)) nofun)

theorem obeys_count (answers : c.WellAnswered) (conditions : Value) :
    Obeys s (c.logged.performCount conditions) (c.performCount conditions)
      (c.performing (.count conditions)) := by
  refine obeys_announce (r := .count conditions) rfl fun u => obeys_calling (obeys_read ?_)
  refine obeys_said answers rfl fun rows u' _ _ => ?_
  show Obeys u' (Act.settle (countOf c.table (.list rows)) >>= _) _ _
  have hfound : c.found .count [.list rows] =
      (do return .count (← countOf c.table (.list rows))) := rfl
  cases hn : countOf c.table (.list rows) with
  | error e => exact obeys_unfound rfl (hfound.trans (by rw [hn]; rfl)) rfl rfl
  | ok n =>
    refine obeys_found rfl (hfound.trans (by rw [hn]; rfl)) (obeys_settled ?_)
    exact obeys_concludeCount (r := .count conditions) n nofun

theorem execute_connected {k : Connection σ} (hk : c.attachment = .connection k) (q : String) :
    c.logged.execute (.ok q) = ask ((Call.statement q).entered (k.execute q)) ∧
      c.execute (.ok q) = ask (k.execute q) := by
  have hattachment : c.logged.attachment = .connection k.logged := by
    show c.attachment.logged = _
    rw [hk]
    rfl
  unfold execute
  rw [hattachment, hk]
  exact ⟨rfl, rfl⟩

theorem finishing_flush (flag : Value) : c.finishing (.flush flag) .nothing =
    (c.hooking .post .flush [] >>= fun _ => c.restarting (.flush flag) >>= fun _ =>
      return Value.null) := by
  simp [finishing, Found.toFormat, Found.result, Found.handed, Found.returned, Request.operation]

/-- After its post-hook a flush may restart the sequence. -/
theorem obeys_finishFlush {k : Connection σ} (answers : c.WellAnswered)
    (hk : c.attachment = .connection k) (flag : Value) :
    Obeys s
      (do
        let _ ← runHook (c.logged.post .flush) []
        if (← Stage.look flag).truthy then
          let _ ← c.logged.execute (.ok (Raw.sequenceRestart c.table))
        return .null)
      (do
        let _ ← runHook (c.post .flush) []
        if (← Stage.look flag).truthy then
          let _ ← c.execute (.ok (Raw.sequenceRestart c.table))
        return .null)
      (c.finishing (.flush flag) .nothing) := by
  rw [finishing_flush]
  refine .bind (obeys_runHook .post .flush (c.post .flush) []) fun _ u _ _ _ => ?_
  unfold restarting
  rw [bind_assoc]
  refine obeys_memory (obeys_look ?_)
  obtain ⟨hlogged, hplain⟩ := execute_connected hk (Raw.sequenceRestart c.table)
  have complete := answers.statements k hk (Raw.sequenceRestart c.table)
  cases (u.memory.look flag).truthy with
  | false =>
    simp only [Bool.false_eq_true, if_false, pure_bind]
    exact .pure _
  | true =>
    simp only [if_true, bind_assoc, pure_bind, hlogged, hplain]
    exact .bind (.asked _ fun o v o' hv => (complete o v o' hv).1) fun _ _ _ _ _ => .pure _

theorem obeys_flush (answers : c.WellAnswered) (flag : Value) :
    Obeys s (c.logged.performFlush flag) (c.performFlush flag) (c.performing (.flush flag)) := by
  refine obeys_announce (r := .flush flag) rfl fun u => obeys_calling ?_
  cases hk : c.attachment with
  | nothing | stranger =>
    refine obeys_refused (e := .noMember) (by simp [agenda, say, hk]) ?_ ?_
    · simp only [execute, logged, hk, Attachment.logged]
      rfl
    · simp only [execute, hk]
      rfl
  | connection k =>
    obtain ⟨hlogged, hplain⟩ := execute_connected hk (Raw.truncate c.table)
    have hagenda : c.agenda u.memory.read (.flush flag) [] =
        .ok (some (.statement (Raw.truncate c.table))) := by
      simp only [agenda, say, hk]
      rfl
    have complete := answers.statements k hk (Raw.truncate c.table)
    have htable : c.logged.table = c.table := rfl
    rw [htable, hlogged, hplain]
    refine obeys_asked _ hagenda (fun o v o' hv => (complete o v o' hv).1) fun v u' o o' _ _ => ?_
    exact obeys_found rfl rfl (obeys_finishFlush answers hk flag)

theorem obeys_updateSelected (answers : c.WellAnswered) {conditions data candidates : Value}
    {m : Memory} (hm : s.memory = m) :
    Obeys s (c.logged.updateSelected conditions data candidates)
      (c.updateSelected conditions data candidates)
      (Course.asking (c.agenda m.read (.updateAll conditions data)) [candidates] >>= fun answers =>
        Course.settle (c.found .updateAll answers) >>= fun found =>
          c.finishing (.updateAll conditions data) found) := by
  subst hm
  unfold updateSelected
  cases hids : rowIds candidates with
  | error e => exact obeys_refused (agenda_update_unlisted hids) rfl rfl
  | ok ids =>
    refine obeys_settled ?_
    cases hempty : ids.isEmpty with
    | true =>
      refine obeys_found (r := .updateAll conditions data) (agenda_update_none hids hempty) rfl ?_
      exact obeys_concludeEmpty (r := .updateAll conditions data) nofun
    | false =>
      refine obeys_read (obeys_read ?_)
      have htable : c.logged.table = c.table := rfl
      have hagenda : c.agenda s.memory.read (.updateAll conditions data) [candidates] = _ :=
        agenda_update_some hids hempty
      rw [htable]
      cases hq : Raw.update c.table (s.memory.read data) (s.memory.read conditions) with
      | error e => exact obeys_refused (e := e) (by rw [hagenda, hq]; rfl) rfl rfl
      | ok q =>
        rw [hq] at hagenda
        refine obeys_settled (obeys_said answers hagenda fun _ u _ _ => ?_)
        refine obeys_said answers (agenda_update_again hids _) fun rows u' complete _ => ?_
        refine obeys_found (r := .updateAll conditions data) rfl rfl ?_
        exact obeys_finishRows (r := .updateAll conditions data) (complete_of_mem complete) nofun

theorem obeys_updateAll (answers : c.WellAnswered) (conditions data : Value) :
    Obeys s (c.logged.performUpdateAll conditions data) (c.performUpdateAll conditions data)
      (c.performing (.updateAll conditions data)) := by
  refine obeys_prepare (r := .updateAll conditions data) rfl fun data u => obeys_calling ?_
  refine obeys_read (obeys_said answers rfl fun rows u' _ hu => ?_)
  exact obeys_updateSelected answers hu

theorem isEmpty_rowIds {row : Value} {rows ids : List Value}
    (h : rowIds (.list (row :: rows)) = .ok ids) : ids.isEmpty = false := by
  have hcons : rowIds (.list (row :: rows)) =
      (do let id ← rowId row; let ids ← rows.mapM rowId; return id :: ids) := by
    show (row :: rows).mapM rowId = _
    exact List.mapM_cons
  rw [hcons] at h
  cases hid : rowId row with
  | error e =>
    rw [hid] at h
    cases h
  | ok id =>
    rw [hid] at h
    cases hids : rows.mapM rowId with
    | error e =>
      rw [hids] at h
      cases h
    | ok ids =>
      rw [hids] at h
      cases h
      rfl

theorem obeys_removeSelected (answers : c.WellAnswered) {conditions : Value} {rows : List Value}
    {read : Value → Value} (complete : (Value.list rows).isComplete = true) :
    Obeys s (c.logged.removeSelected (.list rows)) (c.removeSelected (.list rows))
      (Course.asking (c.agenda read (.removeAll conditions)) [.list rows] >>= fun answers =>
        Course.settle (c.found .removeAll answers) >>= fun found =>
          c.finishing (.removeAll conditions) found) := by
  unfold removeSelected
  cases hrows : rows with
  | nil => exact obeys_found rfl rfl (obeys_concludeEmpty (r := .removeAll conditions) nofun)
  | cons row rest =>
    rw [← hrows]
    have htruthy : (Value.list rows).truthy = true := by simp [Value.truthy, hrows]
    rw [htruthy]
    cases hids : rowIds (.list rows) with
    | error e => exact obeys_refused (agenda_remove_unlisted hids) rfl rfl
    | ok ids =>
      have hsome : ids.isEmpty = false := isEmpty_rowIds (hrows ▸ hids)
      refine obeys_settled (obeys_said answers (agenda_remove_some hids hsome) fun _ u _ _ => ?_)
      refine obeys_settled (obeys_found (r := .removeAll conditions) rfl rfl ?_)
      exact obeys_finishRows (r := .removeAll conditions) (complete_of_mem complete) nofun

theorem obeys_removeAll (answers : c.WellAnswered) (conditions : Value) :
    Obeys s (c.logged.performRemoveAll conditions) (c.performRemoveAll conditions)
      (c.performing (.removeAll conditions)) := by
  refine obeys_prepare (r := .removeAll conditions) rfl fun conditions u => obeys_calling ?_
  refine obeys_read (obeys_said answers rfl fun rows u' complete hu => ?_)
  exact obeys_removeSelected answers complete

theorem obeys_find (answers : c.WellAnswered) (ht : c.accessor? = some t)
    (conditions options : Value) :
    Obeys s (c.logged.performFind conditions options) (c.performFind conditions options)
      (c.performing (.find conditions options)) := by
  refine obeys_announce (r := .find conditions options) rfl fun u => obeys_calling ?_
  refine obeys_read (obeys_read ?_)
  unfold search
  rw [bind_assoc, bind_assoc]
  cases hraw : Route.needsRaw (u.memory.read conditions) (u.memory.read options) with
  | error e => exact obeys_refused (agenda_unrouted hraw) rfl rfl
  | ok raw =>
    refine obeys_settled ?_
    have htable : c.logged.table = c.table := rfl
    rw [htable]
    cases raw with
    | false =>
      have hanswered := answers.find t ht (u.memory.read conditions) (u.memory.read options)
      simp only [Bool.false_eq_true, if_false, bind_assoc]
      refine obeys_accessor ht (obeys_asked (t.find _ _) (agenda_planned hraw)
        (fun o v o' hv => (hanswered o v o' hv).1) fun v u' o o' hv _ => ?_)
      obtain ⟨complete, rows, rfl⟩ := hanswered o v o' hv
      refine obeys_found rfl rfl ?_
      exact obeys_finishRows (r := .find conditions options) (complete_of_mem complete) nofun
    | true =>
      have hagenda : c.agenda u.memory.read (.find conditions options) [] = _ := agenda_written hraw
      simp only [if_true, bind_assoc]
      cases hq : Raw.select c.table (u.memory.read conditions) (u.memory.read options) with
      | error e => exact obeys_refused (e := e) (by rw [hagenda, hq]; rfl) rfl rfl
      | ok q =>
        rw [hq] at hagenda
        refine obeys_settled (obeys_said answers hagenda fun rows u' complete _ => ?_)
        refine obeys_found rfl rfl ?_
        exact obeys_finishRows (r := .find conditions options) (complete_of_mem complete) nofun

theorem obeys_perform (answers : c.WellAnswered) (ht : c.accessor? = some t) (r : Request) :
    Obeys s (c.logged.perform ⟨r⟩) (c.perform ⟨r⟩) (c.performing r) := by
  cases r with
  | get id => exact obeys_get answers ht id
  | count conditions => exact obeys_count answers conditions
  | flush flag => exact obeys_flush answers flag
  | insert data => exact obeys_insert answers ht data
  | update id data => exact obeys_update answers ht id data
  | updateAll conditions data => exact obeys_updateAll answers conditions data
  | remove id => exact obeys_remove answers ht id
  | removeAll conditions => exact obeys_removeAll answers conditions
  | find conditions options => exact obeys_find answers ht conditions options

/-- A request that passes the checks is taken on, with its payload formatted. -/
theorem obeys_accept {r r' : Request} (checked : r.checked s.memory.look = .ok r')
    (connected : c.requireConnection = .ok ()) :
    Obeys s (c.logged.accept r) (c.accept r)
      (c.formattingPayload r' >>= fun r => Pure.pure (⟨r⟩ : Pending)) := by
  have hlogged : c.logged.requireConnection = .ok () := by
    rw [← connected]
    unfold requireConnection isConnected logged
    cases c.attachment <;> cases c.accessor? <;> rfl
  have haccept {τ : Type} (c : Collection τ) (s : Stage τ) (checked : r.checked s.memory.look = .ok r')
      (connected : c.requireConnection = .ok ()) :
      c.accept r s = (do return ⟨← r'.formatted c.toDb?⟩ : Act (Stage τ) Pending) s := by
    refine (Act.bind_ok (Act.get_run s)).trans ?_
    rw [checked, connected, Act.settle_ok_bind, Act.settle_ok_bind]
  refine .congr (haccept c.logged s checked hlogged) (haccept c s.bare checked connected) ?_
  exact .bind (obeys_formatted c r') fun r _ _ _ _ => .pure _

theorem exists_accessor (connected : c.requireConnection = .ok ()) : ∃ t, c.accessor? = some t := by
  unfold requireConnection at connected
  split at connected
  next h => exact Option.isSome_iff_exists.mp (Bool.and_eq_true _ _ ▸ h).2
  next => cases connected

theorem obeys_operate {r r' : Request} (checked : r.checked s.memory.look = .ok r')
    (connected : c.requireConnection = .ok ()) (answers : c.WellAnswered)
    (meanwhile : Stage σ → Stage σ) :
    Obeys s (c.logged.operate r (Stage.beside meanwhile)) (c.operate r meanwhile) (c.pipeline r') := by
  have hpipeline : c.pipeline r' = (c.formattingPayload r' >>= fun r => Pure.pure (⟨r⟩ : Pending)) >>=
      fun p => Course.elapse >>= fun _ => Course.awaited (c.performing p.request) := by
    simp [pipeline]
  obtain ⟨t, ht⟩ := exists_accessor connected
  rw [hpipeline]
  refine .bind (obeys_accept checked connected) fun p u _ _ _ => ?_
  exact .bind (.elapse meanwhile) fun _ _ _ _ _ => (obeys_perform answers ht p.request).awaited

end Operations

end Collection

end TableAccess
