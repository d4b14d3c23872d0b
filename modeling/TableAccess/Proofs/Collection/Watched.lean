import TableAccess.Collection.Perform
import TableAccess.Proofs.Act

/-! Watching the operations of a collection. A watched collection keeps, beside what lies outside, a
list of deeds: the callbacks it runs and the calls it makes to the database, in order, each with its
arguments as they are at that moment. What callbacks do to the outside by themselves is no deed.
Watching changes nothing (`perform_watched`): a watched operation has the result of the operation and
leaves memory and outside as the operation does. `Follows` says this of a step, and which deeds the
step is allowed. -/

namespace TableAccess

/-- A call to the database. -/
inductive Call where
  | statement (text : String)
  | find (conditions options : Value)
  | findOne (id : Value)
  | insert (data : Value)
  | updateById (id data : Value)
  | destroyById (id : Value)

/-- What an operation does that others can see. -/
inductive Deed where
  | hook (side : Side) (op : Operation) (arguments : List Value)
  | toDb (payload : Value)
  | toJs (row : Value)
  | call (c : Call)

/-- The callbacks among the deeds. -/
def Deed.IsCallback : Deed → Prop
  | .call _ => False
  | _ => True

theorem Deed.isCallback_toJs (row : Value) : (Deed.toJs row).IsCallback := trivial

structure Watched (σ : Type) where
  outside : σ
  deeds : List Deed

variable {σ α β : Type}

namespace Stage

/-- A stage without what has been seen on it. -/
def plain (s : Stage (Watched σ)) : Stage σ := ⟨s.memory, s.outside.outside⟩

/-- A stage on which nothing has been seen yet. -/
def fresh (s : Stage σ) : Stage (Watched σ) := ⟨s.memory, ⟨s.outside, []⟩⟩

/-- A step of which nothing is seen. -/
def unseen (step : Act (Stage σ) α) : Act (Stage (Watched σ)) α :=
  Act.within plain (fun t s => ⟨t.memory, ⟨t.outside, s.outside.deeds⟩⟩) step

/-- Keeps a deed, given what values are at that moment. -/
def note (deed : (Value → Value) → Deed) : Act (Stage (Watched σ)) Unit :=
  modify fun s => { s with outside.deeds := s.outside.deeds ++ [deed s.memory.read] }

end Stage

/-- A call that is seen. -/
def Call.seen (c : Call) (step : Act σ α) : Act (Watched σ) α := fun w =>
  let (r, t) := step w.outside
  (r, ⟨t, w.deeds ++ [.call c]⟩)

def Reply.watched : Reply σ → Reply (Watched σ)
  | .now v => .now v
  | .later work left => .later (Stage.unseen work) (Stage.unseen left)

def Hook.watched (side : Side) (op : Operation) (hook : Hook σ) : Hook (Watched σ) :=
  fun arguments => do
    Stage.note fun read => .hook side op (arguments.map read)
    return (← Stage.unseen (hook arguments)).watched

def Formatter.watched (deed : Value → Deed) (f : Formatter σ) : Formatter (Watched σ) := fun v => do
  Stage.note fun read => deed (read v)
  Stage.unseen (f v)

def Table.watched (t : Table σ) : Table (Watched σ) where
  find conditions options := (Call.find conditions options).seen (t.find conditions options)
  findOne id := (Call.findOne id).seen (t.findOne id)
  insert data := (Call.insert data).seen (t.insert data)
  updateById id data := (Call.updateById id data).seen (t.updateById id data)
  destroyById id := (Call.destroyById id).seen (t.destroyById id)

def Connection.watched (k : Connection σ) : Connection (Watched σ) where
  execute statement := (Call.statement statement).seen (k.execute statement)
  table name := fun w =>
    let (r, t) := k.table name w.outside
    (r.map Table.watched, { w with outside := t })

def Attachment.watched : Attachment σ → Attachment (Watched σ)
  | .nothing => .nothing
  | .stranger => .stranger
  | .connection k => .connection k.watched

def Collection.watched (c : Collection σ) : Collection (Watched σ) where
  table := c.table
  attachment := c.attachment.watched
  accessor? := c.accessor?.map Table.watched
  toDb? := c.toDb?.map (Formatter.watched .toDb)
  toJs? := c.toJs?.map (Formatter.watched .toJs)
  pre op := (c.pre op).map (Hook.watched .pre op)
  post op := (c.post op).map (Hook.watched .post op)

/-- A watched step that does what another step does, with deeds of some kind only. -/
structure Follows (allowed : Deed → Prop) (watched : Act (Stage (Watched σ)) α)
    (step : Act (Stage σ) α) : Prop where
  same : ∀ s, (watched s).map id Stage.plain = step s.plain
  deeds : ∀ s, ∃ new, (watched s).2.outside.deeds = s.outside.deeds ++ new ∧ ∀ d ∈ new, allowed d

namespace Follows

variable {allowed : Deed → Prop}

/-- A step that leaves no deed. -/
theorem of_deeds_eq {x : Act (Stage (Watched σ)) α} {x' : Act (Stage σ) α}
    (same : ∀ s, (x s).map id Stage.plain = x' s.plain)
    (deeds : ∀ s, (x s).2.outside.deeds = s.outside.deeds) : Follows allowed x x' :=
  ⟨same, fun s => ⟨[], by rw [deeds s, List.append_nil], by simp⟩⟩

theorem pure (a : α) : Follows (σ := σ) allowed (Pure.pure a) (Pure.pure a) :=
  of_deeds_eq (fun _ => rfl) fun _ => rfl

theorem throw (e : Failure) :
    Follows (σ := σ) (α := α) allowed (MonadExcept.throw e) (MonadExcept.throw e) :=
  of_deeds_eq (fun _ => rfl) fun _ => rfl

theorem settle (r : Except Failure α) :
    Follows (σ := σ) allowed (Act.settle r) (Act.settle r) :=
  of_deeds_eq (fun _ => rfl) fun _ => rfl

theorem unseen (step : Act (Stage σ) α) : Follows allowed (Stage.unseen step) step :=
  of_deeds_eq (fun _ => rfl) fun _ => rfl

theorem read (v : Value) : Follows (σ := σ) allowed (Stage.read v) (Stage.read v) :=
  of_deeds_eq (fun _ => rfl) fun _ => rfl

theorem look (v : Value) : Follows (σ := σ) allowed (Stage.look v) (Stage.look v) :=
  of_deeds_eq (fun _ => rfl) fun _ => rfl

theorem place (v : Value) : Follows (σ := σ) allowed (Stage.place v) (Stage.place v) :=
  of_deeds_eq (fun _ => rfl) fun _ => rfl

theorem store (v : Value) : Follows (σ := σ) allowed (Stage.store v) (Stage.store v) :=
  of_deeds_eq (fun _ => rfl) fun _ => rfl

theorem bind {x : Act (Stage (Watched σ)) α} {x' : Act (Stage σ) α}
    {f : α → Act (Stage (Watched σ)) β} {f' : α → Act (Stage σ) β} (hx : Follows allowed x x')
    (hf : ∀ a, Follows allowed (f a) (f' a)) : Follows allowed (x >>= f) (x' >>= f') := by
  constructor
  · intro s
    have h := hx.same s
    rw [Act.bind_run, Act.bind_run, ← h]
    obtain ⟨r, t⟩ := x s
    cases r with
    | ok a => exact (hf a).same t
    | error e => rfl
  · intro s
    obtain ⟨new, hnew, hall⟩ := hx.deeds s
    obtain ⟨r, t, hr⟩ : ∃ r t, x s = (r, t) := ⟨_, _, rfl⟩
    rw [hr] at hnew
    cases r with
    | error e =>
      rw [Act.bind_error hr]
      exact ⟨new, hnew, hall⟩
    | ok a =>
      obtain ⟨more, hmore, hmall⟩ := (hf a).deeds t
      rw [Act.bind_ok hr]
      refine ⟨new ++ more, ?_, fun d hd => ?_⟩
      · rw [hmore, hnew, List.append_assoc]
      · rcases List.mem_append.mp hd with hd | hd
        · exact hall d hd
        · exact hmall d hd

theorem noted {deed : (Value → Value) → Deed} {x : Act (Stage (Watched σ)) α}
    {x' : Act (Stage σ) α} (hd : ∀ read, allowed (deed read)) (h : Follows allowed x x') :
    Follows allowed (do Stage.note deed; x) x' := by
  have hn : ∀ s : Stage (Watched σ), ∃ t, Stage.note deed s = (.ok (), t) ∧ t.plain = s.plain ∧
      t.outside.deeds = s.outside.deeds ++ [deed s.memory.read] := fun _ => ⟨_, rfl, rfl, rfl⟩
  constructor
  · intro s
    obtain ⟨t, ht, hp, -⟩ := hn s
    rw [Act.bind_ok ht, h.same t, hp]
  · intro s
    obtain ⟨t, ht, -, hdeeds⟩ := hn s
    obtain ⟨new, hnew, hall⟩ := h.deeds t
    rw [Act.bind_ok ht]
    refine ⟨deed s.memory.read :: new, ?_, ?_⟩
    · rw [hnew, hdeeds, List.append_assoc, List.singleton_append]
    · exact List.forall_mem_cons.mpr ⟨hd _, hall⟩

theorem seen (c : Call) (step : Act σ Value) (h : allowed (.call c)) :
    Follows allowed (Collection.ask (c.seen step)) (Collection.ask step) := by
  refine bind ⟨fun _ => rfl, fun s => ⟨[.call c], rfl, ?_⟩⟩ fun v => read v
  exact List.forall_mem_singleton.mpr h

theorem mapM {f : Value → Act (Stage (Watched σ)) β} {f' : Value → Act (Stage σ) β}
    (h : ∀ v, Follows allowed (f v) (f' v)) (vs : List Value) :
    Follows allowed (vs.mapM f) (vs.mapM f') := by
  induction vs with
  | nil => exact pure []
  | cons v vs ih =>
    rw [List.mapM_cons, List.mapM_cons]
    exact bind (h v) fun a => bind ih fun as => pure (a :: as)

theorem wait (r : Reply σ) : Follows allowed r.watched.wait r.wait := by
  cases r with
  | now v => exact pure v
  | later work left => exact unseen work

end Follows

namespace Collection

section Callbacks

variable {allowed : Deed → Prop} (h : ∀ d, d.IsCallback → allowed d)
include h

theorem follows_runHook (side : Side) (op : Operation) (hook? : Option (Hook σ))
    (arguments : List Value) :
    Follows allowed (runHook (hook?.map (Hook.watched side op)) arguments)
      (runHook hook? arguments) := by
  cases hook? with
  | none => exact .pure _
  | some hook =>
    simp only [runHook, Option.map_some, Hook.watched, bind_assoc, pure_bind]
    exact .noted (fun _ => h _ trivial) (.bind (.unseen _) fun r => .wait r)

theorem follows_apply {deed : Value → Deed} (hd : ∀ v, (deed v).IsCallback)
    (f? : Option (Formatter σ)) (v : Value) :
    Follows allowed (Formatter.apply (f?.map (Formatter.watched deed)) v)
      (Formatter.apply f? v) := by
  cases f? with
  | none => exact .pure v
  | some f =>
    simp only [Formatter.apply, Option.map_some]
    split
    · exact .pure v
    · exact .bind (.noted (fun _ => h _ (hd _)) (.unseen _)) fun a => .pure _

variable (c : Collection σ)

theorem follows_announce (op : Operation) :
    Follows allowed (c.watched.announce op) (c.announce op) :=
  .bind (follows_runHook h _ _ _ _) fun _ => .pure _

theorem follows_prepare (op : Operation) (payload : Value) :
    Follows allowed (c.watched.prepare op payload) (c.prepare op payload) :=
  .bind (follows_runHook h _ _ _ _) fun _ => .pure _

theorem follows_conclude (op : Operation) (result : Value) :
    Follows allowed (c.watched.conclude op result) (c.conclude op result) :=
  .bind (follows_runHook h _ _ _ _) fun _ => .pure _

theorem follows_formatRow (f : Formatter σ) (row : Value) :
    Follows allowed (do Formatter.apply (some (f.watched .toJs)) (← Stage.place row))
      (do Formatter.apply (some f) (← Stage.place row)) :=
  .bind (.place row) fun v => follows_apply h Deed.isCallback_toJs (some f) v

theorem follows_formatRows (rows : Value) :
    Follows allowed (c.watched.formatRows rows) (c.formatRows rows) := by
  unfold formatRows watched
  cases c.toJs? with
  | none => exact .place _
  | some f =>
    cases rows
    case list xs => exact .bind (.mapM (follows_formatRow h f) xs) fun ys => .store _
    all_goals
      dsimp only [Option.map_some]
      split
      · exact .throw _
      · exact .place _
      · refine .bind (.place _) fun v => .bind ?_ fun _ => .throw _
        exact follows_apply h Deed.isCallback_toJs (some f) v

theorem follows_finishRow (op : Operation) (row : Value) :
    Follows allowed (c.watched.finishRow op row) (c.finishRow op row) :=
  .bind (.place row) fun v => .bind (follows_apply h Deed.isCallback_toJs _ v) fun r =>
    follows_conclude h c op r

theorem follows_finishRows (op : Operation) (rows : Value) :
    Follows allowed (c.watched.finishRows op rows) (c.finishRows op rows) :=
  .bind (follows_formatRows h c rows) fun r => follows_conclude h c op r

theorem follows_concludeEmpty (op : Operation) :
    Follows allowed (c.watched.concludeEmpty op) (c.concludeEmpty op) :=
  .bind (.store _) fun v => .bind (follows_conclude h c op v) fun _ => .store _

end Callbacks

variable {allowed : Deed → Prop} (c : Collection σ)

theorem follows_execute (h : ∀ text, allowed (.call (.statement text)))
    (statement : Except Failure String) :
    Follows allowed (c.watched.execute statement) (c.execute statement) := by
  unfold execute watched
  cases c.attachment with
  | nothing => exact .throw _
  | stranger => exact .throw _
  | connection k => exact .bind (.settle _) fun s => .seen (.statement s) _ (h s)

theorem follows_accessor {f : Table (Watched σ) → Act (Stage (Watched σ)) α}
    {f' : Table σ → Act (Stage σ) α} (h : ∀ t, Follows allowed (f t.watched) (f' t)) :
    Follows allowed (do f (← c.watched.accessor)) (do f' (← c.accessor)) := by
  unfold accessor watched
  cases c.accessor? with
  | none => exact .throw _
  | some t => simpa using h t

theorem follows_search {execute : String → Act (Stage (Watched σ)) Value}
    {execute' : String → Act (Stage σ) Value} {find : Value → Value → Act (Stage (Watched σ)) Value}
    {find' : Value → Value → Act (Stage σ) Value}
    (he : ∀ s, Follows allowed (execute s) (execute' s))
    (hf : ∀ v w, Follows allowed (find v w) (find' v w)) (table : String)
    (conditions options : Value) :
    Follows allowed (search table execute find conditions options)
      (search table execute' find' conditions options) := by
  refine .bind (.settle _) fun raw => ?_
  split
  · exact .bind (.settle _) fun s => he s
  · exact hf _ _

theorem follows_updateSelected (hc : ∀ d, d.IsCallback → allowed d)
    (he : ∀ text, allowed (.call (.statement text))) (conditions data candidates : Value) :
    Follows allowed (c.watched.updateSelected conditions data candidates)
      (c.updateSelected conditions data candidates) := by
  refine .bind (.settle _) fun ids => ?_
  split
  · exact follows_concludeEmpty hc c _
  · refine .bind (.read data) fun d => .bind (.read conditions) fun v => .bind (.settle _) fun s => ?_
    exact .bind (c.follows_execute he _) fun _ => .bind (c.follows_execute he _) fun r =>
      follows_finishRows hc c _ r

theorem follows_removeSelected (hc : ∀ d, d.IsCallback → allowed d)
    (he : ∀ text, allowed (.call (.statement text))) (snapshot : Value) :
    Follows allowed (c.watched.removeSelected snapshot) (c.removeSelected snapshot) := by
  unfold removeSelected
  split
  · exact follows_concludeEmpty hc c _
  · refine .bind (.settle _) fun ids => .bind (c.follows_execute he _) fun _ => ?_
    exact .bind (.settle _) fun rows => follows_finishRows hc c _ _

theorem follows_perform (p : Pending) :
    Follows (fun _ => True) (c.watched.perform p) (c.perform p) := by
  have hc : ∀ d, Deed.IsCallback d → True := fun _ _ => trivial
  have he : ∀ statement,
      Follows (fun _ => True) (c.watched.execute statement) (c.execute statement) :=
    c.follows_execute fun _ => trivial
  obtain ⟨r⟩ := p
  cases r with
  | get id =>
    exact .bind (follows_announce hc c _) fun _ => c.follows_accessor fun t =>
      .bind (.seen _ _ trivial) fun r => follows_finishRow hc c _ r
  | count conditions =>
    exact .bind (follows_announce hc c _) fun _ => .bind (.read _) fun v => .bind (he _) fun r =>
      .bind (.settle _) fun n => follows_conclude hc c _ _
  | flush resetSequence =>
    refine .bind (follows_announce hc c _) fun _ => .bind (he _) fun _ =>
      .bind (follows_runHook hc _ _ _ _) fun _ => .bind (.look _) fun v => ?_
    split
    · exact .bind (he _) fun _ => .pure _
    · exact .pure _
  | insert data =>
    exact .bind (follows_prepare hc c _ _) fun d => c.follows_accessor fun t =>
      .bind (.read d) fun v => .bind (.seen _ _ trivial) fun r => follows_finishRow hc c _ r
  | update id data =>
    exact .bind (follows_prepare hc c _ _) fun d => c.follows_accessor fun t =>
      .bind (.read d) fun v => .bind (.seen _ _ trivial) fun r => follows_finishRow hc c _ _
  | updateAll conditions data =>
    exact .bind (follows_prepare hc c _ _) fun d => .bind (.read _) fun v => .bind (he _) fun r =>
      c.follows_updateSelected hc (fun _ => trivial) _ _ r
  | remove id =>
    exact .bind (follows_announce hc c _) fun _ => c.follows_accessor fun t =>
      .bind (.seen _ _ trivial) fun r => follows_finishRow hc c _ _
  | removeAll conditions =>
    exact .bind (follows_prepare hc c _ _) fun d => .bind (.read _) fun v => .bind (he _) fun r =>
      c.follows_removeSelected hc (fun _ => trivial) r
  | find conditions options =>
    refine .bind (follows_announce hc c _) fun _ => .bind (.read _) fun v => .bind (.read _) fun w =>
      .bind ?_ fun r => follows_finishRows hc c _ r
    exact follows_search (fun s => he _) (fun v w => c.follows_accessor fun t => .seen _ _ trivial)
      _ _ _

/-- Watching changes nothing: result, memory and outside are those of the operation. -/
theorem perform_watched (p : Pending) (s : Stage (Watched σ)) :
    (c.watched.perform p s).map id Stage.plain = c.perform p s.plain :=
  (c.follows_perform p).same s

end Collection

end TableAccess
