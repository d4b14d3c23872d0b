import TableAccess.Proofs.Collection.Exchange

/-! What an operation does, and how it ends. A logged collection keeps the deeds of an operation, each
with its outcome, whatever hooks, formatters and database are. A `Course` says what may be seen of a
step: courses follow one another like the steps they are about, and a deed that fails ends them.
`Obeys` finds the course in a step of a logged collection, which has the result of the step without a log
and leaves the same stage. -/

namespace TableAccess

/-- A deed, with its arguments as they were at that moment, the very arguments if it was a callback, and
what came of it. -/
structure Occurrence where
  deed : Deed
  handed : List Value
  outcome : Except Failure Value

structure Logged (σ : Type) where
  outside : σ
  log : List Occurrence

variable {σ α β : Type}

namespace Stage

/-- A stage without its log. -/
def bare (s : Stage (Logged σ)) : Stage σ := ⟨s.memory, s.outside.outside⟩

/-- A stage with an empty log. -/
def begun (s : Stage σ) : Stage (Logged σ) := ⟨s.memory, ⟨s.outside, []⟩⟩

/-- A step of something else, which leaves the log alone. -/
def beside (step : Stage σ → Stage σ) : Stage (Logged σ) → Stage (Logged σ) := fun s =>
  let t := step s.bare
  ⟨t.memory, ⟨t.outside, s.outside.log⟩⟩

/-- Runs a callback and enters it. -/
def entered (deed : (Value → Value) → Deed) (handed : List Value) (step : Act (Stage σ) Value) :
    Act (Stage (Logged σ)) Value := fun s =>
  let (r, t) := step s.bare
  (r, ⟨t.memory, ⟨t.outside, s.outside.log ++ [⟨deed s.memory.read, handed, r⟩]⟩⟩)

end Stage

/-- Makes a call and enters it. -/
def Call.entered (c : Call) (step : Act σ Value) : Act (Logged σ) Value := fun w =>
  let (r, t) := step w.outside
  (r, ⟨t, w.log ++ [⟨.call c, [], r⟩]⟩)

/-- A hook is done once its value is there. -/
def Hook.logged (side : Side) (op : Operation) (hook : Hook σ) : Hook (Logged σ) := fun arguments => do
  let v ← Stage.entered (fun read => .hook side op (arguments.map read)) arguments
    (do (← hook arguments).wait)
  return .now v

def Formatter.logged (deed : Value → Deed) (f : Formatter σ) : Formatter (Logged σ) := fun v =>
  Stage.entered (fun read => deed (read v)) [v] (f v)

def Table.logged (t : Table σ) : Table (Logged σ) where
  find conditions options := (Call.find conditions options).entered (t.find conditions options)
  findOne id := (Call.findOne id).entered (t.findOne id)
  insert data := (Call.insert data).entered (t.insert data)
  updateById id data := (Call.updateById id data).entered (t.updateById id data)
  destroyById id := (Call.destroyById id).entered (t.destroyById id)

def Connection.logged (k : Connection σ) : Connection (Logged σ) where
  execute statement := (Call.statement statement).entered (k.execute statement)
  table name := fun w =>
    let (r, t) := k.table name w.outside
    (r.map Table.logged, { w with outside := t })

def Attachment.logged : Attachment σ → Attachment (Logged σ)
  | .nothing => .nothing
  | .stranger => .stranger
  | .connection k => .connection k.logged

def Collection.logged (c : Collection σ) : Collection (Logged σ) where
  table := c.table
  attachment := c.attachment.logged
  accessor? := c.accessor?.map Table.logged
  toDb? := c.toDb?.map (Formatter.logged .toDb)
  toJs? := c.toJs?.map (Formatter.logged .toJs)
  pre op := (c.pre op).map (Hook.logged .pre op)
  post op := (c.post op).map (Hook.logged .post op)

/-- What may be seen of a step: the memory that it finds, what it enters in the log, how it ends, and
the memory that it leaves. -/
def Course (α : Type) := Memory → List Occurrence → Except Failure α → Memory → Prop

namespace Course

/-- Nothing is seen, and the memory is left alone. -/
def settle (x : Except Failure α) : Course α := fun m log r m' => log = [] ∧ r = x ∧ m' = m

/-- A failure ends what follows. -/
def andThen (p : Course α) (q : α → Course β) : Course β := fun m log r m' =>
  (∃ e, p m log (.error e) m' ∧ r = .error e) ∨
    ∃ a m₁ first rest, p m first (.ok a) m₁ ∧ q a m₁ rest r m' ∧ log = first ++ rest

instance : Monad Course where
  pure a := settle (.ok a)
  bind := andThen

theorem settle_ok_bind (a : α) (q : α → Course β) : (settle (.ok a) >>= q) = q a := by
  funext m log r m'
  refine propext ⟨?_, fun h => .inr ⟨a, m, [], log, ⟨rfl, rfl, rfl⟩, h, rfl⟩⟩
  rintro (⟨e, ⟨-, he, -⟩, -⟩ | ⟨a', m₁, first, rest, ⟨rfl, ha, rfl⟩, hq, rfl⟩)
  · cases he
  · cases ha
    exact hq

theorem settle_error_bind (e : Failure) (q : α → Course β) :
    (settle (.error e) >>= q) = settle (.error e) := by
  funext m log r m'
  refine propext ⟨?_, fun h => .inl ⟨e, ⟨h.1, rfl, h.2.2⟩, h.2.1⟩⟩
  rintro (⟨e', ⟨hlog, he, hm⟩, rfl⟩ | ⟨a', m₁, first, rest, ⟨rfl, ha, rfl⟩, hq, rfl⟩)
  · cases he
    exact ⟨hlog, rfl, hm⟩
  · cases ha

theorem bind_pure_self (p : Course α) : (p >>= fun a => settle (.ok a)) = p := by
  funext m log r m'
  refine propext ⟨?_, fun h => ?_⟩
  · rintro (⟨e, h, rfl⟩ | ⟨a, m₁, first, rest, h, ⟨rfl, rfl, rfl⟩, rfl⟩)
    · exact h
    · rwa [List.append_nil]
  · cases r with
    | error e => exact .inl ⟨e, h, rfl⟩
    | ok a => exact .inr ⟨a, m', log, [], h, ⟨rfl, rfl, rfl⟩, (List.append_nil log).symm⟩

theorem bind_bind {γ : Type} (p : Course α) (q : α → Course β) (z : β → Course γ) :
    (p >>= q) >>= z = p >>= fun a => q a >>= z := by
  funext m log r m'
  refine propext ⟨?_, ?_⟩
  · rintro (⟨e, ⟨e', h, he⟩ | ⟨a, m₁, first, rest, hp, hq, rfl⟩, rfl⟩ |
      ⟨b, m₂, log, last, ⟨e', -, he⟩ | ⟨a, m₁, first, rest, hp, hq, rfl⟩, hz, rfl⟩)
    · cases he
      exact .inl ⟨e, h, rfl⟩
    · exact .inr ⟨a, m₁, first, rest, hp, .inl ⟨e, hq, rfl⟩, rfl⟩
    · cases he
    · exact .inr ⟨a, m₁, first, rest ++ last, hp, .inr ⟨b, m₂, rest, last, hq, hz, rfl⟩,
        List.append_assoc _ _ _⟩
  · rintro (⟨e, h, rfl⟩ | ⟨a, m₁, first, rest, hp, ⟨e, hq, rfl⟩ |
      ⟨b, m₂, mid, last, hq, hz, rfl⟩, rfl⟩)
    · exact .inl ⟨e, .inl ⟨e, h, rfl⟩, rfl⟩
    · exact .inl ⟨e, .inr ⟨a, m₁, first, rest, hp, hq, rfl⟩, rfl⟩
    · exact .inr ⟨b, m₂, first ++ mid, last, .inr ⟨a, m₁, first, mid, hp, hq, rfl⟩, hz,
        (List.append_assoc _ _ _).symm⟩

instance : LawfulMonad Course := .mk' Course bind_pure_self settle_ok_bind bind_bind

/-- A course that ends well has gone through its first step. -/
theorem of_bind_ok {p : Course α} {q : α → Course β} {m m' : Memory} {log : List Occurrence} {b : β}
    (h : (p >>= q) m log (.ok b) m') : ∃ a m₁ first rest, p m first (.ok a) m₁ ∧
      q a m₁ rest (.ok b) m' ∧ log = first ++ rest := by
  obtain ⟨e, -, he⟩ | h := h
  · cases he
  · exact h

theorem bind_congr {p p' : Course α} {m : Memory} (h : p m = p' m) (q : α → Course β) :
    (p >>= q) m = (p' >>= q) m := by
  funext log r m'
  show andThen p q m log r m' = andThen p' q m log r m'
  unfold andThen
  rw [h]

/-- The memory as it is. -/
def memory : Course Memory := fun m log r m' => log = [] ∧ r = .ok m ∧ m' = m

/-- A row moves into the memory. -/
def place (v : Value) : Course Value := fun m log r m' =>
  log = [] ∧ r = .ok (m.place v).1 ∧ m' = (m.place v).2

/-- Something is kept under a number of its own. -/
def store (v : Value) : Course Value := fun m log r m' =>
  log = [] ∧ r = .ok (m.store v).1 ∧ m' = (m.store v).2

/-- Something else happens, to the memory too. -/
def elapse : Course Unit := fun _ log r _ => log = [] ∧ r = .ok ()

/-- A callback, which may do to the memory what it likes. -/
def callback (deed : (Value → Value) → Deed) (handed : List Value) : Course Value :=
  fun m log r _ => log = [⟨deed m.read, handed, r⟩]

/-- A call to the database, which has no part in the memory. -/
def asked (c : Call) : Course Value := fun m log r m' => log = [⟨.call c, [], r⟩] ∧ m' = m

/-- A coroutine that somebody waits for. -/
def awaited (p : Course α) : Course α := fun m log r m' =>
  ∃ r', p m log r' m' ∧ r = r'.mapError Failure.awaited

theorem eq_ok_of_mapError {f : Failure → Failure} {r : Except Failure α} {a : α}
    (h : r.mapError f = .ok a) : r = .ok a := by
  cases r with
  | error e => cases h
  | ok b => exact h

theorem of_awaited_ok {p : Course α} {m m' : Memory} {log : List Occurrence} {a : α}
    (h : awaited p m log (.ok a) m') : p m log (.ok a) m' := by
  obtain ⟨r, hp, hr⟩ := h
  exact eq_ok_of_mapError hr.symm ▸ hp

end Course

/-- What to ask for next, given the answers so far, if all is well with it; nothing in the end. -/
abbrev Agenda := List Value → Except Failure (Option Call)

/-- Calls by an agenda, and how they end: with all answers, or with the first failure. -/
inductive Asks (agenda : Agenda) :
    List Value → Memory → List Occurrence → Except Failure (List Value) → Memory → Prop
  | refused {heard : List Value} {m : Memory} {e : Failure} (h : agenda heard = .error e) :
      Asks agenda heard m [] (.error e) m
  | finished {heard : List Value} {m : Memory} (h : agenda heard = .ok none) :
      Asks agenda heard m [] (.ok heard) m
  | failed {heard : List Value} {m : Memory} {c : Call} {e : Failure}
      (h : agenda heard = .ok (some c)) : Asks agenda heard m [⟨.call c, [], .error e⟩] (.error e) m
  | answered {heard : List Value} {m : Memory} {c : Call} {v : Value} {log : List Occurrence}
      {r : Except Failure (List Value)} (h : agenda heard = .ok (some c))
      (rest : Asks agenda (heard ++ [v]) m log r m) :
      Asks agenda heard m (⟨.call c, [], .ok v⟩ :: log) r m

namespace Course

def asking (agenda : Agenda) (heard : List Value) : Course (List Value) := Asks agenda heard

variable {agenda : Agenda} {heard : List Value}

theorem memory_of_asks {m m' : Memory} {log : List Occurrence} {r : Except Failure (List Value)}
    (h : Asks agenda heard m log r m') : m' = m := by
  cases h <;> rfl

theorem asking_refused {e : Failure} (h : agenda heard = .error e) :
    asking agenda heard = settle (.error e) := by
  funext m log r m'
  refine propext ⟨fun ha => ?_, ?_⟩
  · cases ha with
    | refused h' =>
      cases h.symm.trans h'
      exact ⟨rfl, rfl, rfl⟩
    | finished h' | failed h' | answered h' => cases h.symm.trans h'
  · rintro ⟨rfl, rfl, rfl⟩
    exact .refused h

theorem asking_finished (h : agenda heard = .ok none) : asking agenda heard = settle (.ok heard) := by
  funext m log r m'
  refine propext ⟨fun ha => ?_, ?_⟩
  · cases ha with
    | finished => exact ⟨rfl, rfl, rfl⟩
    | refused h' | failed h' | answered h' => cases h.symm.trans h'
  · rintro ⟨rfl, rfl, rfl⟩
    exact .finished h

theorem asking_next {c : Call} (h : agenda heard = .ok (some c)) :
    asking agenda heard = asked c >>= fun v => asking agenda (heard ++ [v]) := by
  funext m log r m'
  refine propext ⟨fun ha => ?_, ?_⟩
  · cases ha with
    | failed h' =>
      cases h.symm.trans h'
      exact .inl ⟨_, ⟨rfl, rfl⟩, rfl⟩
    | answered h' rest =>
      cases h.symm.trans h'
      exact .inr ⟨_, m, _, _, ⟨rfl, rfl⟩, rest, rfl⟩
    | refused h' | finished h' => cases h.symm.trans h'
  · rintro (⟨e, ⟨rfl, rfl⟩, rfl⟩ | ⟨v, m₁, first, rest, ⟨rfl, rfl⟩, hrest, rfl⟩)
    · exact .failed h
    · obtain rfl := memory_of_asks hrest
      exact .answered h hrest

/-! ### A failing deed is the last -/

/-- Whatever a deed fails with, it is the last one, the caller is told of it, and it is one of these. -/
def FailsLast (p : Deed → Prop) (log : List Occurrence) (r : Except Failure α) : Prop :=
  ∀ before o after e, log = before ++ o :: after → o.outcome = .error e →
    after = [] ∧ r = .error e ∧ p o.deed

variable {among : Deed → Prop}

theorem FailsLast.error {log : List Occurrence} {e : Failure}
    (h : FailsLast among log (.error e : Except Failure α)) :
    FailsLast among log (.error e : Except Failure β) := by
  intro before o after f hlog ho
  obtain ⟨hafter, he, hdeed⟩ := h before o after f hlog ho
  cases he
  exact ⟨hafter, rfl, hdeed⟩

/-- What has ended well has no failing deed, so one is in what follows. -/
theorem FailsLast.later {first rest before after : List Occurrence} {o : Occurrence} {a : α}
    {e : Failure} (h : FailsLast among first (.ok a)) (hlog : first ++ rest = before ++ o :: after)
    (ho : o.outcome = .error e) : ∃ more, rest = more ++ o :: after := by
  have hfirst : o ∉ first := by
    intro hm
    obtain ⟨before', after', hsplit⟩ := List.append_of_mem hm
    obtain ⟨-, he, -⟩ := h before' o after' e hsplit ho
    cases he
  rcases List.append_eq_append_iff.mp hlog with ⟨more, -, hmore⟩ | ⟨more, hmore, hcons⟩
  · exact ⟨more, hmore⟩
  · cases more with
    | nil => exact ⟨[], hcons.symm⟩
    | cons o' more =>
      obtain ⟨rfl, -⟩ := List.cons.inj hcons
      exact absurd (hmore ▸ by simp) hfirst

/-- A course in which a failing deed is the last, and one of these. -/
def Prompt (among : Deed → Prop) (p : Course α) : Prop :=
  ∀ m log r m', p m log r m' → FailsLast among log r

namespace Prompt

theorem settle (x : Except Failure α) : Prompt among (settle x) := by
  rintro m log r m' ⟨rfl, -, -⟩ before o after e h
  simp at h

theorem of_silent {p : Course α} (h : ∀ m log r m', p m log r m' → log = []) : Prompt among p := by
  intro m log r m' hp before o after e hlog
  rw [h m log r m' hp] at hlog
  simp at hlog

theorem of_single {p : Course Value} (h : ∀ m log r m', p m log r m' →
    ∃ o : Occurrence, log = [o] ∧ o.outcome = r ∧ among o.deed) : Prompt among p := by
  intro m log r m' hp before o after e hlog ho
  obtain ⟨only, rfl, hr, hdeed⟩ := h m log r m' hp
  cases before with
  | nil =>
    obtain ⟨rfl, rfl⟩ := List.cons.inj hlog
    exact ⟨rfl, hr.symm.trans ho, hdeed⟩
  | cons first before => simp at hlog

theorem callback {deed : (Value → Value) → Deed} (h : ∀ read, among (deed read))
    (handed : List Value) : Prompt among (callback deed handed) :=
  of_single fun m _ _ _ hlog => ⟨_, hlog, rfl, h m.read⟩

theorem asked {c : Call} (h : among (.call c)) : Prompt among (asked c) :=
  of_single fun _ _ _ _ hlog => ⟨_, hlog.1, rfl, h⟩

theorem bind {p : Course α} {q : α → Course β} (hp : Prompt among p)
    (hq : ∀ a, Prompt among (q a)) : Prompt among (p >>= q) := by
  rintro m log r m' (⟨e, h, rfl⟩ | ⟨a, m₁, first, rest, h, hrest, rfl⟩)
  · exact (hp m log _ m' h).error
  · intro before o after f hlog ho
    obtain ⟨more, hmore⟩ := (hp m first _ m₁ h).later hlog ho
    exact hq a m₁ rest r m' hrest more o after f hmore ho

theorem mapM {f : Value → Course β} (h : ∀ v, Prompt among (f v)) (vs : List Value) :
    Prompt among (vs.mapM f) := by
  induction vs with
  | nil => exact settle _
  | cons v vs ih =>
    rw [List.mapM_cons]
    exact bind (h v) fun b => bind ih fun bs => settle _

theorem asking (hcall : ∀ c, among (.call c)) (agenda : Agenda) (heard : List Value) :
    Prompt among (asking agenda heard) := by
  intro m log r m' h
  induction h with
  | @refused _ m _ _ => exact settle _ m _ _ m ⟨rfl, rfl, rfl⟩
  | @finished _ m _ => exact settle _ m _ _ m ⟨rfl, rfl, rfl⟩
  | @failed _ m c e _ => exact (asked (hcall c) m _ (.error e) m ⟨rfl, rfl⟩).error
  | answered h rest ih =>
    rintro before o after e hlog ho
    cases before with
    | nil =>
      obtain ⟨rfl, -⟩ := List.cons.inj hlog
      cases ho
    | cons first before => exact ih before o after e (List.cons.inj hlog).2 ho

end Prompt

end Course

/-- A logged step that does what another step does, by a course. -/
def Obeys (s : Stage (Logged σ)) (x : Act (Stage (Logged σ)) α) (x' : Act (Stage σ) α)
    (p : Course α) : Prop :=
  ∃ log r t, x s = (r, t) ∧ x' s.bare = (r, t.bare) ∧ t.outside.log = s.outside.log ++ log ∧
    p s.memory log r t.memory

namespace Obeys

variable {s : Stage (Logged σ)} {x : Act (Stage (Logged σ)) α} {x' : Act (Stage σ) α} {p : Course α}

theorem settle (r : Except Failure α) : Obeys s (Act.settle r) (Act.settle r) (Course.settle r) :=
  ⟨[], r, s, rfl, rfl, (List.append_nil _).symm, rfl, rfl, rfl⟩

theorem pure (a : α) : Obeys s (Pure.pure a) (Pure.pure a) (Pure.pure a) := settle (.ok a)

theorem congr {y : Act (Stage (Logged σ)) α} {y' : Act (Stage σ) α} (h : x s = y s)
    (h' : x' s.bare = y' s.bare) (hy : Obeys s y y' p) : Obeys s x x' p := by
  unfold Obeys at *
  rwa [h, h']

theorem bind {f : α → Act (Stage (Logged σ)) β} {f' : α → Act (Stage σ) β} {q : α → Course β}
    (hx : Obeys s x x' p)
    (hf : ∀ a t log, x' s.bare = (.ok a, t.bare) → p s.memory log (.ok a) t.memory →
      Obeys t (f a) (f' a) (q a)) : Obeys s (x >>= f) (x' >>= f') (p >>= q) := by
  obtain ⟨first, r, t, hr, hr', hlog, hp⟩ := hx
  cases r with
  | error e => exact ⟨first, .error e, t, Act.bind_error hr, Act.bind_error hr', hlog, .inl ⟨e, hp, rfl⟩⟩
  | ok a =>
    obtain ⟨rest, r, u, hu, hu', hrest, hq⟩ := hf a t first hr' hp
    refine ⟨first ++ rest, r, u, (Act.bind_ok hr).trans hu, (Act.bind_ok hr').trans hu', ?_,
      .inr ⟨a, t.memory, first, rest, hp, hq, rfl⟩⟩
    rw [hrest, hlog, List.append_assoc]

theorem callback (deed : (Value → Value) → Deed) (handed : List Value) (step : Act (Stage σ) Value) :
    Obeys s (Stage.entered deed handed step) step (Course.callback deed handed) :=
  ⟨_, _, _, rfl, rfl, rfl, rfl⟩

theorem place (v : Value) : Obeys s (Stage.place v) (Stage.place v) (Course.place v) :=
  ⟨[], _, _, rfl, rfl, (List.append_nil _).symm, rfl, rfl, rfl⟩

theorem store (v : Value) : Obeys s (Stage.store v) (Stage.store v) (Course.store v) :=
  ⟨[], _, _, rfl, rfl, (List.append_nil _).symm, rfl, rfl, rfl⟩

theorem elapse (step : Stage σ → Stage σ) :
    Obeys s (modify (Stage.beside step)) (modify step) Course.elapse :=
  ⟨[], _, _, rfl, rfl, (List.append_nil _).symm, rfl, rfl⟩

theorem awaited (hx : Obeys s x x' p) :
    Obeys s (Act.awaited x) (Act.awaited x') (Course.awaited p) := by
  obtain ⟨log, r, t, hr, hr', hlog, hp⟩ := hx
  refine ⟨log, r.mapError Failure.awaited, t, ?_, ?_, hlog, r, hp, rfl⟩
  · rw [Act.awaited_run, hr]
  · rw [Act.awaited_run, hr']

/-- A call whose answers are complete in themselves. -/
theorem asked (c : Call) {step : Act σ Value}
    (complete : ∀ o v o', step o = (.ok v, o') → v.isComplete = true) :
    Obeys s (Collection.ask (c.entered step)) (Collection.ask step) (Course.asked c) := by
  obtain ⟨r, o, hr⟩ : ∃ r o, step s.outside.outside = (r, o) := ⟨_, _, rfl⟩
  have hcall : c.entered step s.outside = (r, ⟨o, s.outside.log ++ [⟨.call c, [], r⟩]⟩) := by
    simp [Call.entered, hr]
  have hout : Stage.outward (c.entered step) s =
      (r, ⟨s.memory, ⟨o, s.outside.log ++ [⟨.call c, [], r⟩]⟩⟩) := by
    simp [Stage.outward, Act.within, hcall]
  have hout' : Stage.outward step s.bare = (r, ⟨s.memory, o⟩) := by
    simp [Stage.outward, Act.within, Stage.bare, hr]
  refine ⟨[⟨.call c, [], r⟩], r, ⟨s.memory, ⟨o, s.outside.log ++ [⟨.call c, [], r⟩]⟩⟩, ?_, ?_, rfl, rfl,
    rfl⟩
  · cases r with
    | error e => exact Act.bind_error hout
    | ok v =>
      refine (Act.bind_ok hout).trans ?_
      rw [Stage.read_run, Memory.read_of_rigid _ fun find =>
        Value.resolve_of_isComplete find v (complete _ _ _ hr)]
  · cases r with
    | error e => exact Act.bind_error hout'
    | ok v =>
      refine (Act.bind_ok hout').trans ?_
      rw [Stage.read_run, Memory.read_of_rigid _ fun find =>
        Value.resolve_of_isComplete find v (complete _ _ _ hr)]
      rfl

theorem imp {q : Course α} (hx : Obeys s x x' p)
    (h : ∀ log r m', p s.memory log r m' → q s.memory log r m') : Obeys s x x' q := by
  obtain ⟨log, r, t, hr, hr', hlog, hp⟩ := hx
  exact ⟨log, r, t, hr, hr', hlog, h _ _ _ hp⟩

theorem mapM {f : Value → Act (Stage (Logged σ)) β} {f' : Value → Act (Stage σ) β}
    {q : Value → Course β} {vs : List Value} (h : ∀ v ∈ vs, ∀ t, Obeys t (f v) (f' v) (q v)) :
    Obeys s (vs.mapM f) (vs.mapM f') (vs.mapM q) := by
  induction vs generalizing s with
  | nil => exact pure []
  | cons v vs ih =>
    obtain ⟨hv, hvs⟩ := List.forall_mem_cons.mp h
    rw [List.mapM_cons, List.mapM_cons, List.mapM_cons]
    exact bind (hv s) fun b t _ _ _ => bind (ih hvs) fun bs _ _ _ _ => pure (b :: bs)

end Obeys

end TableAccess
